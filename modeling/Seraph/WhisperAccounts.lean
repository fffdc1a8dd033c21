import Seraph.WhisperChannel

/-!
# Lend accounts over runs

A lend that is registered and then not sent, because the send queue is full, is taken back
without taking it off the number of lends. `ChannelOp.Fits` says that this does not happen,
and that no message id is used twice. Along runs of such operations the accounts of both ends
stay right, and an ended lend stays as it ended (`lends_accounted`).
-/

namespace Seraph

open Runs

/-- A lend can be sent if it can be registered, under a message id that is not in use. -/
def EndOp.Fits (l : Local) : EndOp → Prop
  | .post (.lend _ _) => l.LendFits
  | .post (.lendTracked _ _ _) => l.LendFits
  | _ => True

/-- The lends of an operation can be sent. -/
def ChannelOp.Fits (w : ChannelState) : ChannelOp → Prop
  | .act side op => op.Fits (w.workAt side)
  | _ => True

namespace EndOp

variable {l : Local}

/-- Receiving leaves the lends alone. -/
theorem sameLends_recv (l : Local) : l.ep.SameLends l.recv.1.ep := by
  unfold Local.recv
  split
  · exact .refl _
  split
  · exact .refl _
  · exact ⟨fun _ => rfl, fun _ => rfl, fun s => by cases s <;> rfl, rfl⟩

theorem sameLends_peek (l : Local) : l.ep.SameLends l.peek.1.ep := by
  unfold Local.peek
  split
  · exact .refl _
  split <;> exact .refl _

theorem sameLends_awaitResponse (l : Local) (requestId maxWait : ℕ) :
    l.ep.SameLends (l.awaitResponse requestId maxWait).1.ep := by
  unfold Local.awaitResponse
  split
  · exact .refl _
  split
  · exact ⟨fun _ => rfl, fun _ => rfl, fun s => by cases s <;> rfl, rfl⟩
  · exact .refl _

/-- A send other than a lend leaves the lends alone. -/
theorem sameLends_sendOp (l : Local) {op : SendOp}
    (hlend : ∀ cap timeout, op ≠ .lend cap timeout)
    (htracked : ∀ cap timeout pred, op ≠ .lendTracked cap timeout pred) :
    l.ep.SameLends (op.run l).1.ep := by
  have hsend : ∀ l' : Local, l'.ep = l.ep → ∀ stamped,
      l.ep.SameLends (l'.post stamped).1.ep := by
    intro l' hep stamped
    rw [← hep]
    exact Local.sameLends_post l' stamped
  cases op with
  | send message => exact hsend l rfl _
  | sendTracked message pred => exact hsend l rfl _
  | grant cap => exact hsend l.drawn rfl _
  | grantTracked cap pred =>
    simp only [SendOp.run, Local.grantTracked]
    split
    · exact hsend l.drawn.recorded rfl _
    · exact hsend l.drawn rfl _
  | lend cap timeout => exact absurd rfl (hlend cap timeout)
  | lendTracked cap timeout pred => exact absurd rfl (htracked cap timeout pred)
  | request caps capCount flags =>
    cases caps with
    | none => exact .refl _
    | some caps =>
      simp only [SendOp.run, Local.request]
      split
      · exact .refl _
      · exact hsend l.drawn rfl _
  | respond requestId caps capCount =>
    simp only [SendOp.run, Local.respond]
    split
    · exact .refl _
    · exact hsend l.drawn rfl _
  | notify caps capCount =>
    simp only [SendOp.run, Local.notify]
    split
    · exact .refl _
    · exact hsend l.drawn rfl _
  | returnCap cap => exact hsend l.drawn rfl _
  | returnCapById cap lendMessageId => exact hsend l.drawn rfl _

theorem settled_sendOp (h : l.ep.Accounts) {op : SendOp} (hop : EndOp.Fits l (.post op)) :
    l.ep.Settled (op.run l).1.ep := by
  cases op with
  | lend cap timeout => exact Local.settled_lend h hop cap timeout
  | lendTracked cap timeout pred => exact Local.settled_lendTracked h hop cap timeout pred
  | _ =>
    exact (sameLends_sendOp l (fun _ _ heq => by cases heq) fun _ _ _ heq => by cases heq).settled h

/-- The operations on an endpoint keep its accounts. -/
theorem settled (h : l.ep.Accounts) {op : EndOp} (hop : op.Fits l) :
    l.ep.Settled (op.run l).1.ep := by
  cases op with
  | post op => exact settled_sendOp h hop
  | recv => exact (sameLends_recv l).settled h
  | peek => exact (sameLends_peek l).settled h
  | awaitResponse requestId maxWait =>
    exact (sameLends_awaitResponse l requestId maxWait).settled h
  | handleReturn msg => exact Endpoint.settled_handleReturn h msg
  | revokeLend lendMessageId => exact Endpoint.settled_revokeLend h lendMessageId
  | revokeLendTracked lendMessageId => exact Endpoint.settled_revokeLend h lendMessageId
  | processLends chronon =>
    simp only [EndOp.run, Prod.map_fst, Local.withEp]
    exact Endpoint.settled_processLends h chronon
  | processLendsTracked chronon maxVoidIds =>
    simp only [EndOp.run, Prod.map_fst, id]
    exact Local.settled_processLendsTracked h chronon maxVoidIds

end EndOp

/-! ## Transfer -/

namespace Endpoint

variable {src dst : Endpoint}

/-- Handing a message over notes a borrower, and may end a lend of the receiver. -/
theorem settled_handOver (hsrc : src.Accounts) (hdst : dst.Accounts) :
    Settled src (src.handOver dst).1 ∧ Settled dst (src.handOver dst).2 := by
  have hpop : ∀ (e : Endpoint) (tail : ℕ), SameLends e { e with sendTail := tail } :=
    fun e _ => ⟨fun _ => rfl, fun _ => rfl, fun s => by cases s <;> rfl, rfl⟩
  have hpush : ∀ (e : Endpoint) (slots : Fin queueSize → Message) (head : ℕ),
      SameLends e { e with recvQueue := slots, recvHead := head } :=
    fun e _ _ => ⟨fun _ => rfl, fun _ => rfl, fun s => by cases s <;> rfl, rfl⟩
  unfold handOver
  dsimp only
  constructor
  · split
    · have hlend := (sameLends_setBorrower (src.sendQueue (queueSlot src.sendTail)).messageId
        dst.endpointId).settled hsrc
      exact hlend.trans ((hpop _ _).settled hlend.accounts)
    · exact (hpop src _).settled hsrc
  · split
    · have hreturn := settled_handleReturn hdst (src.sendQueue (queueSlot src.sendTail))
      exact hreturn.trans ((hpush _ _ _).settled hreturn.accounts)
    · exact (hpush dst _ _).settled hdst

end Endpoint

namespace Channel

variable {c : Channel}

/-- The accounts of both ends are right, and their records in use have evolved. -/
def Settled (c c' : Channel) : Prop :=
  ∀ side, (c.ep side).Settled (c'.ep side)

theorem settled_move {s t : Channel × ℕ} (h : Settled c s.1) {side : Side}
    (hmove : move s side = some t) : Settled c t.1 := by
  rw [move_eq] at hmove
  split at hmove
  · cases hmove
  split at hmove
  · cases hmove
  · obtain ⟨hsrc, hdst⟩ := Endpoint.settled_handOver (h side).accounts (h side.other).accounts
    rw [← Option.some.inj hmove]
    refine Side.forall_of side ?_ ?_
    · rw [ep_setEp_of_other, ep_setEp_self]
      exact (h side).trans hsrc
    · rw [ep_setEp_self]
      exact (h side.other).trans hdst

theorem settled_transfer (h : ∀ side, (c.ep side).Accounts) : Settled c c.transfer.1 := by
  have hstart : Settled c c := fun side => (h side).refl
  unfold transfer
  split
  · exact hstart
  · have hround : ∀ side, ∀ s t : Channel × ℕ, Settled c s.1 → move s side = some t →
        Settled c t.1 := fun side s t hs hmove => settled_move hs hmove
    exact Loops.loop_invariant (I := fun s : Channel × ℕ => Settled c s.1) (hround .child) _
      (Loops.loop_invariant (I := fun s : Channel × ℕ => Settled c s.1) (hround .parent) _
        (s := (c, 0)) hstart)

theorem settled_close (h : ∀ side, (c.ep side).Accounts) : Settled c c.close.1 := by
  unfold close
  split
  · exact fun side => (h side).refl
  · intro side
    refine Endpoint.SameLends.settled ?_ (h side)
    cases side <;> exact ⟨fun _ => rfl, fun _ => rfl, fun s => by cases s <;> rfl, rfl⟩

end Channel

/-! ## Runs -/

namespace ChannelState

variable {w : ChannelState}

theorem settled_step (h : ∀ side, (w.ep side).Accounts) {op : ChannelOp} (hop : op.Fits w) :
    Channel.Settled w.channel (w.step op).1.channel := by
  cases op with
  | act s op =>
    refine Side.forall_of s ?_ ?_
    · simp only [step, Channel.ep_setEp_self]
      exact EndOp.settled (l := w.workAt s) (h s) hop
    · simp only [step, Channel.ep_setEp_other]
      exact (h s.other).refl
  | transfer => exact Channel.settled_transfer h
  | close => exact Channel.settled_close h
  | other ids => exact fun side => (h side).refl

/-- Along runs whose lends can be sent, the accounts stay right. -/
theorem settled_run (h : ∀ side, (w.ep side).Accounts) {ops : List ChannelOp}
    (hg : Guarded step ChannelOp.Fits w ops) :
    Channel.Settled w.channel (run step w ops).channel := by
  induction ops generalizing w with
  | nil => exact fun side => (h side).refl
  | cons op ops ih =>
    have hstep := settled_step h hg.1
    exact fun side => (hstep side).trans (ih (fun s => (hstep s).accounts) hg.2 side)

/-- Along runs whose lends can be sent, the counters of an endpoint are those of its registry,
no two records in use have one message id, and an ended lend is not active in any later
state. -/
theorem lends_accounted (ids : Ids) (ops more : List ChannelOp)
    (hg : Guarded step ChannelOp.Fits (start ids) (ops ++ more)) (side : Side) :
    ((run step (start ids) ops).ep side).activeLendCount =
        ((run step (start ids) ops).ep side).lendsWith .active ∧
      ((run step (start ids) ops).ep side).totalLends =
        ((run step (start ids) ops).ep side).activeLendCount +
          ((run step (start ids) ops).ep side).totalReturns +
          ((run step (start ids) ops).ep side).totalExpirations +
          ((run step (start ids) ops).ep side).totalRevocations ∧
      (∀ i j, ((run step (start ids) ops).ep side).InUse i →
        ((run step (start ids) ops).ep side).InUse j →
        (((run step (start ids) ops).ep side).lendRegistry i).lendMessageId =
          (((run step (start ids) ops).ep side).lendRegistry j).lendMessageId → i = j) ∧
      ∀ i j, ((run step (start ids) ops).ep side).InUse i →
        (((run step (start ids) ops).ep side).lendRegistry i).status ≠ .active →
        (((run step (start ids) (ops ++ more)).ep side).lendRegistry j).lendMessageId =
          (((run step (start ids) ops).ep side).lendRegistry i).lendMessageId →
        (((run step (start ids) (ops ++ more)).ep side).lendRegistry j).status ≠ .active := by
  have hstart : ∀ side, ((start ids).ep side).Accounts :=
    Side.forall_of .parent (Endpoint.accounts_init _) (Endpoint.accounts_init _)
  obtain ⟨hops, hmore⟩ := guarded_append.1 hg
  have hbefore := settled_run hstart hops
  have hafter := settled_run (fun s => (hbefore s).accounts) hmore side
  have haccounts := (hbefore side).accounts
  rw [run_append]
  refine ⟨haccounts.counter .active (by decide), haccounts.totalLends, haccounts.unique, ?_⟩
  intro i j hi hended hid
  exact Endpoint.Accounts.never_again hafter.evolves hafter.accounts hi hended hid

/-- The parent lends to the child, which returns what it borrowed. -/
def returnRun : List ChannelOp :=
  [.act .parent (.post (.lend ⟨4096, 64, 1, 3, 0, 0⟩ 100)), .transfer, .act .child .recv,
    .act .child (.post (.returnCapById ⟨4096, 64, 1, 3, 0, 0⟩ 1)), .transfer]

theorem lends_accounted_returnRun :
    ((run step (start .first) returnRun).ep .parent).totalReturns = 1 ∧
      ((run step (start .first) returnRun).ep .parent).totalLends =
        ((run step (start .first) returnRun).ep .parent).activeLendCount +
          ((run step (start .first) returnRun).ep .parent).totalReturns +
          ((run step (start .first) returnRun).ep .parent).totalExpirations +
          ((run step (start .first) returnRun).ep .parent).totalRevocations := by
  have hg : Guarded step ChannelOp.Fits (start .first)
      (returnRun ++ [.act .parent (.processLends 200)]) := by
    refine ⟨fun _ _ => ?_, trivial, trivial, trivial, trivial, trivial, trivial⟩
    decide
  exact ⟨by decide, (lends_accounted .first returnRun _ hg .parent).2.1⟩

/-- The parent fills its send queue, and lends. -/
def fullRun : List ChannelOp :=
  List.replicate 63 (.act .parent (.post (.notify [] 0))) ++
    [.act .parent (.post (.lend ⟨4096, 64, 1, 3, 0, 0⟩ 100))]

set_option maxRecDepth 20000 in
/-- The lend that is not sent stays counted. -/
theorem not_lends_accounted :
    ((run step (start .first) fullRun).ep .parent).totalLends ≠
      ((run step (start .first) fullRun).ep .parent).activeLendCount +
        ((run step (start .first) fullRun).ep .parent).totalReturns +
        ((run step (start .first) fullRun).ep .parent).totalExpirations +
        ((run step (start .first) fullRun).ep .parent).totalRevocations := by
  decide

end ChannelState

end Seraph
