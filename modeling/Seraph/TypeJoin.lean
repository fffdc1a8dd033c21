import Seraph.Unification

/-!
# The join of two types

`seraph_type_join` of two types without free variables. Subtyping is an order on them : more `??`,
and NEVER below everything. The join should be an upper bound, and the same in both orders, but
where it reaches `seraph_type_unify` it makes two types one that are neither equal nor NEVER : an
array of NEVER and one of `u8`, or two functions, whose effects it puts together. An upper bound it
gives if and only if the types are equal without their `??`, or one of them is NEVER
(`isUpperBound_iff`).
-/

namespace Seraph

open Relation Fuel

theorem Ty.eq_voidable {t : Ty} (h : t.kind = .voidable) : t = .voidable t.inner := by
  by_contra hne
  refine Ty.kind_ne_voidable ?_ h
  rintro ⟨inner, rfl⟩
  exact hne rfl

theorem Ty.inner_mem {t : Ty} (h : t.kind = .voidable) : t.inner ∈ t.children := by
  rw [Ty.eq_voidable h]
  exact List.mem_cons_self

/-- Without their `??` the types are equal, or one of them is NEVER. -/
def Ty.Agree (a b : Ty) : Prop :=
  a.core = b.core ∨ a.core = .never ∨ b.core = .never

theorem Ty.Agree.symm {a b : Ty} (h : a.Agree b) : b.Agree a := by
  rcases h with h | h | h
  · exact .inl h.symm
  · exact .inr (.inr h)
  · exact .inr (.inl h)

/-- Types with an upper bound agree. -/
theorem Ty.agree_of_isSubtype {a b t : Ty} (ha : a.IsSubtype t) (hb : b.IsSubtype t) :
    a.Agree b := by
  rcases ha.core with ha | ha
  · rcases hb.core with hb | hb
    · exact .inl (ha.trans hb.symm)
    · exact .inr (.inr hb)
  · exact .inr (.inl ha)

/-- Different types that agree and are not VOID-able : one is NEVER. -/
theorem Ty.Agree.never {a b : Ty} (h : a.Agree b) (hne : a ≠ b) (ha : a.kind ≠ .voidable)
    (hb : b.kind ≠ .voidable) : a = .never ∨ b = .never := by
  rw [Ty.Agree, (Ty.depth_zero ha).2, (Ty.depth_zero hb).2] at h
  exact h.resolve_left hne

theorem Ty.kind_of_depth {t : Ty} (h : t.depth = 0) : t.kind ≠ .voidable := by
  refine Ty.kind_ne_voidable ?_
  rintro ⟨inner, rfl⟩
  cases h

namespace Bindings

variable {σ : Bindings}

/-- A type with no VOID, NULL and free variable on the way down. -/
structure Proper (σ : Bindings) (t : Ty) : Prop where
  voidFree : σ.VoidFree t
  closed (id : ℕ) : σ.Reaches t (.typevar id) → σ id ≠ none

theorem Proper.reaches {t c : Ty} (h : σ.Proper t) (hc : σ.Reaches t c) : σ.Proper c :=
  ⟨fun u hu => h.voidFree u (hc.trans hu), fun id hid => h.closed id (hc.trans hid)⟩

theorem Proper.child {t c : Ty} (h : σ.Proper t) (hc : c ∈ t.children) : σ.Proper c :=
  h.reaches (.single (.inl hc))

/-- A type without free variables that is not bound is no variable. -/
theorem Proper.varId {t : Ty} (h : σ.Proper t) (hfree : t.varId.bind σ = none) :
    t.varId = none := by
  by_contra hvar
  obtain ⟨id, hid⟩ := Option.ne_none_iff_exists'.mp hvar
  rw [hid, Option.bind_some] at hfree
  exact h.closed id (Ty.eq_typevar hid ▸ .refl) hfree

theorem voidFree_node {t : Ty} (hvoid : t.isVoid = false) (hvar : t.varId = none)
    (hchildren : ∀ c ∈ t.children, σ.VoidFree c) : σ.VoidFree t := by
  intro u hu
  rcases hu.cases_head with rfl | ⟨c, hc | ⟨id, rfl, _⟩, hreach⟩
  · exact hvoid
  · exact hchildren c hc u hreach
  · cases hvar

theorem kind_resolved_voidable (h : σ.Acyclic) {t : Ty} (ht : t.kind = .voidable) :
    (resolved h t).kind = .voidable := by
  rw [Ty.eq_voidable ht, resolved_voidable]
  rfl

theorem resolve_spec {fuel : ℕ} {t r : Ty} (h : t.resolve σ fuel = some r) :
    σ.Reaches t r ∧ r.varId.bind σ = none := by
  induction fuel generalizing t with
  | zero => cases h
  | succ fuel ih =>
    rw [Ty.resolve] at h
    cases hbound : t.varId.bind σ with
    | some next =>
      rw [hbound] at h
      obtain ⟨hreach, hfree⟩ := ih h
      exact ⟨.head (below_of_varId hbound) hreach, hfree⟩
    | none =>
      rw [hbound] at h
      obtain rfl := Option.some.inj h
      exact ⟨.refl, hbound⟩

end Bindings

namespace TypeContext

variable {granted : ℕ → Bool} {same : Ty → Ty → Bool} {ctx : TypeContext}

/-- What a call with the bindings `σ` has done by its end : it has bound no variable, and there is
no VOID inside its result. -/
structure Keeps (σ : Bindings) (out : TypeContext × Ty) : Prop where
  bound : out.1.bound = σ
  voidFree : out.2.isVoid = false → σ.VoidFree out.2

theorem Keeps.typeVoid {σ : Bindings} (h : ctx.bound = σ) : Keeps σ ctx.typeVoid :=
  ⟨h, nofun⟩

theorem Keeps.allocType {σ : Bindings} (h : ctx.bound = σ) {t : Ty} (ht : σ.VoidFree t) :
    Keeps σ (ctx.allocType granted t) := by
  refine ⟨h, fun hroom => ?_⟩
  change (if granted ctx.requests then t else .null).isVoid = false at hroom
  change σ.VoidFree (if granted ctx.requests then t else .null)
  split
  · exact ht
  · next hgranted =>
    rw [if_neg hgranted] at hroom
    cases hroom

theorem Keeps.typeArray {σ : Bindings} {t : Ty} (h : Keeps σ (ctx, t)) (size : UInt64) :
    Keeps σ (ctx.typeArray granted t size) := by
  unfold TypeContext.typeArray
  split
  · exact .typeVoid h.bound
  · next hvoid =>
    refine .allocType h.bound (Bindings.voidFree_node rfl rfl fun c hc => ?_)
    rw [List.mem_singleton.mp hc]
    exact h.voidFree (Bool.not_eq_true _ ▸ hvoid)

theorem Keeps.typeVoidable {σ : Bindings} {t : Ty} (h : Keeps σ (ctx, t)) :
    Keeps σ (ctx.typeVoidable granted t) := by
  unfold TypeContext.typeVoidable
  split
  · exact .typeVoid h.bound
  · next hvoid =>
    split
    · exact h
    · refine .allocType h.bound (Bindings.voidFree_node rfl rfl fun c hc => ?_)
      rw [List.mem_singleton.mp hc]
      exact h.voidFree (Bool.not_eq_true _ ▸ hvoid)

theorem Keeps.typeFn {σ : Bindings} {params : List Ty} {ret : Ty} (effects : EffectFlags)
    (h : ctx.bound = σ) (hparams : ∀ t ∈ params, σ.VoidFree t) (hret : σ.VoidFree ret) :
    Keeps σ (ctx.typeFn granted params ret effects) := by
  have hfn : σ.VoidFree (.fn params ret effects) := by
    refine Bindings.voidFree_node rfl rfl fun c hc => ?_
    rcases List.mem_cons.mp hc with rfl | hc
    · exact hret
    · exact hparams c hc
  unfold TypeContext.typeFn
  dsimp only
  split
  · exact ⟨h, nofun⟩
  · split
    · exact ⟨h, fun _ => hfn⟩
    · split
      · exact ⟨h, fun _ => hfn⟩
      · exact .typeVoid h

theorem bound_paramsRoom (params : List Ty) :
    (ctx.paramsRoom granted params).2.bound = ctx.bound := by
  unfold paramsRoom
  split <;> rfl

/-- A call of a function that keeps what it should of types without VOID and free variables. -/
def Keeping (f : TypeContext → Ty → Ty → Option (TypeContext × Ty)) : Prop :=
  ∀ ctx a b out, ctx.bound.Proper a → ctx.bound.Proper b → f ctx a b = some out →
    Keeps ctx.bound out

theorem keeps_unifyParams {f : TypeContext → Ty → Ty → Option (TypeContext × Ty)}
    (hf : Keeping f) {as bs : List Ty} {out : TypeContext × Option (List Ty)}
    (has : ∀ a ∈ as, ctx.bound.Proper a) (hbs : ∀ b ∈ bs, ctx.bound.Proper b)
    (h : unifyParams f ctx as bs = some out) :
    out.1.bound = ctx.bound ∧ ∀ ts, out.2 = some ts → ∀ t ∈ ts, ctx.bound.VoidFree t := by
  have hnil : ∀ {ctx : TypeContext} {out}, some (ctx, some []) = some out →
      out.1.bound = ctx.bound ∧ ∀ ts, out.2 = some ts → ∀ t ∈ ts, ctx.bound.VoidFree t := by
    rintro ctx _ ⟨⟩
    exact ⟨rfl, fun ts hts => by cases hts; exact nofun⟩
  induction as generalizing bs ctx out with
  | nil =>
    rw [unifyParams] at h
    · exact hnil h
    · nofun
  | cons a as ih =>
    cases bs with
    | nil =>
      rw [unifyParams] at h
      · exact hnil h
      · nofun
    | cons b bs =>
      obtain ⟨⟨ctx₁, t⟩, hhead, h⟩ := Option.bind_eq_some_iff.mp h
      have hkeeps := hf ctx a b _ (has a List.mem_cons_self) (hbs b List.mem_cons_self) hhead
      have hbound : ctx₁.bound = ctx.bound := hkeeps.bound
      dsimp only at h
      split at h
      · cases h
        exact ⟨hbound, nofun⟩
      · next hvoid =>
        obtain ⟨⟨ctx₂, ts⟩, htail, h⟩ := Option.bind_eq_some_iff.mp h
        cases h
        rw [← hbound] at has hbs hkeeps ⊢
        obtain ⟨hbound', hts⟩ := ih (fun c hc => has c (List.mem_cons_of_mem a hc))
          (fun d hd => hbs d (List.mem_cons_of_mem b hd)) htail
        refine ⟨hbound', fun us hus u hu => ?_⟩
        obtain ⟨rest, hrest, rfl⟩ := Option.map_eq_some_iff.mp hus
        rcases List.mem_cons.mp hu with rfl | hu
        · exact hkeeps.voidFree (Bool.not_eq_true _ ▸ hvoid)
        · exact hts rest hrest u hu

theorem keeps_unifySwitch {f : TypeContext → Ty → Ty → Option (TypeContext × Ty)}
    (hf : Keeping f) {eq : Ty → Ty → Option Bool} {a b : Ty} {out : TypeContext × Ty}
    (ha : ctx.bound.Proper a) (hb : ctx.bound.Proper b)
    (h : ctx.unifySwitch granted f eq a b = some out) : Keeps ctx.bound out := by
  unfold unifySwitch at h
  split at h
  · split at h
    · cases h
      exact .typeVoid rfl
    · obtain ⟨⟨ctx₁, t⟩, hinner, h⟩ := Option.bind_eq_some_iff.mp h
      cases h
      have hkeeps := hf ctx _ _ _ (ha.child List.mem_cons_self) (hb.child List.mem_cons_self) hinner
      split
      · exact .typeVoid hkeeps.bound
      · exact hkeeps.typeArray _
  · obtain ⟨⟨ctx₁, t⟩, hinner, h⟩ := Option.bind_eq_some_iff.mp h
    cases h
    have hkeeps := hf ctx _ _ _ (ha.child List.mem_cons_self) (hb.child List.mem_cons_self) hinner
    split
    · exact .typeVoid hkeeps.bound
    · exact hkeeps.typeVoidable
  · next params ret effects params' ret' effects' =>
    split at h
    · cases h
      exact .typeVoid rfl
    · have hroom : (ctx.paramsRoom granted params).2.bound = ctx.bound := bound_paramsRoom params
      dsimp only at h
      split at h
      · cases h
        exact .typeVoid hroom
      · obtain ⟨⟨ctx₁, ts⟩, hparams, h⟩ := Option.bind_eq_some_iff.mp h
        rw [← hroom] at ha hb ⊢
        obtain ⟨hbound, hts⟩ := keeps_unifyParams hf
          (fun c hc => ha.child (List.mem_cons_of_mem ret hc))
          (fun d hd => hb.child (List.mem_cons_of_mem ret' hd)) hparams
        dsimp only at h hbound hts
        split at h
        · cases h
          exact .typeVoid hbound
        · next us =>
          obtain ⟨⟨ctx₂, t⟩, hret, h⟩ := Option.bind_eq_some_iff.mp h
          cases h
          rw [← hbound] at ha hb hts ⊢
          have hkeeps := hf ctx₁ _ _ _ (ha.child List.mem_cons_self) (hb.child List.mem_cons_self)
            hret
          split
          · exact .typeVoid hkeeps.bound
          · next hvoid =>
            exact .typeFn _ hkeeps.bound (hts us rfl)
              (hkeeps.voidFree (Bool.not_eq_true _ ▸ hvoid))
  · obtain ⟨r, _, h⟩ := Option.bind_eq_some_iff.mp h
    cases h
    split
    · exact ⟨rfl, fun _ => ha.voidFree⟩
    · exact .typeVoid rfl

/-- Unification binds no variable of two types without free variables. -/
theorem keeping_unify (fuel : ℕ) : Keeping fun ctx a b => ctx.unify granted same fuel a b := by
  induction fuel with
  | zero => exact fun _ _ _ _ _ _ h => nomatch h
  | succ fuel ih =>
    intro ctx a b out ha hb h
    dsimp only at h
    rw [unify] at h
    split at h
    · cases h
      exact .typeVoid rfl
    · obtain ⟨ra, hra, h⟩ := Option.bind_eq_some_iff.mp h
      obtain ⟨rb, hrb, h⟩ := Option.bind_eq_some_iff.mp h
      obtain ⟨hreacha, hfreea⟩ := Bindings.resolve_spec hra
      obtain ⟨hreachb, hfreeb⟩ := Bindings.resolve_spec hrb
      have ha := ha.reaches hreacha
      have hb := hb.reaches hreachb
      rw [unifyResolved, ha.varId hfreea, hb.varId hfreeb] at h
      dsimp only at h
      split_ifs at h
      · cases h; exact ⟨rfl, fun _ => ha.voidFree⟩
      · cases h; exact ⟨rfl, fun _ => hb.voidFree⟩
      · cases h; exact ⟨rfl, fun _ => ha.voidFree⟩
      · cases h; exact .typeVoid rfl
      · -- the context with the pair has the same bindings
        generalize hmet : ({ ctx with met := (ctx.bound, ra, rb) :: ctx.met } : TypeContext) = ctx'
          at h
        have hbound : ctx'.bound = ctx.bound := hmet ▸ rfl
        rw [← hbound] at ha hb ⊢
        exact keeps_unifySwitch ih ha hb h

/-- The join binds no variable either. -/
theorem keeping_join (fuel : ℕ) : Keeping fun ctx a b => ctx.join granted same fuel a b := by
  induction fuel with
  | zero => exact fun _ _ _ _ _ _ h => nomatch h
  | succ fuel ih =>
    intro ctx a b out ha hb h
    dsimp only at h
    rw [join] at h
    obtain ⟨r, _, h⟩ := Option.bind_eq_some_iff.mp h
    split_ifs at h with hr hnever hnever' hinner hinner' hkind
    · cases h; exact ⟨rfl, fun _ => ha.voidFree⟩
    · cases h; exact ⟨rfl, fun _ => hb.voidFree⟩
    · cases h; exact ⟨rfl, fun _ => ha.voidFree⟩
    · obtain ⟨⟨ctx₁, t⟩, hrec, h⟩ := Option.bind_eq_some_iff.mp h
      cases h
      exact (ih ctx _ b _ (ha.child (Ty.inner_mem hinner.1)) hb hrec).typeVoidable
    · obtain ⟨⟨ctx₁, t⟩, hrec, h⟩ := Option.bind_eq_some_iff.mp h
      cases h
      exact (ih ctx a _ _ ha (hb.child (Ty.inner_mem hinner'.1)) hrec).typeVoidable
    · cases h; exact .typeVoid rfl
    · exact keeping_unify fuel ctx a b out ha hb h

variable {σ : Bindings}

/-- What a call gives that would give `out`, none for VOID, in an arena with enough room : a type
that resolves to the first of `out`, and that is a `??` itself if the second says so. -/
structure Gives (h : σ.Acyclic) (ctx' : TypeContext) (t : Ty) (out : Option (Ty × Bool)) :
    Prop where
  bound : ctx'.bound = σ
  void : out = none → t.isVoid = true
  type {T : Ty} {w : Bool} : out = some (T, w) → t.isVoid = false →
    Bindings.resolved h t = T ∧ decide (t.kind = .voidable) = w
  room : out ≠ none → ctx'.refused = false → t.isVoid = false

/-- A call, with the room of the arena, the context it starts from and fuel. -/
abbrev Call := (ℕ → Bool) → TypeContext → ℕ → Option (TypeContext × Ty)

/-- The call of `seraph_type_unify` on two types. -/
abbrev unifyCall (same : Ty → Ty → Bool) (a b : Ty) : Call :=
  fun granted ctx fuel => ctx.unify granted same fuel a b

/-- The call of `seraph_type_join`. -/
abbrev joinCall (same : Ty → Ty → Bool) (a b : Ty) : Call :=
  fun granted ctx fuel => ctx.join granted same fuel a b

/-- A call gives `out` from whatever context with the bindings `σ` it starts. -/
def Yields (h : σ.Acyclic) (f : Call) (out : Option (Ty × Bool)) : Prop :=
  ∀ (granted : ℕ → Bool) (ctx : TypeContext), ctx.bound = σ →
    ∃ ctx' t, Settles (f granted ctx) (ctx', t) ∧ Gives h ctx' t out

theorem gives_void (h : σ.Acyclic) (hbound : ctx.bound = σ) : Gives h ctx .void none :=
  ⟨hbound, fun _ => rfl, nofun, fun hne => absurd rfl hne⟩

theorem gives_type (h : σ.Acyclic) (hbound : ctx.bound = σ) {t : Ty} (ht : t.isVoid = false) :
    Gives h ctx t (some (Bindings.resolved h t, decide (t.kind = .voidable))) where
  bound := hbound
  void := nofun
  type heq _ := by
    cases heq
    exact ⟨rfl, rfl⟩
  room _ _ := ht

/-- The type under one more `??`, unless it is a `??` itself. -/
def wrapped (out : Ty × Bool) : Ty × Bool :=
  (if out.2 then out.1 else .voidable out.1, true)

theorem wrapped_kind {out : Ty × Bool} (h : out.2 = true → out.1.kind = .voidable) :
    (wrapped out).1.kind = .voidable := by
  unfold wrapped
  split
  · next hw => exact h hw
  · rfl

theorem isSubtype_wrapped {t : Ty} {out : Ty × Bool} (ht : t.IsSubtype out.1) :
    t.IsSubtype (wrapped out).1 := by
  unfold wrapped
  split
  · exact ht
  · exact ht.voidable

theorem voidable_isSubtype_wrapped {t : Ty} {out : Ty × Bool} (hdepth : t.depth = 0)
    (ht : t.IsSubtype out.1) (h : out.2 = true → out.1.kind = .voidable) :
    (Ty.voidable t).IsSubtype (wrapped out).1 := by
  refine ⟨?_, (isSubtype_wrapped ht).core⟩
  rw [Ty.eq_voidable (wrapped_kind h), Ty.depth, Ty.depth, hdepth]
  exact Nat.le_add_left 1 _

/-- VOID stays VOID under `??`, so that unification need not ask for it first. -/
theorem typeVoidable_eq (t : Ty) :
    (if t.isVoid then ctx.typeVoid else ctx.typeVoidable granted t) =
      ctx.typeVoidable granted t := by
  split
  · next hvoid => rw [typeVoidable, if_pos hvoid]
  · rfl

theorem gives_typeVoidable (h : σ.Acyclic) {t : Ty} {out : Option (Ty × Bool)}
    (ht : Gives h ctx t out) :
    Gives h (ctx.typeVoidable granted t).1 (ctx.typeVoidable granted t).2 (out.map wrapped) := by
  cases hvoid : t.isVoid with
  | true =>
    have heq : ctx.typeVoidable granted t = (ctx, .void) := by
      unfold typeVoidable
      rw [if_pos hvoid]
      rfl
    rw [heq]
    refine ⟨ht.bound, fun _ => rfl, fun _ => nofun, fun hne hrefused => ?_⟩
    have hnonvoid := ht.room (fun hnone => hne (by rw [hnone]; rfl)) hrefused
    exact absurd (hvoid.symm.trans hnonvoid) nofun
  | false =>
    rcases out with _ | ⟨T, w⟩
    · exact absurd (hvoid.symm.trans (ht.void rfl)) nofun
    obtain ⟨hresolved, hkind⟩ := ht.type rfl hvoid
    unfold typeVoidable
    rw [if_neg (by rw [hvoid]; decide)]
    by_cases hvoidable : t.kind = .voidable
    · rw [if_pos hvoidable]
      rw [decide_eq_true hvoidable] at hkind
      subst hkind
      refine ⟨ht.bound, nofun, fun heq _ => ?_, fun _ _ => hvoid⟩
      cases heq
      exact ⟨hresolved, decide_eq_true hvoidable⟩
    · rw [if_neg hvoidable]
      rw [decide_eq_false hvoidable] at hkind
      subst hkind
      cases hroom : granted ctx.requests with
      | true =>
        have heq : (ctx.allocType granted (.voidable t)).2 = .voidable t := if_pos hroom
        rw [heq]
        refine ⟨ht.bound, nofun, fun heq _ => ?_, fun _ _ => rfl⟩
        cases heq
        exact ⟨(Bindings.resolved_voidable h t).trans (congrArg _ hresolved), rfl⟩
      | false =>
        have heq : (ctx.allocType granted (.voidable t)).2 = .null :=
          if_neg (by rw [hroom]; decide)
        rw [heq]
        refine ⟨ht.bound, nofun, fun _ => nofun, fun _ hrefused => ?_⟩
        change (ctx.refused || !granted ctx.requests) = false at hrefused
        rw [hroom, Bool.not_false, Bool.or_true] at hrefused
        cases hrefused

theorem Yields.typeVoidable {h : σ.Acyclic} {f : Call} {out : Option (Ty × Bool)}
    (hf : Yields h f out) :
    Yields h (fun granted ctx fuel =>
      (f granted ctx fuel).bind fun r => some (r.1.typeVoidable granted r.2))
      (out.map wrapped) := by
  intro granted ctx hbound
  obtain ⟨ctx', t, hsettles, hgives⟩ := hf granted ctx hbound
  exact ⟨_, _, hsettles.bind (settles_pure _), gives_typeVoidable h hgives⟩

/-- Two types as unification compares them : the types themselves, with their variables resolved. -/
structure Nodes (h : σ.Acyclic) (a b ra rb : Ty) : Prop where
  left : Settles (fun fuel => a.resolve σ fuel) ra
  right : Settles (fun fuel => b.resolve σ fuel) rb
  proper : σ.Proper ra ∧ σ.Proper rb
  resolved : Bindings.resolved h ra = Bindings.resolved h a ∧
    Bindings.resolved h rb = Bindings.resolved h b
  free : ra.varId = none ∧ rb.varId = none

theorem exists_nodes (h : σ.Acyclic) {a b : Ty} (ha : σ.Proper a) (hb : σ.Proper b) :
    ∃ ra rb, Nodes h a b ra rb := by
  obtain ⟨ra, hra, hreacha, hfreea, hresa, _⟩ := Bindings.resolve_settles h a
  obtain ⟨rb, hrb, hreachb, hfreeb, hresb, _⟩ := Bindings.resolve_settles h b
  have ha := ha.reaches hreacha
  have hb := hb.reaches hreachb
  exact ⟨ra, rb, hra, hrb, ⟨ha, hb⟩, ⟨hresa, hresb⟩, ha.varId hfreea, hb.varId hfreeb⟩

theorem Nodes.symm {h : σ.Acyclic} {a b ra rb : Ty} (hn : Nodes h a b ra rb) :
    Nodes h b a rb ra :=
  ⟨hn.right, hn.left, hn.proper.symm, hn.resolved.symm, hn.free.symm⟩

theorem Nodes.kind {h : σ.Acyclic} {a b ra rb : Ty} (hn : Nodes h a b ra rb) :
    ra.kind = (Bindings.resolved h a).kind := by
  rw [← hn.resolved.1, Bindings.kind_resolved h (by rw [hn.free.1]; rfl)]

/-- A call of `seraph_type_unify` on two different types, of which the variables are resolved. -/
theorem yields_unify {h : σ.Acyclic} (hsame : Bindings.Lawful same) {a b ra rb : Ty}
    {out : Option (Ty × Bool)} (ha : σ.Proper a) (hb : σ.Proper b) (hn : Nodes h a b ra rb)
    (hne : Bindings.resolved h a ≠ Bindings.resolved h b)
    (hout : ∀ (granted : ℕ → Bool) (ctx : TypeContext), ctx.bound = σ → ∃ ctx' t,
      Settles (fun fuel =>
        if ra.kind = .never then some (ctx, rb)
        else if rb.kind = .never then some (ctx, ra)
        else if ra.kind ≠ rb.kind then some ctx.typeVoid
        else ctx.unifySwitch granted (fun ctx a b => ctx.unify granted same fuel a b)
          (Ty.eq same ctx.bound fuel) ra rb) (ctx', t) ∧ Gives h ctx' t out) :
    Yields h (unifyCall same a b) out := by
  rintro granted ctx rfl
  obtain ⟨ctx', t, hsettles, hgives⟩ :=
    hout granted { ctx with met := (ctx.bound, ra, rb) :: ctx.met } rfl
  refine ⟨ctx', t, ?_, hgives⟩
  have hdiffer : same ra rb = false := by
    rw [← Bool.not_eq_true]
    intro heq
    obtain rfl := hsame.eq heq
    exact hne (hn.resolved.1.symm.trans hn.resolved.2)
  refine ((hn.left.bind (g := fun ra fuel => (b.resolve ctx.bound fuel).bind fun rb =>
    ctx.unifyResolved granted same fuel (fun ctx a b => ctx.unify granted same fuel a b) ra rb)
    (hn.right.bind (hsettles.congr fun fuel => ?_)))).succ fun fuel => ?_
  · rw [unifyResolved, hn.free.1, hn.free.2]
    exact if_neg (by rw [hdiffer]; decide)
  · have hnull : (a.isNull || b.isNull) = false := by
      rw [Bindings.isNull_of_isVoid (ha.voidFree a .refl),
        Bindings.isNull_of_isVoid (hb.voidFree b .refl)]
      rfl
    change ctx.unify granted same (fuel + 1) a b = _
    rw [unify, hnull, if_neg Bool.false_ne_true]
    rfl

/-- NEVER unifies with every other type to this one, on either side. -/
theorem yields_unify_never {h : σ.Acyclic} (hsame : Bindings.Lawful same) {a b : Ty}
    (ha : σ.Proper a) (hb : σ.Proper b) (hne : Bindings.resolved h a ≠ Bindings.resolved h b)
    (hnever : Bindings.resolved h a = .never) :
    Yields h (unifyCall same a b)
        (some (Bindings.resolved h b, decide ((Bindings.resolved h b).kind = .voidable))) ∧
      Yields h (unifyCall same b a)
        (some (Bindings.resolved h b, decide ((Bindings.resolved h b).kind = .voidable))) := by
  obtain ⟨ra, rb, hn⟩ := exists_nodes h ha hb
  have hkind : ra.kind = .never := by rw [hn.kind, hnever]; rfl
  have hother : rb.kind ≠ .never := by
    rw [hn.symm.kind]
    intro heq
    exact hne (hnever.trans (Ty.eq_never heq).symm)
  have hgives : ∀ ctx : TypeContext, ctx.bound = σ → Gives h ctx rb
      (some (Bindings.resolved h b, decide ((Bindings.resolved h b).kind = .voidable))) := by
    intro ctx hbound
    rw [← hn.symm.kind, ← hn.resolved.2]
    exact gives_type h hbound (hn.proper.2.voidFree rb .refl)
  constructor
  · refine yields_unify hsame ha hb hn hne fun granted ctx hbound =>
      ⟨ctx, rb, ?_, hgives ctx hbound⟩
    simp only [if_pos hkind]
    exact settles_pure _
  · refine yields_unify hsame hb ha hn.symm hne.symm fun granted ctx hbound =>
      ⟨ctx, rb, ?_, hgives ctx hbound⟩
    simp only [if_neg hother, if_pos hkind]
    exact settles_pure _

/-- An upper bound of two types, or VOID, and the same for both orders of the arguments. A result
that is a `??` itself resolves to one. -/
def HasBound (h : σ.Acyclic) (f : Ty → Ty → Call) (a b : Ty) : Prop :=
  ∃ out, Yields h (f a b) out ∧ Yields h (f b a) out ∧ ∀ o, out = some o →
    (Bindings.resolved h a).IsSubtype o.1 ∧ (Bindings.resolved h b).IsSubtype o.1 ∧
      (o.2 = true → o.1.kind = .voidable)

theorem HasBound.symm {h : σ.Acyclic} {f : Ty → Ty → Call} {a b : Ty} (hf : HasBound h f a b) :
    HasBound h f b a := by
  obtain ⟨out, hab, hba, hbound⟩ := hf
  refine ⟨out, hba, hab, fun o ho => ?_⟩
  obtain ⟨ha, hb, hw⟩ := hbound o ho
  exact ⟨hb, ha, hw⟩

theorem hasBound_unify_never {h : σ.Acyclic} (hsame : Bindings.Lawful same) {a b : Ty}
    (ha : σ.Proper a) (hb : σ.Proper b) (hne : Bindings.resolved h a ≠ Bindings.resolved h b)
    (hnever : Bindings.resolved h a = .never) :
    HasBound h (unifyCall same) a b := by
  obtain ⟨hleft, hright⟩ := yields_unify_never hsame ha hb hne hnever
  refine ⟨_, hleft, hright, ?_⟩
  rintro o ⟨⟩
  rw [hnever]
  exact ⟨Ty.never_isSubtype _, .refl _, of_decide_eq_true⟩

/-- Unification of two VOID-able types, by that of the types inside. -/
theorem yields_unify_voidable {h : σ.Acyclic} (hsame : Bindings.Lawful same) {a b x y : Ty}
    {out : Option (Ty × Bool)} (ha : σ.Proper a) (hb : σ.Proper b)
    (hn : Nodes h a b (.voidable x) (.voidable y))
    (hne : Bindings.resolved h a ≠ Bindings.resolved h b)
    (hout : Yields h (unifyCall same x y) out) :
    Yields h (unifyCall same a b) (out.map wrapped) := by
  refine yields_unify hsame ha hb hn hne fun granted ctx hbound => ?_
  obtain ⟨ctx', t, hsettles, hgives⟩ := hout.typeVoidable granted ctx hbound
  refine ⟨ctx', t, hsettles.congr fun fuel => ?_, hgives⟩
  change ((ctx.unify granted same fuel x y).bind fun r =>
    some (if r.2.isVoid then r.1.typeVoid else r.1.typeVoidable granted r.2)) = _
  simp only [typeVoidable_eq]

/-- Different types that agree and have at most one `??` each : unification finds their upper
bound. -/
theorem hasBound_unify {h : σ.Acyclic} (hsame : Bindings.Lawful same) {a b : Ty}
    (ha : σ.Proper a) (hb : σ.Proper b) (hne : Bindings.resolved h a ≠ Bindings.resolved h b)
    (hdeptha : (Bindings.resolved h a).depth ≤ 1) (hdepthb : (Bindings.resolved h b).depth ≤ 1)
    (hagree : (Bindings.resolved h a).Agree (Bindings.resolved h b)) :
    HasBound h (unifyCall same) a b := by
  by_cases hnevera : Bindings.resolved h a = .never
  · exact hasBound_unify_never hsame ha hb hne hnevera
  by_cases hneverb : Bindings.resolved h b = .never
  · exact (hasBound_unify_never hsame hb ha hne.symm hneverb).symm
  obtain ⟨ra, rb, hn⟩ := exists_nodes h ha hb
  have hkinda : ra.kind ≠ .never := fun heq => hnevera (Ty.eq_never (hn.kind.symm.trans heq))
  have hkindb : rb.kind ≠ .never := fun heq => hneverb (Ty.eq_never (hn.symm.kind.symm.trans heq))
  by_cases hkind : ra.kind = rb.kind
  · by_cases hvoidable : ra.kind = .voidable
    · have hrefl : rb.kind = .voidable := hkind.symm.trans hvoidable
      rw [Ty.eq_voidable hvoidable, Ty.eq_voidable hrefl] at hn
      generalize ra.inner = x at hn
      generalize rb.inner = y at hn
      have hx := hn.proper.1.child List.mem_cons_self
      have hy := hn.proper.2.child List.mem_cons_self
      have hA := (Bindings.resolved_voidable h x).symm.trans hn.resolved.1
      have hB := (Bindings.resolved_voidable h y).symm.trans hn.resolved.2
      rw [← hA] at hdeptha
      rw [← hB] at hdepthb
      have hdepthx := Nat.le_zero.mp (Nat.le_of_succ_le_succ hdeptha)
      have hdepthy := Nat.le_zero.mp (Nat.le_of_succ_le_succ hdepthb)
      have hnexy : Bindings.resolved h x ≠ Bindings.resolved h y :=
        fun heq => hne (hA.symm.trans ((congrArg _ heq).trans hB))
      have hxy : (Bindings.resolved h x).Agree (Bindings.resolved h y) := by
        rw [← hA, ← hB] at hagree
        exact hagree
      -- one of the types inside is NEVER
      have hinner : HasBound h (unifyCall same) x y := by
        rcases hxy.never hnexy (Ty.kind_of_depth hdepthx) (Ty.kind_of_depth hdepthy) with
          hnever | hnever
        · exact hasBound_unify_never hsame hx hy hnexy hnever
        · exact (hasBound_unify_never hsame hy hx hnexy.symm hnever).symm
      obtain ⟨out, hleft, hright, hbound⟩ := hinner
      refine ⟨out.map wrapped, yields_unify_voidable hsame ha hb hn hne hleft,
        yields_unify_voidable hsame hb ha hn.symm hne.symm hright, fun o ho => ?_⟩
      obtain ⟨o, rfl, rfl⟩ := Option.map_eq_some_iff.mp ho
      obtain ⟨hxo, hyo, hw⟩ := hbound o rfl
      rw [← hA, ← hB]
      exact ⟨voidable_isSubtype_wrapped hdepthx hxo hw, voidable_isSubtype_wrapped hdepthy hyo hw,
        fun _ => wrapped_kind hw⟩
    · rcases hagree.never hne (hn.kind ▸ hvoidable) (hn.symm.kind ▸ hkind ▸ hvoidable) with
        hnever | hnever
      · exact absurd hnever hnevera
      · exact absurd hnever hneverb
  · refine ⟨none, ?_, ?_, nofun⟩
    · refine yields_unify hsame ha hb hn hne fun granted ctx hbound =>
        ⟨ctx, .void, ?_, gives_void h hbound⟩
      simp only [if_neg hkinda, if_neg hkindb, if_pos hkind]
      exact settles_pure _
    · refine yields_unify hsame hb ha hn.symm hne.symm fun granted ctx hbound =>
        ⟨ctx, .void, ?_, gives_void h hbound⟩
      simp only [if_neg hkinda, if_neg hkindb, if_pos (Ne.symm hkind)]
      exact settles_pure _

/-- The join of two types that are not equal. -/
def joinDifferent (same : Ty → Ty → Bool) (a b : Ty) : Call := fun granted ctx fuel =>
  if a.kind = .never then some (ctx, b)
  else if b.kind = .never then some (ctx, a)
  else if a.kind = .voidable ∧ b.kind ≠ .voidable then
    (ctx.join granted same fuel a.inner b).bind fun r => some (r.1.typeVoidable granted r.2)
  else if b.kind = .voidable ∧ a.kind ≠ .voidable then
    (ctx.join granted same fuel a b.inner).bind fun r => some (r.1.typeVoidable granted r.2)
  else if a.kind ≠ b.kind then some ctx.typeVoid
  else ctx.unify granted same fuel a b

theorem join_succ (fuel : ℕ) (a b : Ty) :
    ctx.join granted same (fuel + 1) a b = (a.eq same ctx.bound fuel b).bind fun r =>
      if r then some (ctx, a) else joinDifferent same a b granted ctx fuel := by
  rw [join]
  rfl

/-- The join of two types that are equal is the first. -/
theorem yields_join_eq {h : σ.Acyclic} (hsame : Bindings.Lawful same) {a b : Ty}
    (ha : σ.Proper a) (hb : σ.Proper b) (heq : Bindings.resolved h a = Bindings.resolved h b) :
    Yields h (joinCall same a b)
      (some (Bindings.resolved h a, decide (a.kind = .voidable))) := by
  rintro granted ctx rfl
  refine ⟨ctx, a, ?_, gives_type h rfl (ha.voidFree a .refl)⟩
  obtain ⟨r, hr, hspec⟩ := Bindings.eq_settles h hsame a b
  rw [(hspec ha.voidFree hb.voidFree).mpr heq] at hr
  refine (hr.bind (g := fun r fuel =>
    if r then some (ctx, a) else joinDifferent same a b granted ctx fuel) ?_).succ fun fuel =>
      join_succ fuel a b
  exact settles_pure _

theorem yields_join_ne {h : σ.Acyclic} (hsame : Bindings.Lawful same) {a b : Ty}
    {out : Option (Ty × Bool)} (ha : σ.Proper a) (hb : σ.Proper b)
    (hne : Bindings.resolved h a ≠ Bindings.resolved h b)
    (hout : Yields h (joinDifferent same a b) out) :
    Yields h (joinCall same a b) out := by
  rintro granted ctx rfl
  obtain ⟨ctx', t, hsettles, hgives⟩ := hout granted ctx rfl
  refine ⟨ctx', t, ?_, hgives⟩
  obtain ⟨r, hr, hspec⟩ := Bindings.eq_settles h hsame a b
  have hfalse : r = false := by
    rw [← Bool.not_eq_true, hspec ha.voidFree hb.voidFree]
    exact hne
  subst hfalse
  exact (hr.bind (g := fun r fuel =>
    if r then some (ctx, a) else joinDifferent same a b granted ctx fuel) hsettles).succ
      fun fuel => join_succ fuel a b

/-- A type is joined with NEVER to this type, on either side. -/
theorem hasBound_join_never {h : σ.Acyclic} (hsame : Bindings.Lawful same) {a b : Ty}
    (ha : σ.Proper a) (hb : σ.Proper b) (hne : Bindings.resolved h a ≠ Bindings.resolved h b)
    (hnever : a.kind = .never) :
    HasBound h (joinCall same) a b := by
  obtain rfl := Ty.eq_never hnever
  have hother : b.kind ≠ .never := fun heq => hne (by rw [Ty.eq_never heq])
  have hresolved : Bindings.resolved h .never = .never := Bindings.resolved_node h rfl
  refine ⟨some (Bindings.resolved h b, decide (b.kind = .voidable)),
    yields_join_ne hsame ha hb hne fun granted ctx hbound => ⟨ctx, b, ?_, ?_⟩,
    yields_join_ne hsame hb ha hne.symm fun granted ctx hbound => ⟨ctx, b, ?_, ?_⟩, ?_⟩
  · exact (settles_pure _).congr fun fuel => if_pos hnever
  · exact gives_type h hbound (hb.voidFree b .refl)
  · refine (settles_pure _).congr fun fuel => ?_
    rw [joinDifferent, if_neg hother, if_pos hnever]
  · exact gives_type h hbound (hb.voidFree b .refl)
  · rintro o ⟨⟩
    rw [hresolved]
    exact ⟨Ty.never_isSubtype _, .refl _,
      fun heq => Bindings.kind_resolved_voidable h (of_decide_eq_true heq)⟩

/-- Two types of which both are `??` themselves or neither is are unified. -/
theorem joinDifferent_eq {a b : Ty} (ha : a.kind ≠ .never) (hb : b.kind ≠ .never)
    (hvoidable : a.kind = .voidable ↔ b.kind = .voidable) (fuel : ℕ) :
    joinDifferent same a b granted ctx fuel =
      if a.kind ≠ b.kind then some ctx.typeVoid else ctx.unify granted same fuel a b := by
  rw [joinDifferent, if_neg ha, if_neg hb, if_neg fun h => h.2 (hvoidable.mp h.1),
    if_neg fun h => h.2 (hvoidable.mpr h.1)]

theorem hasBound_join_unify {h : σ.Acyclic} (hsame : Bindings.Lawful same) {a b : Ty}
    (ha : σ.Proper a) (hb : σ.Proper b) (hne : Bindings.resolved h a ≠ Bindings.resolved h b)
    (hdeptha : (Bindings.resolved h a).depth ≤ 1) (hdepthb : (Bindings.resolved h b).depth ≤ 1)
    (hagree : (Bindings.resolved h a).Agree (Bindings.resolved h b)) (hnevera : a.kind ≠ .never)
    (hneverb : b.kind ≠ .never) (hvoidable : a.kind = .voidable ↔ b.kind = .voidable) :
    HasBound h (joinCall same) a b := by
  by_cases hkind : a.kind = b.kind
  · obtain ⟨out, hleft, hright, hbound⟩ :=
      hasBound_unify hsame ha hb hne hdeptha hdepthb hagree
    refine ⟨out, yields_join_ne hsame ha hb hne fun granted ctx hctx => ?_,
      yields_join_ne hsame hb ha hne.symm fun granted ctx hctx => ?_, hbound⟩
    · obtain ⟨ctx', t, hsettles, hgives⟩ := hleft granted ctx hctx
      refine ⟨ctx', t, hsettles.congr fun fuel => ?_, hgives⟩
      rw [joinDifferent_eq hnevera hneverb hvoidable, if_neg (not_not.mpr hkind)]
    · obtain ⟨ctx', t, hsettles, hgives⟩ := hright granted ctx hctx
      refine ⟨ctx', t, hsettles.congr fun fuel => ?_, hgives⟩
      rw [joinDifferent_eq hneverb hnevera hvoidable.symm, if_neg (not_not.mpr hkind.symm)]
  · refine ⟨none,
      yields_join_ne hsame ha hb hne fun granted ctx hctx => ⟨ctx, .void, ?_, gives_void h hctx⟩,
      yields_join_ne hsame hb ha hne.symm fun granted ctx hctx =>
        ⟨ctx, .void, ?_, gives_void h hctx⟩, nofun⟩
    · refine (settles_pure _).congr fun fuel => ?_
      rw [joinDifferent_eq hnevera hneverb hvoidable, if_pos hkind]
      rfl
    · refine (settles_pure _).congr fun fuel => ?_
      rw [joinDifferent_eq hneverb hnevera hvoidable.symm, if_pos (Ne.symm hkind)]
      rfl

/-- The join of two types that agree, of which neither is a `??` itself. -/
theorem hasBound_join_plain {h : σ.Acyclic} (hsame : Bindings.Lawful same) {a b : Ty}
    (ha : σ.Proper a) (hb : σ.Proper b) (hplaina : a.kind ≠ .voidable)
    (hplainb : b.kind ≠ .voidable)
    (hdeptha : (Bindings.resolved h a).depth ≤ 1) (hdepthb : (Bindings.resolved h b).depth ≤ 1)
    (hagree : (Bindings.resolved h a).Agree (Bindings.resolved h b)) :
    HasBound h (joinCall same) a b := by
  by_cases heq : Bindings.resolved h a = Bindings.resolved h b
  · have hleft := yields_join_eq hsame ha hb heq
    have hright := yields_join_eq hsame hb ha heq.symm
    rw [decide_eq_false hplaina] at hleft
    rw [decide_eq_false hplainb, ← heq] at hright
    refine ⟨_, hleft, hright, ?_⟩
    rintro o ⟨⟩
    exact ⟨.refl _, heq ▸ .refl _, nofun⟩
  by_cases hnevera : a.kind = .never
  · exact hasBound_join_never hsame ha hb heq hnevera
  by_cases hneverb : b.kind = .never
  · exact (hasBound_join_never hsame hb ha (Ne.symm heq) hneverb).symm
  exact hasBound_join_unify hsame ha hb heq hdeptha hdepthb hagree hnevera hneverb
    (iff_of_false hplaina hplainb)

/-- The join of a `??` and a type that is none : the join with the type inside, under `??`. -/
theorem hasBound_join_voidable {h : σ.Acyclic} (hsame : Bindings.Lawful same) {x b : Ty}
    (ha : σ.Proper (.voidable x)) (hb : σ.Proper b) (hplain : b.kind ≠ .voidable)
    (hne : Bindings.resolved h (.voidable x) ≠ Bindings.resolved h b)
    (hdeptha : (Bindings.resolved h (.voidable x)).depth ≤ 1)
    (hdepthb : (Bindings.resolved h b).depth ≤ 1)
    (hagree : (Bindings.resolved h (.voidable x)).Agree (Bindings.resolved h b)) :
    HasBound h (joinCall same) (.voidable x) b := by
  by_cases hnever : b.kind = .never
  · exact (hasBound_join_never hsame hb ha hne.symm hnever).symm
  have hx := ha.child List.mem_cons_self
  have hresolved := Bindings.resolved_voidable h x
  rw [hresolved] at hdeptha hagree
  have hdepthx := Nat.le_zero.mp (Nat.le_of_succ_le_succ hdeptha)
  have hplainx : x.kind ≠ .voidable :=
    fun heq => Ty.kind_of_depth hdepthx (Bindings.kind_resolved_voidable h heq)
  obtain ⟨out, hleft, hright, hbound⟩ := hasBound_join_plain hsame hx hb hplainx
    hplain (hdepthx.le.trans (Nat.zero_le 1)) hdepthb hagree
  refine ⟨out.map wrapped, yields_join_ne hsame ha hb hne fun granted ctx hctx => ?_,
    yields_join_ne hsame hb ha hne.symm fun granted ctx hctx => ?_, fun o ho => ?_⟩
  · obtain ⟨ctx', t, hsettles, hgives⟩ := hleft.typeVoidable granted ctx hctx
    refine ⟨ctx', t, hsettles.congr fun fuel => ?_, hgives⟩
    rw [joinDifferent, if_neg nofun, if_neg hnever, if_pos ⟨rfl, hplain⟩]
    rfl
  · obtain ⟨ctx', t, hsettles, hgives⟩ := hright.typeVoidable granted ctx hctx
    refine ⟨ctx', t, hsettles.congr fun fuel => ?_, hgives⟩
    rw [joinDifferent, if_neg hnever, if_neg nofun, if_neg fun h => hplain h.1,
      if_pos ⟨rfl, hplain⟩]
    rfl
  · obtain ⟨o, rfl, rfl⟩ := Option.map_eq_some_iff.mp ho
    obtain ⟨hxo, hbo, hw⟩ := hbound o rfl
    rw [hresolved]
    exact ⟨voidable_isSubtype_wrapped hdepthx hxo hw, isSubtype_wrapped hbo,
      fun _ => wrapped_kind hw⟩

theorem hasBound_join {h : σ.Acyclic} (hsame : Bindings.Lawful same) {a b : Ty}
    (ha : σ.Proper a) (hb : σ.Proper b) (hne : Bindings.resolved h a ≠ Bindings.resolved h b)
    (hdeptha : (Bindings.resolved h a).depth ≤ 1) (hdepthb : (Bindings.resolved h b).depth ≤ 1)
    (hagree : (Bindings.resolved h a).Agree (Bindings.resolved h b)) :
    HasBound h (joinCall same) a b := by
  by_cases hkinda : a.kind = .voidable
  · by_cases hkindb : b.kind = .voidable
    · exact hasBound_join_unify hsame ha hb hne hdeptha hdepthb hagree (hkinda ▸ nofun)
        (hkindb ▸ nofun) (iff_of_true hkinda hkindb)
    · rw [Ty.eq_voidable hkinda] at ha hne hdeptha hagree ⊢
      exact hasBound_join_voidable hsame ha hb hkindb hne hdeptha hdepthb hagree
  · by_cases hkindb : b.kind = .voidable
    · rw [Ty.eq_voidable hkindb] at hb hne hdepthb hagree ⊢
      exact (hasBound_join_voidable hsame hb ha hkinda hne.symm hdepthb hdeptha hagree.symm).symm
    · exact hasBound_join_plain hsame ha hb hkinda hkindb hdeptha hdepthb hagree

/-- `seraph_type_subtype` says yes. -/
def IsSub (same : Ty → Ty → Bool) (σ : Bindings) (sub super : Ty) : Prop :=
  Settles (fun fuel => sub.subtype same σ fuel super) true

theorem isSub_iff (h : σ.Acyclic) (hsame : Bindings.Lawful same) {sub super : Ty}
    (hsub : σ.VoidFree sub) (hsuper : σ.VoidFree super) :
    IsSub same σ sub super ↔
      (Bindings.resolved h sub).IsSubtype (Bindings.resolved h super) := by
  obtain ⟨r, hr, hspec⟩ := Bindings.subtype_settles h hsame sub super
  rw [← hspec hsub hsuper]
  refine ⟨fun hyes => hr.unique hyes, fun heq => ?_⟩
  rw [heq] at hr
  exact hr

/-- The result `t` of a join of `a` and `b`, which has left `ctx` : both are its subtypes, and the
join of `b` and `a`, in whatever context with the same bindings, is equal to it unless the arena
has no room. -/
structure IsUpperBound (same : Ty → Ty → Bool) (ctx : TypeContext) (a b t : Ty) : Prop where
  left : IsSub same ctx.bound a t
  right : IsSub same ctx.bound b t
  comm : ∀ (granted : ℕ → Bool) (ctx₁ : TypeContext), ctx₁.bound = ctx.bound →
    ∃ ctx₂ t₂, Settles (fun fuel => ctx₁.join granted same fuel b a) (ctx₂, t₂) ∧
      (ctx₂.refused = false → Settles (fun fuel => t₂.eq same ctx₂.bound fuel t) true)

/-- `seraph_type_voidable` makes no `??` of a `??`. -/
def Collapsed (h : σ.Acyclic) (t : Ty) : Prop :=
  (Bindings.resolved h t).depth ≤ 1

/-- A call for a type that resolves to what another call gives, and that cannot be VOID. -/
theorem eq_of_yields {h : σ.Acyclic} (hsame : Bindings.Lawful same) {a b t : Ty}
    {o : Ty × Bool} (ha : σ.Proper a) (hb : σ.Proper b) (ht : σ.VoidFree t)
    (hresolved : Bindings.resolved h t = o.1) (hctx : ctx.bound = σ)
    (hjoin : Yields h (joinCall same b a) (some o)) :
    ∃ ctx₂ t₂, Settles (fun fuel => ctx.join granted same fuel b a) (ctx₂, t₂) ∧
      (ctx₂.refused = false → Settles (fun fuel => t₂.eq same ctx₂.bound fuel t) true) := by
  obtain ⟨ctx₂, t₂, hsettles, hgives⟩ := hjoin granted ctx hctx
  refine ⟨ctx₂, t₂, hsettles, fun hrefused => ?_⟩
  have hvoid := hgives.room nofun hrefused
  obtain ⟨least, hleast⟩ := hsettles
  have hkeeps := keeping_join least ctx b a _ (hctx ▸ hb) (hctx ▸ ha) (hleast least le_rfl)
  rw [hctx] at hkeeps
  obtain ⟨r, hr, hspec⟩ := Bindings.eq_settles h hsame t₂ t
  have htrue := (hspec (hkeeps.voidFree hvoid) ht).mpr
    ((hgives.type rfl hvoid).1.trans hresolved.symm)
  rw [hgives.bound, ← htrue]
  exact hr

/-- Where the types agree, the result is an upper bound, and what the join in the other order
yields. -/
theorem exists_yields_of_agree {h : σ.Acyclic} (hsame : Bindings.Lawful same) {a b t : Ty}
    {granted : ℕ → Bool} (ha : σ.Proper a) (hb : σ.Proper b) (hcola : Collapsed h a)
    (hcolb : Collapsed h b) (hagree : (Bindings.resolved h a).Agree (Bindings.resolved h b))
    (hctx : ctx.bound = σ) {ctx' : TypeContext}
    (hjoin : Settles (fun fuel => ctx.join granted same fuel a b) (ctx', t))
    (hvoid : t.isVoid = false) :
    ∃ o, Yields h (joinCall same b a) (some o) ∧ Bindings.resolved h t = o.1 ∧
      (Bindings.resolved h a).IsSubtype o.1 ∧ (Bindings.resolved h b).IsSubtype o.1 := by
  by_cases heq : Bindings.resolved h a = Bindings.resolved h b
  · obtain ⟨_, _, hsettles, hgives⟩ := yields_join_eq hsame ha hb heq granted ctx hctx
    obtain ⟨rfl, rfl⟩ := Prod.mk.inj (hjoin.unique hsettles)
    obtain ⟨hresolved, _⟩ := hgives.type rfl hvoid
    exact ⟨_, yields_join_eq hsame hb ha heq.symm, hresolved.trans heq, heq ▸ .refl _, .refl _⟩
  · obtain ⟨out, hleft, hright, hbound⟩ := hasBound_join hsame ha hb heq hcola hcolb hagree
    obtain ⟨_, _, hsettles, hgives⟩ := hleft granted ctx hctx
    obtain ⟨rfl, rfl⟩ := Prod.mk.inj (hjoin.unique hsettles)
    rcases out with _ | o
    · exact absurd (hvoid.symm.trans (hgives.void rfl)) nofun
    · obtain ⟨hleft, hright', _⟩ := hbound o rfl
      exact ⟨o, hright, (hgives.type rfl hvoid).1, hleft, hright'⟩

/-- Subtyping is reflexive and transitive. What the join of two types gives is an upper bound, and
the same in both orders, if and only if the types agree without their `??`. -/
theorem isUpperBound_iff (hsame : Bindings.Lawful same) (h : σ.Acyclic) :
    (∀ t, σ.VoidFree t → IsSub same σ t t) ∧
    (∀ a b c, σ.VoidFree a → σ.VoidFree b → σ.VoidFree c → IsSub same σ a b → IsSub same σ b c →
      IsSub same σ a c) ∧
    ∀ (granted : ℕ → Bool) (ctx ctx' : TypeContext) (a b t : Ty), ctx.bound = σ → σ.Proper a →
      σ.Proper b → Collapsed h a → Collapsed h b →
      Settles (fun fuel => ctx.join granted same fuel a b) (ctx', t) → t.isVoid = false →
      (IsUpperBound same ctx' a b t ↔
        (Bindings.resolved h a).Agree (Bindings.resolved h b)) := by
  refine ⟨fun t ht => (isSub_iff h hsame ht ht).mpr (.refl _),
    fun a b c ha hb hc hab hbc => (isSub_iff h hsame ha hc).mpr
      (((isSub_iff h hsame ha hb).mp hab).trans ((isSub_iff h hsame hb hc).mp hbc)), ?_⟩
  intro granted ctx ctx' a b t hctx ha hb hcola hcolb hjoin hvoid
  have hkeeps : Keeps σ (ctx', t) := by
    obtain ⟨least, hleast⟩ := hjoin
    have hkeeps := keeping_join least ctx a b _ (hctx ▸ ha) (hctx ▸ hb) (hleast least le_rfl)
    rwa [hctx] at hkeeps
  have hctx' : ctx'.bound = σ := hkeeps.bound
  have ht : σ.VoidFree t := hkeeps.voidFree hvoid
  constructor
  · intro hbound
    have hleft := hbound.left
    have hright := hbound.right
    rw [hctx', isSub_iff h hsame ha.voidFree ht] at hleft
    rw [hctx', isSub_iff h hsame hb.voidFree ht] at hright
    exact Ty.agree_of_isSubtype hleft hright
  · intro hagree
    obtain ⟨o, hyields, hresolved, hleft, hright⟩ :=
      exists_yields_of_agree hsame ha hb hcola hcolb hagree hctx hjoin hvoid
    refine ⟨?_, ?_, fun granted' ctx₁ hctx₁ => ?_⟩
    · rw [hctx', isSub_iff h hsame ha.voidFree ht, hresolved]
      exact hleft
    · rw [hctx', isSub_iff h hsame hb.voidFree ht, hresolved]
      exact hright
    · exact eq_of_yields hsame ha hb ht hresolved (hctx₁.trans hctx') hyields

/-- A type that is proper as its components are, under no bindings. -/
theorem proper_node {t : Ty} (hvoid : t.isVoid = false) (hvar : t.varId = none)
    (hchildren : ∀ c ∈ t.children, oneVariable.bound.Proper c) : oneVariable.bound.Proper t := by
  refine ⟨Bindings.voidFree_node hvoid hvar fun c hc => (hchildren c hc).voidFree, fun id hid => ?_⟩
  rcases hid.cases_head with rfl | ⟨c, hc | ⟨_, rfl, _⟩, hrest⟩
  · cases hvar
  · exact (hchildren c hc).closed id hrest
  · cases hvar

/-- Four bytes. -/
def fourBytes : Ty :=
  .array (.prim .u8) 4

theorem proper_fourBytes : oneVariable.bound.Proper fourBytes := by
  refine proper_node rfl rfl fun c hc => ?_
  rw [List.mem_singleton.mp hc]
  exact proper_node rfl rfl (by simp [Ty.children])

/-- Four bytes that may be VOID, and four bytes. -/
theorem isUpperBound_iff_fourBytes :
    IsUpperBound distinct { oneVariable with requests := 1 } (.voidable fourBytes) fourBytes
        (.voidable fourBytes) ↔
      (Bindings.resolved (Bindings.acyclic_of_free fun _ => rfl : oneVariable.bound.Acyclic)
        (.voidable fourBytes)).Agree
          (Bindings.resolved (Bindings.acyclic_of_free fun _ => rfl) fourBytes) := by
  have hacyclic : oneVariable.bound.Acyclic := Bindings.acyclic_of_free fun _ => rfl
  have hdepth : (Bindings.resolved hacyclic fourBytes).depth = 0 := by
    refine (Ty.depth_zero ?_).1
    rw [Bindings.kind_resolved _ rfl]
    simp [fourBytes, Ty.kind]
  have hvoidable : Collapsed hacyclic (.voidable fourBytes) := by
    rw [Collapsed, Bindings.resolved_voidable, Ty.depth, hdepth]
  have hproper : oneVariable.bound.Proper (.voidable fourBytes) := by
    refine proper_node rfl rfl fun c hc => ?_
    rw [List.mem_singleton.mp hc]
    exact proper_fourBytes
  exact (isUpperBound_iff lawful_distinct hacyclic).2.2
    (fun _ => true) oneVariable _ _ _ _ rfl hproper proper_fourBytes hvoidable
    (hdepth.le.trans (Nat.zero_le 1))
    ⟨4, fun fuel hle => by obtain ⟨fuel, rfl⟩ := Nat.exists_eq_add_of_le' hle; rfl⟩ rfl

/-- Two functions without parameters, of which one does input and output : the join has the effects
of both, and the other function is no subtype of it. -/
theorem not_isUpperBound_effects : ∃ ctx' t,
    Settles (fun fuel => oneVariable.join (fun _ => true) distinct fuel
      (.fn [] (.prim .u8) .none) (.fn [] (.prim .u8) .io)) (ctx', t) ∧
    t.isVoid = false ∧
    ¬IsUpperBound distinct ctx' (.fn [] (.prim .u8) .none) (.fn [] (.prim .u8) .io) t := by
  refine ⟨{ oneVariable with
      requests := 1
      met := [(oneVariable.bound, .prim .u8, .prim .u8),
        (oneVariable.bound, .fn [] (.prim .u8) .none, .fn [] (.prim .u8) .io)] },
    .fn [] (.prim .u8) .io, ⟨6, fun fuel hle => ?_⟩, rfl, fun h => ?_⟩
  · obtain ⟨fuel, rfl⟩ := Nat.exists_eq_add_of_le' hle
    rfl
  · have hno : Settles (fun fuel => (Ty.fn [] (.prim .u8) .none).subtype distinct oneVariable.bound
        fuel (.fn [] (.prim .u8) .io)) false := by
      refine ⟨4, fun fuel hle => ?_⟩
      obtain ⟨fuel, rfl⟩ := Nat.exists_eq_add_of_le' hle
      rfl
    exact absurd (hno.unique h.left) nofun

end TypeContext

end Seraph
