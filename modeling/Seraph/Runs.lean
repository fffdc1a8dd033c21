import Mathlib.Data.List.Infix

/-!
# Runs of a deterministic system

A system is a function `step` from a state and an operation to the next state and a
result. `run` performs a list of operations, `calls` records each with the state it
started in and what it returned. A property of every state that a run reaches is proved
from what one step preserves (`run_invariant`), where `Guarded ok` restricts the steps
to those that satisfy `ok` in the state they start in (`guarded_invariant`). Where related states
of two systems go to related states and return the same (`Steps`), so do whole runs of them.
-/

namespace Runs

/-- One operation of a run: the state before it, and what it returned. -/
structure Call (S A R : Type*) where
  /-- State before the operation. -/
  before : S
  /-- The operation. -/
  op : A
  /-- What it returned. -/
  result : R

variable {S A R : Type*} (step : S → A → S × R)

/-- The state after the operations of a list. -/
def run : S → List A → S
  | s, [] => s
  | s, a :: as => run (step s a).1 as

/-- The operations of a run with the states they start in and their results. -/
def calls : S → List A → List (Call S A R)
  | _, [] => []
  | s, a :: as => ⟨s, a, (step s a).2⟩ :: calls (step s a).1 as

/-- Every operation of the run satisfies `ok` in the state it starts in. -/
def Guarded (ok : S → A → Prop) : S → List A → Prop
  | _, [] => True
  | s, a :: as => ok s a ∧ Guarded ok (step s a).1 as

instance decidableGuarded (ok : S → A → Prop) [∀ s a, Decidable (ok s a)] :
    ∀ (s : S) (as : List A), Decidable (Guarded step ok s as)
  | _, [] => inferInstanceAs (Decidable True)
  | s, a :: as =>
    have := decidableGuarded ok (step s a).1 as
    inferInstanceAs (Decidable (_ ∧ _))

attribute [local simp] calls Guarded

@[simp] theorem run_nil (s : S) : run step s [] = s :=
  rfl

@[simp] theorem run_cons (s : S) (a : A) (as : List A) :
    run step s (a :: as) = run step (step s a).1 as :=
  rfl

theorem run_append (s : S) (as bs : List A) :
    run step s (as ++ bs) = run step (run step s as) bs := by
  induction as generalizing s with
  | nil => rfl
  | cons a as ih => exact ih _

theorem run_concat (s : S) (as : List A) (a : A) :
    run step s (as ++ [a]) = (step (run step s as) a).1 := by
  rw [run_append, run_cons, run_nil]

theorem calls_append (s : S) (as bs : List A) :
    calls step s (as ++ bs) = calls step s as ++ calls step (run step s as) bs := by
  induction as generalizing s with
  | nil => rfl
  | cons a as ih => simp only [List.cons_append, calls, run_cons, ih]

theorem calls_concat (s : S) (as : List A) (a : A) :
    calls step s (as ++ [a]) =
      calls step s as ++ [⟨run step s as, a, (step (run step s as) a).2⟩] := by
  rw [calls_append, calls, calls]

variable {step} {ok : S → A → Prop}

/-- A call returns what its step does. -/
theorem result_of_mem_calls {s : S} {as : List A} {c : Call S A R} (hc : c ∈ calls step s as) :
    c.result = (step c.before c.op).2 := by
  induction as generalizing s with
  | nil => cases hc
  | cons a as ih =>
    rcases List.mem_cons.1 hc with rfl | hc
    · rfl
    · exact ih hc

theorem guarded_append {s : S} {as bs : List A} :
    Guarded step ok s (as ++ bs) ↔
      Guarded step ok s as ∧ Guarded step ok (run step s as) bs := by
  induction as generalizing s with
  | nil => simp [Guarded]
  | cons a as ih => simp only [List.cons_append, Guarded, run_cons, ih, and_assoc]

theorem guarded_concat {s : S} {as : List A} {a : A} :
    Guarded step ok s (as ++ [a]) ↔ Guarded step ok s as ∧ ok (run step s as) a := by
  simp only [guarded_append, Guarded, and_true]

theorem guarded_and {ok' : S → A → Prop} {s : S} {as : List A} :
    Guarded step (fun s a => ok s a ∧ ok' s a) s as ↔
      Guarded step ok s as ∧ Guarded step ok' s as := by
  induction as generalizing s with
  | nil => simp [Guarded]
  | cons a as ih =>
    simp only [Guarded, ih]
    exact and_and_and_comm

/-- What every guarded step preserves, every guarded run preserves. -/
theorem guarded_invariant {I : S → Prop}
    (hstep : ∀ s a, I s → ok s a → I (step s a).1) {s : S} {as : List A} (hs : I s)
    (hg : Guarded step ok s as) : I (run step s as) := by
  induction as generalizing s with
  | nil => exact hs
  | cons a as ih => exact ih (hstep s a hs hg.1) hg.2

/-- What every step preserves, every run preserves. -/
theorem run_invariant {I : S → Prop} (hstep : ∀ s a, I s → I (step s a).1) {s : S}
    (hs : I s) (as : List A) : I (run step s as) := by
  induction as generalizing s with
  | nil => exact hs
  | cons a as ih => exact ih (hstep s a hs)

/-- Where every guarded step goes up in a preorder, the end of a guarded run is above its
start. -/
theorem guarded_le {I : S → Prop} {r : S → S → Prop} (hrefl : ∀ s, r s s)
    (htrans : ∀ s t u, r s t → r t u → r s u)
    (hstep : ∀ s a, I s → ok s a → I (step s a).1 ∧ r s (step s a).1) {s : S}
    {as : List A} (hs : I s) (hg : Guarded step ok s as) : r s (run step s as) := by
  induction as generalizing s with
  | nil => exact hrefl s
  | cons a as ih =>
    obtain ⟨hinv, hle⟩ := hstep s a hs hg.1
    exact htrans _ _ _ hle (ih hinv hg.2)

/-- A property that every guarded step has where the invariant holds is a property of
every call of a guarded run. -/
theorem guarded_calls {I : S → Prop} {P : Call S A R → Prop}
    (hstep : ∀ s a, I s → ok s a → I (step s a).1)
    (hcall : ∀ s a, I s → ok s a → P ⟨s, a, (step s a).2⟩) {s : S} {as : List A}
    (hs : I s) (hg : Guarded step ok s as) : ∀ c ∈ calls step s as, P c := by
  induction as generalizing s with
  | nil => intro c hc; cases hc
  | cons a as ih =>
    intro c hc
    rcases List.mem_cons.1 hc with rfl | hc
    · exact hcall s a hs hg.1
    · exact ih (hstep s a hs hg.1) hg.2 c hc

/-- Where the steps that satisfy `ok` keep an invariant that implies `P`, and the others break
`P`, the runs with `P` all along are the guarded ones. The invariant may speak of a value that
`g` computes from the operations alone. -/
theorem guarded_iff_prefixes {G : Type*} {g : G → A → G} {I P : S → G → Prop}
    (hP : ∀ s n, I s n → P s n)
    (hstep : ∀ s n a, I s n → ok s a → I (step s a).1 (g n a))
    (hbreak : ∀ s n a, I s n → ¬ ok s a → ¬ P (step s a).1 (g n a)) {s : S} {n : G}
    {as : List A} (hs : I s n) :
    (∀ bs, bs <+: as → P (run step s bs) (bs.foldl g n)) ↔ Guarded step ok s as := by
  induction as generalizing s n with
  | nil =>
    refine iff_of_true (fun bs hbs => ?_) trivial
    rw [List.prefix_nil.1 hbs]
    exact hP s n hs
  | cons a as ih =>
    by_cases hok : ok s a
    · rw [Guarded, ← ih (hstep s n a hs hok)]
      constructor
      · intro h
        exact ⟨hok, fun bs hbs => h (a :: bs) (List.cons_prefix_cons.2 ⟨rfl, hbs⟩)⟩
      · rintro ⟨-, h⟩ bs hbs
        rcases List.prefix_cons_iff.1 hbs with rfl | ⟨cs, rfl, hcs⟩
        · exact hP s n hs
        · exact h cs hcs
    · refine iff_of_false (fun h => hbreak s n a hs hok ?_) fun h => hok h.1
      exact h [a] (List.cons_prefix_cons.2 ⟨rfl, List.nil_prefix⟩)

/-! ## Simulations -/

variable {T : Type*} {step' : T → A → T × R} {rel : S → T → Prop}

/-- A permitted step from related states leads to related states and returns the same. -/
def Steps (step : S → A → S × R) (step' : T → A → T × R) (ok : S → A → Prop)
    (rel : S → T → Prop) : Prop :=
  ∀ s t a, rel s t → ok s a → rel (step s a).1 (step' t a).1 ∧ (step s a).2 = (step' t a).2

/-- What the calls of a run returned, in order. -/
def results (step : S → A → S × R) (s : S) (as : List A) : List R :=
  (calls step s as).map Call.result

theorem Steps.run (h : Steps step step' ok rel) {s : S} {t : T} {as : List A} (hst : rel s t)
    (hg : Guarded step ok s as) : rel (Runs.run step s as) (Runs.run step' t as) := by
  induction as generalizing s t with
  | nil => exact hst
  | cons a as ih => exact ih (h s t a hst hg.1).1 hg.2

theorem Steps.results (h : Steps step step' ok rel) {s : S} {t : T} {as : List A} (hst : rel s t)
    (hg : Guarded step ok s as) : results step s as = results step' t as := by
  induction as generalizing s t with
  | nil => rfl
  | cons a as ih =>
    obtain ⟨hrel, hresult⟩ := h s t a hst hg.1
    exact congrArg₂ List.cons hresult (ih hrel hg.2)

/-- A system without restrictions. -/
theorem guarded_true (s : S) (as : List A) : Guarded step (fun _ _ => True) s as := by
  induction as generalizing s with
  | nil => trivial
  | cons a as ih => exact ⟨trivial, ih _⟩

end Runs
