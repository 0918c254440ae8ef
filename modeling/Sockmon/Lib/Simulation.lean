import Sockmon.Lib.Run

set_option autoImplicit false

/-! # Two systems that run alike

Partial computations match if they give related results or give none together (`Option.Rel`), and
matching computations compose (`rel_bind`). Two systems over the same events are related by `R` if
from related states every event has matching steps (`Matches`). Then whole runs match
(`Matches.exec`), and what holds of every state that is related to one of the other system holds
throughout a run (`Matches.always`).
-/

namespace Transition

/-! ## Matching computations -/

section

variable {α β γ δ : Type*} {R : α → β → Prop} {S : γ → δ → Prop}

theorem rel_bind {x : Option α} {y : Option β} {f : α → Option γ} {g : β → Option δ}
    (h : Option.Rel R x y) (hfg : ∀ a b, R a b → Option.Rel S (f a) (g b)) :
    Option.Rel S (x.bind f) (y.bind g) := by
  cases h with
  | none => exact .none
  | some hab => exact hfg _ _ hab

/-- The rest may use what the second computation has given. -/
theorem rel_bind_of {x : Option α} {y : Option β} {f : α → Option γ} {g : β → Option δ}
    (h : Option.Rel R x y) (hfg : ∀ a b, y = some b → R a b → Option.Rel S (f a) (g b)) :
    Option.Rel S (x.bind f) (y.bind g) := by
  cases h with
  | none => exact .none
  | some hab => exact hfg _ _ rfl hab

/-- The same first computation on both sides. -/
theorem rel_bind_same {ι : Type*} {x : Option ι} {f : ι → Option γ} {g : ι → Option δ}
    (hfg : ∀ a, x = some a → Option.Rel S (f a) (g a)) : Option.Rel S (x.bind f) (x.bind g) := by
  cases x with
  | none => exact .none
  | some a => exact hfg a rfl

/-- More to do on the left alone. -/
theorem rel_bind_left {x : Option α} {y : Option β} {S : γ → β → Prop} {f : α → Option γ}
    (h : Option.Rel R x y) (hf : ∀ a b, R a b → Option.Rel S (f a) (some b)) :
    Option.Rel S (x.bind f) y := by
  cases h with
  | none => exact .none
  | some hab => exact hf _ _ hab

/-- More to do on the right alone. -/
theorem rel_bind_right {x : Option α} {y : Option β} {S : α → δ → Prop} {g : β → Option δ}
    (h : Option.Rel R x y) (hg : ∀ a b, R a b → Option.Rel S (some a) (g b)) :
    Option.Rel S x (y.bind g) := by
  cases h with
  | none => exact .none
  | some hab => exact hg _ _ hab

/-- The same condition on both sides. -/
theorem rel_ite {c : Prop} [Decidable c] {x x' : Option α} {y y' : Option β}
    (h : c → Option.Rel R x y) (h' : ¬c → Option.Rel R x' y') :
    Option.Rel R (if c then x else x') (if c then y else y') := by
  split_ifs with hc
  · exact h hc
  · exact h' hc

theorem rel_bind_eq {x : Option α} {y : Option β} {f : α → Option γ} {g : β → Option γ}
    (h : Option.Rel R x y) (hfg : ∀ a b, R a b → f a = g b) : x.bind f = y.bind g := by
  cases h with
  | none => rfl
  | some hab => exact hfg _ _ hab

theorem eq_of_rel {x y : Option α} (h : Option.Rel Eq x y) : x = y := by
  cases h with
  | none => rfl
  | some hab => rw [hab]

theorem rel_mono {R' : α → β → Prop} {x : Option α} {y : Option β} (h : Option.Rel R x y)
    (hR : ∀ a b, R a b → R' a b) : Option.Rel R' x y := by
  cases h with
  | none => exact .none
  | some hab => exact .some (hR _ _ hab)

theorem rel_trans {T : β → γ → Prop} {x : Option α} {y : Option β} {z : Option γ}
    (h : Option.Rel R x y) (h' : Option.Rel T y z) :
    Option.Rel (fun a c => ∃ b, R a b ∧ T b c) x z := by
  cases h with
  | none =>
      cases h'
      exact .none
  | some hab =>
      cases h' with
      | some hbc => exact .some ⟨_, hab, hbc⟩

/-- What the second computation establishes by itself. -/
theorem rel_and {P : β → Prop} {x : Option α} {y : Option β} (h : Option.Rel R x y)
    (hP : ∀ b, y = some b → P b) : Option.Rel (fun a b => R a b ∧ P b) x y := by
  cases h with
  | none => exact .none
  | some hab => exact .some ⟨hab, hP _ rfl⟩

theorem rel_left {x : Option α} {y : Option β} {a : α} (h : Option.Rel R x y) (hx : x = some a) :
    ∃ b, y = some b ∧ R a b := by
  subst hx
  cases h with
  | some hab => exact ⟨_, rfl, hab⟩

theorem rel_right {x : Option α} {y : Option β} {b : β} (h : Option.Rel R x y) (hy : y = some b) :
    ∃ a, x = some a ∧ R a b := by
  subst hy
  cases h with
  | some hab => exact ⟨_, rfl, hab⟩

end

/-! ## Matching systems -/

variable {σ τ ε : Type*} {R : σ → τ → Prop} {step₁ : σ → ε → Option σ} {step₂ : τ → ε → Option τ}

/-- From related states each event has matching steps. -/
def Matches (R : σ → τ → Prop) (step₁ : σ → ε → Option σ) (step₂ : τ → ε → Option τ) : Prop :=
  ∀ s t e, R s t → Option.Rel R (step₁ s e) (step₂ t e)

/-- **Runs match.** -/
theorem Matches.exec (h : Matches R step₁ step₂) {es : List ε} {s : σ} {t : τ} (hst : R s t) :
    Option.Rel R (exec step₁ es s) (exec step₂ es t) := by
  induction es generalizing s t with
  | nil => exact .some hst
  | cons e es ih => exact rel_bind (h s t e hst) fun _ _ hst' => ih hst'

/-- **What related states have** holds throughout a run. -/
theorem Matches.always (h : Matches R step₁ step₂) {P : σ → Prop} (hP : ∀ s t, R s t → P s)
    {es : List ε} {s : σ} {t : τ} (hst : R s t) : Always step₁ P es s := by
  induction es generalizing s t with
  | nil => exact hP s t hst
  | cons e es ih =>
      refine ⟨hP s t hst, fun s' hs' => ?_⟩
      obtain ⟨t', -, hst'⟩ := rel_left (h s t e hst) hs'
      exact ih hst'

/-! ## Where the second system keeps an invariant

The steps match as long as `I` holds there, which the events that meet `G` keep. -/

variable {I : τ → Prop} {G : τ → ε → Prop}

theorem exec_rel_of_meets (h : ∀ s t e, R s t → I t → Option.Rel R (step₁ s e) (step₂ t e))
    (hI : ∀ t e t', I t → G t e → step₂ t e = some t' → I t') {es : List ε} {s : σ} {t : τ}
    (hst : R s t) (ht : I t) (hG : Meets step₂ G es t) :
    Option.Rel R (exec step₁ es s) (exec step₂ es t) := by
  induction es generalizing s t with
  | nil => exact .some hst
  | cons e es ih =>
      refine rel_bind_of (h s t e hst ht) fun s' t' ht' hst' => ?_
      obtain ⟨hg, hG⟩ := hG t' ht'
      exact ih hst' (hI t e t' ht hg ht') hG

theorem always_of_rel_meets (h : ∀ s t e, R s t → I t → Option.Rel R (step₁ s e) (step₂ t e))
    (hI : ∀ t e t', I t → G t e → step₂ t e = some t' → I t') {P : σ → Prop}
    (hP : ∀ s t, R s t → P s) {es : List ε} {s : σ} {t : τ} (hst : R s t) (ht : I t)
    (hG : Meets step₂ G es t) : Always step₁ P es s := by
  induction es generalizing s t with
  | nil => exact hP s t hst
  | cons e es ih =>
      refine ⟨hP s t hst, fun s' hs' => ?_⟩
      obtain ⟨t', ht', hst'⟩ := rel_left (h s t e hst ht) hs'
      obtain ⟨hg, hG⟩ := hG t' ht'
      exact ih hst' (hI t e t' ht hg ht') hG

end Transition
