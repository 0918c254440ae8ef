import Mathlib.Tactic

set_option autoImplicit false

/-! # Runs of a partial step function

A system is a step function `step : σ → ε → Option σ`: in state `s` the event `e` leads to
`step s e`, or is impossible there. A run is a list of events. `exec` gives the state a run
ends in, `Always P` says that `P` holds in every state the run visits, and `Meets G` that
every step the run takes meets the condition `G` on the state before it and its event.

The two rules the developments use are `exec_invariant`, induction over a run, and
`always_iff_meets`: when `G` is exactly what one step needs to keep `P`, a run keeps `P`
throughout if and only if all its steps meet `G`.
-/

namespace Transition

variable {σ ε : Type*} (step : σ → ε → Option σ)

/-- The state a run ends in. -/
def exec : List ε → σ → Option σ
  | [], s => some s
  | e :: es, s => (step s e).bind (exec es)

/-- `P` holds in every state the run visits, the first and the last included. -/
def Always (P : σ → Prop) : List ε → σ → Prop
  | [], s => P s
  | e :: es, s => P s ∧ ∀ s', step s e = some s' → Always P es s'

/-- Every step the run takes meets `G`. -/
def Meets (G : σ → ε → Prop) : List ε → σ → Prop
  | [], _ => True
  | e :: es, s => ∀ s', step s e = some s' → G s e ∧ Meets G es s'

variable {step}

theorem exec_cons {e : ε} {es : List ε} {s t : σ} :
    exec step (e :: es) s = some t ↔ ∃ s', step s e = some s' ∧ exec step es s' = some t :=
  Option.bind_eq_some_iff

theorem exec_append {es fs : List ε} {s t : σ} :
    exec step (es ++ fs) s = some t ↔ ∃ u, exec step es s = some u ∧ exec step fs u = some t := by
  induction es generalizing s with
  | nil => simp [exec]
  | cons e es ih =>
      rw [List.cons_append, exec_cons]
      constructor
      · rintro ⟨s', hs, h⟩
        obtain ⟨u, hu, ht⟩ := ih.mp h
        exact ⟨u, exec_cons.mpr ⟨s', hs, hu⟩, ht⟩
      · rintro ⟨u, hu, ht⟩
        obtain ⟨s', hs, hu⟩ := exec_cons.mp hu
        exact ⟨s', hs, ih.mpr ⟨u, hu, ht⟩⟩

/-- **Induction over a run**: what every step keeps, every run keeps. -/
theorem exec_invariant {P : σ → Prop} (h : ∀ s e s', P s → step s e = some s' → P s')
    {es : List ε} {s t : σ} (hs : P s) (hrun : exec step es s = some t) : P t := by
  induction es generalizing s with
  | nil => cases hrun; exact hs
  | cons e es ih =>
      obtain ⟨s', hs', hrun⟩ := exec_cons.mp hrun
      exact ih (h s e s' hs hs') hrun

theorem always_head {P : σ → Prop} {es : List ε} {s : σ} (h : Always step P es s) : P s := by
  cases es with
  | nil => exact h
  | cons e es => exact h.1

/-- What steps that meet `G` keep holds throughout a run of such steps. -/
theorem always_of_meets {P : σ → Prop} {G : σ → ε → Prop}
    (h : ∀ s e s', P s → G s e → step s e = some s' → P s') {es : List ε} {s : σ} (hs : P s)
    (hG : Meets step G es s) : Always step P es s := by
  induction es generalizing s with
  | nil => exact hs
  | cons e es ih =>
      refine ⟨hs, fun s' hs' => ?_⟩
      obtain ⟨hg, hG⟩ := hG s' hs'
      exact ih (h s e s' hs hg hs') hG

/-- What steps into `Q` keep holds throughout a run that stays in `Q`. -/
theorem always_of_always {P Q : σ → Prop} (h : ∀ s e s', P s → step s e = some s' → Q s' → P s')
    {es : List ε} {s : σ} (hs : P s) (hQ : Always step Q es s) : Always step P es s := by
  induction es generalizing s with
  | nil => exact hs
  | cons e es ih =>
      refine ⟨hs, fun s' hs' => ?_⟩
      have hQ' : Always step Q es s' := hQ.2 s' hs'
      exact ih (h s e s' hs hs' (always_head hQ')) hQ'

/-- What every step keeps holds throughout every run. -/
theorem always_of_invariant {P : σ → Prop} (h : ∀ s e s', P s → step s e = some s' → P s')
    {es : List ε} {s : σ} (hs : P s) : Always step P es s := by
  induction es generalizing s with
  | nil => exact hs
  | cons e es ih => exact ⟨hs, fun s' hs' => ih (h s e s' hs hs')⟩

/-- Events that keep `P`. -/
theorem always_of_events {P : σ → Prop} {es : List ε} {s : σ}
    (h : ∀ e ∈ es, ∀ s s', P s → step s e = some s' → P s') (hs : P s) : Always step P es s := by
  induction es generalizing s with
  | nil => exact hs
  | cons e es ih =>
      refine ⟨hs, fun s' hs' => ih (fun e' he' => h e' (List.mem_cons_of_mem e he')) ?_⟩
      exact h e List.mem_cons_self s s' hs hs'

theorem always_mono {P Q : σ → Prop} (h : ∀ s, P s → Q s) {es : List ε} {s : σ}
    (hP : Always step P es s) : Always step Q es s := by
  induction es generalizing s with
  | nil => exact h s hP
  | cons e es ih => exact ⟨h s hP.1, fun s' hs' => ih (hP.2 s' hs')⟩

/-- Two properties that agree wherever a standing invariant holds. -/
theorem always_congr {J P Q : σ → Prop} (hJ : ∀ s e s', J s → step s e = some s' → J s')
    (h : ∀ s, J s → (P s ↔ Q s)) {es : List ε} {s : σ} (hs : J s) :
    Always step P es s ↔ Always step Q es s := by
  induction es generalizing s with
  | nil => exact h s hs
  | cons e es ih =>
      constructor
      · rintro ⟨hP, hrest⟩
        exact ⟨(h s hs).mp hP, fun s' hs' => (ih (hJ s e s' hs hs')).mp (hrest s' hs')⟩
      · rintro ⟨hQ, hrest⟩
        exact ⟨(h s hs).mpr hQ, fun s' hs' => (ih (hJ s e s' hs hs')).mpr (hrest s' hs')⟩

/-- `Always` says what its name says: `P` holds wherever a prefix of the run ends. -/
theorem always_iff_reached {P : σ → Prop} {es : List ε} {s : σ} :
    Always step P es s ↔ ∀ fs t, fs <+: es → exec step fs s = some t → P t := by
  induction es generalizing s with
  | nil =>
      constructor
      · intro h fs t hfs hrun
        rw [List.prefix_nil.mp hfs] at hrun
        cases hrun; exact h
      · intro h
        exact h [] s List.prefix_rfl rfl
  | cons e es ih =>
      constructor
      · rintro ⟨hs, h⟩ fs t hfs hrun
        cases fs with
        | nil => cases hrun; exact hs
        | cons e' fs =>
            obtain ⟨rfl, hpre⟩ := List.cons_prefix_cons.mp hfs
            obtain ⟨s', hs', hrun⟩ := exec_cons.mp hrun
            exact ih.mp (h s' hs') fs t hpre hrun
      · intro h
        refine ⟨h [] s List.nil_prefix rfl, fun s' hs' => ih.mpr fun fs t hfs hrun => ?_⟩
        exact h (e :: fs) t (List.cons_prefix_cons.mpr ⟨rfl, hfs⟩) (exec_cons.mpr ⟨s', hs', hrun⟩)

theorem always_append {P : σ → Prop} {es fs : List ε} {s : σ} :
    Always step P (es ++ fs) s ↔
      Always step P es s ∧ ∀ t, exec step es s = some t → Always step P fs t := by
  induction es generalizing s with
  | nil =>
      constructor
      · intro h
        exact ⟨always_head h, by rintro t ⟨⟩; exact h⟩
      · rintro ⟨-, h⟩
        exact h s rfl
  | cons e es ih =>
      constructor
      · rintro ⟨hs, h⟩
        refine ⟨⟨hs, fun s' hs' => (ih.mp (h s' hs')).1⟩, fun t ht => ?_⟩
        obtain ⟨s', hs', ht⟩ := exec_cons.mp ht
        exact (ih.mp (h s' hs')).2 t ht
      · rintro ⟨⟨hs, h⟩, hrest⟩
        exact ⟨hs, fun s' hs' => ih.mpr
          ⟨h s' hs', fun t ht => hrest t (exec_cons.mpr ⟨s', hs', ht⟩)⟩⟩

/-- A run and what holds in all its states, one step at a time. -/
theorem exec_always_cons {P : σ → Prop} {e : ε} {es : List ε} {s s' t : σ} (hs : P s)
    (hstep : step s e = some s') (h : exec step es s' = some t ∧ Always step P es s') :
    exec step (e :: es) s = some t ∧ Always step P (e :: es) s := by
  refine ⟨exec_cons.mpr ⟨s', hstep, h.1⟩, hs, fun u hu => ?_⟩
  rw [hstep] at hu
  cases hu
  exact h.2

theorem exec_always_append {P : σ → Prop} {es fs : List ε} {s t u : σ}
    (hes : exec step es s = some t ∧ Always step P es s)
    (hfs : exec step fs t = some u ∧ Always step P fs t) :
    exec step (es ++ fs) s = some u ∧ Always step P (es ++ fs) s := by
  refine ⟨exec_append.mpr ⟨t, hes.1, hfs.1⟩, always_append.mpr ⟨hes.2, fun t' ht' => ?_⟩⟩
  rw [hes.1] at ht'
  cases ht'
  exact hfs.2

/-- Two properties that agree wherever a third one holds, which holds throughout the run. -/
theorem always_congr_of_always {J P Q : σ → Prop} (h : ∀ s, J s → (P s ↔ Q s)) {es : List ε} {s : σ}
    (hJ : Always step J es s) : Always step P es s ↔ Always step Q es s := by
  rw [always_iff_reached] at hJ
  rw [always_iff_reached, always_iff_reached]
  refine forall_congr' fun fs => forall_congr' fun t => ?_
  refine forall_congr' fun hfs => forall_congr' fun hrun => ?_
  exact h t (hJ fs t hfs hrun)

/-- Every step taken by a run that meets `G` does. -/
theorem meets_reached {G : σ → ε → Prop} {es fs : List ε} {e : ε} {s t u : σ}
    (h : Meets step G (es ++ e :: fs) s) (hrun : exec step es s = some t)
    (hstep : step t e = some u) : G t e := by
  induction es generalizing s with
  | nil =>
      cases hrun
      exact (h u hstep).1
  | cons e' es ih =>
      obtain ⟨s', hs', hrun⟩ := exec_cons.mp hrun
      exact ih (h s' hs').2 hrun

/-- A run that ends outside `P`, as some observation of its last state tells. -/
theorem not_always_of_exec {α : Type*} {P : σ → Prop} {f : σ → α} {a : α} {es : List ε} {s : σ}
    (hrun : (exec step es s).map f = some a) (hP : ∀ t, f t = a → ¬ P t) :
    ¬ Always step P es s := by
  intro h
  obtain ⟨t, ht, hft⟩ := Option.map_eq_some_iff.mp hrun
  exact hP t hft (always_iff_reached.mp h es t List.prefix_rfl ht)

/-- What no step can establish holds throughout a run exactly if it holds at its end. -/
theorem always_iff_exec {P : σ → Prop} (h : ∀ s e s', step s e = some s' → P s' → P s)
    {es : List ε} {s t : σ} (hrun : exec step es s = some t) : Always step P es s ↔ P t := by
  constructor
  · intro hP
    exact always_iff_reached.mp hP es t List.prefix_rfl hrun
  · intro ht
    induction es generalizing s with
    | nil => cases hrun; exact ht
    | cons e es ih =>
        obtain ⟨s', hs', hrun⟩ := exec_cons.mp hrun
        have hrest : Always step P es s' := ih hrun
        refine ⟨h s e s' hs' (always_head hrest), fun u hu => ?_⟩
        rw [hs'] at hu
        rwa [← Option.some.inj hu]

/-- **A run keeps `P` exactly when all its steps meet `G`**, if under the standing invariant
`J` a step from a state in `P` leads to one in `P` exactly when it meets `G`. -/
theorem always_iff_meets {J P : σ → Prop} {G : σ → ε → Prop}
    (hJ : ∀ s e s', J s → step s e = some s' → J s')
    (hP : ∀ s e s', J s → P s → step s e = some s' → (P s' ↔ G s e))
    {es : List ε} {s : σ} (hjs : J s) (hps : P s) :
    Always step P es s ↔ Meets step G es s := by
  induction es generalizing s with
  | nil => exact iff_of_true hps trivial
  | cons e es ih =>
      constructor
      · rintro ⟨-, h⟩ s' hs'
        have hps' : P s' := always_head (h s' hs')
        exact ⟨(hP s e s' hjs hps hs').mp hps', (ih (hJ s e s' hjs hs') hps').mp (h s' hs')⟩
      · intro h
        refine ⟨hps, fun s' hs' => ?_⟩
        obtain ⟨hg, hrest⟩ := h s' hs'
        have hps' : P s' := (hP s e s' hjs hps hs').mpr hg
        exact (ih (hJ s e s' hjs hs') hps').mpr hrest

/-- Two conditions on steps that agree wherever a standing invariant holds, which the second one
keeps. -/
theorem meets_congr {J : σ → Prop} {A G : σ → ε → Prop}
    (hJ : ∀ s e s', J s → G s e → step s e = some s' → J s')
    (h : ∀ s e s', J s → step s e = some s' → (A s e ↔ G s e)) {es : List ε} {s : σ} (hs : J s) :
    Meets step A es s ↔ Meets step G es s := by
  induction es generalizing s with
  | nil => exact Iff.rfl
  | cons e es ih =>
      refine forall_congr' fun s' => forall_congr' fun hs' => ?_
      rw [h s e s' hs hs']
      exact and_congr_right fun hg => ih (hJ s e s' hs hg hs')

/-- Every step meets what all its events meet everywhere. -/
theorem meets_of_events {G : σ → ε → Prop} {es : List ε} (h : ∀ e ∈ es, ∀ s, G s e) {s : σ} :
    Meets step G es s := by
  induction es generalizing s with
  | nil => trivial
  | cons e es ih =>
      intro s' _
      exact ⟨h e List.mem_cons_self s, ih fun e he => h e (List.mem_cons_of_mem _ he)⟩

end Transition
