import Mathlib.Data.List.Induction

/-!
# Runs of a partial step function

A system is a function `step : σ → α → Option σ`: the action `a` is enabled in the state `s` when
`step s a` is `some` state.  A run is a finite list of actions performed one after another, so a
statement about all lists of actions is a statement about all interleavings of the parties that
the actions belong to.

The rules of this file are the ones by which a property of one step becomes a property of whole
runs: the invariant rule, its guarded form (only runs whose every step meets a condition are
considered) and the induction on the last step of a run.
-/

namespace Procinsh

variable {σ α : Type*}

/-- The state after performing the actions in order, or `none` when some action is not enabled. -/
def run (step : σ → α → Option σ) : σ → List α → Option σ
  | s, [] => some s
  | s, a :: as => (step s a).bind fun t => run step t as

@[simp] theorem run_nil (step : σ → α → Option σ) (s : σ) : run step s [] = some s := rfl

@[simp] theorem run_cons (step : σ → α → Option σ) (s : σ) (a : α) (as : List α) :
    run step s (a :: as) = (step s a).bind fun t => run step t as := rfl

/-- A run along a concatenation is a run along the first list followed by one along the second. -/
theorem run_append (step : σ → α → Option σ) (s : σ) (as bs : List α) :
    run step s (as ++ bs) = (run step s as).bind fun t => run step t bs := by
  induction as generalizing s with
  | nil => rfl
  | cons a as ih =>
    simp only [List.cons_append, run_cons]
    cases step s a with
    | none => rfl
    | some t => exact ih t

/-- A run along a concatenation passes through a state between the two parts. -/
theorem run_append_eq_some {step : σ → α → Option σ} {s t : σ} {as bs : List α} :
    run step s (as ++ bs) = some t ↔ ∃ u, run step s as = some u ∧ run step u bs = some t := by
  rw [run_append, Option.bind_eq_some_iff]

/-- The first step of a nonempty run. -/
theorem run_cons_eq_some {step : σ → α → Option σ} {s t : σ} {a : α} {as : List α} :
    run step s (a :: as) = some t ↔ ∃ u, step s a = some u ∧ run step u as = some t := by
  rw [run_cons, Option.bind_eq_some_iff]

/-- The last step of a run. -/
theorem run_concat_eq_some {step : σ → α → Option σ} {s t : σ} {as : List α} {a : α} :
    run step s (as ++ [a]) = some t ↔ ∃ u, run step s as = some u ∧ step u a = some t := by
  simp [run_append_eq_some]

/-- The invariant rule: what every step preserves holds at the end of every run. -/
theorem run_invariant {step : σ → α → Option σ} {I : σ → Prop}
    (hstep : ∀ s a t, I s → step s a = some t → I t) {s t : σ} {as : List α} (hs : I s)
    (hrun : run step s as = some t) : I t := by
  induction as generalizing s with
  | nil => cases hrun; exact hs
  | cons a as ih =>
    obtain ⟨u, hu, hrun⟩ := run_cons_eq_some.mp hrun
    exact ih (hstep s a u hs hu) hrun

/-- Every step of the run is taken in a state in which the guard allows it. -/
def Guarded (guard : σ → α → Prop) (step : σ → α → Option σ) : σ → List α → Prop
  | _, [] => True
  | s, a :: as => guard s a ∧ ∀ t, step s a = some t → Guarded guard step t as

/-- Whether a run is guarded can be computed when the guard can. -/
instance decidableGuarded {guard : σ → α → Prop} {step : σ → α → Option σ}
    [∀ s a, Decidable (guard s a)] : ∀ s as, Decidable (Guarded guard step s as)
  | _, [] => isTrue trivial
  | s, a :: as =>
    match h : step s a with
    | none => decidable_of_iff (guard s a) (by simp [Guarded, h])
    | some t =>
      have : Decidable (Guarded guard step t as) := decidableGuarded t as
      decidable_of_iff (guard s a ∧ Guarded guard step t as) (by simp [Guarded, h])

/-- The guarded invariant rule: what every allowed step preserves holds at the end of every run
all of whose steps are allowed. -/
theorem guarded_invariant {guard : σ → α → Prop} {step : σ → α → Option σ} {I : σ → Prop}
    (hstep : ∀ s a t, I s → guard s a → step s a = some t → I t) {s t : σ} {as : List α}
    (hs : I s) (hguard : Guarded guard step s as) (hrun : run step s as = some t) : I t := by
  induction as generalizing s with
  | nil => cases hrun; exact hs
  | cons a as ih =>
    obtain ⟨u, hu, hrun⟩ := run_cons_eq_some.mp hrun
    exact ih (hstep s a u hs hguard.1 hu) (hguard.2 u hu) hrun

/-- A guarded run whose actions all have a property is guarded by both. -/
theorem Guarded.and_forall {guard : σ → α → Prop} {P : α → Prop} {step : σ → α → Option σ} {s : σ}
    {as : List α} (h : Guarded guard step s as) (hP : ∀ a ∈ as, P a) :
    Guarded (fun s a => guard s a ∧ P a) step s as := by
  induction as generalizing s with
  | nil => trivial
  | cons a as ih =>
    obtain ⟨ha, has⟩ := List.forall_mem_cons.mp hP
    exact ⟨⟨h.1, ha⟩, fun t ht => ih (h.2 t ht) has⟩

/-- When a step keeps a property exactly if the guard allows it, then the property holds all along a
run exactly if the run is guarded; `J` is an invariant of all runs. -/
theorem forall_run_iff_guarded {guard : σ → α → Prop} {step : σ → α → Option σ} {I J : σ → Prop}
    (hJ : ∀ s a t, J s → step s a = some t → J t)
    (hstep : ∀ s a t, J s → I s → step s a = some t → (I t ↔ guard s a)) {s t : σ} {as : List α}
    (hs : J s) (hI : I s) (hrun : run step s as = some t) :
    (∀ bs u, bs <+: as → run step s bs = some u → I u) ↔ Guarded guard step s as := by
  induction as generalizing s with
  | nil =>
    refine iff_of_true (fun bs u hbs hu => ?_) trivial
    obtain rfl := List.prefix_nil.mp hbs
    cases hu
    exact hI
  | cons a as ih =>
    obtain ⟨v, hv, htail⟩ := run_cons_eq_some.mp hrun
    constructor
    · intro hall
      have hIv : I v := hall [a] v (List.prefix_append [a] as) (by simp [hv])
      refine ⟨(hstep s a v hs hI hv).mp hIv, fun w hw => ?_⟩
      obtain rfl := Option.some.inj (hv.symm.trans hw)
      refine (ih (hJ s a v hs hv) hIv htail).mp fun bs u hbs hu => ?_
      exact hall (a :: bs) u (List.cons_prefix_cons.mpr ⟨rfl, hbs⟩) (by simp [hv, hu])
    · intro hguard bs u hbs hu
      cases bs with
      | nil =>
        cases hu
        exact hI
      | cons b bs =>
        obtain ⟨rfl, hrest⟩ := List.cons_prefix_cons.mp hbs
        obtain ⟨w, hw, hu⟩ := run_cons_eq_some.mp hu
        obtain rfl := Option.some.inj (hv.symm.trans hw)
        have hIv : I v := (hstep s b v hs hI hv).mpr hguard.1
        exact (ih (hJ s b v hs hv) hIv htail).mpr (hguard.2 v hv) bs u hrest hu

/-- Induction on the last step, for properties that relate a state to the run that led to it. -/
theorem run_induction {step : σ → α → Option σ} {s₀ : σ} {P : List α → σ → Prop}
    (hnil : P [] s₀)
    (hconcat : ∀ as a s t, run step s₀ as = some s → P as s → step s a = some t →
      P (as ++ [a]) t)
    {as : List α} {t : σ} (hrun : run step s₀ as = some t) : P as t := by
  induction as using List.reverseRecOn generalizing t with
  | nil => cases hrun; exact hnil
  | append_singleton as a ih =>
    obtain ⟨s, hs, hstep⟩ := run_concat_eq_some.mp hrun
    exact hconcat as a s t hs (ih hs) hstep

end Procinsh
