import Mathlib

/-!
# Machines

A machine answers one input in one state, with an output and the next state, or it faults and there is no next state. A run
feeds it a list of inputs. Facts about every run come from facts about one step: an invariant (`run_invariant`), a fact about
the inputs and outputs so far (`run_history`), what goes in at one end of a state and out at the other (`run_conserves`), and a
relation to a second machine that gives the same outputs (`Simulation.run`). A measure that some step makes smaller leads to a state
where it cannot (`exists_run_of_measure`, `reaches_of_measure`).
-/

namespace FrontServer

/-- A machine with states `σ`, inputs `ι` and outputs `ο`; a step that faults gives `none`. -/
structure Machine (σ ι ο : Type*) where
  step : σ → ι → Option (ο × σ)

namespace Machine

variable {σ τ ι ο : Type*}

/-- Feed a list of inputs; the outputs are collected in order, and a fault ends the run. -/
def run (M : Machine σ ι ο) : σ → List ι → Option (List ο × σ)
  | s, [] => some ([], s)
  | s, i :: is =>
    match M.step s i with
    | none => none
    | some (o, s') => (M.run s' is).map (fun r => (o :: r.1, r.2))

/-- `s'` is reached from `s` by some run without a fault. -/
def Reaches (M : Machine σ ι ο) (s s' : σ) : Prop := ∃ is os, M.run s is = some (os, s')

theorem run_nil (M : Machine σ ι ο) (s : σ) : M.run s [] = some ([], s) := rfl

theorem run_cons_of_step {M : Machine σ ι ο} {s s' : σ} {i : ι} {o : ο} (h : M.step s i = some (o, s')) (is : List ι) :
    M.run s (i :: is) = (M.run s' is).map (fun r => (o :: r.1, r.2)) := by
  simp only [run, h]

/-- Inputs that are taken alike in every state make the same run. -/
theorem run_congr {M : Machine σ ι ο} {R : ι → ι → Prop} (hstep : ∀ s i i', R i i' → M.step s i = M.step s i') {is is' : List ι}
    (h : List.Forall₂ R is is') (s : σ) : M.run s is = M.run s is' := by
  induction h generalizing s with
  | nil => rfl
  | cons hi _ ih =>
    simp only [run]
    rw [hstep s _ _ hi]
    cases M.step s _ with
    | none => rfl
    | some r => simp only [ih]

/-- A run of one more input at the front is a step and a run. -/
theorem run_cons_eq_some {M : Machine σ ι ο} {s t : σ} {i : ι} {is : List ι} {os : List ο} :
    M.run s (i :: is) = some (os, t) ↔
      ∃ o s' os', M.step s i = some (o, s') ∧ M.run s' is = some (os', t) ∧ os = o :: os' := by
  constructor
  · intro h
    simp only [run] at h
    split at h
    · cases h
    · rename_i o s' hs
      obtain ⟨⟨os', t'⟩, hr, he⟩ := Option.map_eq_some_iff.mp h
      cases he
      exact ⟨o, s', os', hs, hr, rfl⟩
  · rintro ⟨o, s', os', hs, hr, rfl⟩
    rw [run_cons_of_step hs, hr]
    rfl

/-- A run of two lists of inputs is a run of the first and then of the second. -/
theorem run_append_eq_some {M : Machine σ ι ο} {s u : σ} {is js : List ι} {os : List ο} :
    M.run s (is ++ js) = some (os, u) ↔
      ∃ t os₁ os₂, M.run s is = some (os₁, t) ∧ M.run t js = some (os₂, u) ∧ os = os₁ ++ os₂ := by
  induction is generalizing s os with
  | nil =>
    constructor
    · intro h
      exact ⟨s, [], os, rfl, h, rfl⟩
    · rintro ⟨t, os₁, os₂, h₁, h₂, rfl⟩
      cases h₁
      exact h₂
  | cons i is ih =>
    constructor
    · intro h
      obtain ⟨o, s', os', hs, hr, rfl⟩ := run_cons_eq_some.mp h
      obtain ⟨t, os₁, os₂, h₁, h₂, rfl⟩ := ih.mp hr
      exact ⟨t, o :: os₁, os₂, run_cons_eq_some.mpr ⟨o, s', os₁, hs, h₁, rfl⟩, h₂, rfl⟩
    · rintro ⟨t, os₁, os₂, h₁, h₂, rfl⟩
      obtain ⟨o, s', os', hs, hr, rfl⟩ := run_cons_eq_some.mp h₁
      exact run_cons_eq_some.mpr ⟨o, s', os' ++ os₂, hs, ih.mpr ⟨t, os', os₂, hr, h₂, rfl⟩, rfl⟩

/-- A run of one more input at the end is a run and a step. -/
theorem run_concat_eq_some {M : Machine σ ι ο} {s u : σ} {is : List ι} {i : ι} {os : List ο} :
    M.run s (is ++ [i]) = some (os, u) ↔
      ∃ t os₁ o, M.run s is = some (os₁, t) ∧ M.step t i = some (o, u) ∧ os = os₁ ++ [o] := by
  constructor
  · intro h
    obtain ⟨t, os₁, os₂, h₁, h₂, rfl⟩ := run_append_eq_some.mp h
    obtain ⟨o, s', os', hs, hr, rfl⟩ := run_cons_eq_some.mp h₂
    cases hr
    exact ⟨t, os₁, o, h₁, hs, rfl⟩
  · rintro ⟨t, os₁, o, h₁, hs, rfl⟩
    exact run_append_eq_some.mpr ⟨t, os₁, [o], h₁, run_cons_eq_some.mpr ⟨o, u, [], hs, rfl, rfl⟩, rfl⟩

/-- What every step keeps, every run keeps. -/
theorem run_invariant {M : Machine σ ι ο} {P : σ → Prop} (hstep : ∀ {s i o s'}, P s → M.step s i = some (o, s') → P s')
    {s t : σ} {is : List ι} {os : List ο} (hs : P s) (h : M.run s is = some (os, t)) : P t := by
  induction is generalizing s os with
  | nil => cases h; exact hs
  | cons i is ih =>
    obtain ⟨o, s', os', h₁, h₂, -⟩ := run_cons_eq_some.mp h
    exact ih (hstep hs h₁) h₂

/-- Where an input of a kind leads on and down by a measure from every state that is not done yet, inputs of this kind alone lead to a
state that is done. -/
theorem exists_run_of_measure {M : Machine σ ι ο} {P D : σ → Prop} {G : ι → Prop} (measure : σ → Nat)
    (hprogress : ∀ {s}, P s → ¬D s → ∃ i o s', G i ∧ M.step s i = some (o, s') ∧ P s' ∧ measure s' < measure s)
    {s : σ} (hs : P s) : ∃ is os t, (∀ i ∈ is, G i) ∧ M.run s is = some (os, t) ∧ P t ∧ D t := by
  induction hn : measure s using Nat.strong_induction_on generalizing s with
  | _ n ih =>
    by_cases hdone : D s
    · exact ⟨[], [], s, fun i hi => absurd hi List.not_mem_nil, rfl, hs, hdone⟩
    · obtain ⟨i, o, s', hi, hstep, hs', hlt⟩ := hprogress hs hdone
      obtain ⟨is, os, t, his, hrun, ht⟩ := ih (measure s') (hn ▸ hlt) hs' rfl
      exact ⟨i :: is, o :: os, t, List.forall_mem_cons.mpr ⟨hi, his⟩, run_cons_eq_some.mpr ⟨o, s', os, hstep, hrun, rfl⟩, ht⟩

/-- Where a step leads on and down by a measure from every state that is not done yet, a state that is done is reached. -/
theorem reaches_of_measure {M : Machine σ ι ο} {P D : σ → Prop} (measure : σ → Nat)
    (hprogress : ∀ {s}, P s → ¬D s → ∃ i o s', M.step s i = some (o, s') ∧ P s' ∧ measure s' < measure s)
    {s : σ} (hs : P s) : ∃ t, M.Reaches s t ∧ P t ∧ D t := by
  have hany : ∀ {s}, P s → ¬D s → ∃ i o s', True ∧ M.step s i = some (o, s') ∧ P s' ∧ measure s' < measure s := by
    intro s hs hdone
    obtain ⟨i, o, s', h⟩ := hprogress hs hdone
    exact ⟨i, o, s', trivial, h⟩
  obtain ⟨is, os, t, -, hrun, ht⟩ := exists_run_of_measure (G := fun _ => True) measure hany hs
  exact ⟨t, ⟨is, os, hrun⟩, ht⟩

/-- A fact about the inputs and outputs so far and the state they led to, kept by every step, holds after every run. -/
theorem run_history {M : Machine σ ι ο} {P : List ι → List ο → σ → Prop} {s₀ : σ} (hnil : P [] [] s₀)
    (hstep : ∀ {is os s i o s'}, M.run s₀ is = some (os, s) → P is os s → M.step s i = some (o, s') →
      P (is ++ [i]) (os ++ [o]) s')
    {is : List ι} {os : List ο} {s : σ} (h : M.run s₀ is = some (os, s)) : P is os s := by
  induction is using List.reverseRecOn generalizing os s with
  | nil => cases h; exact hnil
  | append_singleton is i ih =>
    obtain ⟨t, os₁, o, h₁, h₂, rfl⟩ := run_concat_eq_some.mp h
    exact hstep h₁ (ih h₁) h₂

/-! ## Runs whose steps meet a condition -/

/-- Every step of the run meets a condition on the state before it and on its input. -/
def Meets (M : Machine σ ι ο) (G : σ → ι → Prop) : σ → List ι → Prop
  | _, [] => True
  | s, i :: is => G s i ∧ ∀ o s', M.step s i = some (o, s') → M.Meets G s' is

/-- Whether a run meets a condition that can be decided. -/
instance Meets.decidable (M : Machine σ ι ο) (G : σ → ι → Prop) [∀ s i, Decidable (G s i)] (s : σ) :
    (is : List ι) → Decidable (M.Meets G s is)
  | [] => isTrue trivial
  | i :: is =>
    match h : M.step s i with
    | none => decidable_of_iff (G s i) ⟨fun hG => ⟨hG, fun _ _ hs => nomatch h.symm.trans hs⟩, And.left⟩
    | some (o, s') =>
      have : Decidable (M.Meets G s' is) := Meets.decidable M G s' is
      decidable_of_iff (G s i ∧ M.Meets G s' is)
        ⟨fun hG => ⟨hG.1, fun _ _ hs => by cases h.symm.trans hs; exact hG.2⟩, fun hG => ⟨hG.1, hG.2 o s' h⟩⟩

/-- What every step that meets the condition keeps, every run of such steps keeps. -/
theorem Meets.run_invariant {M : Machine σ ι ο} {G : σ → ι → Prop} {P : σ → Prop}
    (hstep : ∀ {s i o s'}, P s → G s i → M.step s i = some (o, s') → P s')
    {s t : σ} {is : List ι} {os : List ο} (hG : M.Meets G s is) (hs : P s) (h : M.run s is = some (os, t)) : P t := by
  induction is generalizing s os with
  | nil =>
    cases h
    exact hs
  | cons i is ih =>
    obtain ⟨o, s', os', h₁, h₂, -⟩ := run_cons_eq_some.mp h
    exact ih (hG.2 o s' h₁) (hstep hs hG.1 h₁) h₂

/-! ## Machines that pass things on -/

/-- Where every step takes in and gives out at the two ends of what a machine has pending, a run gives out what it takes in, in order,
but for what is pending at its end. -/
theorem run_conserves {α : Type*} {M : Machine σ ι ο} {pending : σ → List α} {takes gives : ο → List α}
    (hstep : ∀ {s i o s'}, M.step s i = some (o, s') → gives o ++ pending s' = pending s ++ takes o)
    {s t : σ} {is : List ι} {os : List ο} (h : M.run s is = some (os, t)) :
    os.flatMap gives ++ pending t = pending s ++ os.flatMap takes := by
  induction is generalizing s os with
  | nil =>
    cases h
    exact (List.append_nil _).symm
  | cons i is ih =>
    obtain ⟨o, s', os', hs, hr, rfl⟩ := run_cons_eq_some.mp h
    calc (o :: os').flatMap gives ++ pending t
        = gives o ++ (os'.flatMap gives ++ pending t) := by rw [List.flatMap_cons, List.append_assoc]
      _ = gives o ++ pending s' ++ os'.flatMap takes := by rw [ih hr, List.append_assoc]
      _ = pending s ++ (o :: os').flatMap takes := by rw [hstep hs, List.append_assoc, List.flatMap_cons]

/-! ## One component of a machine -/

/-- A machine moves a component of its state by the inputs that `route` sends there, and by nothing else. Then any run leaves the
component where its own inputs alone lead. -/
theorem run_component {κ ρ : Type*} {M : Machine σ ι ο} {C : Machine τ κ ρ} (view : σ → τ) (route : ι → Option κ) {P : σ → Prop}
    (hP : ∀ {s i o s'}, P s → M.step s i = some (o, s') → P s')
    (hstay : ∀ {s i o s'}, P s → M.step s i = some (o, s') → route i = none → view s' = view s)
    (hmove : ∀ {s i o s' k}, P s → M.step s i = some (o, s') → route i = some k → ∃ r, C.step (view s) k = some (r, view s'))
    {s t : σ} {is : List ι} {os : List ο} (hs : P s) (h : M.run s is = some (os, t)) :
    ∃ rs, C.run (view s) (is.filterMap route) = some (rs, view t) := by
  induction is generalizing s os with
  | nil =>
    cases h
    exact ⟨[], rfl⟩
  | cons i is ih =>
    obtain ⟨o, s', os', h₁, h₂, -⟩ := run_cons_eq_some.mp h
    obtain ⟨rs, hrun⟩ := ih (hP hs h₁) h₂
    cases hr : route i with
    | none =>
      rw [List.filterMap_cons_none hr, ← hstay hs h₁ hr]
      exact ⟨rs, hrun⟩
    | some k =>
      obtain ⟨r, hk⟩ := hmove hs h₁ hr
      rw [List.filterMap_cons_some hr]
      exact ⟨r :: rs, run_cons_eq_some.mpr ⟨r, view s', rs, hk, hrun, rfl⟩⟩

/-! ## Two machines that answer alike -/

/-- The relation `R` between the states of two machines is kept by their steps: on the same input related states both fault, or
both answer with the same output and stay related. -/
structure Simulation (C : Machine σ ι ο) (A : Machine τ ι ο) (R : σ → τ → Prop) : Prop where
  step : ∀ {s t} (i : ι), R s t → Option.Rel (fun p q => p.1 = q.1 ∧ R p.2 q.2) (C.step s i) (A.step t i)

variable {C : Machine σ ι ο} {A : Machine τ ι ο} {R : σ → τ → Prop}

/-- A step of the first machine is one of the second, with the same output. -/
theorem Simulation.step_some (h : Simulation C A R) {s s' : σ} {t : τ} (hst : R s t) {i : ι} {o : ο}
    (hs : C.step s i = some (o, s')) : ∃ t', A.step t i = some (o, t') ∧ R s' t' := by
  have hrel := h.step i hst
  rw [hs] at hrel
  generalize A.step t i = y at hrel
  cases hrel with
  | @some _ q hpq =>
    obtain ⟨o', t'⟩ := q
    obtain ⟨rfl, hR⟩ := hpq
    exact ⟨t', rfl, hR⟩

/-- A step of the second machine is one of the first, with the same output. -/
theorem Simulation.some_step (h : Simulation C A R) {s : σ} {t t' : τ} (hst : R s t) {i : ι} {o : ο}
    (hs : A.step t i = some (o, t')) : ∃ s', C.step s i = some (o, s') ∧ R s' t' := by
  have hrel := h.step i hst
  rw [hs] at hrel
  generalize C.step s i = x at hrel
  cases hrel with
  | @some p _ hpq =>
    obtain ⟨o', s'⟩ := p
    obtain ⟨rfl, hR⟩ := hpq
    exact ⟨s', rfl, hR⟩

/-- Related states answer a whole run alike. -/
theorem Simulation.run (h : Simulation C A R) {s : σ} {t : τ} (hst : R s t) (is : List ι) :
    Option.Rel (fun p q => p.1 = q.1 ∧ R p.2 q.2) (C.run s is) (A.run t is) := by
  induction is generalizing s t with
  | nil => exact Option.Rel.some ⟨rfl, hst⟩
  | cons i is ih =>
    have hi := h.step i hst
    simp only [Machine.run]
    generalize C.step s i = x at hi
    generalize A.step t i = y at hi
    cases hi with
    | none => exact Option.Rel.none
    | @some p q hpq =>
      obtain ⟨o, s'⟩ := p
      obtain ⟨o', t'⟩ := q
      obtain ⟨rfl, hR⟩ := hpq
      have hr := ih hR
      dsimp only
      generalize C.run s' is = x at hr
      generalize A.run t' is = y at hr
      cases hr with
      | none => exact Option.Rel.none
      | some hpq => exact Option.Rel.some ⟨congrArg (o :: ·) hpq.1, hpq.2⟩

/-- A run of the first machine is one of the second, with the same outputs. -/
theorem Simulation.run_some (h : Simulation C A R) {s s' : σ} {t : τ} (hst : R s t) {is : List ι} {os : List ο}
    (hr : C.run s is = some (os, s')) : ∃ t', A.run t is = some (os, t') ∧ R s' t' := by
  have := h.run hst is
  rw [hr] at this
  generalize A.run t is = y at this
  cases this with
  | @some _ q hpq =>
    obtain ⟨os', t'⟩ := q
    obtain ⟨rfl, hR⟩ := hpq
    exact ⟨t', rfl, hR⟩

/-- A run of the second machine is one of the first, with the same outputs. -/
theorem Simulation.some_run (h : Simulation C A R) {s : σ} {t t' : τ} (hst : R s t) {is : List ι} {os : List ο}
    (hr : A.run t is = some (os, t')) : ∃ s', C.run s is = some (os, s') ∧ R s' t' := by
  have := h.run hst is
  rw [hr] at this
  generalize C.run s is = x at this
  cases this with
  | @some p _ hpq =>
    obtain ⟨os', s'⟩ := p
    obtain ⟨rfl, hR⟩ := hpq
    exact ⟨s', rfl, hR⟩

/-- Where the second machine faults, the first does. -/
theorem Simulation.none_run (h : Simulation C A R) {s : σ} {t : τ} (hst : R s t) {is : List ι} (hr : A.run t is = none) :
    C.run s is = none := by
  have hrel := h.run hst is
  rw [hr] at hrel
  generalize C.run s is = x at hrel
  cases hrel with
  | none => rfl

end Machine

end FrontServer
