import FrontServer.Lib.Machine

/-!
# Machines made of components

A machine whose state is a family of smaller ones, each input meant for one of them or for none. A run of the whole is a run of each
component on its own inputs, with the answers meant for it (`Components.run`), and where every component takes its inputs, the whole
takes all of them in any interleaving (`exists_run_of_components`).
-/

namespace FrontServer

namespace Machine

variable {σ τ ι ο ν ρ κ : Type*}

/-- The states of `M` show a component of the machine `C` for every `k`. An input that is not routed to `k` leaves that component as
it is and gives it no answer; one that is routed there is a step of it, with the answer it gets. `P` holds of the states met, and `G` of
the inputs. -/
structure Components (M : Machine σ ι ο) (C : Machine τ ν ρ) (view : κ → σ → τ) (route : κ → ι → Option ν) (answer : κ → ο → Option ρ)
    (P : σ → Prop) (G : ι → Prop) : Prop where
  keeps : ∀ {s i o s'}, P s → G i → M.step s i = some (o, s') → P s'
  stays : ∀ {s i o s' k}, P s → G i → M.step s i = some (o, s') → route k i = none → view k s' = view k s ∧ answer k o = none
  moves : ∀ {s i o s' k x}, P s → G i → M.step s i = some (o, s') → route k i = some x →
    ∃ r, C.step (view k s) x = some (r, view k s') ∧ answer k o = some r

/-- A run of the whole is a run of every component, on its own inputs and with its own answers. -/
theorem Components.run {M : Machine σ ι ο} {C : Machine τ ν ρ} {view : κ → σ → τ} {route : κ → ι → Option ν}
    {answer : κ → ο → Option ρ} {P : σ → Prop} {G : ι → Prop} (hC : Components M C view route answer P G) {s t : σ} {is : List ι}
    {os : List ο} (hs : P s) (hG : ∀ i ∈ is, G i) (h : M.run s is = some (os, t)) (k : κ) :
    C.run (view k s) (is.filterMap (route k)) = some (os.filterMap (answer k), view k t) := by
  induction is generalizing s os with
  | nil =>
    cases h
    rfl
  | cons i is ih =>
    obtain ⟨o, s', os', hstep, hrun, rfl⟩ := run_cons_eq_some.mp h
    have hi : G i := hG i List.mem_cons_self
    have htail := ih (hC.keeps hs hi hstep) (fun j hj => hG j (List.mem_cons_of_mem _ hj)) hrun
    cases hroute : route k i with
    | none =>
      obtain ⟨hview, hanswer⟩ := hC.stays hs hi hstep hroute
      rw [List.filterMap_cons_none hroute, List.filterMap_cons_none hanswer, ← hview]
      exact htail
    | some x =>
      obtain ⟨r, hx, hanswer⟩ := hC.moves hs hi hstep hroute
      rw [List.filterMap_cons_some hroute, List.filterMap_cons_some hanswer]
      exact run_cons_eq_some.mpr ⟨r, view k s', _, hx, htail, rfl⟩

/-- Where the whole takes every input that its component takes, and every component takes all of its inputs, the whole takes all
inputs. -/
theorem exists_run_of_components {M : Machine σ ι ο} {C : Machine τ ν ρ} (view : κ → σ → τ) (route : κ → ι → Option ν)
    {P : σ → Prop} {G : ι → Prop} (hkeeps : ∀ {s i o s'}, P s → G i → M.step s i = some (o, s') → P s')
    (hstays : ∀ {s i o s' k}, P s → G i → M.step s i = some (o, s') → route k i = none → view k s' = view k s)
    (hmoves : ∀ {s i o s' k x}, P s → G i → M.step s i = some (o, s') → route k i = some x →
      ∃ r, C.step (view k s) x = some (r, view k s'))
    (htakes : ∀ {s i}, P s → G i → (∀ k x, route k i = some x → (C.step (view k s) x).isSome) → (M.step s i).isSome)
    {s : σ} {is : List ι} (hs : P s) (hG : ∀ i ∈ is, G i) (h : ∀ k, (C.run (view k s) (is.filterMap (route k))).isSome) :
    (M.run s is).isSome := by
  induction is generalizing s with
  | nil => rfl
  | cons i is ih =>
    have hi : G i := hG i List.mem_cons_self
    have hone : ∀ k x, route k i = some x → (C.step (view k s) x).isSome := by
      intro k x hroute
      obtain ⟨⟨rs, u⟩, hrun⟩ := Option.isSome_iff_exists.mp (h k)
      rw [List.filterMap_cons_some hroute] at hrun
      obtain ⟨r, u', rs', hstep, -, -⟩ := run_cons_eq_some.mp hrun
      rw [hstep]
      rfl
    obtain ⟨⟨o, s'⟩, hstep⟩ := Option.isSome_iff_exists.mp (htakes hs hi hone)
    have htail : ∀ k, (C.run (view k s') (is.filterMap (route k))).isSome := by
      intro k
      have hk := h k
      cases hroute : route k i with
      | none =>
        rw [List.filterMap_cons_none hroute, ← hstays hs hi hstep hroute] at hk
        exact hk
      | some x =>
        obtain ⟨r, hx⟩ := hmoves hs hi hstep hroute
        rw [List.filterMap_cons_some hroute, run_cons_of_step hx, Option.isSome_map] at hk
        exact hk
    obtain ⟨⟨os, t⟩, hrun⟩ := Option.isSome_iff_exists.mp (ih (hkeeps hs hi hstep) (fun j hj => hG j (List.mem_cons_of_mem _ hj)) htail)
    rw [run_cons_of_step hstep, hrun]
    rfl

end Machine

end FrontServer
