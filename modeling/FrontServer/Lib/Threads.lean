import Mathlib

/-!
# Threads and the calls they are in

The threads of a program that are inside of a call of some object, each with how far it is. A thread that is in no call is not in the
map, so there are finitely many at any time, and any number over a run. `count` counts the calls of a kind; a thread that moves on
changes the count by what it leaves and what it comes to (`count_insert`, `count_erase`).
-/

namespace FrontServer

/-- The calls in progress, by thread. -/
abbrev Threads (τ κ : Type*) := Finmap (fun _ : τ => κ)

namespace Threads

variable {τ κ : Type*} [DecidableEq τ]

/-- The threads in a call of a kind. -/
def those (p : κ → Bool) (m : Threads τ κ) : Finset τ := m.keys.filter (fun t => (m.lookup t).any p)

/-- How many threads are in a call of a kind. -/
def count (p : κ → Bool) (m : Threads τ κ) : Nat := (m.those p).card

theorem mem_those {p : κ → Bool} {m : Threads τ κ} {t : τ} : t ∈ m.those p ↔ ∃ k, m.lookup t = some k ∧ p k = true := by
  unfold those
  rw [Finset.mem_filter, Finmap.mem_keys, ← Finmap.lookup_isSome]
  cases m.lookup t with
  | none => simp
  | some k => simp

/-- No thread is in a call when no thread is in the map. -/
theorem eq_empty_of_keys {m : Threads τ κ} (h : m.keys = ∅) : m = ∅ := by
  apply Finmap.ext_lookup
  intro t
  rw [Finmap.lookup_empty, Finmap.lookup_eq_none, ← Finmap.mem_keys, h]
  exact Finset.notMem_empty t

@[simp] theorem count_empty (p : κ → Bool) : count p (∅ : Threads τ κ) = 0 := by
  have hnone : those p (∅ : Threads τ κ) = ∅ := by
    apply Finset.eq_empty_of_forall_notMem
    intro t ht
    obtain ⟨k, hk, -⟩ := mem_those.mp ht
    rw [Finmap.lookup_empty] at hk
    cases hk
  rw [count, hnone, Finset.card_empty]

/-- No thread is in a call of a kind exactly when their count is zero. -/
theorem count_eq_zero {p : κ → Bool} {m : Threads τ κ} : m.count p = 0 ↔ ∀ t k, m.lookup t = some k → p k = false := by
  rw [count, Finset.card_eq_zero, Finset.eq_empty_iff_forall_notMem]
  constructor
  · intro h t k hk
    rw [← Bool.not_eq_true]
    exact fun hp => h t (mem_those.mpr ⟨k, hk, hp⟩)
  · intro h t ht
    obtain ⟨k, hk, hp⟩ := mem_those.mp ht
    rw [h t k hk] at hp
    cases hp

theorem count_pos {p : κ → Bool} {m : Threads τ κ} {t : τ} {k : κ} (h : m.lookup t = some k) (hp : p k = true) : 0 < m.count p :=
  Finset.card_pos.mpr ⟨t, mem_those.mpr ⟨k, h, hp⟩⟩

/-- Two threads in calls of a kind. -/
theorem one_lt_count {p : κ → Bool} {m : Threads τ κ} {t t' : τ} {k k' : κ} (hne : t ≠ t') (h : m.lookup t = some k)
    (hp : p k = true) (h' : m.lookup t' = some k') (hp' : p k' = true) : 1 < m.count p :=
  Finset.one_lt_card.mpr ⟨t, mem_those.mpr ⟨k, h, hp⟩, t', mem_those.mpr ⟨k', h', hp'⟩, hne⟩

/-- A set that differs in one element, and what that does to its size. -/
theorem card_add_of_agree {s s' : Finset τ} {t : τ} (h : ∀ t' ≠ t, (t' ∈ s' ↔ t' ∈ s)) :
    s'.card + (if t ∈ s then 1 else 0) = s.card + (if t ∈ s' then 1 else 0) := by
  have herase : s'.erase t = s.erase t := by
    ext t'
    rw [Finset.mem_erase, Finset.mem_erase]
    exact and_congr_right fun hne => h t' hne
  have hcard : ∀ u : Finset τ, (u.erase t).card + (if t ∈ u then 1 else 0) = u.card := by
    intro u
    split
    · rename_i hu
      exact Finset.card_erase_add_one hu
    · rename_i hu
      rw [Finset.erase_eq_of_notMem hu, Nat.add_zero]
  rw [← hcard s, ← hcard s', herase]
  omega

/-- A thread comes to a call, from another one or from none. -/
theorem count_insert (p : κ → Bool) (m : Threads τ κ) (t : τ) (k : κ) :
    count p (m.insert t k) + (if (m.lookup t).any p then 1 else 0) = m.count p + (if p k then 1 else 0) := by
  have hagree : ∀ t' ≠ t, (t' ∈ those p (m.insert t k) ↔ t' ∈ m.those p) := by
    intro t' hne
    rw [mem_those, mem_those, Finmap.lookup_insert_of_ne _ hne]
  have hold : t ∈ m.those p ↔ (m.lookup t).any p = true := by
    rw [mem_those, Option.any_eq_true]
  have hnew : t ∈ those p (m.insert t k) ↔ p k = true := by
    rw [mem_those, Finmap.lookup_insert]
    simp
  have hcard := card_add_of_agree hagree
  simp only [hold, hnew] at hcard
  exact hcard

/-- A thread leaves its call. -/
theorem count_erase (p : κ → Bool) (m : Threads τ κ) (t : τ) :
    count p (m.erase t) + (if (m.lookup t).any p then 1 else 0) = m.count p := by
  have hagree : ∀ t' ≠ t, (t' ∈ those p (m.erase t) ↔ t' ∈ m.those p) := by
    intro t' hne
    rw [mem_those, mem_those, Finmap.lookup_erase_ne hne]
  have hold : t ∈ m.those p ↔ (m.lookup t).any p = true := by
    rw [mem_those, Option.any_eq_true]
  have hnew : t ∉ those p (m.erase t) := by
    rw [mem_those, Finmap.lookup_erase]
    simp
  have hcard := card_add_of_agree hagree
  simp only [hold, hnew, if_false, Nat.add_zero] at hcard
  exact hcard

end Threads

end FrontServer
