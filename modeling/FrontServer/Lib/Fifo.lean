import Mathlib

/-!
# Bounded queues, and rings that hold them

`BoundedFifo α cap` is a first-in first-out queue of at most `cap` items; it takes a whole batch or nothing. `window N cells s n`
is what a ring of `N` cells holds from place `s` on: the `n` items read from `cells` one after the other, going back to place
`0` past the end. The lemmas say how the window grows when a batch is written behind it and how it is cut when a batch is read
off its front.
-/

namespace FrontServer

/-- A queue of at most `cap` items; a queue over its bound cannot be built. -/
structure BoundedFifo (α : Type*) (cap : Nat) where
  items : List α
  length_le : items.length ≤ cap

namespace BoundedFifo

variable {α : Type*} {cap : Nat}

/-- A queue is its items. -/
theorem ext {q q' : BoundedFifo α cap} (h : q.items = q'.items) : q = q' := by
  cases q
  cases q'
  cases h
  rfl

/-- The queue with nothing in it. -/
def empty : BoundedFifo α cap := ⟨[], Nat.zero_le _⟩

/-- The number of items that still fit. -/
def room (q : BoundedFifo α cap) : Nat := cap - q.items.length

/-- Append a batch when it fits, and nothing of it when it does not. -/
def offer (q : BoundedFifo α cap) (xs : List α) : Bool × BoundedFifo α cap :=
  if h : q.items.length + xs.length ≤ cap then (true, ⟨q.items ++ xs, by rw [List.length_append]; exact h⟩) else (false, q)

/-- The first `n` items, left in the queue. -/
def peek (q : BoundedFifo α cap) (n : Nat) : List α := q.items.take n

/-- Remove the first `n` items. -/
def take (q : BoundedFifo α cap) (n : Nat) : List α × BoundedFifo α cap :=
  (q.items.take n, ⟨q.items.drop n, by have := q.length_le; rw [List.length_drop]; omega⟩)

/-- Items that fit come behind those that are there. -/
theorem offer_of_le {q : BoundedFifo α cap} {xs : List α} (h : q.items.length + xs.length ≤ cap) :
    q.offer xs = (true, ⟨q.items ++ xs, by rw [List.length_append]; exact h⟩) := by
  unfold offer
  exact dif_pos h

/-- Items that do not fit are refused, all of them. -/
theorem offer_of_gt {q : BoundedFifo α cap} {xs : List α} (h : cap < q.items.length + xs.length) :
    q.offer xs = (false, q) := by
  unfold offer
  exact dif_neg (Nat.not_le.mpr h)

end BoundedFifo

/-! ## Rings -/

/-- The place `k` cells after place `s` in a ring of `N` cells, for `s < N` and `k ≤ N`. -/
def ringIndex (N s k : Nat) : Nat := if s + k < N then s + k else s + k - N

/-- An index in the ring is one of the array. -/
theorem ringIndex_lt {N s k : Nat} (hs : s < N) (hk : k ≤ N) : ringIndex N s k < N := by
  unfold ringIndex
  split <;> omega

/-- Steps around the ring add up. -/
theorem ringIndex_add {N s j k : Nat} (hs : s < N) (h : j + k ≤ N) :
    ringIndex N (ringIndex N s j) k = ringIndex N s (j + k) := by
  unfold ringIndex
  split <;> split <;> split <;> omega

/-- Two places less than a whole turn apart are different cells. -/
theorem ringIndex_ne {N s j k : Nat} (hjk : j < k) (hk : k < N) : ringIndex N s j ≠ ringIndex N s k := by
  unfold ringIndex
  split <;> split <;> omega

variable {α : Type*}

/-- The `n` items a ring of `N` cells holds from place `s` on. -/
def window (N : Nat) (cells : Nat → α) (s n : Nat) : List α := (List.range n).map (fun k => cells (ringIndex N s k))

/-- A window is as long as asked for. -/
@[simp] theorem length_window (N : Nat) (cells : Nat → α) (s n : Nat) : (window N cells s n).length = n := by
  simp [window]

/-- A window of no cells is empty. -/
@[simp] theorem window_zero (N : Nat) (cells : Nat → α) (s : Nat) : window N cells s 0 = [] := rfl

/-- The window depends on the cells in it only. -/
theorem window_congr {N : Nat} {cells cells' : Nat → α} {s n : Nat}
    (h : ∀ k < n, cells (ringIndex N s k) = cells' (ringIndex N s k)) : window N cells s n = window N cells' s n := by
  unfold window
  apply List.map_congr_left
  intro k hk
  exact h k (List.mem_range.mp hk)

/-- A window is a shorter one followed by the window of the rest. -/
theorem window_add {N : Nat} (cells : Nat → α) {s j k : Nat} (hs : s < N) (h : j + k ≤ N) :
    window N cells s (j + k) = window N cells s j ++ window N cells (ringIndex N s j) k := by
  unfold window
  rw [List.range_add, List.map_append, List.map_map]
  congr 1
  apply List.map_congr_left
  intro i hi
  have hi := List.mem_range.mp hi
  simp only [Function.comp_apply]
  rw [ringIndex_add hs (by omega)]

/-- The first items of a window are the window from the same cell. -/
theorem take_window {N : Nat} (cells : Nat → α) {s n : Nat} (hs : s < N) (hn : n ≤ N) {k : Nat} (hk : k ≤ n) :
    (window N cells s n).take k = window N cells s k := by
  obtain ⟨j, rfl⟩ := Nat.exists_eq_add_of_le hk
  rw [window_add cells hs (by omega), List.take_left' (length_window N cells s k)]

/-- The items behind them are the window from a later cell. -/
theorem drop_window {N : Nat} (cells : Nat → α) {s n : Nat} (hs : s < N) (hn : n ≤ N) {k : Nat} (hk : k ≤ n) :
    (window N cells s n).drop k = window N cells (ringIndex N s k) (n - k) := by
  obtain ⟨j, rfl⟩ := Nat.exists_eq_add_of_le hk
  rw [window_add cells hs (by omega), List.drop_left' (length_window N cells s k), Nat.add_sub_cancel_left]

/-- A window over cells that hold a list one after the other is that list. -/
theorem window_eq_of_forall {N : Nat} {cells : Nat → α} {s n : Nat} {xs : List α} (hl : xs.length = n)
    (h : ∀ k (hk : k < n), cells (ringIndex N s k) = xs[k]) : window N cells s n = xs := by
  apply List.ext_getElem
  · rw [length_window, hl]
  · intro k h₁ h₂
    simp only [window, List.getElem_map, List.getElem_range]
    exact h k (hl ▸ h₂)

end FrontServer
