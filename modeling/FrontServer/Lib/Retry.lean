import Mathlib

/-!
# Blocks that may throw, and loops with a budget

A block under `try` is an `ExceptT` over a state that an exception does not undo; `exec` runs one, and the lemmas about it execute a
block step by step.

`retry body n` runs the body of a loop up to `n` times: a body that gives `none` is run again, one that gives a value ends the loop.
`retry_cases` is its rule: from a fact about the number of bodies run so far that a body giving `none` keeps, it says where the loop
can have ended. `lastWrite` is what the turns so far have left in a cell that each of them may write.
-/

namespace FrontServer

variable {ε σ α β : Type}

/-! ## Blocks that may throw -/

/-- Run a block: its value or its exception, and the state it leaves. -/
def exec (x : ExceptT ε (StateM σ) α) (s : σ) : Except ε α × σ := x.run.run s

/-- A step that does not throw. -/
theorem exec_bind_of_ok {x : ExceptT ε (StateM σ) α} {s s' : σ} {a : α} (h : exec x s = (.ok a, s'))
    (f : α → ExceptT ε (StateM σ) β) : exec (x >>= f) s = exec (f a) s' := by
  unfold exec at h ⊢
  rw [ExceptT.run_bind, StateT.run_bind, h]
  rfl

/-- A step outside of the exceptions. -/
theorem exec_lift_bind {x : StateM σ α} {s s' : σ} {a : α} (h : x.run s = (a, s')) (f : α → ExceptT ε (StateM σ) β) :
    exec ((liftM x : ExceptT ε (StateM σ) α) >>= f) s = exec (f a) s' := by
  refine exec_bind_of_ok ?_ f
  show (ExceptT.lift x).run.run s = (.ok a, s')
  rw [ExceptT.run_lift, StateT.run_map, h]
  rfl

theorem exec_modify_bind (g : σ → σ) (s : σ) (f : PUnit → ExceptT ε (StateM σ) β) :
    exec (modify g >>= f) s = exec (f ⟨⟩) (g s) := rfl

/-- A step whose value or exception does not depend on the state. -/
theorem exec_except_bind (x : Except ε α) (s : σ) (f : α → ExceptT ε (StateM σ) β) :
    exec ((liftM x : ExceptT ε (StateM σ) α) >>= f) s =
      match x with
      | .ok a => exec (f a) s
      | .error e => (.error e, s) := by
  cases x with
  | ok a => rfl
  | error e => rfl

/-! ## Loops with a budget -/

/-- At most `n` runs of a loop body. -/
def retry (body : StateM σ (Option β)) : Nat → StateM σ (Option β)
  | 0 => pure none
  | n + 1 => do
    match ← body with
    | some b => pure (some b)
    | none => retry body n

theorem retry_succ_of_some {body : StateM σ (Option β)} {s s' : σ} {b : β} (h : body.run s = (some b, s')) (n : Nat) :
    (retry body (n + 1)).run s = (some b, s') := by
  rw [retry, StateT.run_bind, h]
  rfl

theorem retry_succ_of_none {body : StateM σ (Option β)} {s s' : σ} (h : body.run s = (none, s')) (n : Nat) :
    (retry body (n + 1)).run s = (retry body n).run s' := by
  rw [retry, StateT.run_bind, h]
  rfl

/-- The loop has run out of its budget, or the body run at some index below it gave the result. -/
theorem retry_cases {body : StateM σ (Option β)} {P : Nat → σ → Prop}
    (hnone : ∀ {i s s'}, P i s → body.run s = (none, s') → P (i + 1) s') {n i : Nat} {s s' : σ} {r : Option β} (hs : P i s)
    (h : (retry body n).run s = (r, s')) :
    (r = none ∧ P (i + n) s') ∨ ∃ k b t, k < n ∧ r = some b ∧ P (i + k) t ∧ body.run t = (some b, s') := by
  induction n generalizing i s with
  | zero =>
    cases h
    exact Or.inl ⟨rfl, hs⟩
  | succ n ih =>
    rcases hb : body.run s with ⟨b | b, t⟩
    · rw [retry_succ_of_none hb] at h
      rcases ih (hnone hs hb) h with ⟨hr, hend⟩ | ⟨k, b, t', hk, hr, ht', hbody⟩
      · exact Or.inl ⟨hr, by rwa [Nat.add_right_comm] at hend⟩
      · exact Or.inr ⟨k + 1, b, t', by omega, hr, by rwa [Nat.add_right_comm] at ht', hbody⟩
    · rw [retry_succ_of_some hb] at h
      cases h
      exact Or.inr ⟨0, b, s, Nat.succ_pos n, rfl, hs, hb⟩

/-! ## What the last of some writes left -/

/-- A cell after `n` turns, each of which may write it. -/
def lastWrite (write : Nat → Option β) (init : β) : Nat → β
  | 0 => init
  | n + 1 => (write n).getD (lastWrite write init n)

/-- The cell holds what it held at the start when the last write, if there was one, wrote just that. -/
theorem lastWrite_eq_iff {write : Nat → Option β} {init : β} {n : Nat} :
    lastWrite write init n = init ↔ ∀ j b, j < n → write j = some b → (∀ k, j < k → k < n → write k = none) → b = init := by
  induction n with
  | zero => exact iff_of_true rfl fun j b hj => absurd hj (Nat.not_lt_zero j)
  | succ n ih =>
    cases hw : write n with
    | some a =>
      rw [lastWrite, hw, Option.getD_some]
      constructor
      · intro ha j b hj hb hlast
        rcases Nat.lt_succ_iff_lt_or_eq.mp hj with hlt | rfl
        · exact absurd ((hlast n hlt (Nat.lt_succ_self n)).symm.trans hw) (by simp)
        · rw [hw] at hb
          cases hb
          exact ha
      · intro h
        exact h n a (Nat.lt_succ_self n) hw fun k hk hkn => absurd hk (by omega)
    | none =>
      rw [lastWrite, hw, Option.getD_none, ih]
      constructor
      · intro h j b hj hb hlast
        rcases Nat.lt_succ_iff_lt_or_eq.mp hj with hlt | rfl
        · exact h j b hlt hb fun k hk hkn => hlast k hk (Nat.lt_succ_of_lt hkn)
        · rw [hw] at hb
          cases hb
      · intro h j b hj hb hlast
        refine h j b (Nat.lt_succ_of_lt hj) hb fun k hk hkn => ?_
        rcases Nat.lt_succ_iff_lt_or_eq.mp hkn with hlt | rfl
        · exact hlast k hk hlt
        · exact hw

end FrontServer
