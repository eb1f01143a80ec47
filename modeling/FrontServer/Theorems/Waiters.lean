import FrontServer.Theorems.PoolLimit

/-!
# Threads blocked in `grab`

A `release` wakes one of the blocked threads. The others are `Covered` while the counter, with one more for each thread woken and not
yet through the mutex, is above the limit: then somebody still has a connection to release, or a woken thread is about to take one.
A woken thread that gets no connection from the base class leaves without waking another, and the place it was woken for is lost.
-/

namespace FrontServer

variable {σ Env Conn Tid : Type} [DecidableEq Tid]

namespace PoolState

/-- The call of a thread woken from the wait that has not taken the mutex again. -/
def isWoken : PoolCall Conn → Bool
  | .grabWoken => true
  | _ => false

/-- Threads are blocked in the wait with nobody left to wake them: none has been woken, no other thread is in a call, no caller holds
a connection, and the counter is not above the limit. -/
def Stranded (poolMaxDbCons : Int) (s : PoolState σ Conn Tid) : Prop :=
  0 < s.calls.count isWaiting ∧ s.calls.count (fun c => !isWaiting c) = 0 ∧ s.held = [] ∧ s.pool.mConnsInUse ≤ poolMaxDbCons

/-- Every place below the limit has a woken thread on its way to it, as long as threads are blocked. -/
def Covered (poolMaxDbCons : Int) (s : PoolState σ Conn Tid) : Prop :=
  0 < s.calls.count isWaiting → poolMaxDbCons < s.pool.mConnsInUse + s.calls.count isWoken

/-- A woken thread gets no connection from the base class while others are blocked and no second woken thread is on its way to the
place below the limit. -/
def LosesWakeUp (base : ConnectionPool σ Env Conn) (poolMaxDbCons : Int) (s : PoolState σ Conn Tid) :
    PoolAction Env Conn Tid → Prop
  | .grabLock t env =>
    (s.calls.lookup t).any isWoken ∧ (base.grab s.pool.base env).1 = none ∧ 0 < s.calls.count isWaiting ∧
      s.pool.mConnsInUse + s.calls.count isWoken ≤ poolMaxDbCons + 1
  | _ => False

instance (base : ConnectionPool σ Env Conn) (poolMaxDbCons : Int) (s : PoolState σ Conn Tid) (a : PoolAction Env Conn Tid) :
    Decidable (LosesWakeUp base poolMaxDbCons s a) :=
  match a with
  | .grabLock _ _ => inferInstanceAs (Decidable (_ ∧ _ ∧ _ ∧ _))
  | .callGrab _ => isFalse id
  | .wakeUp _ => isFalse id
  | .grabCharset _ _ => isFalse id
  | .callRelease _ _ _ => isFalse id
  | .releaseLock _ _ => isFalse id

variable {base : ConnectionPool σ Env Conn} {poolMaxDbCons : Int} {dbDefaultCharset : Bytes} {s s' : PoolState σ Conn Tid}

/-- Threads that are covered are not stranded. -/
theorem Covered.not_stranded (h : s.Covered poolMaxDbCons) : ¬s.Stranded poolMaxDbCons := by
  rintro ⟨hpos, hothers, -, hroom⟩
  have hwoken : s.calls.count isWoken = 0 := by
    rw [Threads.count_eq_zero] at hothers ⊢
    intro t c hc
    have hwait := hothers t c hc
    cases c with
    | grabWoken => cases hwait
    | _ => rfl
  have hcov := h hpos
  rw [hwoken] at hcov
  omega

/-- Threads stay covered where the counter is the same, no more of them are blocked and no fewer are woken. -/
theorem Covered.of_counts (h : s.Covered poolMaxDbCons) (hconns : s'.pool.mConnsInUse = s.pool.mConnsInUse)
    (hwait : s'.calls.count isWaiting ≤ s.calls.count isWaiting) (hwoken : s.calls.count isWoken ≤ s'.calls.count isWoken) :
    s'.Covered poolMaxDbCons := by
  intro hpos
  have hroom := h (by omega)
  rw [hconns]
  omega

/-- A thread that gets on behind the lock leaves the others covered, unless it was woken for a place that it does not take. -/
theorem covered_of_take {t : Tid} {env : Env} {pc : Option Conn} {pool : DatabaseConnectionPool σ}
    (hcov : s.Covered poolMaxDbCons) (ht : s.AtGrabLock t) (hgrab : s.pool.grabConn base env = (pc, pool)) :
    Covered poolMaxDbCons { s.goto t (.grabCharset pc) with pool := pool } ↔
      ¬LosesWakeUp base poolMaxDbCons s (.grabLock t env : PoolAction Env Conn Tid) := by
  have hconns := DatabaseConnectionPool.mConnsInUse_of_grabConn hgrab
  have hbase := DatabaseConnectionPool.grab_of_grabConn hgrab
  show (0 < (s.goto t (.grabCharset pc)).calls.count isWaiting →
    poolMaxDbCons < pool.mConnsInUse + (s.goto t (.grabCharset pc)).calls.count isWoken) ↔ _
  rcases ht with ht | ht
  · have hw := count_goto_of_some ht isWaiting (.grabCharset pc)
    have hk := count_goto_of_some ht isWoken (.grabCharset pc)
    simp only [isWaiting, isWoken, Bool.false_eq_true, if_false] at hw hk
    constructor
    · rintro - ⟨hwoken, -⟩
      rw [ht] at hwoken
      cases hwoken
    · intro _ hpos
      have hroom := hcov (by omega)
      omega
  · have hw := count_goto_of_some ht isWaiting (.grabCharset pc)
    have hk := count_goto_of_some ht isWoken (.grabCharset pc)
    simp only [isWaiting, isWoken, if_true, Bool.false_eq_true, if_false] at hw hk
    cases pc with
    | some pc =>
      rw [Option.toList_some, List.length_singleton] at hconns
      constructor
      · rintro - ⟨-, hnone, -⟩
        rw [hbase] at hnone
        cases hnone
      · intro _ hpos
        have hroom := hcov (by omega)
        omega
    | none =>
      rw [Option.toList_none, List.length_nil] at hconns
      constructor
      · rintro hcov' ⟨-, -, hpos, hroom⟩
        have := hcov' (by omega)
        omega
      · intro hkeeps hpos
        by_contra hroom
        exact hkeeps ⟨by rw [ht]; rfl, by rw [hbase], by omega, by omega⟩

variable [DecidableEq Conn]

/-- Where threads are covered, a step leaves them so exactly when it loses no wake-up. -/
theorem covered_of_step {a : PoolAction Env Conn Tid} {r : PoolReply Conn} (hcov : s.Covered poolMaxDbCons)
    (hs : (machine base poolMaxDbCons).step s a = some (r, s')) :
    s'.Covered poolMaxDbCons ↔ ¬LosesWakeUp base poolMaxDbCons s a := by
  cases step_cases hs with
  | callGrab t ht =>
    have hw := count_goto_of_none ht isWaiting .grabLock
    have hk := count_goto_of_none ht isWoken .grabLock
    exact iff_of_true (hcov.of_counts rfl hw.le hk.ge) id
  | wait t env ht hwait =>
    refine iff_of_true (fun _ => Int.lt_of_lt_of_le hwait (Int.le_add_of_nonneg_right (Int.natCast_nonneg _))) ?_
    rintro ⟨hwoken, -, -, hroom⟩
    have hone := Threads.count_erase isWoken s.calls t
    rw [if_pos hwoken] at hone
    omega
  | take t env pc pool ht hmax hgrab => exact covered_of_take hcov ht hgrab
  | wakeUp t ht =>
    have hw := count_goto_of_some ht isWaiting .grabWoken
    have hk := count_goto_of_some ht isWoken .grabWoken
    simp only [isWaiting, isWoken, if_true, Bool.false_eq_true, if_false] at hw hk
    exact iff_of_true (hcov.of_counts rfl (by omega) (by omega)) id
  | throw t pc ht _ =>
    exact iff_of_true (hcov.of_counts rfl (count_leave ht isWaiting).le (count_leave ht isWoken).ge) id
  | returnGrab t pc ht =>
    exact iff_of_true (hcov.of_counts rfl (count_leave ht isWaiting).le (count_leave ht isWoken).ge) id
  | callRelease t pc isBadCon ht hheld =>
    have hw := count_goto_of_none ht isWaiting (.releaseLock pc isBadCon)
    have hk := count_goto_of_none ht isWoken (.releaseLock pc isBadCon)
    exact iff_of_true (hcov.of_counts rfl hw.le hk.ge) id
  | release t pc isBadCon ht hnone =>
    refine iff_of_true (fun hpos => ?_) id
    exact absurd hpos (by rw [show Threads.count isWaiting _ = 0 from hnone]; omega)
  | releaseNotify t w pc isBadCon ht hw =>
    have hw₁ := count_leave ht isWaiting
    have hk₁ := count_leave ht isWoken
    have hw₂ := count_goto_of_some hw isWaiting .grabWoken
    have hk₂ := count_goto_of_some hw isWoken .grabWoken
    simp only [isWaiting, isWoken, if_true, Bool.false_eq_true, if_false] at hw₁ hk₁ hw₂ hk₂
    refine iff_of_true (fun hpos => ?_) id
    -- the counter goes down by one, and the thread notified makes up for it
    have hroom := hcov (by omega)
    show poolMaxDbCons < s.pool.mConnsInUse - 1 + (((s.leave t).goto w .grabWoken).calls.count isWoken : Nat)
    omega

/-- In a run no step of which loses a wake-up no state reached has stranded threads. A step from there that does leaves threads
blocked while a place below the limit is free and no thread is on its way to it. -/
theorem no_stranded_waiter (base : ConnectionPool σ Env Conn) (dbDefaultCharset : Bytes) (poolMaxDbCons : Int)
    (acts : List (PoolAction Env Conn Tid)) (replies : List (PoolReply Conn)) (s : PoolState σ Conn Tid)
    (h : (machine base poolMaxDbCons).run (new base dbDefaultCharset) acts = some (replies, s))
    (hkeeps : (machine base poolMaxDbCons).Meets (fun s a => ¬LosesWakeUp base poolMaxDbCons s a)
      (new base dbDefaultCharset) acts) :
    ¬s.Stranded poolMaxDbCons ∧
      ∀ a r s', (machine base poolMaxDbCons).step s a = some (r, s') →
        (LosesWakeUp base poolMaxDbCons s a ↔ ¬s'.Covered poolMaxDbCons) := by
  have hcov : s.Covered poolMaxDbCons := by
    refine hkeeps.run_invariant (P := Covered poolMaxDbCons) (fun hcov hkeep hs => (covered_of_step hcov hs).mpr hkeep) ?_ h
    intro hpos
    have hnone : Threads.count isWaiting (∅ : Threads Tid (PoolCall Conn)) = 0 := Threads.count_empty _
    exact absurd hpos (by rw [show Threads.count isWaiting (new base dbDefaultCharset).calls = 0 from hnone]; omega)
  exact ⟨hcov.not_stranded, fun a r s' hs => by rw [covered_of_step hcov hs, not_not]⟩

/-- Two threads take the connections that a limit of one allows, and three more wait. While no new connection can be made, the two
release theirs as bad, and the threads woken leave with none. -/
def twoOfThreeWoken : List (PoolAction (Option Nat) Nat Nat) :=
  [.callGrab 0, .grabLock 0 (some 7), .grabCharset 0 false, .callGrab 1, .grabLock 1 (some 8), .grabCharset 1 false,
    .callGrab 2, .grabLock 2 none, .callGrab 3, .grabLock 3 none, .callGrab 4, .grabLock 4 none,
    .callRelease 0 7 true, .releaseLock 0 (some 2), .grabLock 2 none, .grabCharset 2 false,
    .callRelease 1 8 true, .releaseLock 1 (some 3), .grabLock 3 none, .grabCharset 3 false]

/-- The third one is stranded. -/
theorem third_waiter_stranded :
    ¬∀ (acts : List (PoolAction (Option Nat) Nat Nat)) (replies : List (PoolReply Nat)) (s : PoolState _ Nat Nat),
      (machine listPool 1).run (new listPool []) acts = some (replies, s) → ¬s.Stranded 1 := by
  intro h
  have hlast : ((machine listPool 1).run (new listPool []) twoOfThreeWoken).map (fun r =>
      (r.2.calls.count isWaiting, r.2.calls.count (fun c => !isWaiting c), r.2.held, r.2.pool.mConnsInUse)) =
        some (1, 0, [], 0) := by decide +kernel
  obtain ⟨⟨replies, s⟩, hrun, hs⟩ := Option.map_eq_some_iff.mp hlast
  simp only [Prod.mk.injEq] at hs
  obtain ⟨hwaits, hothers, hheld, hconns⟩ := hs
  exact h twoOfThreeWoken replies s hrun ⟨by omega, hothers, hheld, by omega⟩

/-- The two threads with the connections, and a third one that waits until the first releases its connection. -/
def thirdWoken : List (PoolAction (Option Nat) Nat Nat) :=
  twoGrabs ++ [.callGrab 2, .grabLock 2 none, .callRelease 0 7 false, .releaseLock 0 (some 2), .grabLock 2 none,
    .grabCharset 2 false]

theorem no_stranded_waiter_thirdWoken :
    ∃ replies s, (machine listPool 1).run (new listPool []) thirdWoken = some (replies, s) ∧ ¬s.Stranded 1 := by
  have hsome : ((machine listPool 1).run (new listPool []) thirdWoken).isSome := by decide +kernel
  obtain ⟨⟨replies, s⟩, hrun⟩ := Option.isSome_iff_exists.mp hsome
  exact ⟨replies, s, hrun, (no_stranded_waiter listPool [] 1 thirdWoken replies s hrun (by decide +kernel)).1⟩

end PoolState

end FrontServer
