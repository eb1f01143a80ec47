import FrontServer.DatabaseConnectionPool

/-!
# What a step of a thread does to the pool

`Step` lists what each step needs and leads to, and `step_cases` says that the model takes no others. The connections handed out are
those taken by a `grab` and not given back by a `release`: in `grab` behind the critical section, at a caller, or in `release` in
front of it.
-/

namespace FrontServer

variable {σ Env Conn Tid : Type}

namespace DatabaseConnectionPool

/-- `grab` with the mutex counts the connection it takes, if there is one. -/
theorem mConnsInUse_of_grabConn {base : ConnectionPool σ Env Conn} {p p' : DatabaseConnectionPool σ} {env : Env}
    {pc : Option Conn} (h : p.grabConn base env = (pc, p')) : p'.mConnsInUse = p.mConnsInUse + pc.toList.length := by
  unfold grabConn at h
  split at h
  · cases h
    simp
  · cases h
    simp

theorem mDbDefaultCharset_of_grabConn {base : ConnectionPool σ Env Conn} {p p' : DatabaseConnectionPool σ} {env : Env}
    {pc : Option Conn} (h : p.grabConn base env = (pc, p')) : p'.mDbDefaultCharset = p.mDbDefaultCharset := by
  unfold grabConn at h
  split at h
  · cases h
    rfl
  · cases h
    rfl

/-- `grab` with the mutex gives and leaves what the base class gives and leaves. -/
theorem grab_of_grabConn {base : ConnectionPool σ Env Conn} {p p' : DatabaseConnectionPool σ} {env : Env}
    {pc : Option Conn} (h : p.grabConn base env = (pc, p')) : base.grab p.base env = (pc, p'.base) := by
  unfold grabConn at h
  split at h
  · rename_i hg
    cases h
    exact hg
  · rename_i hg
    cases h
    exact hg

end DatabaseConnectionPool

namespace PoolState

variable [DecidableEq Tid]

@[simp] theorem held_leave (s : PoolState σ Conn Tid) (t : Tid) : (s.leave t).held = s.held := rfl

/-- The places in front of the critical section of `grab`: at its start, and woken from the wait. -/
def AtGrabLock (s : PoolState σ Conn Tid) (t : Tid) : Prop :=
  s.calls.lookup t = some .grabLock ∨ s.calls.lookup t = some .grabWoken

/-! ## Connections handed out -/

/-- The connection a thread in this place of its call has of the pool. -/
def connOf : PoolCall Conn → Option Conn
  | .grabCharset pc => pc
  | .releaseLock pc _ => some pc
  | _ => none

/-- A thread in this place of its call has a connection of a kind. -/
def hasConnOf (q : Conn → Bool) (c : PoolCall Conn) : Bool := (connOf c).any q

/-- The connections of a kind taken by a `grab` and not yet given back by a `release`. -/
def handedOutOf (s : PoolState σ Conn Tid) (q : Conn → Bool) : Nat := s.calls.count (hasConnOf q) + s.held.countP q

/-- A thread in this place of its call has a connection of the pool. -/
def hasConn : PoolCall Conn → Bool
  | .grabCharset (some _) => true
  | .releaseLock _ _ => true
  | _ => false

/-- The connections taken by a `grab` and not yet given back by a `release`. -/
def handedOut (s : PoolState σ Conn Tid) : Nat := s.calls.count hasConn + s.held.length

/-- All connections handed out are those of any kind. -/
theorem handedOut_eq (s : PoolState σ Conn Tid) : s.handedOut = s.handedOutOf (fun _ => true) := by
  have hconn : (hasConn : PoolCall Conn → Bool) = hasConnOf (fun _ => true) := by
    funext c
    cases c with
    | grabCharset pc => cases pc <;> rfl
    | _ => rfl
  rw [handedOut, handedOutOf, hconn, List.countP_true]

/-- Where no call is in progress only callers have connections. -/
theorem handedOutOf_of_quiet {s : PoolState σ Conn Tid} (h : s.calls = ∅) (q : Conn → Bool) :
    s.handedOutOf q = s.held.countP q := by
  rw [handedOutOf, h, Threads.count_empty, Nat.zero_add]

/-- A thread that enters a call. -/
theorem count_goto_of_none {s : PoolState σ Conn Tid} {t : Tid} (h : s.calls.lookup t = none) (p : PoolCall Conn → Bool)
    (c : PoolCall Conn) : (s.goto t c).calls.count p = s.calls.count p + (if p c then 1 else 0) := by
  have hcount := Threads.count_insert p s.calls t c
  rw [h] at hcount
  exact hcount

/-- A thread that gets on in its call, by what it leaves and what it comes to. -/
theorem count_goto_of_some {s : PoolState σ Conn Tid} {t : Tid} {c : PoolCall Conn} (h : s.calls.lookup t = some c)
    (p : PoolCall Conn → Bool) (c' : PoolCall Conn) :
    (s.goto t c').calls.count p + (if p c then 1 else 0) = s.calls.count p + (if p c' then 1 else 0) := by
  have hcount := Threads.count_insert p s.calls t c'
  rw [h] at hcount
  exact hcount

/-- A thread that leaves its call. -/
theorem count_leave {s : PoolState σ Conn Tid} {t : Tid} {c : PoolCall Conn} (h : s.calls.lookup t = some c)
    (p : PoolCall Conn → Bool) : (s.leave t).calls.count p + (if p c then 1 else 0) = s.calls.count p := by
  have hcount := Threads.count_erase p s.calls t
  rw [h] at hcount
  exact hcount

/-- A thread in front of the critical section of `grab` has no connection before it gets on. -/
theorem count_goto_of_atGrabLock {s : PoolState σ Conn Tid} {t : Tid} (h : s.AtGrabLock t) (q : Conn → Bool)
    (c : PoolCall Conn) :
    (s.goto t c).calls.count (hasConnOf q) = s.calls.count (hasConnOf q) + (if hasConnOf q c then 1 else 0) := by
  rcases h with h | h
  · exact count_goto_of_some h (hasConnOf q) c
  · exact count_goto_of_some h (hasConnOf q) c

/-- A `grab` that gets a connection in its critical section has one more handed out. -/
theorem handedOutOf_take {s : PoolState σ Conn Tid} {t : Tid} (h : s.AtGrabLock t) (pc : Option Conn)
    (pool : DatabaseConnectionPool σ) (q : Conn → Bool) :
    PoolState.handedOutOf { s.goto t (.grabCharset pc) with pool := pool } q = s.handedOutOf q + (if pc.any q then 1 else 0) := by
  show (s.goto t (.grabCharset pc)).calls.count (hasConnOf q) + s.held.countP q = _
  rw [count_goto_of_atGrabLock h, handedOutOf, hasConnOf, connOf]
  omega

/-! ## Steps -/

/-- The steps of the threads, with what each needs. -/
inductive Step [DecidableEq Conn] (base : ConnectionPool σ Env Conn) (poolMaxDbCons : Int) (s : PoolState σ Conn Tid) :
    PoolAction Env Conn Tid → PoolReply Conn → PoolState σ Conn Tid → Prop
  | callGrab (t : Tid) : s.calls.lookup t = none → Step base poolMaxDbCons s (.callGrab t) .running (s.goto t .grabLock)
  | wait (t : Tid) (env : Env) : s.AtGrabLock t → poolMaxDbCons < s.pool.mConnsInUse →
    Step base poolMaxDbCons s (.grabLock t env) .running (s.goto t .grabWait)
  | take (t : Tid) (env : Env) (pc : Option Conn) (pool : DatabaseConnectionPool σ) : s.AtGrabLock t →
    s.pool.mConnsInUse ≤ poolMaxDbCons → s.pool.grabConn base env = (pc, pool) →
    Step base poolMaxDbCons s (.grabLock t env) .running { s.goto t (.grabCharset pc) with pool := pool }
  | wakeUp (t : Tid) : s.calls.lookup t = some .grabWait →
    Step base poolMaxDbCons s (.wakeUp t) .running (s.goto t .grabWoken)
  | throw (t : Tid) (pc : Option Conn) : s.calls.lookup t = some (.grabCharset pc) → s.pool.setsCharset pc = true →
    Step base poolMaxDbCons s (.grabCharset t true) .threw (s.leave t)
  | returnGrab (t : Tid) (pc : Option Conn) : s.calls.lookup t = some (.grabCharset pc) →
    Step base poolMaxDbCons s (.grabCharset t false) (.grabbed pc) { s.leave t with held := pc.toList ++ s.held }
  | callRelease (t : Tid) (pc : Conn) (isBadCon : Bool) : s.calls.lookup t = none → pc ∈ s.held →
    Step base poolMaxDbCons s (.callRelease t pc isBadCon) .running
      { s.goto t (.releaseLock pc isBadCon) with held := s.held.erase pc }
  | release (t : Tid) (pc : Conn) (isBadCon : Bool) : s.calls.lookup t = some (.releaseLock pc isBadCon) →
    (s.leave t).calls.count isWaiting = 0 →
    Step base poolMaxDbCons s (.releaseLock t none) .released
      { s.leave t with pool := s.pool.releaseConn base pc isBadCon }
  | releaseNotify (t w : Tid) (pc : Conn) (isBadCon : Bool) : s.calls.lookup t = some (.releaseLock pc isBadCon) →
    (s.leave t).calls.lookup w = some .grabWait →
    Step base poolMaxDbCons s (.releaseLock t (some w)) .released
      { (s.leave t).goto w .grabWoken with pool := s.pool.releaseConn base pc isBadCon }

variable [DecidableEq Conn] {base : ConnectionPool σ Env Conn} {poolMaxDbCons : Int} {s s' : PoolState σ Conn Tid}

theorem lockGrab_cases (t : Tid) (env : Env) (h : s.AtGrabLock t) :
    Step base poolMaxDbCons s (.grabLock t env) .running (s.lockGrab base poolMaxDbCons t env) := by
  unfold lockGrab
  split
  · rename_i hwait
    exact Step.wait t env h (by simpa [DatabaseConnectionPool.mustWait] using hwait)
  · rename_i hwait
    exact Step.take t env _ _ h (by simpa [DatabaseConnectionPool.mustWait] using hwait) rfl

/-- The model takes these steps and no others. -/
theorem step_cases {a : PoolAction Env Conn Tid} {r : PoolReply Conn}
    (h : (machine base poolMaxDbCons).step s a = some (r, s')) : Step base poolMaxDbCons s a r s' := by
  cases a with
  | callGrab t =>
    simp only [machine, step] at h
    split at h
    · rename_i ht
      cases h
      exact Step.callGrab t ht
    · cases h
  | grabLock t env =>
    simp only [machine, step] at h
    split at h
    · rename_i ht
      cases h
      exact lockGrab_cases t env (Or.inl ht)
    · rename_i ht
      cases h
      exact lockGrab_cases t env (Or.inr ht)
    · cases h
  | wakeUp t =>
    simp only [machine, step] at h
    split at h
    · rename_i ht
      cases h
      exact Step.wakeUp t ht
    · cases h
  | grabCharset t throws =>
    simp only [machine, step] at h
    split at h
    · rename_i pc ht
      cases throws with
      | false =>
        cases h
        exact Step.returnGrab t pc ht
      | true =>
        simp only [if_true] at h
        split at h
        · rename_i hset
          cases h
          exact Step.throw t pc ht hset
        · cases h
    · cases h
  | callRelease t pc isBadCon =>
    simp only [machine, step] at h
    split at h
    · rename_i ht
      split at h
      · rename_i hheld
        cases h
        exact Step.callRelease t pc isBadCon ht hheld
      · cases h
    · cases h
  | releaseLock t notified =>
    simp only [machine, step] at h
    split at h
    · rename_i pc isBadCon ht
      obtain ⟨s₁, hnotify, he⟩ := Option.map_eq_some_iff.mp h
      cases he
      cases notified with
      | none =>
        simp only [notifyOne] at hnotify
        split at hnotify
        · rename_i hnone
          cases hnotify
          exact Step.release t pc isBadCon ht hnone
        · cases hnotify
      | some w =>
        simp only [notifyOne] at hnotify
        split at hnotify
        · rename_i hw
          cases hnotify
          exact Step.releaseNotify t w pc isBadCon ht hw
        · cases hnotify
    · cases h

/-- The thread that takes a step. -/
def actor : PoolAction Env Conn Tid → Tid
  | .callGrab t => t
  | .grabLock t _ => t
  | .wakeUp t => t
  | .grabCharset t _ => t
  | .callRelease t _ _ => t
  | .releaseLock t _ => t

/-- A step leaves every other thread where it is, but for one blocked in the wait. -/
theorem lookup_of_step {a : PoolAction Env Conn Tid} {r : PoolReply Conn}
    (h : (machine base poolMaxDbCons).step s a = some (r, s')) {t : Tid} (hne : t ≠ actor a)
    (hwait : s.calls.lookup t ≠ some .grabWait) : s'.calls.lookup t = s.calls.lookup t := by
  cases step_cases h with
  | callGrab => exact Finmap.lookup_insert_of_ne _ hne
  | wait => exact Finmap.lookup_insert_of_ne _ hne
  | take => exact Finmap.lookup_insert_of_ne _ hne
  | wakeUp => exact Finmap.lookup_insert_of_ne _ hne
  | throw => exact Finmap.lookup_erase_ne hne
  | returnGrab => exact Finmap.lookup_erase_ne hne
  | callRelease => exact Finmap.lookup_insert_of_ne _ hne
  | release => exact Finmap.lookup_erase_ne hne
  | releaseNotify t' w pc isBadCon ht hw =>
    have hleave : (s.leave t').calls.lookup t = s.calls.lookup t := Finmap.lookup_erase_ne hne
    have hnew : t ≠ w := by
      rintro rfl
      exact hwait (by rw [← hleave, hw])
    exact (Finmap.lookup_insert_of_ne _ hnew).trans hleave

/-- A thread in `release` in front of the mutex stays there until its own critical section. -/
theorem releaseLock_of_step {a : PoolAction Env Conn Tid} {r : PoolReply Conn}
    (h : (machine base poolMaxDbCons).step s a = some (r, s')) {t : Tid} {pc : Conn} {isBadCon : Bool}
    (ht : s.calls.lookup t = some (.releaseLock pc isBadCon)) :
    s'.calls.lookup t = some (.releaseLock pc isBadCon) ∨ s'.pool = s.pool.releaseConn base pc isBadCon := by
  by_cases ha : t = actor a
  · right
    subst ha
    cases step_cases h with
    | callGrab _ h₀ => exact nomatch ht.symm.trans h₀
    | wait _ _ h₀ => exact h₀.elim (fun h₀ => nomatch ht.symm.trans h₀) (fun h₀ => nomatch ht.symm.trans h₀)
    | take _ _ _ _ h₀ => exact h₀.elim (fun h₀ => nomatch ht.symm.trans h₀) (fun h₀ => nomatch ht.symm.trans h₀)
    | wakeUp _ h₀ => exact nomatch ht.symm.trans h₀
    | throw _ _ h₀ => exact nomatch ht.symm.trans h₀
    | returnGrab _ _ h₀ => exact nomatch ht.symm.trans h₀
    | callRelease _ _ _ h₀ => exact nomatch ht.symm.trans h₀
    | release _ _ _ h₀ =>
      cases ht.symm.trans h₀
      rfl
    | releaseNotify _ _ _ _ h₀ =>
      cases ht.symm.trans h₀
      rfl
  · left
    rw [lookup_of_step h ha (by rw [ht]; exact nofun), ht]

/-- What a `grab` gives its caller it has had since its critical section. -/
theorem grabCharset_of_grabbed {a : PoolAction Env Conn Tid} {pc : Option Conn}
    (h : (machine base poolMaxDbCons).step s a = some (.grabbed pc, s')) :
    ∃ t, s.calls.lookup t = some (.grabCharset pc) := by
  cases step_cases h with
  | returnGrab t _ ht => exact ⟨t, ht⟩

/-- What a step does to the pool and to the connections handed out: a `grab` takes one, a `grab` that throws loses one and leaves the
pool as it is, a `release` gives one back, and nothing else moves a connection. -/
theorem step_moves {a : PoolAction Env Conn Tid} {r : PoolReply Conn}
    (h : (machine base poolMaxDbCons).step s a = some (r, s')) :
    (∃ t env pc, a = .grabLock t env ∧ r = .running ∧ s.pool.mConnsInUse ≤ poolMaxDbCons ∧
        s.pool.grabConn base env = (some pc, s'.pool) ∧
        ∀ q, s'.handedOutOf q = s.handedOutOf q + (if q pc then 1 else 0)) ∨
      (r ≠ .threw ∧ r ≠ .released ∧ (s'.pool = s.pool ∨ ∃ env, s.pool.grabConn base env = (none, s'.pool)) ∧
        ∀ q, s'.handedOutOf q = s.handedOutOf q) ∨
      (∃ t pc, a = .grabCharset t true ∧ r = .threw ∧ s'.pool = s.pool ∧
        ∀ q, s'.handedOutOf q + (if q pc then 1 else 0) = s.handedOutOf q) ∨
      (∃ t n pc isBadCon, a = .releaseLock t n ∧ r = .released ∧ s'.pool = s.pool.releaseConn base pc isBadCon ∧
        s.calls.lookup t = some (.releaseLock pc isBadCon) ∧
        ∀ q, s'.handedOutOf q + (if q pc then 1 else 0) = s.handedOutOf q) := by
  cases step_cases h with
  | callGrab t ht =>
    refine Or.inr (Or.inl ⟨nofun, nofun, Or.inl rfl, fun q => ?_⟩)
    rw [handedOutOf, count_goto_of_none ht]
    rfl
  | wait t env ht _ =>
    refine Or.inr (Or.inl ⟨nofun, nofun, Or.inl rfl, fun q => ?_⟩)
    rw [handedOutOf, count_goto_of_atGrabLock ht]
    rfl
  | take t env pc pool ht hmax hgrab =>
    have hcount := handedOutOf_take ht pc pool
    cases pc with
    | none => exact Or.inr (Or.inl ⟨nofun, nofun, Or.inr ⟨env, hgrab⟩, hcount⟩)
    | some pc => exact Or.inl ⟨t, env, pc, rfl, rfl, hmax, hgrab, hcount⟩
  | wakeUp t ht =>
    refine Or.inr (Or.inl ⟨nofun, nofun, Or.inl rfl, fun q => ?_⟩)
    exact congrArg (· + s.held.countP q) (count_goto_of_some ht (hasConnOf q) .grabWoken)
  | throw t pc ht hset =>
    cases pc with
    | none => cases hset
    | some pc =>
      refine Or.inr (Or.inr (Or.inl ⟨t, pc, rfl, rfl, rfl, fun q => ?_⟩))
      have hcount : (s.leave t).calls.count (hasConnOf q) + (if q pc then 1 else 0) = s.calls.count (hasConnOf q) :=
        count_leave ht (hasConnOf q)
      rw [handedOutOf, handedOutOf, ← hcount, held_leave]
      omega
  | returnGrab t pc ht =>
    refine Or.inr (Or.inl ⟨nofun, nofun, Or.inl rfl, fun q => ?_⟩)
    have hcount := count_leave ht (hasConnOf q)
    show (s.leave t).calls.count (hasConnOf q) + (pc.toList ++ s.held).countP q = s.handedOutOf q
    rw [handedOutOf, ← hcount, List.countP_append]
    cases pc with
    | none => simp [hasConnOf, connOf]
    | some pc =>
      rw [Option.toList_some, List.countP_singleton, hasConnOf, connOf, Option.any_some]
      omega
  | callRelease t pc isBadCon ht hheld =>
    refine Or.inr (Or.inl ⟨nofun, nofun, Or.inl rfl, fun q => ?_⟩)
    have hcount : (s.goto t (.releaseLock pc isBadCon)).calls.count (hasConnOf q) =
        s.calls.count (hasConnOf q) + (if q pc then 1 else 0) := count_goto_of_none ht (hasConnOf q) _
    have hsplit := (List.perm_cons_erase hheld).countP_eq q
    rw [List.countP_cons] at hsplit
    show (s.goto t (.releaseLock pc isBadCon)).calls.count (hasConnOf q) + (s.held.erase pc).countP q = s.handedOutOf q
    rw [hcount, handedOutOf, hsplit]
    omega
  | release t pc isBadCon ht _ =>
    refine Or.inr (Or.inr (Or.inr ⟨t, none, pc, isBadCon, rfl, rfl, rfl, ht, fun q => ?_⟩))
    have hcount : (s.leave t).calls.count (hasConnOf q) + (if q pc then 1 else 0) = s.calls.count (hasConnOf q) :=
      count_leave ht (hasConnOf q)
    show (s.leave t).calls.count (hasConnOf q) + s.held.countP q + (if q pc then 1 else 0) = s.handedOutOf q
    rw [handedOutOf, ← hcount]
    omega
  | releaseNotify t w pc isBadCon ht hw =>
    refine Or.inr (Or.inr (Or.inr ⟨t, some w, pc, isBadCon, rfl, rfl, rfl, ht, fun q => ?_⟩))
    have hcount : (s.leave t).calls.count (hasConnOf q) + (if q pc then 1 else 0) = s.calls.count (hasConnOf q) :=
      count_leave ht (hasConnOf q)
    have hwoken : ((s.leave t).goto w .grabWoken).calls.count (hasConnOf q) = (s.leave t).calls.count (hasConnOf q) :=
      count_goto_of_some hw (hasConnOf q) _
    show ((s.leave t).goto w .grabWoken).calls.count (hasConnOf q) + s.held.countP q + (if q pc then 1 else 0) =
      s.handedOutOf q
    rw [hwoken, handedOutOf, ← hcount]
    omega

/-- What a step does to the counter and to the connections handed out: a `grab` counts the connection it takes, one that throws loses
its connection without counting it back, a `release` counts its connection back, and nothing else changes either. -/
theorem step_accounts {a : PoolAction Env Conn Tid} {r : PoolReply Conn}
    (h : (machine base poolMaxDbCons).step s a = some (r, s')) :
    (∃ t env pc, a = .grabLock t env ∧ r = .running ∧ s.pool.mConnsInUse ≤ poolMaxDbCons ∧
        (base.grab s.pool.base env).1 = some pc ∧ s'.pool.mConnsInUse = s.pool.mConnsInUse + 1 ∧ s'.handedOut = s.handedOut + 1) ∨
      (r ≠ .threw ∧ s'.pool.mConnsInUse = s.pool.mConnsInUse ∧ s'.handedOut = s.handedOut) ∨
      (r = .threw ∧ s'.pool.mConnsInUse = s.pool.mConnsInUse ∧ s'.handedOut + 1 = s.handedOut) ∨
      (r = .released ∧ s'.pool.mConnsInUse = s.pool.mConnsInUse - 1 ∧ s'.handedOut + 1 = s.handedOut) := by
  rw [handedOut_eq, handedOut_eq]
  rcases step_moves h with ⟨t, env, pc, rfl, rfl, hmax, hgrab, hout⟩ | ⟨hthrew, -, hpool, hout⟩ |
    ⟨t, pc, rfl, rfl, hpool, hout⟩ | ⟨t, n, pc, isBadCon, rfl, rfl, hpool, -, hout⟩
  · have hconns := DatabaseConnectionPool.mConnsInUse_of_grabConn hgrab
    exact Or.inl ⟨t, env, pc, rfl, rfl, hmax, congrArg Prod.fst (DatabaseConnectionPool.grab_of_grabConn hgrab), hconns, hout _⟩
  · refine Or.inr (Or.inl ⟨hthrew, ?_, hout _⟩)
    rcases hpool with hpool | ⟨env, hgrab⟩
    · rw [hpool]
    · have hconns := DatabaseConnectionPool.mConnsInUse_of_grabConn hgrab
      rw [hconns]
      exact Int.add_zero _
  · exact Or.inr (Or.inr (Or.inl ⟨rfl, by rw [hpool], hout _⟩))
  · exact Or.inr (Or.inr (Or.inr ⟨rfl, by rw [hpool]; rfl, hout _⟩))

/-- No step changes the charset of the pool. -/
theorem mDbDefaultCharset_of_step {a : PoolAction Env Conn Tid} {r : PoolReply Conn}
    (h : (machine base poolMaxDbCons).step s a = some (r, s')) : s'.pool.mDbDefaultCharset = s.pool.mDbDefaultCharset := by
  rcases step_moves h with ⟨_, _, _, -, -, -, hgrab, -⟩ | ⟨-, -, hpool, -⟩ | ⟨_, _, -, -, hpool, -⟩ |
    ⟨_, _, _, _, -, -, hpool, -⟩
  · exact DatabaseConnectionPool.mDbDefaultCharset_of_grabConn hgrab
  · rcases hpool with hpool | ⟨env, hgrab⟩
    · rw [hpool]
    · exact DatabaseConnectionPool.mDbDefaultCharset_of_grabConn hgrab
  · rw [hpool]
  · rw [hpool]
    rfl

end PoolState

end FrontServer
