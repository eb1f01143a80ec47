import FrontServer.DatabaseCallers
import FrontServer.Lemmas.ConnectionPool

/-!
# What a step of a caller does

`Step` lists the steps of the threads, with what each needs. The pool knows of a thread just what its place says (`Placed`), and the
connections held are those of the callers under `try` (`Held`); the pool that the callers share makes a run of its own
(`exists_pool_run`).
-/

namespace FrontServer

variable {σ Env Conn Tid : Type}

namespace PoolState

variable [DecidableEq Conn] [DecidableEq Tid] {base : ConnectionPool σ Env Conn} {poolMaxDbCons : Int} {s s' : PoolState σ Conn Tid}

/-- The steps of the pool, for a step taken from outside of its machine. -/
theorem cases_of_step {a : PoolAction Env Conn Tid} {r : PoolReply Conn} (h : s.step base poolMaxDbCons a = some (r, s')) :
    Step base poolMaxDbCons s a r s' :=
  step_cases h

/-- The call is one of `grab`. -/
def inGrab : PoolCall Conn → Bool
  | .releaseLock _ _ => false
  | _ => true

/-- The function of the pool that a thread is in after a step. -/
def phaseAfter : PoolAction Env Conn Tid → Option Bool
  | .callGrab _ | .grabLock _ _ | .wakeUp _ => some true
  | .callRelease _ _ _ => some false
  | .grabCharset _ _ | .releaseLock _ _ => none

/-- A step leaves every other thread where it is, or wakes it from the wait. -/
theorem others_of_step {a : PoolAction Env Conn Tid} {r : PoolReply Conn} (h : s.step base poolMaxDbCons a = some (r, s')) {t : Tid}
    (hne : t ≠ actor a) :
    s'.calls.lookup t = s.calls.lookup t ∨ s.calls.lookup t = some .grabWait ∧ s'.calls.lookup t = some .grabWoken := by
  cases cases_of_step h with
  | callGrab => exact Or.inl (Finmap.lookup_insert_of_ne _ hne)
  | wait => exact Or.inl (Finmap.lookup_insert_of_ne _ hne)
  | take => exact Or.inl (Finmap.lookup_insert_of_ne _ hne)
  | wakeUp => exact Or.inl (Finmap.lookup_insert_of_ne _ hne)
  | throw => exact Or.inl (Finmap.lookup_erase_ne hne)
  | returnGrab => exact Or.inl (Finmap.lookup_erase_ne hne)
  | callRelease => exact Or.inl (Finmap.lookup_insert_of_ne _ hne)
  | release => exact Or.inl (Finmap.lookup_erase_ne hne)
  | releaseNotify t' w pc isBadCon ht hw =>
    by_cases he : t = w
    · subst he
      exact Or.inr ⟨(Finmap.lookup_erase_ne hne).symm.trans hw, Finmap.lookup_insert _⟩
    · exact Or.inl ((Finmap.lookup_insert_of_ne _ he).trans (Finmap.lookup_erase_ne hne))

/-- A step changes which function its thread is in, and that of no other. -/
theorem phase_of_step {a : PoolAction Env Conn Tid} {r : PoolReply Conn} (h : s.step base poolMaxDbCons a = some (r, s')) (t : Tid) :
    (s'.calls.lookup t).map inGrab = if t = actor a then phaseAfter a else (s.calls.lookup t).map inGrab := by
  by_cases hactor : t = actor a
  · rw [if_pos hactor, hactor]
    cases cases_of_step h with
    | callGrab => exact congrArg _ (Finmap.lookup_insert _)
    | wait => exact congrArg _ (Finmap.lookup_insert _)
    | take => exact congrArg _ (Finmap.lookup_insert _)
    | wakeUp => exact congrArg _ (Finmap.lookup_insert _)
    | throw => exact congrArg _ (Finmap.lookup_erase _ _)
    | returnGrab => exact congrArg _ (Finmap.lookup_erase _ _)
    | callRelease => exact congrArg _ (Finmap.lookup_insert _)
    | release => exact congrArg _ (Finmap.lookup_erase _ _)
    | releaseNotify t w pc isBadCon ht hw =>
      have hne : t ≠ w := by
        rintro rfl
        cases (Finmap.lookup_erase _ _).symm.trans hw
      exact congrArg _ ((Finmap.lookup_insert_of_ne _ hne).trans (Finmap.lookup_erase _ _))
  · rw [if_neg hactor]
    rcases others_of_step h hactor with hsame | ⟨hwait, hwoken⟩
    · rw [hsame]
    · rw [hwait, hwoken]
      rfl

/-- A thread that takes the mutex in `grab`, or is woken, is in `grab`. -/
theorem inGrab_of_step {a : PoolAction Env Conn Tid} {r : PoolReply Conn} (h : s.step base poolMaxDbCons a = some (r, s')) {t : Tid}
    (ha : (∃ env, a = .grabLock t env) ∨ a = .wakeUp t) : (s.calls.lookup t).map inGrab = some true := by
  have hlock : s.AtGrabLock t → (s.calls.lookup t).map inGrab = some true := by
    rintro (ht | ht)
    · rw [ht]
      rfl
    · rw [ht]
      rfl
  rcases ha with ⟨env, rfl⟩ | rfl
  · cases cases_of_step h with
    | wait _ _ ht => exact hlock ht
    | take _ _ _ _ ht => exact hlock ht
  · cases cases_of_step h with
    | wakeUp _ ht =>
      rw [ht]
      rfl

/-- What a step does to the connections that callers hold. -/
theorem held_of_step {a : PoolAction Env Conn Tid} {r : PoolReply Conn} (h : s.step base poolMaxDbCons a = some (r, s')) :
    (∃ t pc, a = .grabCharset t false ∧ r = .grabbed pc ∧ s'.held = pc.toList ++ s.held) ∨
      (∃ t pc isBadCon, a = .callRelease t pc isBadCon ∧ r = .running ∧ pc ∈ s.held ∧ s'.held = s.held.erase pc) ∨
      (∀ t, a ≠ .grabCharset t false) ∧ (∀ t pc isBadCon, a ≠ .callRelease t pc isBadCon) ∧ s'.held = s.held := by
  cases step_cases h with
  | returnGrab t pc => exact Or.inl ⟨t, pc, rfl, rfl, rfl⟩
  | callRelease t pc isBadCon _ hheld => exact Or.inr (Or.inl ⟨t, pc, isBadCon, rfl, rfl, hheld, rfl⟩)
  | throw =>
    refine Or.inr (Or.inr ⟨fun t h => ?_, fun t pc isBadCon h => ?_, rfl⟩)
    · cases h
    · cases h
  | _ =>
    refine Or.inr (Or.inr ⟨fun t h => ?_, fun t pc isBadCon h => ?_, rfl⟩)
    · cases h
    · cases h

end PoolState

/-! ## Callers -/

namespace Caller

/-- The function of the pool that a caller is in. -/
def phase (c : Caller Conn) : Option Bool :=
  match c.place with
  | .grab => some true
  | .release _ => some false
  | _ => none

/-- A caller has a connection of a kind under `try`. -/
def usesOf (q : Conn → Bool) (c : Caller Conn) : Bool :=
  match c.place with
  | .inTry pcon _ => q pcon.conn
  | _ => false

/-- A caller has a connection under `try`. -/
def uses [DecidableEq Conn] (conn : Conn) (c : Caller Conn) : Bool := c.usesOf fun pc => pc = conn

theorem uses_iff [DecidableEq Conn] {c : Caller Conn} {conn : Conn} :
    c.uses conn = true ↔ ∃ pcon sent, c.place = .inTry pcon sent ∧ pcon.conn = conn := by
  unfold uses usesOf
  cases c.place with
  | inTry pcon sent => simp
  | _ => simp

end Caller

namespace ConnectorState

variable [DecidableEq Tid]

/-! ## What the pool knows of the callers -/

/-- The pool knows of every thread the function of the pool that its place says it is in. -/
def Placed (s : ConnectorState σ Conn Tid) : Prop :=
  ∀ t, (s.pool.calls.lookup t).map PoolState.inGrab = (s.callers.lookup t).bind Caller.phase

variable {s : ConnectorState σ Conn Tid}

/-- A thread comes to a place, and the pool knows of it. -/
theorem Placed.goto (hs : s.Placed) {pool : PoolState σ Conn Tid} {t : Tid} {c : Caller Conn}
    (hphase : ∀ t', (pool.calls.lookup t').map PoolState.inGrab =
      if t' = t then c.phase else (s.pool.calls.lookup t').map PoolState.inGrab) : (s.goto pool t c).Placed := by
  intro t'
  unfold ConnectorState.goto
  dsimp only
  rw [hphase]
  by_cases ht : t' = t
  · subst ht
    rw [if_pos rfl, Finmap.lookup_insert]
    rfl
  · rw [if_neg ht, hs t', Finmap.lookup_insert_of_ne _ ht]

/-- A thread leaves, and the pool knows of it. -/
theorem Placed.erase (hs : s.Placed) {pool : PoolState σ Conn Tid} {t : Tid}
    (hphase : ∀ t', (pool.calls.lookup t').map PoolState.inGrab =
      if t' = t then none else (s.pool.calls.lookup t').map PoolState.inGrab) :
    Placed { pool := pool, callers := s.callers.erase t } := by
  intro t'
  dsimp only
  rw [hphase]
  by_cases ht : t' = t
  · subst ht
    rw [if_pos rfl, Finmap.lookup_erase]
    rfl
  · rw [if_neg ht, hs t', Finmap.lookup_erase_ne ht]

/-- A thread that the pool does not know of stays unknown to it. -/
theorem Placed.unknown (hs : s.Placed) {t : Tid} (h : (s.callers.lookup t).bind Caller.phase = none) (t' : Tid) :
    (s.pool.calls.lookup t').map PoolState.inGrab = if t' = t then none else (s.pool.calls.lookup t').map PoolState.inGrab := by
  by_cases ht : t' = t
  · subst ht
    rw [if_pos rfl, hs t', h]
  · rw [if_neg ht]

/-- The connections that are held are those of the callers under `try`. -/
def Held (s : ConnectorState σ Conn Tid) : Prop := ∀ q, s.pool.held.countP q = s.callers.count (Caller.usesOf q)

/-- A thread comes to a place, with a connection more or less under `try`. -/
theorem Held.goto (hs : s.Held) {pool : PoolState σ Conn Tid} {t : Tid} {c : Caller Conn}
    (h : ∀ q, pool.held.countP q + (if (s.callers.lookup t).any (Caller.usesOf q) then 1 else 0) =
      s.pool.held.countP q + (if c.usesOf q then 1 else 0)) : (s.goto pool t c).Held := by
  intro q
  have hcount := Threads.count_insert (Caller.usesOf q) s.callers t c
  have hq := h q
  have hold := hs q
  change pool.held.countP q = Threads.count (Caller.usesOf q) (s.callers.insert t c)
  omega

/-- A thread leaves that has no connection under `try`. -/
theorem Held.erase (hs : s.Held) {pool : PoolState σ Conn Tid} {t : Tid} (hpool : pool.held = s.pool.held)
    (h : ∀ q, (s.callers.lookup t).any (Caller.usesOf q) = false) : Held { pool := pool, callers := s.callers.erase t } := by
  intro q
  have hcount := Threads.count_erase (Caller.usesOf q) s.callers t
  rw [h q] at hcount
  change pool.held.countP q = Threads.count (Caller.usesOf q) (s.callers.erase t)
  rw [hpool, hs q, ← hcount]
  rfl

/-- A thread in `grab` has no connection under `try`. -/
theorem Placed.not_uses (hs : s.Placed) {t : Tid} {k : PoolCall Conn} (h : s.pool.calls.lookup t = some k) (q : Conn → Bool) :
    (s.callers.lookup t).any (Caller.usesOf q) = false := by
  have hphase := hs t
  rw [h] at hphase
  cases hc : s.callers.lookup t with
  | none => rfl
  | some c =>
    rw [hc, Option.bind_some] at hphase
    unfold Caller.phase at hphase
    rw [Option.any_some]
    unfold Caller.usesOf
    cases hplace : c.place with
    | inTry pcon sent =>
      rw [hplace] at hphase
      cases hphase
    | _ => rfl

/-! ## Steps -/

variable [DecidableEq Conn]

/-- The steps of the threads, with what each needs. -/
inductive Step (base : ConnectionPool σ Env Conn) (poolMaxDbCons : Int) (dbRetryTime : Nat) (s : ConnectorState σ Conn Tid) :
    ConnectorAction Env Tid → ConnectorReply Conn Tid → ConnectorState σ Conn Tid → Prop
  | call (t : Tid) (op : DatabaseConnector.Operation) : s.callers.lookup t = none →
    Step base poolMaxDbCons dbRetryTime s (.call t op) .running (s.goto s.pool t (Caller.start op dbRetryTime))
  | exhausted (t : Tid) (c : Caller Conn) : s.callers.lookup t = some c → c.place = .loop → c.retryTime = 0 →
    Step base poolMaxDbCons dbRetryTime s (.turn t) .running (s.goto s.pool t { c with place := .return false })
  | callGrab (t : Tid) (c : Caller Conn) (r : PoolReply Conn) (pool : PoolState σ Conn Tid) : s.callers.lookup t = some c →
    c.place = .loop → c.retryTime ≠ 0 → s.pool.step base poolMaxDbCons (.callGrab t) = some (r, pool) →
    Step base poolMaxDbCons dbRetryTime s (.turn t) .running (s.goto pool t { c with retryTime := c.retryTime - 1, place := .grab })
  | grabLock (t : Tid) (env : Env) (r : PoolReply Conn) (pool : PoolState σ Conn Tid) :
    s.pool.step base poolMaxDbCons (.grabLock t env) = some (r, pool) →
    Step base poolMaxDbCons dbRetryTime s (.grabLock t env) .running { s with pool := pool }
  | wakeUp (t : Tid) (r : PoolReply Conn) (pool : PoolState σ Conn Tid) :
    s.pool.step base poolMaxDbCons (.wakeUp t) = some (r, pool) →
    Step base poolMaxDbCons dbRetryTime s (.wakeUp t) .running { s with pool := pool }
  | throws (t : Tid) (c : Caller Conn) (r : PoolReply Conn) (pool : PoolState σ Conn Tid) : s.callers.lookup t = some c →
    s.pool.step base poolMaxDbCons (.grabCharset t true) = some (r, pool) →
    Step base poolMaxDbCons dbRetryTime s (.grabThrows t) (.threw t c) { pool := pool, callers := s.callers.erase t }
  | grabReturns (t : Tid) (c : Caller Conn) (got : Option (Connection Conn)) (pool : PoolState σ Conn Tid) (connected : Bool)
      (outcome : Nat → StatementOutcome) : s.callers.lookup t = some c →
    s.pool.step base poolMaxDbCons (.grabCharset t false) = some (.grabbed (got.map Connection.conn), pool) →
    Step base poolMaxDbCons dbRetryTime s (.grabReturns t connected outcome) (.called t (.grab (got.map Connection.conn)))
      (s.goto pool t (c.grabbed got))
  | statement (t : Tid) (c : Caller Conn) (pcon : Connection Conn) (sent : Nat) (stmt : Statement) : s.callers.lookup t = some c →
    c.place = .inTry pcon sent → (c.op.sent pcon)[sent]? = some stmt →
    Step base poolMaxDbCons dbRetryTime s (.statement t) (.called t (.statement pcon.conn stmt (pcon.outcome sent).applied))
      (s.goto s.pool t (c.did (.statement pcon.conn stmt (pcon.outcome sent).applied) (.inTry pcon (sent + 1))))
  | callRelease (t : Tid) (c : Caller Conn) (pcon : Connection Conn) (r : PoolReply Conn) (pool : PoolState σ Conn Tid) :
    s.callers.lookup t = some c → c.place = .inTry pcon (c.op.sent pcon).length →
    s.pool.step base poolMaxDbCons (.callRelease t pcon.conn (!c.op.succeeds pcon)) = some (r, pool) →
    Step base poolMaxDbCons dbRetryTime s (.callRelease t) (.called t (.release pcon.conn (!c.op.succeeds pcon)))
      (s.goto pool t (c.did (.release pcon.conn (!c.op.succeeds pcon)) (.release (c.op.verdict (some pcon)))))
  | released (t : Tid) (c : Caller Conn) (verdict : Option Bool) (notified : Option Tid) (r : PoolReply Conn)
      (pool : PoolState σ Conn Tid) : s.callers.lookup t = some c → c.place = .release verdict →
    s.pool.step base poolMaxDbCons (.releaseLock t notified) = some (r, pool) →
    Step base poolMaxDbCons dbRetryTime s (.releaseLock t notified) .running (s.goto pool t (c.released verdict))
  | leave (t : Tid) (c : Caller Conn) (ret : Bool) : s.callers.lookup t = some c → c.place = .return ret →
    Step base poolMaxDbCons dbRetryTime s (.leave t) (.returned t c ret) { s with callers := s.callers.erase t }

variable {base : ConnectionPool σ Env Conn} {poolMaxDbCons : Int} {dbRetryTime : Nat} {s' : ConnectorState σ Conn Tid}

/-- The model takes these steps and no others. -/
theorem step_cases {a : ConnectorAction Env Tid} {r : ConnectorReply Conn Tid}
    (h : (machine base poolMaxDbCons dbRetryTime).step s a = some (r, s')) : Step base poolMaxDbCons dbRetryTime s a r s' := by
  simp only [machine, step] at h
  split at h
  · rename_i c hc
    cases a with
    | call t op => cases h
    | turn t =>
      simp only [stepCaller, actor] at h
      split at h
      · rename_i hplace
        split at h
        · rename_i hzero
          cases h
          exact Step.exhausted t c hc hplace hzero
        · rename_i hzero
          obtain ⟨⟨r', pool⟩, hpool, he⟩ := Option.map_eq_some_iff.mp h
          cases he
          exact Step.callGrab t c r' pool hc hplace hzero hpool
      · cases h
    | grabLock t env =>
      obtain ⟨⟨r', pool⟩, hpool, he⟩ := Option.map_eq_some_iff.mp h
      cases he
      exact Step.grabLock t env r' pool hpool
    | wakeUp t =>
      obtain ⟨⟨r', pool⟩, hpool, he⟩ := Option.map_eq_some_iff.mp h
      cases he
      exact Step.wakeUp t r' pool hpool
    | grabThrows t =>
      obtain ⟨⟨r', pool⟩, hpool, he⟩ := Option.map_eq_some_iff.mp h
      cases he
      exact Step.throws t c r' pool hc hpool
    | grabReturns t connected outcome =>
      simp only [stepCaller, actor] at h
      split at h
      · rename_i pc pool hpool
        cases h
        have hconn : (pc.map fun conn => ({ conn := conn, connected := connected, outcome := outcome } : Connection Conn)).map
            Connection.conn = pc := by cases pc <;> rfl
        have hstep : Step base poolMaxDbCons dbRetryTime s _ _ _ := Step.grabReturns t c
          (pc.map fun conn => { conn := conn, connected := connected, outcome := outcome }) pool connected outcome hc
          (by rw [hconn]; exact hpool)
        rw [hconn] at hstep
        exact hstep
      · cases h
    | statement t =>
      simp only [stepCaller, actor] at h
      split at h
      · rename_i pcon sent hplace
        split at h
        · rename_i stmt hstmt
          cases h
          exact Step.statement t c pcon sent stmt hc hplace hstmt
        · cases h
      · cases h
    | callRelease t =>
      simp only [stepCaller, actor] at h
      split at h
      · rename_i pcon sent hplace
        split at h
        · rename_i hsent
          subst hsent
          obtain ⟨⟨r', pool⟩, hpool, he⟩ := Option.map_eq_some_iff.mp h
          cases he
          exact Step.callRelease t c pcon r' pool hc hplace hpool
        · cases h
      · cases h
    | releaseLock t notified =>
      simp only [stepCaller, actor] at h
      split at h
      · rename_i verdict hplace
        obtain ⟨⟨r', pool⟩, hpool, he⟩ := Option.map_eq_some_iff.mp h
        cases he
        exact Step.released t c verdict notified r' pool hc hplace hpool
      · cases h
    | leave t =>
      simp only [stepCaller, actor] at h
      split at h
      · rename_i ret hplace
        cases h
        exact Step.leave t c ret hc hplace
      · cases h
  · rename_i hc
    split at h
    · rename_i t op
      cases h
      exact Step.call t op hc
    · cases h

theorem Placed.step (hs : s.Placed) {a : ConnectorAction Env Tid} {r : ConnectorReply Conn Tid}
    (h : Step base poolMaxDbCons dbRetryTime s a r s') : s'.Placed := by
  cases h with
  | call t op hc => exact hs.goto (hs.unknown (by rw [hc]; rfl))
  | exhausted t c hc hplace _ => exact hs.goto (hs.unknown (by rw [hc, Option.bind_some, Caller.phase, hplace]))
  | callGrab t c r pool hc _ _ hpool => exact hs.goto (PoolState.phase_of_step hpool)
  | grabLock t env r pool hpool =>
    intro t'
    have hphase : _ = if t' = t then some true else _ := PoolState.phase_of_step hpool t'
    rw [hphase]
    by_cases ht : t' = t
    · subst ht
      rw [if_pos rfl, ← hs t', PoolState.inGrab_of_step hpool (Or.inl ⟨env, rfl⟩)]
    · rw [if_neg ht]
      exact hs t'
  | wakeUp t r pool hpool =>
    intro t'
    have hphase : _ = if t' = t then some true else _ := PoolState.phase_of_step hpool t'
    rw [hphase]
    by_cases ht : t' = t
    · subst ht
      rw [if_pos rfl, ← hs t', PoolState.inGrab_of_step hpool (Or.inr rfl)]
    · rw [if_neg ht]
      exact hs t'
  | throws t c r pool _ hpool => exact hs.erase (PoolState.phase_of_step hpool)
  | grabReturns t c got pool connected outcome _ hpool =>
    refine hs.goto fun t' => (PoolState.phase_of_step hpool t').trans ?_
    cases got <;> rfl
  | statement t c pcon sent stmt hc hplace _ => exact hs.goto (hs.unknown (by rw [hc, Option.bind_some, Caller.phase, hplace]))
  | callRelease t c pcon r pool _ _ hpool => exact hs.goto (PoolState.phase_of_step hpool)
  | released t c verdict notified r pool _ _ hpool =>
    refine hs.goto fun t' => (PoolState.phase_of_step hpool t').trans ?_
    cases verdict <;> rfl
  | leave t c ret hc hplace => exact hs.erase (hs.unknown (by rw [hc, Option.bind_some, Caller.phase, hplace]))

/-- A step of the pool that neither ends a `grab` nor begins a `release` leaves the connections held as they are. -/
theorem held_of_pool_step {p p' : PoolState σ Conn Tid} {a : PoolAction Env Conn Tid} {r : PoolReply Conn}
    (h : p.step base poolMaxDbCons a = some (r, p')) (hgrab : ∀ t, a ≠ .grabCharset t false)
    (hrelease : ∀ t pc isBadCon, a ≠ .callRelease t pc isBadCon) : p'.held = p.held := by
  rcases PoolState.held_of_step h with ⟨t, -, ha, -⟩ | ⟨t, pc, isBadCon, ha, -⟩ | ⟨-, -, he⟩
  · exact absurd ha (hgrab t)
  · exact absurd ha (hrelease t pc isBadCon)
  · exact he

theorem Held.step (hs : s.Held) (hplaced : s.Placed) {a : ConnectorAction Env Tid} {r : ConnectorReply Conn Tid}
    (h : Step base poolMaxDbCons dbRetryTime s a r s') : s'.Held := by
  cases h with
  | call t op hc =>
    refine hs.goto fun q => ?_
    rw [hc]
    rfl
  | exhausted t c hc hplace _ =>
    refine hs.goto fun q => ?_
    rw [hc, Option.any_some, Caller.usesOf, hplace]
    rfl
  | callGrab t c r pool hc hplace _ hpool =>
    have hheld := held_of_pool_step hpool (fun t h => by cases h) (fun t pc isBadCon h => by cases h)
    refine hs.goto fun q => ?_
    rw [hheld, hc, Option.any_some, Caller.usesOf, hplace]
    rfl
  | grabLock t env r pool hpool =>
    have hheld := held_of_pool_step hpool (fun t h => by cases h) (fun t pc isBadCon h => by cases h)
    intro q
    exact (congrArg (List.countP q) hheld).trans (hs q)
  | wakeUp t r pool hpool =>
    have hheld := held_of_pool_step hpool (fun t h => by cases h) (fun t pc isBadCon h => by cases h)
    intro q
    exact (congrArg (List.countP q) hheld).trans (hs q)
  | throws t c r pool hc hpool =>
    have hheld := held_of_pool_step hpool (fun t h => by cases h) (fun t pc isBadCon h => by cases h)
    refine hs.erase hheld fun q => ?_
    cases PoolState.cases_of_step hpool with
    | throw _ pc ht _ => exact hplaced.not_uses ht q
  | grabReturns t c got pool connected outcome hc hpool =>
    refine hs.goto fun q => ?_
    cases PoolState.cases_of_step hpool with
    | returnGrab _ pc ht =>
      rw [hplaced.not_uses ht q]
      cases got with
      | none => rfl
      | some pcon =>
        change (pcon.conn :: s.pool.held).countP q + 0 = s.pool.held.countP q + if q pcon.conn then 1 else 0
        rw [List.countP_cons, Nat.add_zero]
  | statement t c pcon sent stmt hc hplace _ =>
    refine hs.goto fun q => ?_
    rw [hc, Option.any_some, Caller.usesOf, hplace]
    rfl
  | callRelease t c pcon r pool hc hplace hpool =>
    refine hs.goto fun q => ?_
    cases PoolState.cases_of_step hpool with
    | callRelease _ pc isBadCon _ hheld =>
      have hcount := (List.perm_cons_erase hheld).countP_eq q
      rw [List.countP_cons] at hcount
      rw [hc, Option.any_some, Caller.usesOf, hplace]
      exact hcount.symm
  | released t c verdict notified r pool hc hplace hpool =>
    have hheld := held_of_pool_step hpool (fun t h => by cases h) (fun t pc isBadCon h => by cases h)
    refine hs.goto fun q => ?_
    rw [hheld, hc, Option.any_some, Caller.usesOf, hplace]
    cases verdict <;> simp [Caller.released, Caller.usesOf]
  | leave t c ret hc hplace =>
    refine hs.erase rfl fun q => ?_
    rw [hc, Option.any_some, Caller.usesOf, hplace]

/-! ## The run of the pool -/

/-- A thread's exception. -/
def isThrew : ConnectorReply Conn Tid → Bool
  | .threw _ _ => true
  | _ => false

/-- A step of the threads is a step of the pool or leaves it as it is, and throws if the pool does. -/
theorem pool_of_step {a : ConnectorAction Env Tid} {r : ConnectorReply Conn Tid} (h : Step base poolMaxDbCons dbRetryTime s a r s') :
    (s'.pool = s.pool ∧ isThrew r = false) ∨
      ∃ pa pr, s.pool.step base poolMaxDbCons pa = some (pr, s'.pool) ∧ (pr = .threw ↔ isThrew r = true) := by
  have hnever : ∀ {pa : PoolAction Env Conn Tid} {pr pool}, s.pool.step base poolMaxDbCons pa = some (pr, pool) →
      (∀ t, pa ≠ .grabCharset t true) → pr ≠ .threw := by
    intro pa pr pool hpool hne hthrew
    subst hthrew
    cases PoolState.cases_of_step hpool with
    | throw t => exact hne t rfl
  cases h with
  | call => exact Or.inl ⟨rfl, rfl⟩
  | exhausted => exact Or.inl ⟨rfl, rfl⟩
  | callGrab t c r pool _ _ _ hpool =>
    exact Or.inr ⟨_, r, hpool, iff_of_false (hnever hpool fun t h => by cases h) Bool.false_ne_true⟩
  | grabLock t env r pool hpool =>
    exact Or.inr ⟨_, r, hpool, iff_of_false (hnever hpool fun t h => by cases h) Bool.false_ne_true⟩
  | wakeUp t r pool hpool => exact Or.inr ⟨_, r, hpool, iff_of_false (hnever hpool fun t h => by cases h) Bool.false_ne_true⟩
  | throws t c r pool _ hpool =>
    refine Or.inr ⟨_, r, hpool, iff_of_true ?_ rfl⟩
    cases PoolState.cases_of_step hpool with
    | throw => rfl
  | grabReturns t c got pool connected outcome _ hpool =>
    exact Or.inr ⟨_, _, hpool, iff_of_false (hnever hpool fun t h => by cases h) Bool.false_ne_true⟩
  | statement => exact Or.inl ⟨rfl, rfl⟩
  | callRelease t c pcon r pool _ _ hpool =>
    exact Or.inr ⟨_, r, hpool, iff_of_false (hnever hpool fun t h => by cases h) Bool.false_ne_true⟩
  | released t c verdict notified r pool _ _ hpool =>
    exact Or.inr ⟨_, r, hpool, iff_of_false (hnever hpool fun t h => by cases h) Bool.false_ne_true⟩
  | leave => exact Or.inl ⟨rfl, rfl⟩

variable {dbDefaultCharset : Bytes}

/-- The pool that the callers share makes a run of its own, in which as many `grab`s throw. -/
theorem exists_pool_run {acts : List (ConnectorAction Env Tid)} {replies : List (ConnectorReply Conn Tid)}
    (h : (machine base poolMaxDbCons dbRetryTime).run (new base dbDefaultCharset) acts = some (replies, s)) :
    ∃ pacts preplies, (PoolState.machine base poolMaxDbCons).run (PoolState.new base dbDefaultCharset) pacts = some (preplies, s.pool) ∧
      preplies.count .threw = replies.countP isThrew := by
  refine Machine.run_history (P := fun _ replies (s : ConnectorState σ Conn Tid) => ∃ pacts preplies,
    (PoolState.machine base poolMaxDbCons).run (PoolState.new base dbDefaultCharset) pacts = some (preplies, s.pool) ∧
      preplies.count .threw = replies.countP isThrew) ⟨[], [], rfl, rfl⟩ ?_ h
  rintro acts replies s a r s' - ⟨pacts, preplies, hrun, hthrew⟩ hstep
  rcases pool_of_step (step_cases hstep) with ⟨hpool, hr⟩ | ⟨pa, pr, hpool, hr⟩
  · refine ⟨pacts, preplies, by rw [hpool]; exact hrun, ?_⟩
    rw [List.countP_append, List.countP_singleton, hr, hthrew]
    rfl
  · refine ⟨pacts ++ [pa], preplies ++ [pr], Machine.run_concat_eq_some.mpr ⟨_, _, _, hrun, hpool, rfl⟩, ?_⟩
    rw [List.count_append, List.countP_append, List.countP_singleton, hthrew]
    by_cases hthrows : isThrew r = true
    · rw [hr.mpr hthrows, hthrows]
      rfl
    · rw [List.count_singleton, if_neg hthrows]
      simp only [beq_iff_eq, hr, hthrows]
      rfl

/-- In every state reached the pool knows of each thread what its place says, and the connections held are those under `try`. -/
theorem placed_held {acts : List (ConnectorAction Env Tid)} {replies : List (ConnectorReply Conn Tid)}
    (h : (machine base poolMaxDbCons dbRetryTime).run (new base dbDefaultCharset) acts = some (replies, s)) : s.Placed ∧ s.Held := by
  refine Machine.run_invariant (P := fun s : ConnectorState σ Conn Tid => s.Placed ∧ s.Held) ?_ ⟨?_, ?_⟩ h
  · intro s a r s' hs hstep
    exact ⟨hs.1.step (step_cases hstep), hs.2.step hs.1 (step_cases hstep)⟩
  · intro t
    rfl
  · intro q
    exact (Threads.count_empty _).symm

/-- Two threads do not have the same connection under `try`. -/
theorem eq_of_uses {status : σ → Conn → ConnStatus} (hlaw : base.Lawful status) {acts : List (ConnectorAction Env Tid)}
    {replies : List (ConnectorReply Conn Tid)}
    (h : (machine base poolMaxDbCons dbRetryTime).run (new base dbDefaultCharset) acts = some (replies, s)) {t t' : Tid}
    {c c' : Caller Conn} {conn : Conn} (ht : s.callers.lookup t = some c) (hc : c.uses conn = true)
    (ht' : s.callers.lookup t' = some c') (hc' : c'.uses conn = true) : t = t' := by
  obtain ⟨pacts, preplies, hrun, -⟩ := exists_pool_run h
  have hone := (PoolState.holders_le hlaw hrun conn).trans (s.pool.pool.inUse_le_one status conn)
  have hheld := (placed_held h).2 fun pc => pc = conn
  by_contra hne
  have htwo : 1 < s.callers.count (Caller.usesOf fun pc => pc = conn) := Threads.one_lt_count hne ht hc ht' hc'
  rw [PoolState.holders, PoolState.handedOutOf, hheld] at hone
  omega

end ConnectorState

end FrontServer
