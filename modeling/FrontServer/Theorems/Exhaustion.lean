import FrontServer.Theorems.PoolLimit
import FrontServer.Theorems.Serialization
import FrontServer.Theorems.Waiters

/-!
# Calls that end and calls that cannot

The pool counts the connections that callers have, and one for each `grab` that has thrown (`in_use_ledger`). As long as no more than
`pool_max_db_cons` have thrown and no wake-up was lost, the notifications of the pool bring every call in progress to its end
(`calls_can_finish`); from the next exception on no call that begins ever gets a connection or returns (`exhausted_forever`).
-/

namespace FrontServer

variable {σ Env Conn Tid : Type}

namespace ConnectorState

open DatabaseConnector PoolState

/-- At most four statements are sent in a turn. -/
theorem length_sent_le (op : Operation) (pcon : Connection Conn) : (op.sent pcon).length ≤ 4 := by
  cases op with
  | executeQueryCharset queryStr charSetName =>
    unfold Operation.sent
    dsimp only
    split
    · exact Nat.zero_le 4
    · split
      · exact Nat.le_of_ble_eq_true rfl
      · split
        · exact Nat.le_of_ble_eq_true rfl
        · split
          · exact Nat.le_of_ble_eq_true rfl
          · split <;> exact Nat.le_of_ble_eq_true rfl
  | executeQuery queryStr =>
    unfold Operation.sent
    dsimp only
    split <;> exact Nat.le_of_ble_eq_true rfl
  | execute sqlStr =>
    unfold Operation.sent
    dsimp only
    split <;> exact Nat.le_of_ble_eq_true rfl
  | escape => exact Nat.zero_le 4

variable [DecidableEq Tid] {s s' : ConnectorState σ Conn Tid}

/-! ## How far threads are from the end -/

/-- How many steps a turn has at most from a place on. -/
def stepsLeft (k : Option (PoolCall Conn)) (c : Caller Conn) : Nat :=
  match c.place, k with
  | .return _, _ => 1
  | .loop, _ => 2
  | .release _, _ => 3
  | .inTry pcon sent, _ => 4 + ((c.op.sent pcon).length - sent)
  | .grab, some (.grabCharset _) => 9
  | .grab, some .grabWait => 11
  | .grab, _ => 10

/-- The same of all turns of a thread. -/
def weight (s : ConnectorState σ Conn Tid) (t : Tid) : Nat :=
  (s.callers.lookup t).elim 0 fun c => 12 * c.retryTime + stepsLeft (s.pool.calls.lookup t) c

/-- The same of all threads. -/
def totalWeight (s : ConnectorState σ Conn Tid) : Nat := ∑ t ∈ s.callers.keys, s.weight t

/-- A step that gets one thread on and puts back no other brings all of them closer to the end. -/
theorem totalWeight_lt {t : Tid} {c : Caller Conn} (hc : s.callers.lookup t = some c) (hlt : s'.weight t < s.weight t)
    (hothers : ∀ t' ≠ t, s'.weight t' ≤ s.weight t') (hkeys : ∀ t', s'.callers.lookup t' ≠ none → s.callers.lookup t' ≠ none) :
    s'.totalWeight < s.totalWeight := by
  have hmem : ∀ {u : ConnectorState σ Conn Tid} {t' : Tid}, t' ∈ u.callers.keys ↔ u.callers.lookup t' ≠ none := by
    intro u t'
    rw [Finmap.mem_keys, ne_eq, Finmap.lookup_eq_none, not_not]
  have hsubset : s'.callers.keys ⊆ s.callers.keys := fun t' ht' => hmem.mpr (hkeys t' (hmem.mp ht'))
  have hle : ∀ t', s'.weight t' ≤ s.weight t' := by
    intro t'
    by_cases ht : t' = t
    · rw [ht]
      exact hlt.le
    · exact hothers t' ht
  calc ∑ t' ∈ s'.callers.keys, s'.weight t'
      ≤ ∑ t' ∈ s.callers.keys, s'.weight t' := Finset.sum_le_sum_of_subset hsubset
    _ < ∑ t' ∈ s.callers.keys, s.weight t' :=
        Finset.sum_lt_sum (fun t' _ => hle t') ⟨t, hmem.mpr (by rw [hc]; exact Option.some_ne_none c), hlt⟩

/-- A thread that the pool leaves where it is, or wakes, has no more steps left. -/
theorem stepsLeft_le {k k' : Option (PoolCall Conn)} (h : k' = k ∨ k = some .grabWait ∧ k' = some .grabWoken) (c : Caller Conn) :
    stepsLeft k' c ≤ stepsLeft k c := by
  rcases h with rfl | ⟨rfl, rfl⟩
  · exact Nat.le_refl _
  · unfold stepsLeft
    cases c.place with
    | grab => exact Nat.le_of_ble_eq_true rfl
    | _ => exact Nat.le_refl _

/-- A thread comes to a place with fewer steps left. -/
theorem totalWeight_goto {t : Tid} {c c' : Caller Conn} (hc : s.callers.lookup t = some c) {pool : PoolState σ Conn Tid}
    (hothers : ∀ t' ≠ t, pool.calls.lookup t' = s.pool.calls.lookup t' ∨
      s.pool.calls.lookup t' = some .grabWait ∧ pool.calls.lookup t' = some .grabWoken)
    (hlt : 12 * c'.retryTime + stepsLeft (pool.calls.lookup t) c' < 12 * c.retryTime + stepsLeft (s.pool.calls.lookup t) c) :
    (s.goto pool t c').totalWeight < s.totalWeight := by
  refine totalWeight_lt hc ?_ (fun t' ht' => ?_) (fun t' ht' => ?_)
  · unfold weight
    rw [lookup_goto, if_pos rfl, hc]
    exact hlt
  · unfold weight
    rw [lookup_goto, if_neg ht']
    cases s.callers.lookup t' with
    | none => exact Nat.le_refl _
    | some c₁ => exact Nat.add_le_add_left (stepsLeft_le (hothers t' ht') c₁) _
  · rw [lookup_goto] at ht'
    split at ht'
    · rename_i he
      rw [he, hc]
      exact Option.some_ne_none c
    · exact ht'

/-- A thread gets on in the pool. -/
theorem totalWeight_pool {t : Tid} {c : Caller Conn} (hc : s.callers.lookup t = some c) {pool : PoolState σ Conn Tid}
    (hothers : ∀ t' ≠ t, pool.calls.lookup t' = s.pool.calls.lookup t' ∨
      s.pool.calls.lookup t' = some .grabWait ∧ pool.calls.lookup t' = some .grabWoken)
    (hlt : stepsLeft (pool.calls.lookup t) c < stepsLeft (s.pool.calls.lookup t) c) :
    totalWeight { s with pool := pool } < s.totalWeight := by
  refine totalWeight_lt hc ?_ (fun t' ht' => ?_) (fun t' ht' => ht')
  · unfold weight
    rw [hc]
    exact Nat.add_lt_add_left hlt _
  · unfold weight
    cases s.callers.lookup t' with
    | none => exact Nat.le_refl _
    | some c₁ => exact Nat.add_le_add_left (stepsLeft_le (hothers t' ht') c₁) _

/-- A thread that is in the pool in front of its critical section. -/
def AtGate (s : ConnectorState σ Conn Tid) (t : Tid) : Prop :=
  s.pool.calls.lookup t = some .grabLock ∨ s.pool.calls.lookup t = some .grabWoken ∨ s.pool.calls.lookup t = some .grabWait

/-- A thread that has not come past the critical section of `grab`, and has a turn left to make. -/
inductive Starved (dbRetryTime : Nat) (s : ConnectorState σ Conn Tid) (t : Tid) : Prop
  | idle : s.callers.lookup t = none → dbRetryTime ≠ 0 → Starved dbRetryTime s t
  | loop (c : Caller Conn) : s.callers.lookup t = some c → c.place = .loop → c.retryTime ≠ 0 → Starved dbRetryTime s t
  | gate (c : Caller Conn) : s.callers.lookup t = some c → c.place = .grab → s.AtGate t → Starved dbRetryTime s t

/-- The thread whose call, return or exception a step shows. -/
def threadOf : ConnectorReply Conn Tid → Option Tid
  | .running => none
  | .called t _ => some t
  | .returned t _ _ => some t
  | .threw t _ => some t

/-- What the steps of other threads do to a thread without a connection. -/
theorem Starved.frame {dbRetryTime : Nat} {t : Tid} (hs : s.Starved dbRetryTime t) (hcallers : s'.callers.lookup t = s.callers.lookup t)
    (hcalls : s'.pool.calls.lookup t = s.pool.calls.lookup t ∨
      s.pool.calls.lookup t = some .grabWait ∧ s'.pool.calls.lookup t = some .grabWoken) : s'.Starved dbRetryTime t := by
  cases hs with
  | idle hc hzero => exact .idle (hcallers.trans hc) hzero
  | loop c hc hplace hzero => exact .loop c (hcallers.trans hc) hplace hzero
  | gate c hc hplace hgate =>
    refine .gate c (hcallers.trans hc) hplace ?_
    rcases hcalls with hsame | ⟨-, hwoken⟩
    · unfold AtGate at hgate ⊢
      rwa [hsame]
    · exact Or.inr (Or.inl hwoken)

/-- Where such a thread is, with what the pool knows of it. -/
theorem Starved.place {dbRetryTime : Nat} {t : Tid} (hs : s.Starved dbRetryTime t) (hplaced : s.Placed) :
    (s.callers.lookup t = none ∧ s.pool.calls.lookup t = none) ∨
      (∃ c, s.callers.lookup t = some c ∧ c.place = .loop ∧ c.retryTime ≠ 0 ∧ s.pool.calls.lookup t = none) ∨
        ∃ c, s.callers.lookup t = some c ∧ c.place = .grab ∧ s.AtGate t := by
  have hphase := hplaced t
  cases hs with
  | idle hc =>
    rw [hc, Option.bind_none, Option.map_eq_none_iff] at hphase
    exact Or.inl ⟨hc, hphase⟩
  | loop c hc hplace hzero =>
    rw [hc, Option.bind_some, Caller.phase, hplace, Option.map_eq_none_iff] at hphase
    exact Or.inr (Or.inl ⟨c, hc, hplace, hzero, hphase⟩)
  | gate c hc hplace hgate => exact Or.inr (Or.inr ⟨c, hc, hplace, hgate⟩)

/-- Such a thread has no connection and is not in `release`. -/
theorem Starved.place_of_lookup {dbRetryTime : Nat} {t : Tid} (hs : s.Starved dbRetryTime t) (hplaced : s.Placed) {c : Caller Conn}
    (hc : s.callers.lookup t = some c) : (c.place = .loop ∧ c.retryTime ≠ 0) ∨ c.place = .grab := by
  rcases hs.place hplaced with ⟨hnone, -⟩ | ⟨c', hc', hplace, hzero, -⟩ | ⟨c', hc', hplace, -⟩
  · cases hnone.symm.trans hc
  · cases hc.symm.trans hc'
    exact Or.inl ⟨hplace, hzero⟩
  · cases hc.symm.trans hc'
    exact Or.inr hplace

/-- In the pool it is in front of the critical section of `grab`. -/
theorem Starved.grab_of_pool {dbRetryTime : Nat} {t : Tid} (hs : s.Starved dbRetryTime t) (hplaced : s.Placed) {k : PoolCall Conn}
    (hk : s.pool.calls.lookup t = some k) : (∃ c, s.callers.lookup t = some c ∧ c.place = .grab) ∧ ∀ pc, k ≠ .grabCharset pc := by
  rcases hs.place hplaced with ⟨-, hnone⟩ | ⟨c, -, -, -, hnone⟩ | ⟨c, hc, hplace, hgate⟩
  · cases hnone.symm.trans hk
  · cases hnone.symm.trans hk
  · refine ⟨⟨c, hc, hplace⟩, fun pc he => ?_⟩
    subst he
    rcases hgate with hgate | hgate | hgate
    · cases hk.symm.trans hgate
    · cases hk.symm.trans hgate
    · cases hk.symm.trans hgate

/-! ## The count of the pool -/

/-- Where no function is in progress nothing of the pool is, and no connection is held. -/
theorem quiet_of_no_callers (hplaced : s.Placed) (hheld : s.Held) (hnone : s.callers = ∅) : s.pool.calls = ∅ ∧ s.pool.held = [] := by
  constructor
  · apply Finmap.ext_lookup
    intro t
    have hphase := hplaced t
    rw [hnone, Finmap.lookup_empty, Option.bind_none, Option.map_eq_none_iff] at hphase
    rw [hphase, Finmap.lookup_empty]
  · have hcount := hheld fun _ => true
    rw [hnone, Threads.count_empty, List.countP_true] at hcount
    exact List.eq_nil_of_length_eq_zero hcount

/-- One of the waiting threads is notified, if there is one. -/
theorem exists_notifyOne (p : PoolState σ Conn Tid) : ∃ notified p', p.notifyOne notified = some p' := by
  by_cases hzero : p.calls.count isWaiting = 0
  · exact ⟨none, p, if_pos hzero⟩
  · have hwaiting : ∃ w, p.calls.lookup w = some .grabWait := by
      by_contra hno
      refine hzero (Threads.count_eq_zero.mpr fun w k hk => ?_)
      cases k with
      | grabWait => exact absurd ⟨w, hk⟩ hno
      | _ => rfl
    obtain ⟨w, hw⟩ := hwaiting
    refine ⟨some w, p.goto w .grabWoken, ?_⟩
    simp only [notifyOne, hw]

variable [DecidableEq Conn] {base : ConnectionPool σ Env Conn} {poolMaxDbCons : Int} {dbRetryTime : Nat} {dbDefaultCharset : Bytes}

/-- In every state reached the pool counts the connections that threads have, inside of it and under `try`, and one for each `grab` that
has thrown. So when no function is in progress it counts just these, and they are lost. -/
theorem in_use_ledger {acts : List (ConnectorAction Env Tid)} {replies : List (ConnectorReply Conn Tid)}
    (h : (machine base poolMaxDbCons dbRetryTime).run (new base dbDefaultCharset) acts = some (replies, s)) :
    s.pool.pool.mConnsInUse =
        s.pool.calls.count hasConn + s.callers.count (Caller.usesOf fun _ => true) + replies.countP isThrew ∧
      (s.callers = ∅ → s.pool.calls = ∅ ∧ s.pool.held = [] ∧ s.pool.pool.mConnsInUse = replies.countP isThrew) := by
  obtain ⟨hplaced, hheld⟩ := placed_held h
  obtain ⟨pacts, preplies, hrun, hthrew⟩ := exists_pool_run h
  have haccounts := mConnsInUse_eq hrun
  have hlength := hheld fun _ => true
  rw [List.countP_true] at hlength
  rw [handedOut, hthrew, hlength] at haccounts
  refine ⟨?_, fun hnone => ?_⟩
  · rw [haccounts]
    push_cast
    rfl
  · obtain ⟨hcalls, hnothing⟩ := quiet_of_no_callers hplaced hheld hnone
    refine ⟨hcalls, hnothing, ?_⟩
    rw [haccounts, hcalls, hnone, Threads.count_empty, Threads.count_empty]
    exact Int.zero_add _

/-! ## Calls that end -/

/-- A thread woken from the wait takes the mutex and loses the wake-up of the pool. -/
def LosesWakeUp (base : ConnectionPool σ Env Conn) (poolMaxDbCons : Int) (s : ConnectorState σ Conn Tid) :
    ConnectorAction Env Tid → Prop
  | .grabLock t env => PoolState.LosesWakeUp base poolMaxDbCons s.pool (.grabLock t env : PoolAction Env Conn Tid)
  | _ => False

instance (base : ConnectionPool σ Env Conn) (poolMaxDbCons : Int) (s : ConnectorState σ Conn Tid) (a : ConnectorAction Env Tid) :
    Decidable (LosesWakeUp base poolMaxDbCons s a) :=
  match a with
  | .grabLock t env =>
    inferInstanceAs (Decidable (PoolState.LosesWakeUp base poolMaxDbCons s.pool (.grabLock t env : PoolAction Env Conn Tid)))
  | .call _ _ => isFalse id
  | .turn _ => isFalse id
  | .wakeUp _ => isFalse id
  | .grabThrows _ => isFalse id
  | .grabReturns _ _ _ => isFalse id
  | .statement _ => isFalse id
  | .callRelease _ => isFalse id
  | .releaseLock _ _ => isFalse id
  | .leave _ => isFalse id

/-- A step in a call that is in progress, without an exception, and other than waking up for no reason. -/
def Finishes : ConnectorAction Env Tid → Prop
  | .call _ _ => False
  | .wakeUp _ => False
  | .grabThrows _ => False
  | _ => True

/-- The threads blocked in the pool stay covered where no wake-up is lost. -/
theorem covered_of_step (hcov : s.pool.Covered poolMaxDbCons) {a : ConnectorAction Env Tid} {r : ConnectorReply Conn Tid}
    (h : Step base poolMaxDbCons dbRetryTime s a r s') (hkeeps : ¬LosesWakeUp base poolMaxDbCons s a) :
    s'.pool.Covered poolMaxDbCons := by
  have hpool : ∀ {pa : PoolAction Env Conn Tid} {pr : PoolReply Conn} {pool : PoolState σ Conn Tid},
      s.pool.step base poolMaxDbCons pa = some (pr, pool) → ¬PoolState.LosesWakeUp base poolMaxDbCons s.pool pa →
        pool.Covered poolMaxDbCons :=
    fun hpool hkeep => (PoolState.covered_of_step hcov hpool).mpr hkeep
  cases h with
  | call => exact hcov
  | exhausted => exact hcov
  | callGrab _ _ _ _ _ _ _ hp => exact hpool hp id
  | grabLock _ _ _ _ hp => exact hpool hp hkeeps
  | wakeUp _ _ _ hp => exact hpool hp id
  | throws _ _ _ _ _ hp => exact hpool hp id
  | grabReturns _ _ _ _ _ _ _ hp => exact hpool hp id
  | statement => exact hcov
  | callRelease _ _ _ _ _ _ _ hp => exact hpool hp id
  | released _ _ _ _ _ _ _ _ hp => exact hpool hp id
  | leave => exact hcov

/-- Only a `grab` that throws shows an exception. -/
theorem not_threw_of_finishes {a : ConnectorAction Env Tid} {r : ConnectorReply Conn Tid}
    (h : Step base poolMaxDbCons dbRetryTime s a r s') (ha : Finishes a) : isThrew r = false := by
  cases h with
  | throws => exact ha.elim
  | _ => rfl

/-- So does a run of such steps. -/
theorem not_threw_of_run {acts : List (ConnectorAction Env Tid)} {replies : List (ConnectorReply Conn Tid)}
    (hacts : ∀ a ∈ acts, Finishes a) (h : (machine base poolMaxDbCons dbRetryTime).run s acts = some (replies, s')) :
    ∀ r ∈ replies, isThrew r = false := by
  induction acts generalizing s replies with
  | nil =>
    cases h
    exact List.forall_mem_nil _
  | cons a acts ih =>
    obtain ⟨ha, hacts⟩ := List.forall_mem_cons.mp hacts
    obtain ⟨r, u, replies', hstep, hrun, rfl⟩ := Machine.run_cons_eq_some.mp h
    exact List.forall_mem_cons.mpr ⟨not_threw_of_finishes (step_cases hstep) ha, ih hacts hrun⟩

/-- What is kept on the way to the end: every call is on its way through its function, as many connections are lost as before, and the
blocked threads are covered. -/
structure Recoverable (poolMaxDbCons : Int) (dbRetryTime : Nat) (lost : Nat) (s : ConnectorState σ Conn Tid) : Prop where
  placed : s.Placed
  held : s.Held
  running : s.Running dbRetryTime
  counted : s.pool.pool.mConnsInUse = s.pool.handedOut + lost
  covered : s.pool.Covered poolMaxDbCons

/-- A step on the way to the end. -/
theorem Recoverable.step {lost : Nat} (hs : s.Recoverable poolMaxDbCons dbRetryTime lost) {a : ConnectorAction Env Tid}
    {r : ConnectorReply Conn Tid} (h : Step base poolMaxDbCons dbRetryTime s a r s') (ha : Finishes a)
    (hkeeps : ¬LosesWakeUp base poolMaxDbCons s a) : s'.Recoverable poolMaxDbCons dbRetryTime lost where
  placed := hs.placed.step h
  held := hs.held.step hs.placed h
  running := hs.running.step hs.placed h
  covered := covered_of_step hs.covered h hkeeps
  counted := by
    have hcounted := hs.counted
    have hr := not_threw_of_finishes h ha
    rcases pool_of_step h with ⟨hpool, -⟩ | ⟨pa, pr, hpool, hthrew⟩
    · rw [hpool, hcounted]
    · rcases step_accounts (show (PoolState.machine base poolMaxDbCons).step s.pool pa = some (pr, s'.pool) from hpool) with
        ⟨_, _, _, -, -, -, -, hconns, hout⟩ | ⟨-, hconns, hout⟩ | ⟨hthrows, -, -⟩ | ⟨-, hconns, hout⟩
      · rw [hconns, hout, hcounted]
        push_cast
        omega
      · rw [hconns, hout, hcounted]
      · rw [hthrew.mp hthrows] at hr
        cases hr
      · rw [hconns, hcounted, ← hout]
        push_cast
        omega

/-- A thread in front of the mutex of `release` can take it. -/
theorem exists_releaseLock {p : PoolState σ Conn Tid} {t : Tid} {pc : Conn} {isBadCon : Bool}
    (ht : p.calls.lookup t = some (.releaseLock pc isBadCon)) :
    ∃ notified p', p.step base poolMaxDbCons (.releaseLock t notified) = some (.released, p') := by
  obtain ⟨notified, p', hnotify⟩ := exists_notifyOne { p.leave t with pool := p.pool.releaseConn base pc isBadCon }
  refine ⟨notified, p', ?_⟩
  simp only [PoolState.step, ht, hnotify, Option.map_some]

/-- A call somewhere else than in front of the critical section of `grab` can get on. -/
theorem progress_of_not_atGate {lost : Nat} (hs : s.Recoverable poolMaxDbCons dbRetryTime lost) {t : Tid} {c : Caller Conn}
    (hc : s.callers.lookup t = some c) (hgate : ¬s.AtGate t) :
    ∃ a r s', Finishes a ∧ ¬LosesWakeUp base poolMaxDbCons s a ∧ (machine base poolMaxDbCons dbRetryTime).step s a = some (r, s') ∧
      s'.totalWeight < s.totalWeight := by
  have hphase := hs.placed t
  have hruns := hs.running t c hc
  rw [hc, Option.bind_some] at hphase
  have hsame : ∀ t' ≠ t, s.pool.calls.lookup t' = s.pool.calls.lookup t' ∨
      s.pool.calls.lookup t' = some .grabWait ∧ s.pool.calls.lookup t' = some .grabWoken := fun _ _ => Or.inl rfl
  cases hplace : c.place with
  | «return» ret =>
    have hstep : (machine base poolMaxDbCons dbRetryTime).step s (.leave t) =
        some (.returned t c ret, { s with callers := s.callers.erase t }) := by
      simp only [machine, step, actor, hc, stepCaller, hplace]
    refine ⟨.leave t, _, _, trivial, id, hstep, totalWeight_lt hc ?_ (fun t' ht' => ?_) (fun t' ht' => ?_)⟩
    · unfold weight
      rw [Finmap.lookup_erase, hc, Option.elim_none, Option.elim_some]
      simp only [stepsLeft, hplace]
      exact Nat.succ_pos _
    · unfold weight
      rw [Finmap.lookup_erase_ne ht']
    · by_cases he : t' = t
      · rw [he, hc]
        exact Option.some_ne_none c
      · rwa [Finmap.lookup_erase_ne he] at ht'
  | loop =>
    by_cases hzero : c.retryTime = 0
    · have hstep : (machine base poolMaxDbCons dbRetryTime).step s (.turn t) =
          some (.running, s.goto s.pool t { c with place := .return false }) := by
        simp only [machine, step, actor, hc, stepCaller, hplace, hzero, if_true]
      refine ⟨.turn t, _, _, trivial, id, hstep, totalWeight_goto hc hsame ?_⟩
      simp [stepsLeft, hplace]
    · rw [Caller.phase, hplace, Option.map_eq_none_iff] at hphase
      have hpool : s.pool.step base poolMaxDbCons (.callGrab t) = some (.running, s.pool.goto t .grabLock) := by
        simp only [PoolState.step, hphase]
      have hstep : (machine base poolMaxDbCons dbRetryTime).step s (.turn t) =
          some (.running, s.goto (s.pool.goto t .grabLock) t { c with retryTime := c.retryTime - 1, place := .grab }) := by
        simp only [machine, step, actor, hc, stepCaller, hplace, hzero, if_false, hpool, Option.map_some]
      refine ⟨.turn t, _, _, trivial, id, hstep, totalWeight_goto hc (fun t' ht' => others_of_step hpool ht') ?_⟩
      have hlock : (s.pool.goto t .grabLock).calls.lookup t = some .grabLock := Finmap.lookup_insert _
      rw [hlock]
      simp only [stepsLeft, hplace]
      omega
  | inTry pcon sent =>
    rw [Caller.Runs, hplace] at hruns
    obtain ⟨-, -, -, -, hsent, -⟩ := hruns
    rw [Caller.phase, hplace, Option.map_eq_none_iff] at hphase
    by_cases hlt : sent < (c.op.sent pcon).length
    · have hstmt := List.getElem?_eq_getElem hlt
      generalize (c.op.sent pcon)[sent] = stmt at hstmt
      have hstep : (machine base poolMaxDbCons dbRetryTime).step s (.statement t) =
          some (.called t (.statement pcon.conn stmt (pcon.outcome sent).applied),
            s.goto s.pool t (c.did (.statement pcon.conn stmt (pcon.outcome sent).applied) (.inTry pcon (sent + 1)))) := by
        simp only [machine, step, actor, hc, stepCaller, hplace, hstmt]
      refine ⟨.statement t, _, _, trivial, id, hstep, totalWeight_goto hc hsame ?_⟩
      simp only [stepsLeft, hplace, Caller.did]
      omega
    · have hend : sent = (c.op.sent pcon).length := by omega
      have hheld : pcon.conn ∈ s.pool.held := by
        have hcount := hs.held fun pc => pc = pcon.conn
        have hpos : 0 < s.callers.count (Caller.usesOf fun pc => pc = pcon.conn) :=
          Threads.count_pos hc (Caller.uses_iff.mpr ⟨pcon, sent, hplace, rfl⟩)
        rw [← hcount, List.countP_pos_iff] at hpos
        obtain ⟨pc, hpc, he⟩ := hpos
        rwa [← of_decide_eq_true he]
      have hpool : s.pool.step base poolMaxDbCons (.callRelease t pcon.conn (!c.op.succeeds pcon)) = some (.running,
          { s.pool.goto t (.releaseLock pcon.conn (!c.op.succeeds pcon)) with held := s.pool.held.erase pcon.conn }) := by
        simp only [PoolState.step, hphase, hheld, if_true]
      have hstep : (machine base poolMaxDbCons dbRetryTime).step s (.callRelease t) =
          some (.called t (.release pcon.conn (!c.op.succeeds pcon)),
            s.goto { s.pool.goto t (.releaseLock pcon.conn (!c.op.succeeds pcon)) with held := s.pool.held.erase pcon.conn } t
              (c.did (.release pcon.conn (!c.op.succeeds pcon)) (.release (c.op.verdict (some pcon))))) := by
        simp only [machine, step, actor, hc, stepCaller, hplace, hend, if_true, hpool, Option.map_some]
      refine ⟨.callRelease t, _, _, trivial, id, hstep, totalWeight_goto hc (fun t' ht' => others_of_step hpool ht') ?_⟩
      simp only [stepsLeft, hplace, Caller.did]
      omega
  | release verdict =>
    rw [Caller.phase, hplace] at hphase
    obtain ⟨k, hk, hrelease⟩ := Option.map_eq_some_iff.mp hphase
    cases k with
    | releaseLock pc isBadCon =>
      have hlock : ∃ notified pool, s.pool.step base poolMaxDbCons (.releaseLock t notified) = some (.released, pool) :=
        exists_releaseLock hk
      obtain ⟨notified, pool, hpool⟩ := hlock
      have hstep : (machine base poolMaxDbCons dbRetryTime).step s (.releaseLock t notified) =
          some (.running, s.goto pool t (c.released verdict)) := by
        simp only [machine, step, actor, hc, stepCaller, hplace, hpool, Option.map_some]
      refine ⟨.releaseLock t notified, _, _, trivial, id, hstep, totalWeight_goto hc (fun t' ht' => others_of_step hpool ht') ?_⟩
      cases verdict with
      | none =>
        simp only [stepsLeft, hplace, Caller.released]
        omega
      | some ret =>
        simp only [stepsLeft, hplace, Caller.released]
        omega
    | _ => cases hrelease
  | grab =>
    rw [Caller.phase, hplace] at hphase
    obtain ⟨k, hk, hgrab⟩ := Option.map_eq_some_iff.mp hphase
    cases k with
    | grabLock => exact absurd (Or.inl hk) hgate
    | grabWoken => exact absurd (Or.inr (Or.inl hk)) hgate
    | grabWait => exact absurd (Or.inr (Or.inr hk)) hgate
    | releaseLock pc isBadCon => cases hgrab
    | grabCharset pc =>
      have hpool : s.pool.step base poolMaxDbCons (.grabCharset t false) =
          some (.grabbed pc, { s.pool.leave t with held := pc.toList ++ s.pool.held }) := by
        simp only [PoolState.step, hk, Bool.false_eq_true, if_false]
      have hstep : (machine base poolMaxDbCons dbRetryTime).step s (.grabReturns t true goodOutcome) =
          some (.called t (.grab pc), s.goto { s.pool.leave t with held := pc.toList ++ s.pool.held } t
            (c.grabbed (pc.map fun conn => { conn := conn, connected := true, outcome := goodOutcome }))) := by
        simp only [machine, step, actor, hc, stepCaller, hpool]
      refine ⟨.grabReturns t true goodOutcome, _, _, trivial, id, hstep, totalWeight_goto hc (fun t' ht' => others_of_step hpool ht') ?_⟩
      rw [hk]
      cases pc with
      | none =>
        simp only [stepsLeft, hplace, Caller.grabbed, Caller.did, Option.map_none]
        omega
      | some pc =>
        have hsent := length_sent_le c.op ({ conn := pc, connected := true, outcome := goodOutcome } : Connection Conn)
        simp only [stepsLeft, hplace, Caller.grabbed, Caller.did, Option.map_some]
        omega

/-- Where all calls are in front of the critical section of `grab`, and the pool is not used up, one of them can get on: if they are
blocked, one has been woken. -/
theorem progress_of_atGate {lost : Nat} (hs : s.Recoverable poolMaxDbCons dbRetryTime lost) (hroom : (lost : Int) ≤ poolMaxDbCons)
    (hgrabs : ∀ b, ∃ env, (base.grab b env).1 ≠ none) (hall : ∀ t c, s.callers.lookup t = some c → s.AtGate t) {t : Tid}
    {c : Caller Conn} (hc : s.callers.lookup t = some c) :
    ∃ a r s', Finishes a ∧ ¬LosesWakeUp base poolMaxDbCons s a ∧ (machine base poolMaxDbCons dbRetryTime).step s a = some (r, s') ∧
      s'.totalWeight < s.totalWeight := by
  have hcaller : ∀ t k, s.pool.calls.lookup t = some k → ∃ c, s.callers.lookup t = some c := by
    intro t k hk
    have hphase := hs.placed t
    rw [hk] at hphase
    cases hc : s.callers.lookup t with
    | none =>
      rw [hc] at hphase
      cases hphase
    | some c => exact ⟨c, rfl⟩
  have hgate : ∀ t k, s.pool.calls.lookup t = some k → k = .grabLock ∨ k = .grabWoken ∨ k = .grabWait := by
    intro t k hk
    obtain ⟨c, hc⟩ := hcaller t k hk
    have ht := hall t c hc
    unfold AtGate at ht
    rw [hk] at ht
    simpa only [Option.some.injEq] using ht
  have hnone : s.pool.handedOut = 0 := by
    have hcalls : s.pool.calls.count hasConn = 0 := by
      refine Threads.count_eq_zero.mpr fun t k hk => ?_
      rcases hgate t k hk with rfl | rfl | rfl
      · rfl
      · rfl
      · rfl
    have hheld : s.pool.held.length = 0 := by
      have hcount := hs.held fun _ => true
      rw [List.countP_true] at hcount
      rw [hcount]
      refine Threads.count_eq_zero.mpr fun t c hc => ?_
      have hnot : ∀ {k}, s.pool.calls.lookup t = some k → c.usesOf (fun _ => true) = false := by
        intro k hk
        have h := hs.placed.not_uses hk fun _ => true
        rwa [hc, Option.any_some] at h
      rcases hall t c hc with hk | hk | hk
      · exact hnot hk
      · exact hnot hk
      · exact hnot hk
    rw [handedOut, hcalls, hheld]
  have hcounted := hs.counted
  rw [hnone] at hcounted
  have hroom' : s.pool.pool.mustWait poolMaxDbCons = false := by
    unfold DatabaseConnectionPool.mustWait
    refine decide_eq_false ?_
    omega
  have hplace : ∀ t c, s.callers.lookup t = some c → c.place = .grab := by
    intro t c hc
    have hphase := hs.placed t
    have hin : (s.pool.calls.lookup t).map inGrab = some true := by
      rcases hall t c hc with hk | hk | hk
      · rw [hk]
        rfl
      · rw [hk]
        rfl
      · rw [hk]
        rfl
    rw [hin, hc, Option.bind_some] at hphase
    unfold Caller.phase at hphase
    cases hplace : c.place with
    | grab => rfl
    | _ =>
      rw [hplace] at hphase
      cases hphase
  obtain ⟨env, henv⟩ := hgrabs s.pool.pool.base
  have hkeeps : ∀ t, ¬LosesWakeUp base poolMaxDbCons s (.grabLock t env : ConnectorAction Env Tid) := fun t hloses => henv hloses.2.1
  -- a thread in front of the mutex takes it, and gets a connection
  have hlock : ∀ t, s.pool.calls.lookup t = some .grabLock ∨ s.pool.calls.lookup t = some .grabWoken →
      ∃ a r s', Finishes a ∧ ¬LosesWakeUp base poolMaxDbCons s a ∧
        (machine base poolMaxDbCons dbRetryTime).step s a = some (r, s') ∧ s'.totalWeight < s.totalWeight := by
    intro t hk
    obtain ⟨c, hc⟩ : ∃ c, s.callers.lookup t = some c := hk.elim (hcaller t _) (hcaller t _)
    have hpool : s.pool.step base poolMaxDbCons (.grabLock t env) = some (.running, s.pool.lockGrab base poolMaxDbCons t env) := by
      rcases hk with hk | hk
      · simp only [PoolState.step, hk]
      · simp only [PoolState.step, hk]
    have hafter : (s.pool.lockGrab base poolMaxDbCons t env).calls.lookup t = some (.grabCharset (s.pool.pool.grabConn base env).1) := by
      unfold PoolState.lockGrab
      rw [hroom']
      exact Finmap.lookup_insert _
    have hstep : (machine base poolMaxDbCons dbRetryTime).step s (.grabLock t env) =
        some (.running, { s with pool := s.pool.lockGrab base poolMaxDbCons t env }) := by
      simp only [machine, step, actor, hc, stepCaller, hpool, Option.map_some]
    refine ⟨.grabLock t env, _, _, trivial, hkeeps t, hstep, totalWeight_pool hc (fun t' ht' => others_of_step hpool ht') ?_⟩
    rw [hafter]
    rcases hk with hk | hk
    · rw [hk]
      simp only [stepsLeft, hplace t c hc]
      exact Nat.lt_of_succ_le (Nat.le_refl 10)
    · rw [hk]
      simp only [stepsLeft, hplace t c hc]
      exact Nat.lt_of_succ_le (Nat.le_refl 10)
  rcases hall t c hc with hk | hk | hk
  · exact hlock t (Or.inl hk)
  · exact hlock t (Or.inr hk)
  · -- the counter does not keep it blocked, so one was woken for the place below the limit
    have hcovered := hs.covered (Threads.count_pos hk rfl)
    have hwoken : 0 < s.pool.calls.count isWoken := by omega
    by_contra hno
    refine absurd hwoken (Nat.not_lt.mpr (Nat.le_of_eq (Threads.count_eq_zero.mpr fun t' k hk' => ?_)))
    cases k with
    | grabWoken => exact absurd (hlock t' (Or.inr hk')) hno
    | _ => rfl

/-- Where no more `grab`s have thrown than the pool may have connections, no wake-up has been lost, and a connection can be made
whenever none is idle, the calls in progress bring themselves to their ends: by steps of their own threads, no thread waking up for no
reason, no new call and no exception. Then the pool counts just the connections that were lost. -/
theorem calls_can_finish {acts : List (ConnectorAction Env Tid)} {replies : List (ConnectorReply Conn Tid)}
    (h : (machine base poolMaxDbCons dbRetryTime).run (new base dbDefaultCharset) acts = some (replies, s))
    (hroom : (replies.countP isThrew : Int) ≤ poolMaxDbCons)
    (hkeeps : (machine base poolMaxDbCons dbRetryTime).Meets (fun s a => ¬LosesWakeUp base poolMaxDbCons s a)
      (new base dbDefaultCharset) acts)
    (hgrabs : ∀ b, ∃ env, (base.grab b env).1 ≠ none) :
    ∃ acts' replies' s', (∀ a ∈ acts', Finishes a) ∧ (machine base poolMaxDbCons dbRetryTime).run s acts' = some (replies', s') ∧
      (∀ r ∈ replies', isThrew r = false) ∧ s'.callers = ∅ ∧ s'.pool.calls = ∅ ∧ s'.pool.held = [] ∧
      s'.pool.pool.mConnsInUse = replies.countP isThrew := by
  obtain ⟨hplaced, hheld⟩ := placed_held h
  obtain ⟨pacts, preplies, hrun, hthrew⟩ := exists_pool_run h
  have hcounted := mConnsInUse_eq hrun
  rw [hthrew] at hcounted
  have hcovered : s.pool.Covered poolMaxDbCons := by
    refine hkeeps.run_invariant (P := fun s : ConnectorState σ Conn Tid => s.pool.Covered poolMaxDbCons)
      (fun hcov hkeep hs => covered_of_step hcov (step_cases hs) hkeep) ?_ h
    intro hpos
    have hnone : Threads.count isWaiting (∅ : Threads Tid (PoolCall Conn)) = 0 := Threads.count_empty _
    exact absurd hpos (Nat.not_lt.mpr (Nat.le_of_eq hnone))
  obtain ⟨acts', replies', s', hacts, hrun', hs', hnone⟩ := Machine.exists_run_of_measure (M := machine base poolMaxDbCons dbRetryTime)
    (P := Recoverable poolMaxDbCons dbRetryTime (replies.countP isThrew)) (D := fun s : ConnectorState σ Conn Tid => s.callers = ∅)
    (G := Finishes) totalWeight
    (fun {u} hu hsome => by
      have hcaller : ∃ t c, u.callers.lookup t = some c := by
        by_contra hno
        refine hsome (Finmap.ext_lookup fun t => ?_)
        rw [Finmap.lookup_empty]
        by_contra hne
        obtain ⟨c, hc⟩ := Option.ne_none_iff_exists'.mp hne
        exact hno ⟨t, c, hc⟩
      obtain ⟨t, c, hc⟩ := hcaller
      have hprogress : ∃ a r u', Finishes a ∧ ¬LosesWakeUp base poolMaxDbCons u a ∧
          (machine base poolMaxDbCons dbRetryTime).step u a = some (r, u') ∧ u'.totalWeight < u.totalWeight := by
        by_cases hall : ∀ t c, u.callers.lookup t = some c → u.AtGate t
        · exact progress_of_atGate hu hroom hgrabs hall hc
        · push Not at hall
          obtain ⟨t₁, c₁, hc₁, hgate⟩ := hall
          exact progress_of_not_atGate hu hc₁ hgate
      obtain ⟨a, r, u', ha, hkeep, hstep, hlt⟩ := hprogress
      exact ⟨a, r, u', ha, hstep, hu.step (step_cases hstep) ha hkeep, hlt⟩)
    ⟨hplaced, hheld, running_of_run h, hcounted, hcovered⟩
  obtain ⟨hcalls, hnothing⟩ := quiet_of_no_callers hs'.placed hs'.held hnone
  refine ⟨acts', replies', s', hacts, hrun', not_threw_of_run hacts hrun', hnone, hcalls, hnothing, ?_⟩
  rw [hs'.counted, handedOut, hcalls, hnothing, Threads.count_empty]
  exact Int.zero_add _

/-! ## Calls that cannot end -/

/-- A step is its thread's, and another one's place is as it was or that of a thread just woken. -/
theorem others_of_step {a : ConnectorAction Env Tid} {r : ConnectorReply Conn Tid} (h : Step base poolMaxDbCons dbRetryTime s a r s')
    {t : Tid} (hne : t ≠ actor a) :
    s'.callers.lookup t = s.callers.lookup t ∧ threadOf r ≠ some t ∧
      (s'.pool.calls.lookup t = s.pool.calls.lookup t ∨
        s.pool.calls.lookup t = some .grabWait ∧ s'.pool.calls.lookup t = some .grabWoken) := by
  have hactor : some (actor a) ≠ some t := fun h => hne (Option.some.inj h).symm
  have hrunning : none ≠ some t := (Option.some_ne_none t).symm
  cases h with
  | call => exact ⟨Finmap.lookup_insert_of_ne _ hne, hrunning, Or.inl rfl⟩
  | exhausted => exact ⟨Finmap.lookup_insert_of_ne _ hne, hrunning, Or.inl rfl⟩
  | callGrab _ _ _ _ _ _ _ hpool => exact ⟨Finmap.lookup_insert_of_ne _ hne, hrunning, PoolState.others_of_step hpool hne⟩
  | grabLock _ _ _ _ hpool => exact ⟨rfl, hrunning, PoolState.others_of_step hpool hne⟩
  | wakeUp _ _ _ hpool => exact ⟨rfl, hrunning, PoolState.others_of_step hpool hne⟩
  | throws _ _ _ _ _ hpool => exact ⟨Finmap.lookup_erase_ne hne, hactor, PoolState.others_of_step hpool hne⟩
  | grabReturns _ _ _ _ _ _ _ hpool => exact ⟨Finmap.lookup_insert_of_ne _ hne, hactor, PoolState.others_of_step hpool hne⟩
  | statement => exact ⟨Finmap.lookup_insert_of_ne _ hne, hactor, Or.inl rfl⟩
  | callRelease _ _ _ _ _ _ _ hpool => exact ⟨Finmap.lookup_insert_of_ne _ hne, hactor, PoolState.others_of_step hpool hne⟩
  | released _ _ _ _ _ _ _ _ hpool => exact ⟨Finmap.lookup_insert_of_ne _ hne, hrunning, PoolState.others_of_step hpool hne⟩
  | leave => exact ⟨Finmap.lookup_erase_ne hne, hactor, Or.inl rfl⟩

/-- In a pool that is used up, no step gets a thread past the critical section of `grab`. -/
theorem Starved.step {t : Tid} (hs : s.Starved dbRetryTime t) (hplaced : s.Placed) (hfull : poolMaxDbCons < s.pool.pool.mConnsInUse)
    {a : ConnectorAction Env Tid} {r : ConnectorReply Conn Tid} (h : Step base poolMaxDbCons dbRetryTime s a r s') :
    s'.Starved dbRetryTime t ∧ threadOf r ≠ some t := by
  by_cases hactor : t = actor a
  · subst hactor
    cases h with
    | call t op hc =>
      refine ⟨?_, (Option.some_ne_none t).symm⟩
      cases hs with
      | idle _ hzero => exact .loop _ (Finmap.lookup_insert _) rfl hzero
      | loop c hc' => cases hc.symm.trans hc'
      | gate c hc' => cases hc.symm.trans hc'
    | exhausted t c hc hplace hzero =>
      rcases hs.place_of_lookup hplaced hc with ⟨-, hne⟩ | hgrab
      · exact absurd hzero hne
      · cases hplace.symm.trans hgrab
    | callGrab t c r pool hc hplace hzero hpool =>
      refine ⟨.gate _ (Finmap.lookup_insert _) rfl ?_, (Option.some_ne_none t).symm⟩
      cases PoolState.cases_of_step hpool with
      | callGrab => exact Or.inl (Finmap.lookup_insert _)
    | grabLock t env r pool hpool =>
      refine ⟨?_, (Option.some_ne_none t).symm⟩
      have hgrab : ∃ c, s.callers.lookup t = some c ∧ c.place = .grab := by
        have hin := inGrab_of_step hpool (Or.inl ⟨env, rfl⟩)
        obtain ⟨k, hk, -⟩ := Option.map_eq_some_iff.mp hin
        exact (hs.grab_of_pool hplaced hk).1
      obtain ⟨c, hc, hplace⟩ := hgrab
      cases PoolState.cases_of_step hpool with
      | wait => exact .gate c hc hplace (Or.inr (Or.inr (Finmap.lookup_insert _)))
      | take _ _ _ _ _ hroom => exact absurd hfull (Int.not_lt.mpr hroom)
    | wakeUp t r pool hpool =>
      refine ⟨?_, (Option.some_ne_none t).symm⟩
      cases PoolState.cases_of_step hpool with
      | wakeUp _ ht =>
        obtain ⟨⟨c, hc, hplace⟩, -⟩ := hs.grab_of_pool hplaced ht
        exact .gate c hc hplace (Or.inr (Or.inl (Finmap.lookup_insert _)))
    | throws t c r pool hc hpool =>
      cases PoolState.cases_of_step hpool with
      | throw _ pc ht => exact absurd rfl ((hs.grab_of_pool hplaced ht).2 pc)
    | grabReturns t c got pool connected outcome hc hpool =>
      cases PoolState.cases_of_step hpool with
      | returnGrab _ pc ht => exact absurd rfl ((hs.grab_of_pool hplaced ht).2 _)
    | statement t c pcon sent stmt hc hplace =>
      rcases hs.place_of_lookup hplaced hc with ⟨hloop, -⟩ | hgrab
      · cases hplace.symm.trans hloop
      · cases hplace.symm.trans hgrab
    | callRelease t c pcon r pool hc hplace =>
      rcases hs.place_of_lookup hplaced hc with ⟨hloop, -⟩ | hgrab
      · cases hplace.symm.trans hloop
      · cases hplace.symm.trans hgrab
    | released t c verdict notified r pool hc hplace =>
      rcases hs.place_of_lookup hplaced hc with ⟨hloop, -⟩ | hgrab
      · cases hplace.symm.trans hloop
      · cases hplace.symm.trans hgrab
    | leave t c ret hc hplace =>
      rcases hs.place_of_lookup hplaced hc with ⟨hloop, -⟩ | hgrab
      · cases hplace.symm.trans hloop
      · cases hplace.symm.trans hgrab
  · obtain ⟨hcallers, hr, hcalls⟩ := others_of_step h hactor
    exact ⟨hs.frame hcallers hcalls, hr⟩

/-- Once more `grab`s have thrown than the pool may have connections, a thread in no call, or not past the critical section of `grab` in
one, never gets past it: no later step shows a call it makes or its return. -/
theorem exhausted_forever {acts acts' : List (ConnectorAction Env Tid)} {replies replies' : List (ConnectorReply Conn Tid)}
    (h : (machine base poolMaxDbCons dbRetryTime).run (new base dbDefaultCharset) acts = some (replies, s))
    (hlost : poolMaxDbCons < replies.countP isThrew)
    (h' : (machine base poolMaxDbCons dbRetryTime).run s acts' = some (replies', s')) {t : Tid} (ht : s.Starved dbRetryTime t) :
    s'.Starved dbRetryTime t ∧ ∀ r ∈ replies', threadOf r ≠ some t := by
  refine Machine.run_history (P := fun _ replies' (u : ConnectorState σ Conn Tid) => u.Starved dbRetryTime t ∧
    ∀ r ∈ replies', threadOf r ≠ some t) ⟨ht, List.forall_mem_nil _⟩ ?_ h'
  rintro acts₁ replies₁ u a r u' hrun ⟨hu, hreplies⟩ hstep
  have hall : (machine base poolMaxDbCons dbRetryTime).run (new base dbDefaultCharset) (acts ++ acts₁) = some (replies ++ replies₁, u) :=
    Machine.run_append_eq_some.mpr ⟨s, replies, replies₁, h, hrun, rfl⟩
  have hfull : poolMaxDbCons < u.pool.pool.mConnsInUse := by
    have hledger := (in_use_ledger hall).1
    rw [List.countP_append] at hledger
    push_cast at hledger
    omega
  obtain ⟨hu', hr⟩ := hu.step (placed_held hall).1 hfull (step_cases hstep)
  refine ⟨hu', fun r' hr' => ?_⟩
  rcases List.mem_append.mp hr' with hr' | hr'
  · exact hreplies r' hr'
  · rw [List.mem_singleton.mp hr']
    exact hr

/-! ## A `grab` that throws -/

/-- The `grab` of a thread throws. -/
def oneThrows : List (ConnectorAction (Option Nat) Nat) :=
  [.call 1 (.execute (ascii "delete from t")), .turn 1, .grabLock 1 (some 7), .grabThrows 1]

/-- A thread has the one connection that the limit allows, and another one is blocked. -/
def oneBlocked : List (ConnectorAction (Option Nat) Nat) :=
  [.call 1 (.execute (ascii "delete from t")), .call 2 (.executeQuery (ascii "select 1")), .turn 1, .turn 2, .grabLock 2 (some 7),
    .grabReturns 2 true goodOutcome, .grabLock 1 none]

/-- A new connection can be made in a pool with any record. -/
theorem exists_recordPool_grab (b : List (Nat × ConnStatus)) : ∃ created, ((recordPool Nat).grab b created).1 ≠ none := by
  obtain ⟨n, hn⟩ : ∃ n : Nat, n ∉ b.map Prod.fst := Infinite.exists_notMem_finset (b.map Prod.fst).toFinset |>.imp (by simp)
  have hunmade : recordStatus b n = .unmade := by
    have hlookup : b.lookup n = none := by
      rw [List.lookup_eq_none_iff]
      intro e he
      have hne : n ≠ e.1 := fun hne => hn (hne ▸ List.mem_map_of_mem he)
      simpa using hne
    rw [recordStatus, hlookup]
    rfl
  refine ⟨some n, ?_⟩
  simp only [recordPool]
  split
  · simp
  · rename_i pc _ he
    cases he
    rw [if_pos hunmade]
    simp
  · rename_i he
    cases he

theorem calls_can_finish_oneBlocked :
    ∃ replies s, (machine (recordPool Nat) 0 3).run (new (recordPool Nat) []) oneBlocked = some (replies, s) ∧
      ∃ acts' replies' s', (∀ a ∈ acts', Finishes a) ∧ (machine (recordPool Nat) 0 3).run s acts' = some (replies', s') ∧
        (∀ r ∈ replies', isThrew r = false) ∧ s'.callers = ∅ ∧ s'.pool.calls = ∅ ∧ s'.pool.held = [] ∧
        s'.pool.pool.mConnsInUse = replies.countP isThrew := by
  have hcount : ((machine (recordPool Nat) 0 3).run (new (recordPool Nat) []) oneBlocked).map (fun r => r.1.countP isThrew) = some 0 := by
    decide +kernel
  obtain ⟨⟨replies, s⟩, hrun, hnone⟩ := Option.map_eq_some_iff.mp hcount
  refine ⟨replies, s, hrun, calls_can_finish hrun ?_ (by decide +kernel) exists_recordPool_grab⟩
  change replies.countP isThrew = 0 at hnone
  rw [hnone]
  decide

theorem exhausted_forever_oneThrows :
    ∃ replies s replies' s', (machine (recordPool Nat) 0 3).run (new (recordPool Nat) (ascii "utf8")) oneThrows = some (replies, s) ∧
      (machine (recordPool Nat) 0 3).run s [.call 2 .escape, .turn 2, .grabLock 2 (some 8)] = some (replies', s') ∧
      s'.Starved 3 2 ∧ ∀ r ∈ replies', threadOf r ≠ some 2 := by
  have hcount : ((machine (recordPool Nat) 0 3).run (new (recordPool Nat) (ascii "utf8")) oneThrows).map
      (fun r => (r.1.countP isThrew, r.2.callers.lookup 2)) = some (1, none) := by rfl
  have hnext : ((machine (recordPool Nat) 0 3).run (new (recordPool Nat) (ascii "utf8")) oneThrows).bind (fun r =>
      ((machine (recordPool Nat) 0 3).run r.2 [.call 2 .escape, .turn 2, .grabLock 2 (some 8)]).map fun _ => ()) = some () := by rfl
  obtain ⟨⟨replies, s⟩, hrun, he⟩ := Option.map_eq_some_iff.mp hcount
  obtain ⟨hone, hidle⟩ := Prod.mk.inj he
  rw [hrun] at hnext
  obtain ⟨⟨replies', s'⟩, hrun', -⟩ := Option.map_eq_some_iff.mp hnext
  refine ⟨replies, s, replies', s', hrun, hrun', exhausted_forever hrun ?_ hrun' (.idle hidle (by decide))⟩
  rw [hone]
  decide

end ConnectorState

end FrontServer
