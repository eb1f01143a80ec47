import FrontServer.Lemmas.DatabaseConnectionPool

/-!
# How many connections the pool hands out

The counter `m_conns_in_use` is the number of connections handed out and of those lost by a `grab` that threw. The loop in `grab`
waits while the counter is larger than the limit, not while it has reached it, so one connection more than the limit is handed out.
-/

namespace FrontServer

variable {σ Env Conn Tid : Type} [DecidableEq Conn] [DecidableEq Tid]

namespace PoolState

/-- A `grab` gets a connection in its critical section while as many are counted as the limit allows. -/
def TakesAtLimit (base : ConnectionPool σ Env Conn) (poolMaxDbCons : Int) (s : PoolState σ Conn Tid)
    (a : PoolAction Env Conn Tid) : Prop :=
  ∃ t env, a = .grabLock t env ∧ s.pool.mConnsInUse = poolMaxDbCons ∧ (base.grab s.pool.base env).1 ≠ none

variable {base : ConnectionPool σ Env Conn} {poolMaxDbCons : Int} {dbDefaultCharset : Bytes}

/-- The counter counts the connections handed out and those a `grab` that threw has lost. -/
theorem mConnsInUse_eq {acts : List (PoolAction Env Conn Tid)} {replies : List (PoolReply Conn)} {s : PoolState σ Conn Tid}
    (h : (machine base poolMaxDbCons).run (new base dbDefaultCharset) acts = some (replies, s)) :
    s.pool.mConnsInUse = s.handedOut + replies.count .threw := by
  refine Machine.run_history (P := fun _ replies (s : PoolState σ Conn Tid) =>
      s.pool.mConnsInUse = s.handedOut + (replies.count .threw : Nat)) ?_ (fun {acts replies s a r s'} _ ih hs => ?_) h
  · show (0 : Int) = (((∅ : Threads Tid (PoolCall Conn)).count hasConn + 0 : Nat) : Int) + 0
    rw [Threads.count_empty]
    rfl
  · rw [List.count_append, List.count_singleton]
    rcases step_accounts hs with ⟨t, env, pc, rfl, rfl, -, -, hconns, hout⟩ | ⟨hr, hconns, hout⟩ | ⟨rfl, hconns, hout⟩ |
      ⟨rfl, hconns, hout⟩
    · rw [hconns, hout, ih]
      simp
      omega
    · rw [hconns, hout, ih]
      simp [hr]
    · rw [hconns, ih, ← hout]
      simp
      omega
    · rw [hconns, ih, ← hout]
      simp
      omega

/-- The counter stays below its limit, or at most one above. -/
theorem mConnsInUse_le_of_step {a : PoolAction Env Conn Tid} {r : PoolReply Conn} {s s' : PoolState σ Conn Tid}
    (hs : (machine base poolMaxDbCons).step s a = some (r, s')) :
    (s.pool.mConnsInUse ≤ poolMaxDbCons + 1 → s'.pool.mConnsInUse ≤ poolMaxDbCons + 1) ∧
      (s.pool.mConnsInUse ≤ poolMaxDbCons → ¬TakesAtLimit base poolMaxDbCons s a → s'.pool.mConnsInUse ≤ poolMaxDbCons) := by
  rcases step_accounts hs with ⟨t, env, pc, rfl, -, hmax, hgrab, hconns, -⟩ | ⟨-, hconns, -⟩ | ⟨-, hconns, -⟩ | ⟨-, hconns, -⟩
  · refine ⟨fun _ => by omega, fun _ hroom => ?_⟩
    have hne : s.pool.mConnsInUse ≠ poolMaxDbCons := by
      intro hlimit
      exact hroom ⟨t, env, rfl, hlimit, by rw [hgrab]; exact nofun⟩
    omega
  · exact ⟨fun h => by omega, fun h _ => by omega⟩
  · exact ⟨fun h => by omega, fun h _ => by omega⟩
  · exact ⟨fun h => by omega, fun h _ => by omega⟩

/-- A `grab` at the limit hands out one connection more. -/
theorem handedOut_of_takesAtLimit {a : PoolAction Env Conn Tid} {r : PoolReply Conn} {s s' : PoolState σ Conn Tid}
    (hs : (machine base poolMaxDbCons).step s a = some (r, s')) (h : TakesAtLimit base poolMaxDbCons s a) :
    s'.handedOut = s.handedOut + 1 := by
  obtain ⟨t, env, rfl, hlimit, hgrab⟩ := h
  cases step_cases hs with
  | wait _ _ _ hwait => omega
  | take _ _ pc pool ht _ hg =>
    rw [DatabaseConnectionPool.grab_of_grabConn hg] at hgrab
    cases pc with
    | none => exact absurd rfl hgrab
    | some pc =>
      rw [handedOut_eq, handedOut_eq]
      exact handedOutOf_take ht (some pc) pool _

/-- At most one connection more than the limit is handed out, and no more than the limit in a run in which no `grab` gets one while
the counter is at the limit. As long as no `grab` has thrown, one that does hands out one too many. -/
theorem pool_limit (base : ConnectionPool σ Env Conn) (dbDefaultCharset : Bytes) (poolMaxDbCons : Int) (hmax : 1 ≤ poolMaxDbCons)
    (acts : List (PoolAction Env Conn Tid)) (replies : List (PoolReply Conn)) (s : PoolState σ Conn Tid)
    (h : (machine base poolMaxDbCons).run (new base dbDefaultCharset) acts = some (replies, s)) :
    ((machine base poolMaxDbCons).Meets (fun s a => ¬TakesAtLimit base poolMaxDbCons s a) (new base dbDefaultCharset) acts →
        (s.handedOut : Int) ≤ poolMaxDbCons) ∧
      (s.handedOut : Int) ≤ poolMaxDbCons + 1 ∧
        ∀ a r s', (machine base poolMaxDbCons).step s a = some (r, s') → TakesAtLimit base poolMaxDbCons s a →
          PoolReply.threw ∉ replies → (s'.handedOut : Int) = poolMaxDbCons + 1 := by
  have haccounts := mConnsInUse_eq h
  refine ⟨fun hroom => ?_, ?_, fun a r s' hs htakes hthrew => ?_⟩
  · have hle : s.pool.mConnsInUse ≤ poolMaxDbCons :=
      hroom.run_invariant (P := fun s : PoolState σ Conn Tid => s.pool.mConnsInUse ≤ poolMaxDbCons)
        (fun hle hroom hs => (mConnsInUse_le_of_step hs).2 hle hroom) (by show (0 : Int) ≤ poolMaxDbCons; omega) h
    omega
  · have hle : s.pool.mConnsInUse ≤ poolMaxDbCons + 1 :=
      Machine.run_invariant (P := fun s : PoolState σ Conn Tid => s.pool.mConnsInUse ≤ poolMaxDbCons + 1)
        (fun hle hs => (mConnsInUse_le_of_step hs).1 hle) (by show (0 : Int) ≤ poolMaxDbCons + 1; omega) h
    omega
  · obtain ⟨t, env, -, hlimit, -⟩ := id htakes
    rw [handedOut_of_takesAtLimit hs htakes]
    rw [List.count_eq_zero.mpr hthrew] at haccounts
    omega

/-- A base class on a list of connections and of whether they are in use: `grab` gives the first idle one, and where there is none
the one that `create` makes, if it makes one. -/
def listPool : ConnectionPool (List (Nat × Bool)) (Option Nat) Nat where
  empty := []
  grab pool created :=
    match pool.find? (fun e => !e.2), created with
    | some e, _ => (some e.1, pool.map (fun e' => if e'.1 = e.1 then (e.1, true) else e'))
    | none, some pc => (some pc, pool ++ [(pc, true)])
    | none, none => (none, pool)
  release pool pc := pool.map (fun e => if e.1 = pc then (pc, false) else e)
  remove pool pc := pool.filter (fun e => e.1 ≠ pc)

/-- Two threads that each take a connection, one after the other. -/
def twoGrabs : List (PoolAction (Option Nat) Nat Nat) :=
  [.callGrab 0, .grabLock 0 (some 7), .grabCharset 0 false, .callGrab 1, .grabLock 1 (some 8), .grabCharset 1 false]

/-- With a limit of one, two connections are handed out: both threads have returned from `grab`. -/
theorem two_of_one_handedOut :
    ¬∀ (acts : List (PoolAction (Option Nat) Nat Nat)) (replies : List (PoolReply Nat)) (s : PoolState _ Nat Nat),
      (machine listPool 1).run (new listPool []) acts = some (replies, s) → s.handedOut ≤ 1 := by
  intro h
  have htwo : ((machine listPool 1).run (new listPool []) twoGrabs).map (fun r => r.2.handedOut) = some 2 := by decide +kernel
  obtain ⟨⟨replies, s⟩, hrun, hs⟩ := Option.map_eq_some_iff.mp htwo
  have hle := h twoGrabs replies s hrun
  dsimp only at hs
  omega

theorem pool_limit_twoGrabs :
    ∃ replies s, (machine listPool 1).run (new listPool []) twoGrabs = some (replies, s) ∧ (s.handedOut : Int) ≤ 1 + 1 := by
  have hsome : ((machine listPool 1).run (new listPool []) twoGrabs).isSome := by decide +kernel
  obtain ⟨⟨replies, s⟩, hrun⟩ := Option.isSome_iff_exists.mp hsome
  exact ⟨replies, s, hrun, (pool_limit listPool [] 1 (by decide) twoGrabs replies s hrun).2.1⟩

end PoolState

end FrontServer
