import FrontServer.Lemmas.ConnectionPool
import FrontServer.Theorems.PoolLimit

/-!
# What the pool counts as in use

While no call is in progress the counter `m_conns_in_use`, the connections in use in the base class and those that callers hold
should agree. They do as long as the statement of `SetDefaultClientCharset` does not throw: `grab` takes its connection and counts it
before that, and an exception leaves both as they are.
-/

namespace FrontServer

variable {σ Env Conn Tid : Type} [DecidableEq Conn] [DecidableEq Tid]

namespace PoolState

/-- The counter and the base class agree with what the callers hold. -/
def InUseExact (status : σ → Conn → ConnStatus) (s : PoolState σ Conn Tid) : Prop :=
  s.pool.mConnsInUse = s.held.length ∧ ∀ c, status s.pool.base c = .inUse ↔ c ∈ s.held

variable {base : ConnectionPool σ Env Conn} {status : σ → Conn → ConnStatus} {poolMaxDbCons : Int} {dbDefaultCharset : Bytes}

/-- A `grab` throws exactly where the statement of `SetDefaultClientCharset` does. -/
theorem threw_iff_of_step {a : PoolAction Env Conn Tid} {r : PoolReply Conn} {s s' : PoolState σ Conn Tid}
    (hs : (machine base poolMaxDbCons).step s a = some (r, s')) : r = .threw ↔ ∃ t, a = .grabCharset t true := by
  cases step_cases hs with
  | throw t => exact ⟨fun _ => ⟨t, rfl⟩, fun _ => rfl⟩
  | _ => exact ⟨nofun, nofun⟩

theorem threw_mem_iff {acts : List (PoolAction Env Conn Tid)} {replies : List (PoolReply Conn)} {s : PoolState σ Conn Tid}
    (h : (machine base poolMaxDbCons).run (new base dbDefaultCharset) acts = some (replies, s)) :
    .threw ∈ replies ↔ ∃ t, .grabCharset t true ∈ acts := by
  refine Machine.run_history (P := fun acts (replies : List (PoolReply Conn)) _ =>
    .threw ∈ replies ↔ ∃ t, PoolAction.grabCharset t true ∈ acts) ?_ (fun {acts replies s a r s'} _ ih hs => ?_) h
  · exact ⟨nofun, nofun⟩
  · simp only [List.mem_append, List.mem_singleton, exists_or]
    exact or_congr ih ((eq_comm.trans (threw_iff_of_step hs)).trans (exists_congr fun t => eq_comm))

/-- As long as no `grab` has thrown somebody has every connection in use. -/
theorem holders_eq (hlaw : base.Lawful status) {acts : List (PoolAction Env Conn Tid)} {replies : List (PoolReply Conn)}
    {s : PoolState σ Conn Tid} (h : (machine base poolMaxDbCons).run (new base dbDefaultCharset) acts = some (replies, s))
    (hthrew : .threw ∉ replies) (c : Conn) : s.holders c = s.pool.inUse status c := by
  refine Machine.run_history (P := fun _ replies (s : PoolState σ Conn Tid) =>
    .threw ∉ replies → ∀ c, s.holders c = s.pool.inUse status c) (fun _ => holders_new hlaw dbDefaultCharset)
    (fun {acts replies s a r s'} hrun ih hs hthrew c => ?_) h hthrew c
  rw [List.mem_append, not_or, List.mem_singleton] at hthrew
  have hc := ih hthrew.1 c
  rcases step_holders hlaw (holders_le hlaw hrun) hs c with ⟨-, hsame⟩ | ⟨-, hr, -⟩
  · omega
  · exact absurd hr.symm hthrew.2

/-- In every state reached in which no call is in progress, the counter and the base class agree with what the callers hold exactly
when no statement of `SetDefaultClientCharset` has thrown so far. One that throws leaves the pool as it is after the critical section
of its `grab`, with a connection in use that nobody has. -/
theorem in_use_exact (base : ConnectionPool σ Env Conn) (status : σ → Conn → ConnStatus) (hlaw : base.Lawful status)
    (dbDefaultCharset : Bytes) (poolMaxDbCons : Int) (acts : List (PoolAction Env Conn Tid)) (replies : List (PoolReply Conn))
    (s : PoolState σ Conn Tid)
    (h : (machine base poolMaxDbCons).run (new base dbDefaultCharset) acts = some (replies, s)) :
    (s.calls = ∅ → (s.InUseExact status ↔ ∀ t, PoolAction.grabCharset t true ∉ acts)) ∧
      ∀ t r s', (machine base poolMaxDbCons).step s (.grabCharset t true) = some (r, s') →
        s'.pool = s.pool ∧ ∃ c, status s'.pool.base c = .inUse ∧ s'.holders c = 0 := by
  refine ⟨fun hquiet => ?_, fun t r s' hs => ?_⟩
  · have haccounts := mConnsInUse_eq h
    rw [handedOut_eq, handedOutOf_of_quiet hquiet, List.countP_true] at haccounts
    have hthrow : (∀ t, PoolAction.grabCharset t true ∉ acts) ↔ .threw ∉ replies := by
      rw [threw_mem_iff h, not_exists]
    rw [hthrow]
    constructor
    · intro hexact hthrew
      have hpos := List.count_pos_iff.mpr hthrew
      have hcounter := hexact.1
      omega
    · intro hthrew
      refine ⟨by rw [haccounts, List.count_eq_zero.mpr hthrew]; exact Int.add_zero _, fun c => ?_⟩
      have hc := holders_eq hlaw h hthrew c
      rw [holders, handedOutOf_of_quiet hquiet, DatabaseConnectionPool.inUse] at hc
      constructor
      · intro huse
        rw [if_pos huse] at hc
        obtain ⟨c', hmem, he⟩ := List.countP_pos_iff.mp (by rw [hc]; exact Nat.one_pos)
        rwa [← of_decide_eq_true he]
      · intro hmem
        have hpos : 0 < s.held.countP (fun c' => decide (c' = c)) :=
          List.countP_pos_iff.mpr ⟨c, hmem, decide_eq_true rfl⟩
        by_contra hnot
        rw [if_neg hnot] at hc
        omega
  · rcases step_moves hs with ⟨_, _, _, he, -⟩ | ⟨hr, -⟩ | ⟨t', pc, he, rfl, hpool, hout⟩ | ⟨_, _, _, _, he, -⟩
    · cases he
    · exact absurd ((threw_iff_of_step hs).mpr ⟨t, rfl⟩) hr
    · have hpc := hout (fun c => c = pc)
      have hle := holders_le hlaw h pc
      simp only [decide_true, if_true] at hpc
      have hone := s.pool.inUse_le_one status pc
      rw [holders, ← hpc] at hle
      refine ⟨hpool, pc, ?_, ?_⟩
      · rw [hpool]
        exact DatabaseConnectionPool.inUse_pos (by omega)
      · rw [holders]
        omega
    · cases he

/-- A thread whose `grab` throws. -/
def throwingGrab : List (PoolAction (Option Nat) Nat Nat) := [.callGrab 0, .grabLock 0 (some 7), .grabCharset 0 true]

/-- After a `grab` that throws one connection is counted and marked as in use, and no caller has any. -/
theorem throwingGrab_loses_connection :
    ¬∀ (acts : List (PoolAction (Option Nat) Nat Nat)) (replies : List (PoolReply Nat)) (s : PoolState (List (Nat × ConnStatus)) Nat Nat),
      (machine (recordPool Nat) 20).run (new (recordPool Nat) (ascii "utf8")) acts = some (replies, s) → s.calls = ∅ →
        s.InUseExact recordStatus := by
  intro h
  have hlost : ((machine (recordPool Nat) 20).run (new (recordPool Nat) (ascii "utf8")) throwingGrab).map
      (fun r => (r.2.pool.mConnsInUse, r.2.held, r.2.calls.keys)) = some (1, [], ∅) := by decide +kernel
  obtain ⟨⟨replies, s⟩, hrun, hs⟩ := Option.map_eq_some_iff.mp hlost
  simp only [Prod.mk.injEq] at hs
  obtain ⟨hone, hheld, hkeys⟩ := hs
  have hexact := (h throwingGrab replies s hrun (Threads.eq_empty_of_keys hkeys)).1
  rw [hone, hheld] at hexact
  exact absurd hexact (by decide)

theorem in_use_exact_throwingGrab :
    ∃ replies s, (machine (recordPool Nat) 20).run (new (recordPool Nat) (ascii "utf8")) throwingGrab = some (replies, s) ∧
      (s.calls = ∅ → (s.InUseExact recordStatus ↔ ∀ t, PoolAction.grabCharset t true ∉ throwingGrab)) := by
  have hsome : ((machine (recordPool Nat) 20).run (new (recordPool Nat) (ascii "utf8")) throwingGrab).isSome := by rfl
  obtain ⟨⟨replies, s⟩, hrun⟩ := Option.isSome_iff_exists.mp hsome
  exact ⟨replies, s, hrun,
    (in_use_exact (recordPool Nat) recordStatus recordPool_lawful (ascii "utf8") 20 throwingGrab replies s hrun).1⟩

end PoolState

end FrontServer
