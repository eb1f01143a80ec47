import FrontServer.Lemmas.DatabaseCallers
import FrontServer.Theorems.SessionCharset

/-!
# The calls of many threads

However the steps of the threads interleave, every function call does what it does alone with what its `grab`s give it
(`calls_refine`), and what is done with one connection is one turn after another, each of one call and from its `grab` to its `release`
(`turns_serialized`). So a query with a charset is sent in a session with that charset (`query_under_charset`).
-/

namespace FrontServer

variable {σ Env Conn Tid : Type}

namespace DatabaseConnector

/-! ## The calls of a turn, one by one -/

/-- The calls for some statements are the statements in turn. -/
theorem getElem?_statementCalls (pcon : Connection Conn) (stmts : List Statement) (k : Nat) :
    (statementCalls pcon stmts)[k]? = stmts[k]?.map fun stmt => .statement pcon.conn stmt (pcon.outcome k).applied := by
  rw [statementCalls, List.getElem?_map, List.getElem?_zipIdx]
  cases stmts[k]? with
  | none => rfl
  | some stmt => simp

/-- There is one for each statement. -/
theorem length_statementCalls (pcon : Connection Conn) (stmts : List Statement) :
    (statementCalls pcon stmts).length = stmts.length := by
  rw [statementCalls, List.length_map, List.length_zipIdx]

/-- A turn with a connection: the `grab`, the statements and the `release`. -/
theorem Operation.turn_some (op : Operation) (pcon : Connection Conn) :
    op.turn (some pcon) = .grab (some pcon.conn) :: (statementCalls pcon (op.sent pcon) ++ [.release pcon.conn (!op.succeeds pcon)]) :=
  rfl

/-- The beginning of a turn with one more statement. -/
theorem Operation.take_turn_statement (op : Operation) (pcon : Connection Conn) {k : Nat} {stmt : Statement}
    (h : (op.sent pcon)[k]? = some stmt) :
    (op.turn (some pcon)).take (k + 2) =
      (op.turn (some pcon)).take (k + 1) ++ [.statement pcon.conn stmt (pcon.outcome k).applied] := by
  have hlt : k < (statementCalls pcon (op.sent pcon)).length := by
    rw [length_statementCalls]
    exact (List.getElem?_eq_some_iff.mp h).1
  rw [List.take_add_one, Operation.turn_some, List.getElem?_cons_succ, List.getElem?_append_left hlt, getElem?_statementCalls, h]
  rfl

/-- A turn is its `grab` and statements and then its `release`. -/
theorem Operation.turn_eq_take (op : Operation) (pcon : Connection Conn) :
    op.turn (some pcon) = (op.turn (some pcon)).take ((op.sent pcon).length + 1) ++ [.release pcon.conn (!op.succeeds pcon)] := by
  rw [Operation.turn_some, List.take_succ_cons, List.take_append_of_le_length (by rw [length_statementCalls]),
    List.take_of_length_le (by rw [length_statementCalls])]
  rfl

/-- The query of `ExecuteQuery` with a charset is the third statement of a turn, behind the one that sets the charset. -/
theorem sent_caller {queryStr charSetName text : Bytes} {pcon : Connection Conn} {sent : Nat}
    (h : ((Operation.executeQueryCharset queryStr charSetName).sent pcon)[sent]? = some (.caller text)) :
    sent = 2 ∧ (pcon.outcome 1).threw = false ∧ ∃ rest,
      (Operation.executeQueryCharset queryStr charSetName).sent pcon = showCharset :: setNames charSetName :: .caller queryStr :: rest := by
  unfold Operation.sent at h ⊢
  dsimp only at h ⊢
  split at h
  · cases h
  · rename_i hc
    rw [if_neg hc]
    split at h
    · rename_i h₀
      rcases sent with _ | sent
      · cases h
      · cases h
    · rename_i h₀
      rw [if_neg h₀]
      split at h
      · rcases sent with _ | sent
        · cases h
        · cases h
      · rename_i original horiginal
        split at h
        · rcases sent with _ | _ | sent
          · cases h
          · cases h
          · cases h
        · rename_i h₁
          refine ⟨?_, by simpa using h₁, ?_⟩
          · rcases sent with _ | _ | _ | sent
            · cases h
            · cases h
            · rfl
            · rw [List.getElem?_cons_succ, List.getElem?_cons_succ, List.getElem?_cons_succ] at h
              split at h
              · cases h
              · rcases sent with _ | sent
                · cases h
                · cases h
          · rw [if_neg h₁]
            exact ⟨_, rfl⟩

end DatabaseConnector

/-! ## A call alone -/

namespace Caller

open DatabaseConnector

/-- What the `grab`s of a call give, from one that does what this one did; `NULL` behind what is known. -/
def env (c : Caller Conn) (i : Nat) : Option (Connection Conn) := c.got[i]?.join

/-- A call in progress has made some turns of its function that did not end the loop, and is as far in the next one as its place says,
with `retry_time` counted down once for each. -/
def Runs (dbRetryTime : Nat) (c : Caller Conn) : Prop :=
  match c.place with
  | .loop => c.retryTime + c.got.length = dbRetryTime ∧ (∀ g ∈ c.got, c.op.verdict g = none) ∧ c.calls = c.got.flatMap c.op.turn
  | .grab => c.retryTime + c.got.length + 1 = dbRetryTime ∧ (∀ g ∈ c.got, c.op.verdict g = none) ∧ c.calls = c.got.flatMap c.op.turn
  | .inTry pcon sent => ∃ prev, c.got = prev ++ [some pcon] ∧ c.retryTime + c.got.length = dbRetryTime ∧
      (∀ g ∈ prev, c.op.verdict g = none) ∧ sent ≤ (c.op.sent pcon).length ∧
        c.calls = prev.flatMap c.op.turn ++ (c.op.turn (some pcon)).take (sent + 1)
  | .release verdict => ∃ prev pcon, c.got = prev ++ [some pcon] ∧ c.retryTime + c.got.length = dbRetryTime ∧
      (∀ g ∈ prev, c.op.verdict g = none) ∧ verdict = c.op.verdict (some pcon) ∧ c.calls = c.got.flatMap c.op.turn
  | .return ret => c.calls = c.got.flatMap c.op.turn ∧
      ((ret = false ∧ c.got.length = dbRetryTime ∧ ∀ g ∈ c.got, c.op.verdict g = none) ∨
        ∃ prev g, c.got = prev ++ [g] ∧ c.got.length ≤ dbRetryTime ∧ (∀ g ∈ prev, c.op.verdict g = none) ∧ c.op.verdict g = some ret)

/-- The turns of what the `grab`s gave are those of the call. -/
theorem flatMap_turn_env (c : Caller Conn) :
    (List.range c.got.length).flatMap (fun i => c.op.turn (c.env i)) = c.got.flatMap c.op.turn := by
  have hmap : c.got = (List.range c.got.length).map c.env := by
    apply List.ext_getElem?
    intro i
    rw [List.getElem?_map]
    by_cases hi : i < c.got.length
    · rw [List.getElem?_range hi, List.getElem?_eq_getElem hi, Option.map_some, env, List.getElem?_eq_getElem hi]
      rfl
    · rw [List.getElem?_eq_none (by omega), List.getElem?_eq_none (by rw [List.length_range]; omega)]
      rfl
  conv_rhs => rw [hmap, List.flatMap_map]

/-- The connections got before the last one led to a retry. -/
theorem verdict_env {c : Caller Conn} {prev : List (Option (Connection Conn))} {rest : List (Option (Connection Conn))}
    (hgot : c.got = prev ++ rest) (hprev : ∀ g ∈ prev, c.op.verdict g = none) {i : Nat} (hi : i < prev.length) :
    c.op.verdict (c.env i) = none := by
  rw [env, hgot, List.getElem?_append_left hi, List.getElem?_eq_getElem hi]
  exact hprev _ (List.getElem_mem hi)

/-- A call that returns is the function with what the `grab`s gave, and makes the same calls. -/
theorem Runs.returned {dbRetryTime : Nat} {c : Caller Conn} {ret : Bool} (h : c.Runs dbRetryTime) (hplace : c.place = .return ret)
    (isDbUnreachable : Option Bool) (queryRet : Rows) (simpleRet : Option Bool) (sqlStr : Bytes) :
    ∃ db, (c.op.call c.env dbRetryTime).run (Db.start isDbUnreachable queryRet simpleRet sqlStr) = (ret, db) ∧ db.calls = c.calls := by
  rcases hcall : (c.op.call c.env dbRetryTime).run (Db.start isDbUnreachable queryRet simpleRet sqlStr) with ⟨ret', db⟩
  obtain ⟨n, hn, hends, hcases⟩ := call_cases c.op c.env dbRetryTime rfl rfl hcall
  rw [Runs, hplace] at h
  obtain ⟨hcalls, h⟩ := h
  have hboth : n = c.got.length ∧ ret' = ret := by
    rcases h with ⟨rfl, hlen, hgoing⟩ | ⟨prev, g, hgot, hlen, hgoing, hverdict⟩
    · have hnone : ∀ i < dbRetryTime, c.op.verdict (c.env i) = none := by
        intro i hi
        exact verdict_env (List.append_nil c.got).symm hgoing (by omega)
      rcases hcases with ⟨rfl, rfl, -⟩ | ⟨k, rfl, hk, -⟩
      · exact ⟨hlen.symm, rfl⟩
      · rw [hnone k (by omega)] at hk
        cases hk
    · have hlast : c.op.verdict (c.env prev.length) = some ret := by
        rw [env, hgot, List.getElem?_append_right (Nat.le_refl _), Nat.sub_self]
        exact hverdict
      have hlength : c.got.length = prev.length + 1 := by rw [hgot, List.length_append, List.length_singleton]
      rcases hcases with ⟨rfl, rfl, hall⟩ | ⟨k, rfl, hk, hbefore⟩
      · rw [hall prev.length (by omega)] at hlast
        cases hlast
      · rcases Nat.lt_trichotomy k prev.length with hlt | rfl | hgt
        · rw [verdict_env hgot hgoing hlt] at hk
          cases hk
        · rw [hlast] at hk
          exact ⟨hlength.symm, (Option.some.inj hk).symm⟩
        · rw [hbefore prev.length hgt] at hlast
          cases hlast
  obtain ⟨rfl, rfl⟩ := hboth
  refine ⟨db, rfl, ?_⟩
  rw [hends.calls, hcalls, flatMap_turn_env]

/-- A call whose `grab` throws has made the calls with which the function begins. -/
theorem Runs.threw {dbRetryTime : Nat} {c : Caller Conn} (h : c.Runs dbRetryTime) (hplace : c.place = .grab)
    (isDbUnreachable : Option Bool) (queryRet : Rows) (simpleRet : Option Bool) (sqlStr : Bytes) :
    ∃ db, (c.op.call c.env dbRetryTime).run (Db.start isDbUnreachable queryRet simpleRet sqlStr) = (false, db) ∧
      db.calls = c.calls ++ [.grab none] := by
  rcases hcall : (c.op.call c.env dbRetryTime).run (Db.start isDbUnreachable queryRet simpleRet sqlStr) with ⟨ret', db⟩
  obtain ⟨n, hn, hends, hcases⟩ := call_cases c.op c.env dbRetryTime rfl rfl hcall
  rw [Runs, hplace] at h
  obtain ⟨hlen, hgoing, hcalls⟩ := h
  have hnone : c.env c.got.length = none := by
    rw [env, List.getElem?_eq_none (Nat.le_refl _)]
    rfl
  have hlast : c.op.verdict (c.env c.got.length) = some false := by
    rw [hnone]
    rfl
  have hboth : n = c.got.length + 1 ∧ ret' = false := by
    rcases hcases with ⟨rfl, rfl, hall⟩ | ⟨k, rfl, hk, hbefore⟩
    · rw [hall c.got.length (by omega)] at hlast
      cases hlast
    · rcases Nat.lt_trichotomy k c.got.length with hlt | rfl | hgt
      · rw [verdict_env (List.append_nil c.got).symm hgoing hlt] at hk
        cases hk
      · rw [hlast] at hk
        exact ⟨rfl, (Option.some.inj hk).symm⟩
      · rw [hbefore c.got.length hgt] at hlast
        cases hlast
  obtain ⟨rfl, rfl⟩ := hboth
  refine ⟨db, rfl, ?_⟩
  rw [hends.calls, List.range_succ, List.flatMap_append, flatMap_turn_env, hcalls, List.flatMap_singleton, hnone]
  rfl

end Caller

namespace ConnectorState

open DatabaseConnector

variable [DecidableEq Tid]

/-! ## The calls of a thread -/

/-- The calls that a thread makes in a step. -/
def callsBy (t : Tid) : ConnectorReply Conn Tid → List (DbCall Conn)
  | .called t' call => if t' = t then [call] else []
  | _ => []

/-- All calls of a function that ends in a step of a thread. -/
def endedBy (t : Tid) : ConnectorReply Conn Tid → List (DbCall Conn)
  | .returned t' c _ => if t' = t then c.calls else []
  | .threw t' c => if t' = t then c.calls else []
  | _ => []

/-- The calls so far of the function that a thread is in. -/
def callsSoFar (t : Tid) (s : ConnectorState σ Conn Tid) : List (DbCall Conn) := (s.callers.lookup t).elim [] Caller.calls

/-- A step of one caller leaves the others where they are. -/
theorem lookup_goto (s : ConnectorState σ Conn Tid) (pool : PoolState σ Conn Tid) (t : Tid) (c : Caller Conn) (t' : Tid) :
    (s.goto pool t c).callers.lookup t' = if t' = t then some c else s.callers.lookup t' := by
  by_cases ht : t' = t
  · subst ht
    rw [if_pos rfl]
    exact Finmap.lookup_insert _
  · rw [if_neg ht]
    exact Finmap.lookup_insert_of_ne _ ht

/-- A thread that comes to a place with some more calls. -/
theorem callsSoFar_goto {s : ConnectorState σ Conn Tid} {t : Tid} {c c' : Caller Conn} (hc : s.callers.lookup t = some c)
    {calls : List (DbCall Conn)} (hcalls : c'.calls = c.calls ++ calls) (pool : PoolState σ Conn Tid) (t' : Tid) :
    (s.goto pool t c').callsSoFar t' = s.callsSoFar t' ++ if t = t' then calls else [] := by
  unfold callsSoFar
  rw [lookup_goto]
  by_cases ht : t' = t
  · subst ht
    rw [if_pos rfl, if_pos rfl, hc]
    exact hcalls
  · rw [if_neg ht, if_neg (fun he => ht he.symm), List.append_nil]

/-- A thread that leaves. -/
theorem callsSoFar_erase {s : ConnectorState σ Conn Tid} {t : Tid} {c : Caller Conn} (hc : s.callers.lookup t = some c)
    (pool : PoolState σ Conn Tid) (t' : Tid) :
    (if t = t' then c.calls else []) ++ callsSoFar t' { pool := pool, callers := s.callers.erase t } = s.callsSoFar t' := by
  unfold callsSoFar
  by_cases ht : t' = t
  · subst ht
    rw [if_pos rfl, Finmap.lookup_erase, hc]
    exact List.append_nil _
  · rw [if_neg (fun he => ht he.symm), Finmap.lookup_erase_ne ht]
    rfl

/-- Every call in progress is on its way through its function. -/
def Running (dbRetryTime : Nat) (s : ConnectorState σ Conn Tid) : Prop :=
  ∀ t c, s.callers.lookup t = some c → c.Runs dbRetryTime

/-- Every caller runs after a step of one that runs. -/
theorem Running.goto {s : ConnectorState σ Conn Tid} {dbRetryTime : Nat} (hs : s.Running dbRetryTime) {c : Caller Conn}
    (hc : c.Runs dbRetryTime) (pool : PoolState σ Conn Tid) (t : Tid) : (s.goto pool t c).Running dbRetryTime := by
  intro t' c' hc'
  rw [lookup_goto] at hc'
  split at hc'
  · cases hc'
    exact hc
  · exact hs t' c' hc'

/-- So do those that are left when one has returned. -/
theorem Running.erase {s : ConnectorState σ Conn Tid} {dbRetryTime : Nat} (hs : s.Running dbRetryTime)
    (pool : PoolState σ Conn Tid) (t : Tid) : Running dbRetryTime { pool := pool, callers := s.callers.erase t } := by
  intro t' c' hc'
  by_cases ht : t' = t
  · subst ht
    cases (Finmap.lookup_erase _ _).symm.trans hc'
  · rw [Finmap.lookup_erase_ne ht] at hc'
    exact hs t' c' hc'

variable [DecidableEq Conn] {base : ConnectionPool σ Env Conn} {poolMaxDbCons : Int} {dbRetryTime : Nat}
  {s s' : ConnectorState σ Conn Tid}

/-- What a thread has done goes into the calls of its function, until the function ends. -/
theorem callsSoFar_of_step {a : ConnectorAction Env Tid} {r : ConnectorReply Conn Tid}
    (h : (machine base poolMaxDbCons dbRetryTime).step s a = some (r, s')) (t : Tid) :
    endedBy t r ++ s'.callsSoFar t = s.callsSoFar t ++ callsBy t r := by
  cases step_cases h with
  | call t' op hc =>
    unfold callsSoFar
    rw [lookup_goto]
    by_cases ht : t = t'
    · subst ht
      rw [if_pos rfl, hc]
      rfl
    · rw [if_neg ht]
      exact (List.append_nil _).symm
  | exhausted t' c hc =>
    have hcalls : ({ c with place := .return false } : Caller Conn).calls = c.calls ++ [] := (List.append_nil _).symm
    refine (callsSoFar_goto hc hcalls s.pool t).trans ?_
    rw [ite_self]
    rfl
  | callGrab t' c r pool hc =>
    have hcalls : ({ c with retryTime := c.retryTime - 1, place := .grab } : Caller Conn).calls = c.calls ++ [] :=
      (List.append_nil _).symm
    refine (callsSoFar_goto hc hcalls pool t).trans ?_
    rw [ite_self]
    rfl
  | grabLock => exact (List.append_nil _).symm
  | wakeUp => exact (List.append_nil _).symm
  | throws t' c r pool hc => exact (callsSoFar_erase hc pool t).trans (List.append_nil _).symm
  | grabReturns t' c got pool connected outcome hc =>
    refine callsSoFar_goto hc ?_ pool t
    cases got <;> rfl
  | statement t' c pcon sent stmt hc => exact callsSoFar_goto hc rfl _ t
  | callRelease t' c pcon r pool hc => exact callsSoFar_goto hc rfl pool t
  | released t' c verdict notified r pool hc =>
    have hcalls : (c.released verdict).calls = c.calls ++ [] := by cases verdict <;> exact (List.append_nil _).symm
    refine (callsSoFar_goto hc hcalls pool t).trans ?_
    rw [ite_self]
    rfl
  | leave t' c ret hc => exact (callsSoFar_erase hc _ t).trans (List.append_nil _).symm

/-- A thread whose `grab` ends is in `grab`. -/
theorem place_of_grabCharset (hplaced : s.Placed) {t : Tid} {c : Caller Conn} (hc : s.callers.lookup t = some c) {throws : Bool}
    {r : PoolReply Conn} {pool : PoolState σ Conn Tid}
    (hpool : s.pool.step base poolMaxDbCons (.grabCharset t throws) = some (r, pool)) : c.place = .grab := by
  have hphase := hplaced t
  have hgrab : (s.pool.calls.lookup t).map PoolState.inGrab = some true := by
    cases PoolState.cases_of_step hpool with
    | throw _ pc ht =>
      rw [ht]
      rfl
    | returnGrab _ pc ht =>
      rw [ht]
      rfl
  rw [hgrab, hc, Option.bind_some] at hphase
  unfold Caller.phase at hphase
  cases hplace : c.place with
  | grab => rfl
  | _ =>
    rw [hplace] at hphase
    cases hphase

/-- A step gets its thread on through its function. -/
theorem Running.step (hs : s.Running dbRetryTime) (hplaced : s.Placed) {a : ConnectorAction Env Tid} {r : ConnectorReply Conn Tid}
    (h : Step base poolMaxDbCons dbRetryTime s a r s') : s'.Running dbRetryTime := by
  cases h with
  | call t op hc =>
    refine hs.goto ?_ s.pool t
    exact ⟨rfl, fun g hg => absurd hg List.not_mem_nil, rfl⟩
  | exhausted t c hc hplace hzero =>
    have hruns := hs t c hc
    rw [Caller.Runs, hplace] at hruns
    obtain ⟨hlen, hgoing, hcalls⟩ := hruns
    have hall : c.got.length = dbRetryTime := by omega
    refine hs.goto ?_ s.pool t
    exact ⟨hcalls, Or.inl ⟨rfl, hall, hgoing⟩⟩
  | callGrab t c r pool hc hplace hzero _ =>
    have hruns := hs t c hc
    rw [Caller.Runs, hplace] at hruns
    obtain ⟨hlen, hgoing, hcalls⟩ := hruns
    refine hs.goto ?_ pool t
    refine ⟨?_, hgoing, hcalls⟩
    dsimp only
    omega
  | grabLock => exact hs
  | wakeUp => exact hs
  | throws t c r pool => exact hs.erase pool t
  | grabReturns t c got pool connected outcome hc hpool =>
    have hruns := hs t c hc
    rw [Caller.Runs, place_of_grabCharset hplaced hc hpool] at hruns
    obtain ⟨hlen, hgoing, hcalls⟩ := hruns
    have hlength : ∀ g, (c.got ++ [g]).length = c.got.length + 1 := fun g => List.length_append
    cases got with
    | none =>
      refine hs.goto ?_ pool t
      refine ⟨?_, Or.inr ⟨c.got, none, rfl, ?_, hgoing, rfl⟩⟩
      · change c.calls ++ [.grab none] = (c.got ++ [none]).flatMap c.op.turn
        rw [hcalls, List.flatMap_append]
        rfl
      · change (c.got ++ [none]).length ≤ dbRetryTime
        rw [hlength]
        omega
    | some pcon =>
      refine hs.goto ?_ pool t
      refine ⟨c.got, rfl, ?_, hgoing, Nat.zero_le _, ?_⟩
      · change c.retryTime + (c.got ++ [some pcon]).length = dbRetryTime
        rw [hlength]
        omega
      · change c.calls ++ [.grab (some pcon.conn)] = _
        rw [hcalls]
        rfl
  | statement t c pcon sent stmt hc hplace hstmt =>
    have hruns := hs t c hc
    rw [Caller.Runs, hplace] at hruns
    obtain ⟨prev, hgot, hlen, hgoing, -, hcalls⟩ := hruns
    refine hs.goto ?_ s.pool t
    refine ⟨prev, hgot, hlen, hgoing, (List.getElem?_eq_some_iff.mp hstmt).1, ?_⟩
    change c.calls ++ _ = _
    rw [hcalls, List.append_assoc, ← Operation.take_turn_statement c.op pcon hstmt]
    rfl
  | callRelease t c pcon r pool hc hplace _ =>
    have hruns := hs t c hc
    rw [Caller.Runs, hplace] at hruns
    obtain ⟨prev, hgot, hlen, hgoing, -, hcalls⟩ := hruns
    refine hs.goto ?_ pool t
    refine ⟨prev, pcon, hgot, hlen, hgoing, rfl, ?_⟩
    change c.calls ++ _ = c.got.flatMap c.op.turn
    rw [hcalls, hgot, List.append_assoc, ← Operation.turn_eq_take, List.flatMap_append, List.flatMap_singleton]
  | released t c verdict notified r pool hc hplace _ =>
    have hruns := hs t c hc
    rw [Caller.Runs, hplace] at hruns
    obtain ⟨prev, pcon, hgot, hlen, hgoing, rfl, hcalls⟩ := hruns
    cases hverdict : c.op.verdict (some pcon) with
    | none =>
      refine hs.goto ?_ pool t
      refine ⟨hlen, ?_, hcalls⟩
      change ∀ g ∈ c.got, c.op.verdict g = none
      intro g hg
      rw [hgot, List.mem_append, List.mem_singleton] at hg
      rcases hg with hg | rfl
      · exact hgoing g hg
      · exact hverdict
    | some ret =>
      refine hs.goto ?_ pool t
      refine ⟨hcalls, Or.inr ⟨prev, some pcon, hgot, ?_, hgoing, hverdict⟩⟩
      change c.got.length ≤ dbRetryTime
      omega
  | leave t c ret => exact hs.erase _ t

variable {dbDefaultCharset : Bytes}

/-- In every state reached every call in progress is on its way through its function. -/
theorem running_of_run {acts : List (ConnectorAction Env Tid)} {replies : List (ConnectorReply Conn Tid)}
    (h : (machine base poolMaxDbCons dbRetryTime).run (new base dbDefaultCharset) acts = some (replies, s)) :
    s.Running dbRetryTime := by
  have hboth : s.Placed ∧ s.Running dbRetryTime := by
    refine Machine.run_invariant (P := fun s : ConnectorState σ Conn Tid => s.Placed ∧ s.Running dbRetryTime) ?_ ⟨?_, ?_⟩ h
    · intro s a r s' hs hstep
      exact ⟨hs.1.step (step_cases hstep), hs.2.step hs.1 (step_cases hstep)⟩
    · intro t
      rfl
    · intro t c hc
      cases hc
  exact hboth.2

/-- However the steps of the threads interleave: the calls that a thread makes are those of its functions, one function after another and
then the one it is in; a function that returns has made the calls, and has the result, of the function alone with what its `grab`s gave
it; and one that ends with the exception of a `grab` has made those that it makes alone in front of a `grab` that gives `NULL`. -/
theorem calls_refine {acts : List (ConnectorAction Env Tid)} {replies : List (ConnectorReply Conn Tid)}
    (h : (machine base poolMaxDbCons dbRetryTime).run (new base dbDefaultCharset) acts = some (replies, s)) :
    (∀ t, replies.flatMap (callsBy t) = replies.flatMap (endedBy t) ++ s.callsSoFar t) ∧
      (∀ t c ret, .returned t c ret ∈ replies → ∀ isDbUnreachable queryRet simpleRet sqlStr, ∃ db,
        (c.op.call c.env dbRetryTime).run (Db.start isDbUnreachable queryRet simpleRet sqlStr) = (ret, db) ∧ db.calls = c.calls) ∧
      ∀ t c, .threw t c ∈ replies → ∀ isDbUnreachable queryRet simpleRet sqlStr, ∃ db,
        (c.op.call c.env dbRetryTime).run (Db.start isDbUnreachable queryRet simpleRet sqlStr) = (false, db) ∧
          db.calls = c.calls ++ [.grab none] := by
  have hends : (∀ t c ret, ConnectorReply.returned t c ret ∈ replies → c.Runs dbRetryTime ∧ c.place = .return ret) ∧
      ∀ t c, ConnectorReply.threw t c ∈ replies → c.Runs dbRetryTime ∧ c.place = .grab := by
    refine Machine.run_history (P := fun _ replies (_ : ConnectorState σ Conn Tid) =>
      (∀ t c ret, ConnectorReply.returned t c ret ∈ replies → c.Runs dbRetryTime ∧ c.place = .return ret) ∧
        ∀ t c, ConnectorReply.threw t c ∈ replies → c.Runs dbRetryTime ∧ c.place = .grab)
      ⟨fun t c ret hr => absurd hr List.not_mem_nil, fun t c hr => absurd hr List.not_mem_nil⟩ ?_ h
    intro acts replies s a r s' hrun ⟨hreturned, hthrew⟩ hstep
    have hrunning := running_of_run hrun
    have hplaced := (placed_held hrun).1
    constructor
    · intro t c ret hr
      rcases List.mem_append.mp hr with hr | hr
      · exact hreturned t c ret hr
      · cases List.mem_singleton.mp hr
        cases step_cases hstep with
        | leave _ _ _ hc hplace => exact ⟨hrunning t c hc, hplace⟩
    · intro t c hr
      rcases List.mem_append.mp hr with hr | hr
      · exact hthrew t c hr
      · cases List.mem_singleton.mp hr
        cases step_cases hstep with
        | throws _ _ r pool hc hpool => exact ⟨hrunning t c hc, place_of_grabCharset hplaced hc hpool⟩
  refine ⟨fun t => ?_, fun t c ret hr => ?_, fun t c hr => ?_⟩
  · exact (Machine.run_conserves (fun {_ _ _ _} hstep => callsSoFar_of_step hstep t) h).symm
  · obtain ⟨hruns, hplace⟩ := hends.1 t c ret hr
    exact hruns.returned hplace
  · obtain ⟨hruns, hplace⟩ := hends.2 t c hr
    exact hruns.threw hplace

/-! ## The calls on a connection -/

/-- The connection that a call is about. -/
def connOfCall : DbCall Conn → Option Conn
  | .grab pc => pc
  | .release pc _ => some pc
  | .statement pc _ _ => some pc

/-- The calls about a connection in a step, with the thread that makes them. -/
def callsOn (conn : Conn) : ConnectorReply Conn Tid → List (Tid × DbCall Conn)
  | .called t call => if connOfCall call = some conn then [(t, call)] else []
  | _ => []

/-- No thread has a connection under `try`. -/
def Unused (conn : Conn) (s : ConnectorState σ Conn Tid) : Prop := ∀ t c, s.callers.lookup t = some c → c.uses conn = false

/-- A thread has a connection under `try`, with some statements sent on it. -/
structure UsedBy (conn : Conn) (s : ConnectorState σ Conn Tid) (t : Tid) (c : Caller Conn) (pcon : Connection Conn) (sent : Nat) :
    Prop where
  lookup : s.callers.lookup t = some c
  place : c.place = .inTry pcon sent
  conn : pcon.conn = conn

/-- The caller that a connection is used by uses it. -/
theorem UsedBy.uses {conn : Conn} {t : Tid} {c : Caller Conn} {pcon : Connection Conn} {sent : Nat} (h : UsedBy conn s t c pcon sent) :
    c.uses conn = true :=
  Caller.uses_iff.mpr ⟨pcon, sent, h.place, h.conn⟩

/-- What a step is to a connection: nothing, and who has it stays as it is, or it is grabbed, gets one more statement, or is released. -/
inductive ConnStep (conn : Conn) (s s' : ConnectorState σ Conn Tid) : List (Tid × DbCall Conn) → Prop
  | none : (∀ t c, c.uses conn = true → (s'.callers.lookup t = some c ↔ s.callers.lookup t = some c)) → ConnStep conn s s' []
  | grab (t : Tid) (c : Caller Conn) (pcon : Connection Conn) : Unused conn s → UsedBy conn s' t c pcon 0 →
    ConnStep conn s s' [(t, .grab (some conn))]
  | statement (t : Tid) (c c' : Caller Conn) (pcon : Connection Conn) (sent : Nat) (stmt : Statement) : UsedBy conn s t c pcon sent →
    (c.op.sent pcon)[sent]? = some stmt → UsedBy conn s' t c' pcon (sent + 1) → c'.op = c.op →
    ConnStep conn s s' [(t, .statement conn stmt (pcon.outcome sent).applied)]
  | release (t : Tid) (c : Caller Conn) (pcon : Connection Conn) : UsedBy conn s t c pcon (c.op.sent pcon).length → Unused conn s' →
    ConnStep conn s s' [(t, .release conn (!c.op.succeeds pcon))]

/-- A thread that comes to a place changes nothing for a connection that it has neither before nor after. -/
theorem uses_goto {conn : Conn} {t : Tid} {c : Caller Conn} (hold : ∀ c₀, s.callers.lookup t = some c₀ → c₀.uses conn = false)
    (hnew : c.uses conn = false) (pool : PoolState σ Conn Tid) (t' : Tid) (c' : Caller Conn) (hc' : c'.uses conn = true) :
    (s.goto pool t c).callers.lookup t' = some c' ↔ s.callers.lookup t' = some c' := by
  rw [lookup_goto]
  by_cases ht : t' = t
  · subst ht
    rw [if_pos rfl]
    constructor
    · intro he
      cases he
      rw [hnew] at hc'
      cases hc'
    · intro he
      rw [hold c' he] at hc'
      cases hc'
  · rw [if_neg ht]

/-- The same of a thread that leaves. -/
theorem uses_erase {conn : Conn} {t : Tid} (hold : ∀ c₀, s.callers.lookup t = some c₀ → c₀.uses conn = false)
    (t' : Tid) (c' : Caller Conn) (hc' : c'.uses conn = true) :
    (s.callers.erase t).lookup t' = some c' ↔ s.callers.lookup t' = some c' := by
  by_cases ht : t' = t
  · subst ht
    rw [Finmap.lookup_erase]
    constructor
    · intro he
      cases he
    · intro he
      rw [hold c' he] at hc'
      cases hc'
  · rw [Finmap.lookup_erase_ne ht]

/-- A caller that is not under `try` has no connection. -/
theorem not_uses_of_place {c : Caller Conn} (h : ∀ pcon sent, c.place ≠ .inTry pcon sent) (conn : Conn) : c.uses conn = false := by
  rw [← Bool.not_eq_true, Caller.uses_iff]
  rintro ⟨pcon, sent, hplace, -⟩
  exact h pcon sent hplace

variable {status : σ → Conn → ConnStatus}

/-- A step of the machine is one of those of a connection. -/
theorem connStep_of_step (hlaw : base.Lawful status) {acts : List (ConnectorAction Env Tid)}
    {replies : List (ConnectorReply Conn Tid)}
    (hrun : (machine base poolMaxDbCons dbRetryTime).run (new base dbDefaultCharset) acts = some (replies, s))
    {a : ConnectorAction Env Tid} {r : ConnectorReply Conn Tid} (hstep : (machine base poolMaxDbCons dbRetryTime).step s a = some (r, s'))
    (conn : Conn) : ConnStep conn s s' (callsOn conn r) := by
  have hplaced := (placed_held hrun).1
  have hold : ∀ {t : Tid} {c : Caller Conn}, s.callers.lookup t = some c → (∀ pcon sent, c.place ≠ .inTry pcon sent) →
      ∀ c₀, s.callers.lookup t = some c₀ → c₀.uses conn = false := by
    intro t c hc hplace c₀ hc₀
    cases hc.symm.trans hc₀
    exact not_uses_of_place hplace conn
  cases step_cases hstep with
  | call t op hc =>
    refine ConnStep.none (uses_goto (fun c₀ hc₀ => ?_) rfl _)
    cases hc.symm.trans hc₀
  | exhausted t c hc hplace _ =>
    refine ConnStep.none (uses_goto (hold hc fun pcon sent he => ?_) rfl _)
    cases hplace.symm.trans he
  | callGrab t c r pool hc hplace _ _ =>
    refine ConnStep.none (uses_goto (hold hc fun pcon sent he => ?_) rfl _)
    cases hplace.symm.trans he
  | grabLock => exact ConnStep.none fun t c _ => Iff.rfl
  | wakeUp => exact ConnStep.none fun t c _ => Iff.rfl
  | throws t c r pool hc hpool =>
    have hplace := place_of_grabCharset hplaced hc hpool
    refine ConnStep.none (uses_erase (hold hc fun pcon sent he => ?_))
    cases hplace.symm.trans he
  | grabReturns t c got pool connected outcome hc hpool =>
    have hplace := place_of_grabCharset hplaced hc hpool
    have hbefore := hold hc fun pcon sent he => by cases hplace.symm.trans he
    cases got with
    | none => exact ConnStep.none (uses_goto hbefore rfl pool)
    | some pcon =>
      by_cases hconn : pcon.conn = conn
      · subst hconn
        have hcalls : callsOn pcon.conn (.called t (.grab (some pcon.conn)) : ConnectorReply Conn Tid) = [(t, .grab (some pcon.conn))] :=
          if_pos rfl
        have hused : UsedBy pcon.conn (s.goto pool t (c.grabbed (some pcon))) t _ pcon 0 := ⟨Finmap.lookup_insert _, rfl, rfl⟩
        rw [Option.map_some, hcalls]
        refine ConnStep.grab t _ pcon (fun t' c' hc' => ?_) hused
        -- another thread that had the connection would still have it
        rw [← Bool.not_eq_true]
        intro huses'
        have hne : t' ≠ t := by
          rintro rfl
          rw [hbefore c' hc'] at huses'
          cases huses'
        have hstays : (s.goto pool t (c.grabbed (some pcon))).callers.lookup t' = some c' := by
          rw [lookup_goto, if_neg hne, hc']
        exact hne (eq_of_uses hlaw (Machine.run_concat_eq_some.mpr ⟨_, _, _, hrun, hstep, rfl⟩) hstays huses' hused.lookup hused.uses)
      · have hcalls : callsOn conn (.called t (.grab (some pcon.conn)) : ConnectorReply Conn Tid) = [] :=
          if_neg fun he => hconn (Option.some.inj he)
        rw [Option.map_some, hcalls]
        refine ConnStep.none (uses_goto hbefore ?_ pool)
        exact decide_eq_false hconn
  | statement t c pcon sent stmt hc hplace hstmt =>
    by_cases hconn : pcon.conn = conn
    · subst hconn
      have hcalls : callsOn pcon.conn (.called t (.statement pcon.conn stmt (pcon.outcome sent).applied) : ConnectorReply Conn Tid) =
          [(t, .statement pcon.conn stmt (pcon.outcome sent).applied)] := if_pos rfl
      rw [hcalls]
      exact ConnStep.statement t c _ pcon sent stmt ⟨hc, hplace, rfl⟩ hstmt ⟨Finmap.lookup_insert _, rfl, rfl⟩ rfl
    · have hcalls : callsOn conn (.called t (.statement pcon.conn stmt (pcon.outcome sent).applied) : ConnectorReply Conn Tid) = [] :=
        if_neg fun he => hconn (Option.some.inj he)
      rw [hcalls]
      refine ConnStep.none (uses_goto (fun c₀ hc₀ => ?_) ?_ _)
      · cases hc.symm.trans hc₀
        rw [Caller.uses, Caller.usesOf, hplace]
        exact decide_eq_false hconn
      · exact decide_eq_false hconn
  | callRelease t c pcon r pool hc hplace hpool =>
    by_cases hconn : pcon.conn = conn
    · subst hconn
      have hcalls : callsOn pcon.conn (.called t (.release pcon.conn (!c.op.succeeds pcon)) : ConnectorReply Conn Tid) =
          [(t, .release pcon.conn (!c.op.succeeds pcon))] := if_pos rfl
      have huses : c.uses pcon.conn = true := Caller.uses_iff.mpr ⟨pcon, _, hplace, rfl⟩
      rw [hcalls]
      refine ConnStep.release t c pcon ⟨hc, hplace, rfl⟩ fun t' c' hc' => ?_
      rw [lookup_goto] at hc'
      split at hc'
      · cases hc'
        rfl
      · rename_i hne
        rw [← Bool.not_eq_true]
        exact fun huses' => hne (eq_of_uses hlaw hrun hc' huses' hc huses)
    · have hcalls : callsOn conn (.called t (.release pcon.conn (!c.op.succeeds pcon)) : ConnectorReply Conn Tid) = [] :=
        if_neg fun he => hconn (Option.some.inj he)
      rw [hcalls]
      refine ConnStep.none (uses_goto (fun c₀ hc₀ => ?_) rfl pool)
      cases hc.symm.trans hc₀
      rw [Caller.uses, Caller.usesOf, hplace]
      exact decide_eq_false hconn
  | released t c verdict notified r pool hc hplace _ =>
    refine ConnStep.none (uses_goto (hold hc fun pcon sent he => ?_) ?_ pool)
    · cases hplace.symm.trans he
    · cases verdict <;> rfl
  | leave t c ret hc hplace =>
    refine ConnStep.none (uses_erase (hold hc fun pcon sent he => ?_))
    cases hplace.symm.trans he

/-- One turn of a function, by the thread that takes it and with the connection it got. -/
structure Turn (Conn Tid : Type) where
  tid : Tid
  op : Operation
  pcon : Connection Conn

/-- Its calls. -/
def Turn.calls (x : Turn Conn Tid) : List (Tid × DbCall Conn) := (x.op.turn (some x.pcon)).map fun call => (x.tid, call)

/-- The calls on a connection are whole turns, and behind them the calls so far of the turn of the one thread that has it, if one has. -/
def Serialized (conn : Conn) (calls : List (Tid × DbCall Conn)) (s : ConnectorState σ Conn Tid) : Prop :=
  ∃ turns : List (Turn Conn Tid), (∀ x ∈ turns, x.pcon.conn = conn) ∧
    (calls = turns.flatMap Turn.calls ∧ Unused conn s ∨
      ∃ t c pcon sent, UsedBy conn s t c pcon sent ∧
        calls = turns.flatMap Turn.calls ++ ((c.op.turn (some pcon)).take (sent + 1)).map fun call => (t, call))

/-- However the steps of the threads interleave, and whatever the base class does that keeps to the life of a connection, the calls about
one connection are whole turns of functions, one after another, each by one thread and from its `grab` to its `release`, and behind them
at most the beginning of one more. -/
theorem turns_serialized (hlaw : base.Lawful status) {acts : List (ConnectorAction Env Tid)} {replies : List (ConnectorReply Conn Tid)}
    (h : (machine base poolMaxDbCons dbRetryTime).run (new base dbDefaultCharset) acts = some (replies, s)) (conn : Conn) :
    Serialized conn (replies.flatMap (callsOn conn)) s := by
  refine Machine.run_history (P := fun _ replies (s : ConnectorState σ Conn Tid) => Serialized conn (replies.flatMap (callsOn conn)) s)
    ⟨[], fun x hx => absurd hx List.not_mem_nil, Or.inl ⟨rfl, fun t c hc => ?_⟩⟩ ?_ h
  · cases hc
  intro acts replies s a r s' hrun ⟨turns, hturns, hserial⟩ hstep
  rw [List.flatMap_append, List.flatMap_singleton]
  have honly : ∀ {t t' c c' pcon pcon' sent sent'}, UsedBy conn s t c pcon sent → UsedBy conn s t' c' pcon' sent' →
      t' = t ∧ c' = c ∧ pcon' = pcon ∧ sent' = sent := by
    intro t t' c c' pcon pcon' sent sent' hu hu'
    obtain rfl := eq_of_uses hlaw hrun hu'.lookup hu'.uses hu.lookup hu.uses
    obtain rfl := Option.some.inj (hu'.lookup.symm.trans hu.lookup)
    have hplace := hu'.place.symm.trans hu.place
    simp only [CallerPlace.inTry.injEq] at hplace
    exact ⟨rfl, rfl, hplace.1, hplace.2⟩
  have hconn := connStep_of_step hlaw hrun hstep conn
  generalize callsOn conn r = new at hconn ⊢
  cases hconn with
  | none hsame =>
    rw [List.append_nil]
    refine ⟨turns, hturns, ?_⟩
    rcases hserial with ⟨hcalls, hunused⟩ | ⟨t, c, pcon, sent, hused, hcalls⟩
    · refine Or.inl ⟨hcalls, fun t c hc => ?_⟩
      rw [← Bool.not_eq_true]
      intro huses
      rw [hunused t c ((hsame t c huses).mp hc)] at huses
      cases huses
    · exact Or.inr ⟨t, c, pcon, sent, ⟨(hsame t c hused.uses).mpr hused.lookup, hused.place, hused.conn⟩, hcalls⟩
  | grab t c pcon hunused hused =>
    rcases hserial with ⟨hcalls, -⟩ | ⟨t', c', pcon', sent', hused', -⟩
    · refine ⟨turns, hturns, Or.inr ⟨t, c, pcon, 0, hused, ?_⟩⟩
      rw [hcalls, Operation.turn_some, hused.conn]
      rfl
    · have huses := hused'.uses
      rw [hunused t' c' hused'.lookup] at huses
      cases huses
  | statement t c c' pcon sent stmt hused hstmt hused' hop =>
    rcases hserial with ⟨-, hunused⟩ | ⟨t₁, c₁, pcon₁, sent₁, hused₁, hcalls⟩
    · have huses := hused.uses
      rw [hunused t c hused.lookup] at huses
      cases huses
    · obtain ⟨rfl, rfl, rfl, rfl⟩ := honly hused hused₁
      refine ⟨turns, hturns, Or.inr ⟨t₁, c', pcon₁, sent₁ + 1, hused', ?_⟩⟩
      rw [hcalls, hop, Operation.take_turn_statement _ _ hstmt, List.map_append, List.append_assoc, hused.conn]
      rfl
  | release t c pcon hused hunused' =>
    rcases hserial with ⟨-, hunused⟩ | ⟨t₁, c₁, pcon₁, sent₁, hused₁, hcalls⟩
    · have huses := hused.uses
      rw [hunused t c hused.lookup] at huses
      cases huses
    · obtain ⟨rfl, rfl, rfl, rfl⟩ := honly hused hused₁
      refine ⟨turns ++ [⟨t₁, c₁.op, pcon₁⟩], fun x hx => ?_, Or.inl ⟨?_, hunused'⟩⟩
      · rcases List.mem_append.mp hx with hx | hx
        · exact hturns x hx
        · rw [List.mem_singleton.mp hx]
          exact hused.conn
      · have hturn : Turn.calls ⟨t₁, c₁.op, pcon₁⟩ =
            ((c₁.op.turn (some pcon₁)).take ((c₁.op.sent pcon₁).length + 1)).map (fun call => (t₁, call)) ++
              [(t₁, .release conn (!c₁.op.succeeds pcon₁))] := by
          rw [← hused.conn]
          exact (congrArg (List.map _) (Operation.turn_eq_take c₁.op pcon₁)).trans List.map_append
        rw [hcalls, List.flatMap_append, List.flatMap_singleton, hturn, List.append_assoc]

/-! ## The charset of a query -/

/-- Where a connection applies each statement whose call does not throw, the query of `ExecuteQuery` with a charset is sent in a session
that has this charset in all three variables, whatever the threads have done with the connection before, and whatever the session was. -/
theorem query_under_charset (hlaw : base.Lawful status) {acts : List (ConnectorAction Env Tid)}
    {replies : List (ConnectorReply Conn Tid)}
    (h : (machine base poolMaxDbCons dbRetryTime).run (new base dbDefaultCharset) acts = some (replies, s)) {t : Tid} {conn : Conn}
    {text : Bytes} {applied : Bool} (hstep : (machine base poolMaxDbCons dbRetryTime).step s (.statement t : ConnectorAction Env Tid) =
      some (.called t (.statement conn (.caller text) applied), s')) {c : Caller Conn} (hc : s.callers.lookup t = some c)
    {queryStr charSetName : Bytes} (hop : c.op = .executeQueryCharset queryStr charSetName)
    (happlied : ∀ pcon sent, c.place = .inTry pcon sent → ∀ i, (pcon.outcome i).threw = false → (pcon.outcome i).applied = true)
    (sess : CharsetSession) :
    (replies.flatMap (callsOn conn)).foldl (fun sess call => sess.afterCall call.2) sess = ⟨charSetName, charSetName, charSetName⟩ := by
  generalize hr : ConnectorReply.called t (.statement conn (.caller text) applied) = r at hstep
  cases step_cases hstep with
  | statement _ c₁ pcon sent stmt hc₁ hplace hstmt =>
    cases hr
    cases hc.symm.trans hc₁
    rw [hop] at hstmt
    obtain ⟨rfl, h₁, rest, hsent⟩ := sent_caller hstmt
    have hused : UsedBy pcon.conn s t c pcon 2 := ⟨hc, hplace, rfl⟩
    obtain ⟨turns, -, ⟨-, hunused⟩ | ⟨t', c', pcon', sent', hused', hcalls⟩⟩ := turns_serialized hlaw h pcon.conn
    · have huses := hused.uses
      rw [hunused t c hc] at huses
      cases huses
    · obtain rfl := eq_of_uses hlaw h hused'.lookup hused'.uses hc hused.uses
      cases hused'.lookup.symm.trans hc
      cases hused'.place.symm.trans hplace
      rw [hcalls, hop, Operation.turn_some, hsent, List.foldl_append]
      simp only [statementCalls, List.zipIdx_cons, List.map_cons, List.cons_append, List.take_succ_cons, List.take_zero, List.map_nil,
        List.foldl_cons, List.foldl_nil, CharsetSession.afterCall]
      rw [happlied pcon 2 hplace 1 h₁, if_pos rfl, apply_setNames]

/-! ## Two threads -/

/-- A connection on which all goes well. -/
def goodOutcome (_ : Nat) : StatementOutcome :=
  { applied := true, threw := false, rows := [[ascii "character_set_client", ascii "utf8"]], result := true }

/-- A thread is about to send a query with a charset while another one executes a statement. -/
def twoCallers : List (ConnectorAction (Option Nat) Nat) :=
  [.call 1 (.executeQueryCharset (ascii "select 1") (ascii "gbk")), .call 2 (.execute (ascii "delete from t")), .turn 1, .turn 2,
    .grabLock 2 (some 7), .grabLock 1 (some 8), .grabReturns 1 true goodOutcome, .statement 1, .grabReturns 2 true goodOutcome,
    .statement 1, .statement 2, .callRelease 2]

/-- Both return. -/
def twoReturns : List (ConnectorAction (Option Nat) Nat) :=
  twoCallers ++ [.statement 1, .releaseLock 2 none, .leave 2, .statement 1, .callRelease 1, .releaseLock 1 none, .leave 1]

/-- Two threads that both return. -/
theorem calls_refine_twoReturns :
    ∃ replies s, (machine (recordPool Nat) 20 3).run (new (recordPool Nat) []) twoReturns = some (replies, s) ∧
      replies.flatMap (callsBy 1) = replies.flatMap (endedBy 1) ++ s.callsSoFar 1 := by
  have hsome : ((machine (recordPool Nat) 20 3).run (new (recordPool Nat) []) twoReturns).isSome := by decide +kernel
  obtain ⟨⟨replies, s⟩, hrun⟩ := Option.isSome_iff_exists.mp hsome
  exact ⟨replies, s, hrun, (calls_refine hrun).1 1⟩

/-- Their turns on the connection they share. -/
theorem turns_serialized_twoReturns :
    ∃ replies s, (machine (recordPool Nat) 20 3).run (new (recordPool Nat) []) twoReturns = some (replies, s) ∧
      Serialized 8 (replies.flatMap (callsOn 8)) s := by
  have hsome : ((machine (recordPool Nat) 20 3).run (new (recordPool Nat) []) twoReturns).isSome := by decide +kernel
  obtain ⟨⟨replies, s⟩, hrun⟩ := Option.isSome_iff_exists.mp hsome
  exact ⟨replies, s, hrun, turns_serialized recordPool_lawful hrun 8⟩

/-- Two queries under a character set, in a session that starts with mixed ones. -/
theorem query_under_charset_twoCallers :
    ∃ replies s, (machine (recordPool Nat) 20 3).run (new (recordPool Nat) []) twoCallers = some (replies, s) ∧
      (replies.flatMap (callsOn 8)).foldl (fun sess call => sess.afterCall call.2) splitSession =
        ⟨ascii "gbk", ascii "gbk", ascii "gbk"⟩ := by
  have hsome : ((machine (recordPool Nat) 20 3).run (new (recordPool Nat) []) twoCallers).isSome := by decide +kernel
  obtain ⟨⟨replies, s⟩, hrun⟩ := Option.isSome_iff_exists.mp hsome
  have hfirst : (((machine (recordPool Nat) 20 3).run (new (recordPool Nat) []) twoCallers).bind fun r => r.2.callers.lookup 1) =
      some { op := .executeQueryCharset (ascii "select 1") (ascii "gbk"), retryTime := 2
             got := [some { conn := 8, connected := true, outcome := goodOutcome }]
             calls := [.grab (some 8), .statement 8 showCharset true, .statement 8 (setNames (ascii "gbk")) true]
             place := .inTry { conn := 8, connected := true, outcome := goodOutcome } 2 } := by rfl
  have hnext : (((machine (recordPool Nat) 20 3).run (new (recordPool Nat) []) twoCallers).bind fun r =>
      ((machine (recordPool Nat) 20 3).step r.2 (.statement 1)).map Prod.fst) =
      some (.called 1 (.statement 8 (.caller (ascii "select 1")) true)) := by rfl
  rw [hrun] at hfirst hnext
  obtain ⟨⟨r, s'⟩, hstep, rfl⟩ := Option.map_eq_some_iff.mp hnext
  refine ⟨replies, s, hrun, query_under_charset recordPool_lawful hrun hstep hfirst rfl (fun pcon sent hplace i _ => ?_) splitSession⟩
  cases hplace
  rfl

end ConnectorState

end FrontServer
