import FrontServer.Lemmas.DatabaseConnector

/-!
# What a call that retries does with its connections

A turn of the loop that gets a connection releases it once, at its end, and only then is the next one grabbed: in the block under
`try`, where nothing throws any more, or in the handler of the exceptions.
-/

namespace FrontServer

variable {Conn : Type}

namespace DatabaseConnector

/-- A call on a connection that neither takes nor gives back one. -/
def isStatement : DbCall Conn → Bool
  | .statement _ _ _ => true
  | _ => false

/-- The calls of an attempt: its `grab`, and where that gave a connection, statements and one release of it, as reusable when every
statement of the attempt succeeded and as bad otherwise. -/
def AttemptCalls (op : Operation) (got : Option (Connection Conn)) (calls : List (DbCall Conn)) : Prop :=
  match got with
  | none => calls = [.grab none]
  | some pcon => ∃ stmts, (∀ c ∈ stmts, isStatement c = true) ∧
      calls = .grab (some pcon.conn) :: stmts ++ [.release pcon.conn (!op.succeeds pcon)]

/-- An attempt that ends the loop: its `grab` gave nothing, or all of it succeeded. -/
def Stops (op : Operation) (got : Option (Connection Conn)) : Prop :=
  match got with
  | none => True
  | some pcon => op.succeeds pcon = true

theorem turn_attemptCalls (op : Operation) (got : Option (Connection Conn)) : AttemptCalls op got (op.turn got) := by
  cases got with
  | none => rfl
  | some pcon =>
    refine ⟨statementCalls pcon (op.sent pcon), fun c hc => ?_, rfl⟩
    obtain ⟨st, -, rfl⟩ := List.mem_map.mp hc
    rfl

theorem verdict_eq_none {op : Operation} {got : Option (Connection Conn)} : op.verdict got = none ↔ ¬Stops op got := by
  cases got with
  | none =>
    constructor
    · intro h
      cases h
    · intro h
      exact absurd trivial h
  | some pcon =>
    rw [Operation.verdict, Stops]
    by_cases hs : op.succeeds pcon = true
    · rw [if_pos hs]
      constructor
      · intro h
        cases h
      · intro h
        exact absurd hs h
    · rw [if_neg hs]
      exact iff_of_true rfl hs

theorem verdict_eq_true {op : Operation} {got : Option (Connection Conn)} :
    op.verdict got = some true ↔ ∃ pcon, got = some pcon ∧ op.succeeds pcon = true := by
  cases got with
  | none =>
    constructor
    · intro h
      cases h
    · rintro ⟨pcon, h, -⟩
      cases h
  | some pcon =>
    rw [Operation.verdict]
    by_cases hs : op.succeeds pcon = true
    · rw [if_pos hs]
      exact iff_of_true rfl ⟨pcon, rfl, hs⟩
    · rw [if_neg hs]
      constructor
      · intro h
        cases h
      · rintro ⟨pcon', h, hs'⟩
        cases h
        exact absurd hs' hs

/-- How many attempts a call makes: those below the budget that no attempt before them has ended. -/
theorem attempts_of_call (op : Operation) (env : Nat → Option (Connection Conn)) (dbRetryTime : Nat) {db db' : Db Conn} {ret : Bool}
    (hcalls : db.calls = []) (hgrabs : db.grabs = 0) (h : (op.call env dbRetryTime).run db = (ret, db')) :
    ∃ n, TurnsEnd op env n db db' ∧
      (∀ j, j < n ↔ j < dbRetryTime ∧ ∀ i < j, ¬Stops op (env i)) ∧
        (ret = true ↔ ∃ k pcon, n = k + 1 ∧ env k = some pcon ∧ op.succeeds pcon = true) := by
  obtain ⟨n, hn, hturns, hend⟩ := call_cases op env dbRetryTime hcalls hgrabs h
  refine ⟨n, hturns, fun j => ?_, ?_⟩
  · rcases hend with ⟨rfl, -, hgoing⟩ | ⟨k, rfl, hverdict, hgoing⟩
    · exact ⟨fun hj => ⟨hj, fun i hi => verdict_eq_none.mp (hgoing i (hi.trans hj))⟩, And.left⟩
    · constructor
      · intro hj
        exact ⟨by omega, fun i hi => verdict_eq_none.mp (hgoing i (by omega))⟩
      · rintro ⟨-, hbefore⟩
        by_contra hge
        have hnone := verdict_eq_none.mpr (hbefore k (by omega))
        cases hnone.symm.trans hverdict
  · rcases hend with ⟨rfl, rfl, hgoing⟩ | ⟨k, rfl, hverdict, -⟩
    · refine ⟨nofun, ?_⟩
      rintro ⟨k, pcon, rfl, henv, hs⟩
      have hnone := hgoing k (Nat.lt_succ_self k)
      cases hnone.symm.trans (verdict_eq_true.mpr ⟨pcon, henv, hs⟩)
    · constructor
      · rintro rfl
        obtain ⟨pcon, henv, hs⟩ := verdict_eq_true.mp hverdict
        exact ⟨k, pcon, rfl, henv, hs⟩
      · rintro ⟨k', pcon, he, henv, hs⟩
        cases he
        cases hverdict.symm.trans (verdict_eq_true.mpr ⟨pcon, henv, hs⟩)
        rfl

/-- A call of one of the four functions makes at most `dbRetryTime` attempts, one after the other, until the first that succeeds or
gets no connection, and returns true exactly when its last attempt succeeded. Each attempt that gets a connection releases it once
before the call goes on or returns. -/
theorem retry_ledger (op : Operation) (env : Nat → Option (Connection Conn)) (dbRetryTime : Nat) (isDbUnreachable : Option Bool)
    (queryRet : Rows) (simpleRet : Option Bool) (sqlStr : Bytes) (ret : Bool) (db : Db Conn)
    (h : (op.call env dbRetryTime).run (Db.start isDbUnreachable queryRet simpleRet sqlStr) = (ret, db)) :
    ∃ attempts : List (List (DbCall Conn)), db.calls = attempts.flatten ∧
      (∀ i calls, attempts[i]? = some calls → AttemptCalls op (env i) calls) ∧
      (∀ j, j < attempts.length ↔ j < dbRetryTime ∧ ∀ i < j, ¬Stops op (env i)) ∧
      (ret = true ↔ ∃ k pcon, attempts.length = k + 1 ∧ env k = some pcon ∧ op.succeeds pcon = true) := by
  obtain ⟨n, hturns, hn, hret⟩ := attempts_of_call op env dbRetryTime rfl rfl h
  refine ⟨(List.range n).map (fun i => op.turn (env i)), ?_, fun i calls hi => ?_, ?_, ?_⟩
  · rw [hturns.calls, List.flatMap_def]
  · rw [List.getElem?_map] at hi
    obtain ⟨k, hk, rfl⟩ := Option.map_eq_some_iff.mp hi
    obtain ⟨hlt, rfl⟩ := List.getElem?_eq_some_iff.mp hk
    rw [List.getElem_range]
    exact turn_attemptCalls op (env i)
  · rw [List.length_map, List.length_range]
    exact hn
  · rw [List.length_map, List.length_range]
    exact hret

/-- A statement that the server applies and whose reply is lost on the first connection, and a second one on which all goes well. -/
def lostReply : Nat → Option (Connection Nat)
  | 0 => some { conn := 7, connected := true, outcome := fun _ => { applied := true, threw := true, rows := [], result := false } }
  | 1 => some { conn := 8, connected := true, outcome := fun _ => { applied := true, threw := false, rows := [], result := true } }
  | _ => none

/-- The calls of `Execute` then. -/
def lostReplyCalls (sqlStr : Bytes) : List (DbCall Nat) :=
  [.grab (some 7), .statement 7 (.caller sqlStr) true, .release 7 true, .grab (some 8), .statement 8 (.caller sqlStr) true,
    .release 8 false]

theorem retry_ledger_lostReply :
    ∃ attempts : List (List (DbCall Nat)), lostReplyCalls [] = attempts.flatten ∧
      (∀ i calls, attempts[i]? = some calls → AttemptCalls (.execute []) (lostReply i) calls) ∧
      (∀ j, j < attempts.length ↔ j < 3 ∧ ∀ i < j, ¬Stops (.execute []) (lostReply i)) ∧
      (true = true ↔ ∃ k pcon, attempts.length = k + 1 ∧ lostReply k = some pcon ∧ (Operation.execute []).succeeds pcon = true) :=
  retry_ledger (.execute []) lostReply 3 none [] none [] true
    { calls := lostReplyCalls [], grabs := 2, statements := 1, isDbUnreachable := none, queryRet := [], simpleRet := none,
      sqlStr := [] } (by rfl)

end DatabaseConnector

end FrontServer
