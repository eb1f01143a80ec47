import FrontServer.DatabaseConnector

/-!
# What one attempt does

For each of the four functions, what a turn of its loop sends on the connection it got and whether it succeeds (`sent`, `succeeds`),
and that this is what the code does (`attempt_eq`). `Operation.call_cases` puts the turns of a call together.
-/

namespace FrontServer

variable {Conn : Type}

namespace Db

/-- The state after one more statement. -/
def afterSend (db : Db Conn) (pcon : Connection Conn) (stmt : Statement) : Db Conn := ((pcon.send stmt).run db).2

/-- The state after a release. -/
def afterRelease (db : Db Conn) (pcon : Connection Conn) (isBadCon : Bool) : Db Conn :=
  ((DatabaseConnector.release pcon isBadCon).run db).2

/-- A statement sent is counted. -/
@[simp] theorem statements_afterSend (db : Db Conn) (pcon : Connection Conn) (stmt : Statement) :
    (db.afterSend pcon stmt).statements = db.statements + 1 := rfl

/-- It is logged as applied or not, whatever comes back for it. -/
@[simp] theorem calls_afterSend (db : Db Conn) (pcon : Connection Conn) (stmt : Statement) :
    (db.afterSend pcon stmt).calls = db.calls ++ [.statement pcon.conn stmt (pcon.outcome db.statements).applied] := rfl

/-- Sending one adds no rows. -/
@[simp] theorem queryRet_afterSend (db : Db Conn) (pcon : Connection Conn) (stmt : Statement) :
    (db.afterSend pcon stmt).queryRet = db.queryRet := rfl

/-- A release is logged with its flag. -/
@[simp] theorem calls_afterRelease (db : Db Conn) (pcon : Connection Conn) (isBadCon : Bool) :
    (db.afterRelease pcon isBadCon).calls = db.calls ++ [.release pcon.conn isBadCon] := rfl

/-- It leaves the rows. -/
@[simp] theorem queryRet_afterRelease (db : Db Conn) (pcon : Connection Conn) (isBadCon : Bool) :
    (db.afterRelease pcon isBadCon).queryRet = db.queryRet := rfl

end Db

namespace Connection

/-- A statement whose rows are read, in front of the rest of a block: it throws, or the rest goes on with its rows. -/
theorem exec_store_bind {α : Type} (pcon : Connection Conn) (stmt : Statement) {db : Db Conn} {n : Nat} (h : db.statements = n)
    (f : Rows → ExceptT DbException (StateM (Db Conn)) α) :
    exec (pcon.store stmt >>= f) db =
      if (pcon.outcome n).threw then (.error .badQuery, db.afterSend pcon stmt)
      else exec (f (pcon.outcome n).rows) (db.afterSend pcon stmt) := by
  subst h
  have hsend : (pcon.send stmt).run db = (pcon.outcome db.statements, db.afterSend pcon stmt) := rfl
  unfold store
  rw [bind_assoc, exec_lift_bind hsend]
  by_cases hthrew : (pcon.outcome db.statements).threw
  · rw [if_pos hthrew, if_pos hthrew]
    rfl
  · rw [if_neg hthrew, if_neg hthrew, pure_bind]

/-- The same for one whose result is read. -/
theorem exec_execute_bind {α : Type} (pcon : Connection Conn) (stmt : Statement) {db : Db Conn} {n : Nat} (h : db.statements = n)
    (f : Bool → ExceptT DbException (StateM (Db Conn)) α) :
    exec (pcon.execute stmt >>= f) db =
      if (pcon.outcome n).threw then (.error .badQuery, db.afterSend pcon stmt)
      else exec (f (pcon.outcome n).result) (db.afterSend pcon stmt) := by
  subst h
  have hsend : (pcon.send stmt).run db = (pcon.outcome db.statements, db.afterSend pcon stmt) := rfl
  unfold execute
  rw [bind_assoc, exec_lift_bind hsend]
  by_cases hthrew : (pcon.outcome db.statements).threw
  · rw [if_pos hthrew, if_pos hthrew]
    rfl
  · rw [if_neg hthrew, if_neg hthrew, pure_bind]

end Connection

namespace DatabaseConnector

/-! ## The course of an attempt -/

/-- The statements sent on a connection, up to the first that throws. -/
def Operation.sent (pcon : Connection Conn) : Operation → List Statement
  | .executeQueryCharset queryStr charSetName =>
    if !pcon.connected then []
    else showCharset ::
      if (pcon.outcome 0).threw then []
      else
        match originalCharset (pcon.outcome 0).rows [] with
        | .error _ => []
        | .ok original => setNames charSetName ::
          if (pcon.outcome 1).threw then []
          else .caller queryStr ::
            if (pcon.outcome 2).threw then [] else [setNames original]
  | .executeQuery queryStr => if !pcon.connected then [] else [.caller queryStr]
  | .execute sqlStr => if !pcon.connected then [] else [.caller sqlStr]
  | .escape => []

/-- Every statement of the attempt succeeds on a connection: it is connected, no call throws, the rows of `show variables` have their
second column, and the result of `Execute` is true. -/
def Operation.succeeds (pcon : Connection Conn) : Operation → Bool
  | .executeQueryCharset _ _ =>
    pcon.connected && !(pcon.outcome 0).threw && (originalCharset (pcon.outcome 0).rows []).toBool &&
      !(pcon.outcome 1).threw && !(pcon.outcome 2).threw && !(pcon.outcome 3).threw
  | .executeQuery _ => pcon.connected && !(pcon.outcome 0).threw
  | .execute _ => pcon.connected && !(pcon.outcome 0).threw && (pcon.outcome 0).result
  | .escape => pcon.connected

/-- The rows an attempt hands to the caller, where it comes to that: the query is the last statement that can throw without one. -/
def Operation.stored (pcon : Connection Conn) : Operation → Option Rows
  | .executeQueryCharset _ _ =>
    if pcon.connected && !(pcon.outcome 0).threw && (originalCharset (pcon.outcome 0).rows []).toBool &&
        !(pcon.outcome 1).threw && !(pcon.outcome 2).threw then some (pcon.outcome 2).rows
    else none
  | .executeQuery _ => if pcon.connected && !(pcon.outcome 0).threw then some (pcon.outcome 0).rows else none
  | .execute _ => none
  | .escape => none

/-- The calls that statements sent on a connection are. -/
def statementCalls (pcon : Connection Conn) (stmts : List Statement) : List (DbCall Conn) :=
  stmts.zipIdx.map (fun st => .statement pcon.conn st.1 (pcon.outcome st.2).applied)

/-- What the function does under `try`. -/
def Operation.tryBlock : Operation → Connection Conn → ExceptT DbException (StateM (Db Conn)) Exit
  | .executeQueryCharset queryStr charSetName => executeQueryCharsetBlock queryStr charSetName
  | .executeQuery queryStr => executeQueryBlock queryStr
  | .execute sqlStr => executeBlock sqlStr
  | .escape => escapeBlock

/-- A call of an operation is the retry loop around its `try` block. -/
theorem Operation.call_eq (op : Operation) (env : Nat → Option (Connection Conn)) (dbRetryTime : Nat) :
    op.call env dbRetryTime = retryLoop env op.tryBlock dbRetryTime := by
  cases op <;> rfl

/-- How the block of an operation may end: with its release, or with an exception in front of it. -/
structure BlockEnds (op : Operation) (pcon : Connection Conn) (db : Db Conn) (r : Except DbException Exit) (db' : Db Conn) :
    Prop where
  grabs : db'.grabs = db.grabs
  calls : db'.calls = db.calls ++ statementCalls pcon (op.sent pcon) ++
    match r with
    | .ok .returnTrue => [.release pcon.conn false]
    | .ok .continue => [.release pcon.conn true]
    | .error _ => []
  queryRet : db'.queryRet = (op.stored pcon).getD db.queryRet
  sqlStr : db'.sqlStr = db.sqlStr
  isDbUnreachable : db'.isDbUnreachable = db.isDbUnreachable
  succeeds : r = .ok .returnTrue ↔ op.succeeds pcon = true

/-- The end of a `try` block: the release and the exit. -/
theorem exec_release_return (pcon : Connection Conn) (isBadCon : Bool) (exit : Exit) (db : Db Conn) :
    exec (do release pcon isBadCon; return exit : ExceptT DbException (StateM (Db Conn)) Exit) db =
      (.ok exit, db.afterRelease pcon isBadCon) := rfl

/-- The check that all blocks begin with: a connection that is not connected is released as bad. -/
theorem blockEnds_of_not_connected (op : Operation) {pcon : Connection Conn} (hc : ¬pcon.connected) (db : Db Conn) :
    BlockEnds op pcon db (.ok .continue) (db.afterRelease pcon true) where
  grabs := rfl
  calls := by cases op <;> simp [Operation.sent, statementCalls, hc]
  queryRet := by cases op <;> simp [Operation.stored, hc]
  sqlStr := rfl
  isDbUnreachable := rfl
  succeeds := by cases op <;> simp [Operation.succeeds, hc]

/-- The block of `Escape` sends nothing. -/
theorem escapeBlock_ends (pcon : Connection Conn) (db : Db Conn) :
    ∃ r db', exec (escapeBlock pcon) db = (r, db') ∧ BlockEnds .escape pcon db r db' := by
  unfold escapeBlock
  by_cases hc : pcon.connected
  · rw [if_neg (by simp [hc]), exec_release_return]
    exact ⟨_, _, rfl, rfl, by simp [Operation.sent, statementCalls], rfl, rfl, rfl, by simp [Operation.succeeds, hc]⟩
  · rw [if_pos (by simp [hc]), exec_release_return]
    exact ⟨_, _, rfl, blockEnds_of_not_connected _ hc db⟩

/-- The block of `Execute` sends the statement. -/
theorem executeBlock_ends (sqlStr : Bytes) (pcon : Connection Conn) (db : Db Conn) (h : db.statements = 0) :
    ∃ r db', exec (executeBlock sqlStr pcon) db = (r, db') ∧ BlockEnds (.execute sqlStr) pcon db r db' := by
  unfold executeBlock
  by_cases hc : pcon.connected
  · rw [if_neg (by simp [hc]), Connection.exec_execute_bind pcon (.caller sqlStr) h]
    by_cases hthrew : (pcon.outcome 0).threw
    · rw [if_pos hthrew]
      exact ⟨_, _, rfl, rfl, by simp [Operation.sent, statementCalls, hc, h], rfl, rfl, rfl, by simp [Operation.succeeds, hthrew]⟩
    · rw [if_neg hthrew]
      by_cases hret : (pcon.outcome 0).result
      · rw [if_pos hret]
        exact ⟨.ok .returnTrue, _, rfl, rfl, by simp [Operation.sent, statementCalls, hc, h], rfl, rfl, rfl,
          by simp [Operation.succeeds, hc, hthrew, hret]⟩
      · rw [if_neg hret, exec_release_return]
        exact ⟨_, _, rfl, rfl, by simp [Operation.sent, statementCalls, hc, h], rfl, rfl, rfl, by simp [Operation.succeeds, hret]⟩
  · rw [if_pos (by simp [hc]), exec_release_return]
    exact ⟨_, _, rfl, blockEnds_of_not_connected _ hc db⟩

/-- The block of `ExecuteQuery` sends the query and reads the rows. -/
theorem executeQueryBlock_ends (queryStr : Bytes) (pcon : Connection Conn) (db : Db Conn) (h : db.statements = 0) :
    ∃ r db', exec (executeQueryBlock queryStr pcon) db = (r, db') ∧ BlockEnds (.executeQuery queryStr) pcon db r db' := by
  unfold executeQueryBlock
  by_cases hc : pcon.connected
  · rw [if_neg (by simp [hc]), Connection.exec_store_bind pcon (.caller queryStr) h]
    by_cases hthrew : (pcon.outcome 0).threw
    · rw [if_pos hthrew]
      exact ⟨_, _, rfl, rfl, by simp [Operation.sent, statementCalls, hc, h], by simp [Operation.stored, hthrew], rfl, rfl,
        by simp [Operation.succeeds, hthrew]⟩
    · rw [if_neg hthrew, exec_modify_bind, exec_release_return]
      exact ⟨_, _, rfl, rfl, by simp [Operation.sent, statementCalls, hc, h], by simp [Operation.stored, hc, hthrew], rfl, rfl,
        by simp [Operation.succeeds, hc, hthrew]⟩
  · rw [if_pos (by simp [hc]), exec_release_return]
    exact ⟨_, _, rfl, blockEnds_of_not_connected _ hc db⟩

/-- The block of `ExecuteQuery` with a character set sends the statements around the query too. -/
theorem executeQueryCharsetBlock_ends (queryStr charSetName : Bytes) (pcon : Connection Conn) (db : Db Conn)
    (h : db.statements = 0) :
    ∃ r db', exec (executeQueryCharsetBlock queryStr charSetName pcon) db = (r, db') ∧
      BlockEnds (.executeQueryCharset queryStr charSetName) pcon db r db' := by
  unfold executeQueryCharsetBlock
  by_cases hc : pcon.connected
  · rw [if_neg (by simp [hc]), Connection.exec_store_bind pcon showCharset h]
    by_cases h₀ : (pcon.outcome 0).threw
    · rw [if_pos h₀]
      exact ⟨_, _, rfl, rfl, by simp [Operation.sent, statementCalls, hc, h, h₀], by simp [Operation.stored, h₀], rfl, rfl,
        by simp [Operation.succeeds, h₀]⟩
    · rw [if_neg h₀, exec_except_bind]
      cases hrows : originalCharset (pcon.outcome 0).rows [] with
      | error e =>
        exact ⟨_, _, rfl, rfl, by simp [Operation.sent, statementCalls, hc, h, h₀, hrows],
          by simp [Operation.stored, hrows, Except.toBool], rfl, rfl,
          by simp [Operation.succeeds, hrows, Except.toBool]⟩
      | ok original =>
        have hs₁ : (db.afterSend pcon showCharset).statements = 1 := by rw [Db.statements_afterSend, h]
        dsimp only
        rw [Connection.exec_execute_bind pcon (setNames charSetName) hs₁]
        by_cases h₁ : (pcon.outcome 1).threw
        · rw [if_pos h₁]
          exact ⟨_, _, rfl, rfl, by simp [Operation.sent, statementCalls, hc, h, h₀, hrows, h₁], by simp [Operation.stored, h₁], rfl,
            rfl, by simp [Operation.succeeds, h₁]⟩
        · have hs₂ : ((db.afterSend pcon showCharset).afterSend pcon (setNames charSetName)).statements = 2 := by
            rw [Db.statements_afterSend, hs₁]
          rw [if_neg h₁, Connection.exec_store_bind pcon (.caller queryStr) hs₂]
          by_cases h₂ : (pcon.outcome 2).threw
          · rw [if_pos h₂]
            exact ⟨_, _, rfl, rfl, by simp [Operation.sent, statementCalls, hc, h, h₀, hrows, h₁, h₂], by simp [Operation.stored, h₂],
              rfl, rfl, by simp [Operation.succeeds, h₂]⟩
          · rw [if_neg h₂, exec_modify_bind]
            -- the rows go to the caller, which changes neither the calls nor their count
            generalize hdb : Db.mk _ _ _ _ _ _ _ = db₃
            have hcalls : db₃.calls = (((db.afterSend pcon showCharset).afterSend pcon (setNames charSetName)).afterSend pcon
              (.caller queryStr)).calls := by rw [← hdb]
            have hgrabs : db₃.grabs = db.grabs := by
              rw [← hdb]
              rfl
            have hsqlStr : db₃.sqlStr = db.sqlStr := by
              rw [← hdb]
              rfl
            have hflag : db₃.isDbUnreachable = db.isDbUnreachable := by
              rw [← hdb]
              rfl
            have hqueryRet : db₃.queryRet = ((Operation.executeQueryCharset queryStr charSetName).stored pcon).getD db.queryRet := by
              rw [← hdb]
              simp [Operation.stored, hc, h₀, hrows, h₁, h₂, Except.toBool]
            have hs₃ : db₃.statements = 3 := by rw [← hdb, Db.statements_afterSend, hs₂]
            rw [Connection.exec_execute_bind pcon (setNames original) hs₃]
            by_cases h₃ : (pcon.outcome 3).threw
            · rw [if_pos h₃]
              exact ⟨_, _, rfl, hgrabs, by simp [Operation.sent, statementCalls, hc, h, h₀, hrows, h₁, h₂, hcalls, hs₃], hqueryRet,
                hsqlStr, hflag, by simp [Operation.succeeds, h₃]⟩
            · rw [if_neg h₃, exec_release_return]
              exact ⟨_, _, rfl, hgrabs, by simp [Operation.sent, statementCalls, hc, h, h₀, hrows, h₁, h₂, hcalls, hs₃], hqueryRet,
                hsqlStr, hflag, by simp [Operation.succeeds, hc, h₀, hrows, h₁, h₂, h₃, Except.toBool]⟩
  · rw [if_pos (by simp [hc]), exec_release_return]
    exact ⟨_, _, rfl, blockEnds_of_not_connected _ hc db⟩

/-- Every `try` block ends in one of the ways of its operation. -/
theorem tryBlock_ends (op : Operation) (pcon : Connection Conn) (db : Db Conn) (h : db.statements = 0) :
    ∃ r db', exec (op.tryBlock pcon) db = (r, db') ∧ BlockEnds op pcon db r db' := by
  cases op with
  | executeQueryCharset queryStr charSetName => exact executeQueryCharsetBlock_ends queryStr charSetName pcon db h
  | executeQuery queryStr => exact executeQueryBlock_ends queryStr pcon db h
  | execute sqlStr => exact executeBlock_ends sqlStr pcon db h
  | escape => exact escapeBlock_ends pcon db

/-! ## A turn of the loop, and the turns of a call -/

/-- The calls of one turn, for what its `grab` gives. -/
def Operation.turn (op : Operation) : Option (Connection Conn) → List (DbCall Conn)
  | none => [.grab none]
  | some pcon =>
    .grab (some pcon.conn) :: statementCalls pcon (op.sent pcon) ++ [.release pcon.conn (!op.succeeds pcon)]

/-- What one turn ends the loop with, if it does. -/
def Operation.verdict (op : Operation) : Option (Connection Conn) → Option Bool
  | none => some false
  | some pcon => if op.succeeds pcon then some true else none

/-- The rows one turn hands to the caller, if it does. -/
def Operation.storedBy (op : Operation) (got : Option (Connection Conn)) : Option Rows := got.bind op.stored

/-- What one turn leaves, for what its `grab` gives. -/
structure TurnEnds (op : Operation) (got : Option (Connection Conn)) (db db' : Db Conn) : Prop where
  grabs : db'.grabs = db.grabs + 1
  calls : db'.calls = db.calls ++ op.turn got
  queryRet : db'.queryRet = (op.storedBy got).getD db.queryRet
  sqlStr : db'.sqlStr = db.sqlStr
  isDbUnreachable : db'.isDbUnreachable = db.isDbUnreachable.map (· || got.isNone)

/-- A turn leaves that, and ends the loop or not. -/
theorem attempt_eq (op : Operation) (env : Nat → Option (Connection Conn)) (db : Db Conn) :
    ∃ db', (attempt env op.tryBlock).run db = (op.verdict (env db.grabs), db') ∧ TurnEnds op (env db.grabs) db db' := by
  have hgrab : (grab env).run db = (env db.grabs, { db with
      calls := db.calls ++ [.grab ((env db.grabs).map Connection.conn)], grabs := db.grabs + 1, statements := 0 }) := rfl
  unfold attempt
  rw [StateT.run_bind, hgrab]
  cases henv : env db.grabs with
  | none =>
    refine ⟨_, rfl, rfl, rfl, rfl, rfl, ?_⟩
    exact Option.map_congr fun b _ => (Bool.or_true b).symm
  | some pcon =>
    obtain ⟨r, db', hrun, hends⟩ := tryBlock_ends op pcon { db with
      calls := db.calls ++ [.grab (some pcon.conn)], grabs := db.grabs + 1, statements := 0 } rfl
    have hblock : (op.tryBlock pcon).run.run { db with
      calls := db.calls ++ [.grab (some pcon.conn)], grabs := db.grabs + 1, statements := 0 } = (r, db') := hrun
    show ∃ db', ((op.tryBlock pcon).run >>= afterTry pcon).run _ = _ ∧ _
    rw [StateT.run_bind]
    have hcalls := hends.calls
    have hsucceeds := hends.succeeds
    have hflag : db'.isDbUnreachable = db.isDbUnreachable.map (· || (some pcon).isNone) := by
      rw [hends.isDbUnreachable]
      simp
    rcases r with e | exit
    · have hfails : ¬op.succeeds pcon = true := fun hs => nomatch hsucceeds.mpr hs
      refine ⟨db'.afterRelease pcon true, ?_, hends.grabs, ?_, hends.queryRet, hends.sqlStr, hflag⟩
      · rw [Operation.verdict, if_neg hfails]
        exact congrArg (fun p : Except DbException Exit × Db Conn => (afterTry pcon p.1).run p.2) hblock
      · rw [Db.calls_afterRelease, hcalls]
        simp [Operation.turn, hfails]
    · cases exit with
      | «continue» =>
        have hfails : ¬op.succeeds pcon = true := fun hs => nomatch hsucceeds.mpr hs
        refine ⟨db', ?_, hends.grabs, ?_, hends.queryRet, hends.sqlStr, hflag⟩
        · rw [Operation.verdict, if_neg hfails]
          exact congrArg (fun p : Except DbException Exit × Db Conn => (afterTry pcon p.1).run p.2) hblock
        · rw [hcalls]
          simp [Operation.turn, hfails]
      | returnTrue =>
        have hsucceeds' : op.succeeds pcon = true := hsucceeds.mp rfl
        refine ⟨db', ?_, hends.grabs, ?_, hends.queryRet, hends.sqlStr, hflag⟩
        · rw [Operation.verdict, if_pos hsucceeds']
          exact congrArg (fun p : Except DbException Exit × Db Conn => (afterTry pcon p.1).run p.2) hblock
        · rw [hcalls]
          simp [Operation.turn, hsucceeds']

/-- What some turns leave, from the state before the call. -/
structure TurnsEnd (op : Operation) (env : Nat → Option (Connection Conn)) (n : Nat) (db db' : Db Conn) : Prop where
  grabs : db'.grabs = n
  calls : db'.calls = (List.range n).flatMap (fun i => op.turn (env i))
  queryRet : db'.queryRet = lastWrite (fun i => op.storedBy (env i)) db.queryRet n
  sqlStr : db'.sqlStr = db.sqlStr
  isDbUnreachable : db'.isDbUnreachable = db.isDbUnreachable.map (· || (List.range n).any fun i => (env i).isNone)

/-- One turn more. -/
theorem TurnsEnd.attempt {op : Operation} {env : Nat → Option (Connection Conn)} {n : Nat} {db₀ db db' : Db Conn} {v : Option Bool}
    (h : TurnsEnd op env n db₀ db) (hrun : (attempt env op.tryBlock).run db = (v, db')) :
    v = op.verdict (env n) ∧ TurnsEnd op env (n + 1) db₀ db' := by
  obtain ⟨rfl, hcalls, hqueryRet, hsqlStr, hflag⟩ := h
  obtain ⟨db'', heq, hends⟩ := attempt_eq op env db
  cases hrun.symm.trans heq
  refine ⟨rfl, hends.grabs, ?_, ?_, hends.sqlStr.trans hsqlStr, ?_⟩
  · rw [hends.calls, hcalls, List.range_succ, List.flatMap_append, List.flatMap_singleton]
  · rw [hends.queryRet, hqueryRet, lastWrite]
  · rw [hends.isDbUnreachable, hflag, Option.map_map]
    exact Option.map_congr fun b _ => by simp [List.range_succ, Bool.or_assoc]

/-- A call makes some number of turns: all but the last left the loop going, and the last ended it or used up the budget. -/
theorem call_cases (op : Operation) (env : Nat → Option (Connection Conn)) (dbRetryTime : Nat) {db db' : Db Conn} {ret : Bool}
    (hcalls : db.calls = []) (hgrabs : db.grabs = 0) (h : (op.call env dbRetryTime).run db = (ret, db')) :
    ∃ n ≤ dbRetryTime, TurnsEnd op env n db db' ∧
      ((n = dbRetryTime ∧ ret = false ∧ ∀ i < n, op.verdict (env i) = none) ∨
        ∃ k, n = k + 1 ∧ op.verdict (env k) = some ret ∧ ∀ i < k, op.verdict (env i) = none) := by
  rw [Operation.call_eq] at h
  rcases hloop : (retry (attempt env op.tryBlock) dbRetryTime).run db with ⟨r, db''⟩
  have hrun : (retryLoop env op.tryBlock dbRetryTime).run db = (r.getD false, db'') := by
    rw [retryLoop, StateT.run_bind, hloop]
    rfl
  cases hrun.symm.trans h
  have hstep : ∀ {i s s'}, (TurnsEnd op env i db s ∧ ∀ j < i, op.verdict (env j) = none) →
      (attempt env op.tryBlock).run s = (none, s') → TurnsEnd op env (i + 1) db s' ∧ ∀ j < i + 1, op.verdict (env j) = none := by
    rintro i s s' ⟨hends, hgoing⟩ hbody
    obtain ⟨hnone, hends'⟩ := hends.attempt hbody
    refine ⟨hends', fun j hj => ?_⟩
    rcases Nat.lt_succ_iff_lt_or_eq.mp hj with hlt | rfl
    · exact hgoing j hlt
    · exact hnone.symm
  have hstart : TurnsEnd op env 0 db db ∧ ∀ j < 0, op.verdict (env j) = none := ⟨⟨hgrabs, hcalls, rfl, rfl, by simp⟩, nofun⟩
  rcases retry_cases (P := fun i s => TurnsEnd op env i db s ∧ ∀ j < i, op.verdict (env j) = none) hstep hstart hloop with
    ⟨rfl, hends, hgoing⟩ | ⟨k, b, s, hk, rfl, ⟨hends, hgoing⟩, hbody⟩
  · rw [Nat.zero_add] at hends hgoing
    exact ⟨dbRetryTime, Nat.le_refl _, hends, Or.inl ⟨rfl, rfl, hgoing⟩⟩
  · rw [Nat.zero_add] at hends hgoing
    obtain ⟨hb, hends'⟩ := hends.attempt hbody
    exact ⟨k + 1, hk, hends', Or.inr ⟨k, rfl, hb.symm, hgoing⟩⟩

end DatabaseConnector

end FrontServer
