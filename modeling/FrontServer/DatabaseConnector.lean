import FrontServer.Lib.CMemory
import FrontServer.Lib.Retry

/-!
# `DatabaseConnector`: statements that are tried again

`utils/database/database_connector.cc`. The functions grab a connection from the pool, send statements on it through mysqlpp and
release it, and try again when something failed, `db_retry_time` times at most. What each `grab` gives, and what becomes of the
statements sent on a connection, is up to the pool, the connection and the server: it is a parameter, and the calls the functions
make are logged in the order they make them. `grab`, `release` and the copying of results do not throw. The lines the functions log
are left out.
-/

namespace FrontServer

/-- The rows a query gives, each with its columns. -/
abbrev Rows := List (List Bytes)

/-- The exceptions the functions catch: a statement that failed on the way, and a column that a row does not have. -/
inductive DbException where
  | badQuery
  | badIndex

/-- A statement and whose it is: the caller's, or one the function sends about the charset. -/
inductive Statement where
  | caller (text : Bytes)
  | charset (text : Bytes)
  deriving DecidableEq

/-- What becomes of a statement: whether the server applies it, whether the client's call throws, and what the call gives if it does
not, `store` the rows and `execute` the result. The server may have applied a statement whose call throws. -/
structure StatementOutcome where
  applied : Bool
  threw : Bool
  rows : Rows
  result : Bool

/-- A grabbed connection, with what it will answer: whether it is connected, and what becomes of each statement sent on it. -/
structure Connection (Conn : Type) where
  conn : Conn
  connected : Bool
  outcome : Nat → StatementOutcome

/-- The calls of the pool and of the connection that have an effect. -/
inductive DbCall (Conn : Type) where
  | grab (pc : Option Conn)
  | release (pc : Conn) (isBadCon : Bool)
  | statement (pc : Conn) (stmt : Statement) (applied : Bool)
  deriving DecidableEq

/-- The calls so far, how many `grab`s and how many statements since the last one, and what the caller's pointers point to:
`is_db_unreachable` and `simple_ret` may be `NULL`. `sql_str` is the pointer that `Escape` gets. -/
structure Db (Conn : Type) where
  calls : List (DbCall Conn)
  grabs : Nat
  statements : Nat
  isDbUnreachable : Option Bool
  queryRet : Rows
  simpleRet : Option Bool
  sqlStr : Bytes

variable {Conn : Type}

/-- Before a call, with what the caller's pointers point to. -/
def Db.start (isDbUnreachable : Option Bool) (queryRet : Rows) (simpleRet : Option Bool) (sqlStr : Bytes) : Db Conn :=
  { calls := [], grabs := 0, statements := 0, isDbUnreachable := isDbUnreachable, queryRet := queryRet, simpleRet := simpleRet,
    sqlStr := sqlStr }

namespace DatabaseConnector

/-! ## The pool and the connection -/

/-- `m_db_cons_pool->grab()`. -/
def grab (env : Nat → Option (Connection Conn)) : StateM (Db Conn) (Option (Connection Conn)) := fun db =>
  (env db.grabs, { db with
    calls := db.calls ++ [.grab ((env db.grabs).map Connection.conn)], grabs := db.grabs + 1, statements := 0 })

/-- `m_db_cons_pool->release(pcon, is_bad_con)`. -/
def release (pcon : Connection Conn) (isBadCon : Bool) : StateM (Db Conn) Unit := fun db =>
  ((), { db with calls := db.calls ++ [.release pcon.conn isBadCon] })

end DatabaseConnector

namespace Connection

/-- Send a statement. -/
def send (pcon : Connection Conn) (stmt : Statement) : StateM (Db Conn) StatementOutcome := fun db =>
  let o := pcon.outcome db.statements
  (o, { db with calls := db.calls ++ [.statement pcon.conn stmt o.applied], statements := db.statements + 1 })

/-- `query.store()`. -/
def store (pcon : Connection Conn) (stmt : Statement) : ExceptT DbException (StateM (Db Conn)) Rows := do
  let o ← pcon.send stmt
  if o.threw then throw .badQuery
  return o.rows

/-- `query.execute()`. -/
def execute (pcon : Connection Conn) (stmt : Statement) : ExceptT DbException (StateM (Db Conn)) Bool := do
  let o ← pcon.send stmt
  if o.threw then throw .badQuery
  return o.result

end Connection

namespace DatabaseConnector

/-! ## The loop of the four functions -/

/-- How a block under `try` ends, where it does not throw. -/
inductive Exit where
  | continue
  | returnTrue

/-- What follows the block under `try`: `continue`, `return true`, or the handler of the exceptions, which ends in `continue`. -/
def afterTry (pcon : Connection Conn) : Except DbException Exit → StateM (Db Conn) (Option Bool)
  | .ok .continue => return none
  | .ok .returnTrue => return some true
  | .error _ => do
    release pcon true
    return none

/-- One turn of the loop, with its block under `try`: `none` where the loop goes on, the return value where it does not. -/
def attempt (env : Nat → Option (Connection Conn))
    (tryBlock : Connection Conn → ExceptT DbException (StateM (Db Conn)) Exit) : StateM (Db Conn) (Option Bool) := do
  match ← grab env with
  | none =>
    modify fun db => { db with isDbUnreachable := db.isDbUnreachable.map fun _ => true }
    return some false
  | some pcon => (tryBlock pcon).run >>= afterTry pcon

/-- `while (retry_time--)` around it. -/
def retryLoop (env : Nat → Option (Connection Conn))
    (tryBlock : Connection Conn → ExceptT DbException (StateM (Db Conn)) Exit) (dbRetryTime : Nat) : StateM (Db Conn) Bool := do
  return (← retry (attempt env tryBlock) dbRetryTime).getD false

/-- The charset in the rows of `show variables`: the last row's second column, as a C string. -/
def originalCharset : Rows → Bytes → Except DbException Bytes
  | [], charset => .ok charset
  | row :: rows, _ =>
    match row[1]? with
    | some column => originalCharset rows (cStr column)
    | none => .error .badIndex

/-- The statement that asks for the charset of the connection. -/
def showCharset : Statement := .charset (ascii "show variables like 'character_set_client'")

/-- The statement that sets it. -/
def setNames (charSetName : Bytes) : Statement := .charset (ascii "SET NAMES '" ++ charSetName ++ ascii "'")

/-- `DatabaseConnector::ExecuteQuery` with a charset, under `try`. -/
def executeQueryCharsetBlock (queryStr charSetName : Bytes) (pcon : Connection Conn) :
    ExceptT DbException (StateM (Db Conn)) Exit := do
  if !pcon.connected then
    release pcon true
    return .continue
  let charsetRes ← pcon.store showCharset
  let original ← originalCharset charsetRes []
  let _ ← pcon.execute (setNames charSetName)
  let queryRet ← pcon.store (.caller queryStr)
  modify fun db => { db with queryRet := queryRet }
  let _ ← pcon.execute (setNames original)
  release pcon false
  return .returnTrue

/-- `DatabaseConnector::ExecuteQuery` without one, under `try`. -/
def executeQueryBlock (queryStr : Bytes) (pcon : Connection Conn) : ExceptT DbException (StateM (Db Conn)) Exit := do
  if !pcon.connected then
    release pcon true
    return .continue
  let queryRet ← pcon.store (.caller queryStr)
  modify fun db => { db with queryRet := queryRet }
  release pcon false
  return .returnTrue

/-- `DatabaseConnector::Execute`, under `try`. -/
def executeBlock (sqlStr : Bytes) (pcon : Connection Conn) : ExceptT DbException (StateM (Db Conn)) Exit := do
  if !pcon.connected then
    release pcon true
    return .continue
  let ret ← pcon.execute (.caller sqlStr)
  if ret then
    release pcon false
    modify fun db => { db with simpleRet := db.simpleRet.map fun _ => ret }
    return .returnTrue
  else
    release pcon true
    return .continue

/-- `DatabaseConnector::Escape`, under `try`: it sends nothing, and leaves `*sql_str` as it is. -/
def escapeBlock (pcon : Connection Conn) : ExceptT DbException (StateM (Db Conn)) Exit := do
  if !pcon.connected then
    release pcon true
    return .continue
  release pcon false
  return .returnTrue

/-- `DatabaseConnector::ExecuteQuery` with a charset. -/
def executeQueryCharset (env : Nat → Option (Connection Conn)) (dbRetryTime : Nat) (queryStr charSetName : Bytes) :
    StateM (Db Conn) Bool :=
  retryLoop env (executeQueryCharsetBlock queryStr charSetName) dbRetryTime

/-- `DatabaseConnector::ExecuteQuery` without one. -/
def executeQuery (env : Nat → Option (Connection Conn)) (dbRetryTime : Nat) (queryStr : Bytes) : StateM (Db Conn) Bool :=
  retryLoop env (executeQueryBlock queryStr) dbRetryTime

/-- `DatabaseConnector::Execute`. -/
def execute (env : Nat → Option (Connection Conn)) (dbRetryTime : Nat) (sqlStr : Bytes) : StateM (Db Conn) Bool :=
  retryLoop env (executeBlock sqlStr) dbRetryTime

/-- `DatabaseConnector::Escape`. -/
def escape (env : Nat → Option (Connection Conn)) (dbRetryTime : Nat) : StateM (Db Conn) Bool :=
  retryLoop env escapeBlock dbRetryTime

/-- A call of one of the functions, with its arguments other than the pointers to results. -/
inductive Operation where
  | executeQueryCharset (queryStr charSetName : Bytes)
  | executeQuery (queryStr : Bytes)
  | execute (sqlStr : Bytes)
  | escape

/-- What a call does. -/
def Operation.call (env : Nat → Option (Connection Conn)) (dbRetryTime : Nat) : Operation → StateM (Db Conn) Bool
  | .executeQueryCharset queryStr charSetName => DatabaseConnector.executeQueryCharset env dbRetryTime queryStr charSetName
  | .executeQuery queryStr => DatabaseConnector.executeQuery env dbRetryTime queryStr
  | .execute sqlStr => DatabaseConnector.execute env dbRetryTime sqlStr
  | .escape => DatabaseConnector.escape env dbRetryTime

end DatabaseConnector

end FrontServer
