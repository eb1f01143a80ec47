import FrontServer.DatabaseConnectionPool
import FrontServer.Lemmas.DatabaseConnector

/-!
# Threads that call one connector

`utils/database/database_connector.cc` over `utils/database/database_connection_pool.cc`: any number of threads call functions of one
connector and share its pool. A thread goes through the turns of its function one call at a time, and its calls of the pool are taken
step by step as the pool takes them, so that the steps of all threads interleave. What a grabbed connection answers is up to the
server. A `grab` that throws is not under `try`, and ends the function.
-/

namespace FrontServer

/-- Where a thread is in a function: in front of `while (retry_time--)`, in `grab`, under `try` with a connection and some statements
sent on it, in `release` at the end of a turn that ends the loop or not, at its return. -/
inductive CallerPlace (Conn : Type) where
  | loop
  | grab
  | inTry (pcon : Connection Conn) (sent : Nat)
  | release (verdict : Option Bool)
  | return (ret : Bool)

/-- A function call in progress: the function, its `retry_time`, what its `grab`s gave and its calls so far, and where it is. -/
structure Caller (Conn : Type) where
  op : DatabaseConnector.Operation
  retryTime : Nat
  got : List (Option (Connection Conn))
  calls : List (DbCall Conn)
  place : CallerPlace Conn

/-- The pool, with the threads inside of its functions, and the threads inside of functions of the connector. -/
structure ConnectorState (σ Conn Tid : Type) where
  pool : PoolState σ Conn Tid
  callers : Threads Tid (Caller Conn)

/-- The steps threads take. Those that are named as steps of the pool are taken inside of it. -/
inductive ConnectorAction (Env Tid : Type) where
  | call (t : Tid) (op : DatabaseConnector.Operation)
  | turn (t : Tid)
  | grabLock (t : Tid) (env : Env)
  | wakeUp (t : Tid)
  | grabThrows (t : Tid)
  | grabReturns (t : Tid) (connected : Bool) (outcome : Nat → StatementOutcome)
  | statement (t : Tid)
  | callRelease (t : Tid)
  | releaseLock (t : Tid) (notified : Option Tid)
  | leave (t : Tid)

/-- What a step shows: nothing, a call that a thread makes, its return or its exception with all that its function did. -/
inductive ConnectorReply (Conn Tid : Type) where
  | running
  | called (t : Tid) (call : DbCall Conn)
  | returned (t : Tid) (caller : Caller Conn) (ret : Bool)
  | threw (t : Tid) (caller : Caller Conn)

namespace Caller

variable {Conn : Type}

/-- A call that has not begun. -/
def start (op : DatabaseConnector.Operation) (dbRetryTime : Nat) : Caller Conn :=
  { op := op, retryTime := dbRetryTime, got := [], calls := [], place := .loop }

/-- The call after one more call of its own. -/
def did (c : Caller Conn) (call : DbCall Conn) (place : CallerPlace Conn) : Caller Conn :=
  { c with calls := c.calls ++ [call], place := place }

/-- `grab` has returned: `break` for `NULL`, and the block under `try` for a connection. -/
def grabbed (c : Caller Conn) : Option (Connection Conn) → Caller Conn
  | none => { c.did (.grab none) (.return false) with got := c.got ++ [none] }
  | some pcon => { c.did (.grab (some pcon.conn)) (.inTry pcon 0) with got := c.got ++ [some pcon] }

/-- `release` has returned, at the end of a turn. -/
def released (c : Caller Conn) : Option Bool → Caller Conn
  | none => { c with place := .loop }
  | some ret => { c with place := .return ret }

end Caller

namespace ConnectorState

variable {σ Env Conn Tid : Type} [DecidableEq Tid]

/-- An unused pool and no call of the connector. -/
def new (base : ConnectionPool σ Env Conn) (dbDefaultCharset : Bytes) : ConnectorState σ Conn Tid :=
  { pool := PoolState.new base dbDefaultCharset, callers := ∅ }

/-- A thread comes to a place, with the pool as it is then. -/
def goto (s : ConnectorState σ Conn Tid) (pool : PoolState σ Conn Tid) (t : Tid) (c : Caller Conn) : ConnectorState σ Conn Tid :=
  { pool := pool, callers := s.callers.insert t c }

variable [DecidableEq Conn]

/-- One step of a thread in a place; `none` for one that it is not in the place to take. -/
def stepCaller (base : ConnectionPool σ Env Conn) (poolMaxDbCons : Int) (s : ConnectorState σ Conn Tid) (t : Tid) (c : Caller Conn) :
    ConnectorAction Env Tid → Option (ConnectorReply Conn Tid × ConnectorState σ Conn Tid)
  | .turn _ =>
    match c.place with
    | .loop =>
      if c.retryTime = 0 then some (.running, s.goto s.pool t { c with place := .return false })
      else (s.pool.step base poolMaxDbCons (.callGrab t)).map fun r =>
        (.running, s.goto r.2 t { c with retryTime := c.retryTime - 1, place := .grab })
    | _ => none
  | .grabReturns _ connected outcome =>
    match s.pool.step base poolMaxDbCons (.grabCharset t false) with
    | some (.grabbed pc, pool) =>
      let got := pc.map fun conn => { conn := conn, connected := connected, outcome := outcome }
      some (.called t (.grab pc), s.goto pool t (c.grabbed got))
    | _ => none
  | .statement _ =>
    match c.place with
    | .inTry pcon sent =>
      match (c.op.sent pcon)[sent]? with
      | some stmt =>
        let call := .statement pcon.conn stmt (pcon.outcome sent).applied
        some (.called t call, s.goto s.pool t (c.did call (.inTry pcon (sent + 1))))
      | none => none
    | _ => none
  | .callRelease _ =>
    match c.place with
    | .inTry pcon sent =>
      if sent = (c.op.sent pcon).length then
        let call := .release pcon.conn (!c.op.succeeds pcon)
        (s.pool.step base poolMaxDbCons (.callRelease t pcon.conn (!c.op.succeeds pcon))).map fun r =>
          (.called t call, s.goto r.2 t (c.did call (.release (c.op.verdict (some pcon)))))
      else none
    | _ => none
  | .releaseLock _ notified =>
    match c.place with
    | .release verdict =>
      (s.pool.step base poolMaxDbCons (.releaseLock t notified)).map fun r => (.running, s.goto r.2 t (c.released verdict))
    | _ => none
  | .leave _ =>
    match c.place with
    | .return ret => some (.returned t c ret, { s with callers := s.callers.erase t })
    | _ => none
  | .grabLock _ env => (s.pool.step base poolMaxDbCons (.grabLock t env)).map fun r => (.running, { s with pool := r.2 })
  | .wakeUp _ => (s.pool.step base poolMaxDbCons (.wakeUp t)).map fun r => (.running, { s with pool := r.2 })
  | .grabThrows _ =>
    (s.pool.step base poolMaxDbCons (.grabCharset t true)).map fun r => (.threw t c, { pool := r.2, callers := s.callers.erase t })
  | .call _ _ => none

/-- The thread that takes a step. -/
def actor : ConnectorAction Env Tid → Tid
  | .call t _ => t
  | .turn t => t
  | .grabLock t _ => t
  | .wakeUp t => t
  | .grabThrows t => t
  | .grabReturns t _ _ => t
  | .statement t => t
  | .callRelease t => t
  | .releaseLock t _ => t
  | .leave t => t

/-- One step: a thread in no call calls a function, and any other one gets on in its call. -/
def step (base : ConnectionPool σ Env Conn) (poolMaxDbCons : Int) (dbRetryTime : Nat) (s : ConnectorState σ Conn Tid)
    (a : ConnectorAction Env Tid) : Option (ConnectorReply Conn Tid × ConnectorState σ Conn Tid) :=
  match s.callers.lookup (actor a) with
  | some c => s.stepCaller base poolMaxDbCons (actor a) c a
  | none =>
    match a with
    | .call t op => some (.running, s.goto s.pool t (Caller.start op dbRetryTime))
    | _ => none

/-- The threads, their connector and its pool. -/
def machine (base : ConnectionPool σ Env Conn) (poolMaxDbCons : Int) (dbRetryTime : Nat) :
    Machine (ConnectorState σ Conn Tid) (ConnectorAction Env Tid) (ConnectorReply Conn Tid) where
  step := step base poolMaxDbCons dbRetryTime

end ConnectorState

end FrontServer
