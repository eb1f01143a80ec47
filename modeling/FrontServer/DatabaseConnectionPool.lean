import FrontServer.Lib.CMemory
import FrontServer.Lib.Machine
import FrontServer.Lib.Threads

/-!
# `DatabaseConnectionPool`: connections shared by threads

`utils/database/database_connection_pool.cc`. A thread in `grab` or `release` runs up to the mutex, through its critical section in
one step, and on from there; in `grab` it may be blocked in the wait of the condition variable, until it is notified or woken for no
reason, and it then takes the mutex and tests the loop's condition again. The lines the functions log are left out. `release` with
one argument is `release` with `is_bad_con` false.
-/

namespace FrontServer

/-- What the class uses of its base class `mysqlpp::ConnectionPool`, which is not part of the repository. What `grab` gives, a
connection of the pool, a new one or `NULL`, depends on the pool and on what `create` meets (`Env`). -/
structure ConnectionPool (σ Env Conn : Type) where
  empty : σ
  grab : σ → Env → Option Conn × σ
  release : σ → Conn → σ
  remove : σ → Conn → σ

/-- `class DatabaseConnectionPool`, without the mutex and the condition variable, which the steps below are about, and the
parameters of `create`. -/
structure DatabaseConnectionPool (σ : Type) where
  base : σ
  mConnsInUse : Int
  mDbDefaultCharset : Bytes

variable {σ Env Conn Tid : Type}

namespace DatabaseConnectionPool

/-- `DatabaseConnectionPool::DatabaseConnectionPool`. -/
def new (base : ConnectionPool σ Env Conn) (dbDefaultCharset : Bytes) : DatabaseConnectionPool σ :=
  { base := base.empty, mConnsInUse := 0, mDbDefaultCharset := dbDefaultCharset }

/-- The loop's condition in `grab`: `m_conns_in_use > FLAGS_pool_max_db_cons`. -/
def mustWait (p : DatabaseConnectionPool σ) (poolMaxDbCons : Int) : Bool := p.mConnsInUse > poolMaxDbCons

/-- The critical section of `DatabaseConnectionPool::grab` after the loop. -/
def grabConn (base : ConnectionPool σ Env Conn) (p : DatabaseConnectionPool σ) (env : Env) :
    Option Conn × DatabaseConnectionPool σ :=
  match base.grab p.base env with
  | (none, b) => (none, { p with base := b })
  | (some pc, b) => (some pc, { p with base := b, mConnsInUse := p.mConnsInUse + 1 })

/-- `DatabaseConnectionPool::SetDefaultClientCharset` executes a statement, which may throw. -/
def setsCharset (p : DatabaseConnectionPool σ) (pc : Option Conn) : Bool := pc.isSome && !p.mDbDefaultCharset.isEmpty

/-- The critical section of `DatabaseConnectionPool::release` up to `notify_one`. -/
def releaseConn (base : ConnectionPool σ Env Conn) (p : DatabaseConnectionPool σ) (pc : Conn) (isBadCon : Bool) :
    DatabaseConnectionPool σ :=
  let b := base.release p.base pc
  { p with base := if isBadCon then base.remove b pc else b, mConnsInUse := p.mConnsInUse - 1 }

end DatabaseConnectionPool

/-- How far a thread is in its call: in `grab` in front of the mutex, blocked in the wait, woken from it, or behind the critical
section; in `release` in front of the mutex. -/
inductive PoolCall (Conn : Type) where
  | grabLock
  | grabWait
  | grabWoken
  | grabCharset (pc : Option Conn)
  | releaseLock (pc : Conn) (isBadCon : Bool)

/-- The steps threads take. `grabLock` and `releaseLock` are the critical sections; the second names the thread that its
`notify_one` wakes, if there is one. -/
inductive PoolAction (Env Conn Tid : Type) where
  | callGrab (t : Tid)
  | grabLock (t : Tid) (env : Env)
  | wakeUp (t : Tid)
  | grabCharset (t : Tid) (throws : Bool)
  | callRelease (t : Tid) (pc : Conn) (isBadCon : Bool)
  | releaseLock (t : Tid) (notified : Option Tid)

/-- What a step gives the caller: nothing yet, the result of `grab`, its exception, the return of `release`. -/
inductive PoolReply (Conn : Type) where
  | running
  | grabbed (pc : Option Conn)
  | threw
  | released
  deriving DecidableEq

/-- The pool, the threads inside of its functions, and the connections that callers got from `grab` and have not passed to `release`
yet. -/
structure PoolState (σ Conn Tid : Type) where
  pool : DatabaseConnectionPool σ
  calls : Threads Tid (PoolCall Conn)
  held : List Conn

namespace PoolState

variable [DecidableEq Tid]

/-- An unused pool and no call of it. -/
def new (base : ConnectionPool σ Env Conn) (dbDefaultCharset : Bytes) : PoolState σ Conn Tid :=
  { pool := DatabaseConnectionPool.new base dbDefaultCharset, calls := ∅, held := [] }

/-- A thread comes to a call, or gets on in it. -/
def goto (s : PoolState σ Conn Tid) (t : Tid) (c : PoolCall Conn) : PoolState σ Conn Tid :=
  { s with calls := s.calls.insert t c }

/-- A thread's call ends. -/
def leave (s : PoolState σ Conn Tid) (t : Tid) : PoolState σ Conn Tid := { s with calls := s.calls.erase t }

/-- `grab` with the mutex: the loop's condition, and the rest of the critical section where it does not hold. -/
def lockGrab (base : ConnectionPool σ Env Conn) (poolMaxDbCons : Int) (s : PoolState σ Conn Tid) (t : Tid) (env : Env) :
    PoolState σ Conn Tid :=
  if s.pool.mustWait poolMaxDbCons then s.goto t .grabWait
  else
    let (pc, pool) := s.pool.grabConn base env
    { s.goto t (.grabCharset pc) with pool := pool }

/-- The call of a thread blocked in the wait. -/
def isWaiting : PoolCall Conn → Bool
  | .grabWait => true
  | _ => false

/-- `notify_one`: one of the threads in the wait is woken, if there is one. -/
def notifyOne (s : PoolState σ Conn Tid) : Option Tid → Option (PoolState σ Conn Tid)
  | none => if s.calls.count isWaiting = 0 then some s else none
  | some t =>
    match s.calls.lookup t with
    | some .grabWait => some (s.goto t .grabWoken)
    | _ => none

/-- One step; `none` for one that the thread is not in the place to take. Only a connection that a caller holds is released. -/
def step [DecidableEq Conn] (base : ConnectionPool σ Env Conn) (poolMaxDbCons : Int) (s : PoolState σ Conn Tid) :
    PoolAction Env Conn Tid → Option (PoolReply Conn × PoolState σ Conn Tid)
  | .callGrab t =>
    match s.calls.lookup t with
    | none => some (.running, s.goto t .grabLock)
    | _ => none
  | .grabLock t env =>
    match s.calls.lookup t with
    | some .grabLock => some (.running, s.lockGrab base poolMaxDbCons t env)
    | some .grabWoken => some (.running, s.lockGrab base poolMaxDbCons t env)
    | _ => none
  | .wakeUp t =>
    match s.calls.lookup t with
    | some .grabWait => some (.running, s.goto t .grabWoken)
    | _ => none
  | .grabCharset t throws =>
    match s.calls.lookup t with
    | some (.grabCharset pc) =>
      if throws then if s.pool.setsCharset pc then some (.threw, s.leave t) else none
      else some (.grabbed pc, { s.leave t with held := pc.toList ++ s.held })
    | _ => none
  | .callRelease t pc isBadCon =>
    match s.calls.lookup t with
    | none => if pc ∈ s.held then some (.running, { s.goto t (.releaseLock pc isBadCon) with held := s.held.erase pc }) else none
    | _ => none
  | .releaseLock t notified =>
    match s.calls.lookup t with
    | some (.releaseLock pc isBadCon) =>
      let s := { s.leave t with pool := s.pool.releaseConn base pc isBadCon }
      (s.notifyOne notified).map (fun s => (.released, s))
    | _ => none

/-- The threads and their pool, of at most `poolMaxDbCons` connections. -/
def machine [DecidableEq Conn] (base : ConnectionPool σ Env Conn) (poolMaxDbCons : Int) :
    Machine (PoolState σ Conn Tid) (PoolAction Env Conn Tid) (PoolReply Conn) where
  step := step base poolMaxDbCons

end PoolState

end FrontServer
