import FrontServer.DatabaseConnectionPool
import FrontServer.Lib.Retry

/-!
# From the connector's constructor to `connect`

`utils/database/database_connector.cc` and `utils/database/database_connection_pool.cc`: how the arguments of the constructor of
`DatabaseConnector` and the `db_*` flags reach the pool, the connections that `create` opens and the statement of
`SetDefaultClientCharset`. The lines the functions log are left out.
-/

namespace FrontServer

/-- The flags of the two files. -/
structure DbFlags where
  dbName : Bytes
  dbUserName : Bytes
  dbUserPass : Bytes
  dbHost : Bytes
  dbPort : Int
  dbRetryTime : Nat
  poolMaxDbCons : Int

/-- The arguments of the constructor of `DatabaseConnector`. -/
structure ConnectorArgs where
  dbName : Bytes
  dbUserName : Bytes
  dbUserPass : Bytes
  dbHost : Bytes
  dbPort : Int
  dbDefaultCharset : Bytes
  connectTimeout : Int

/-- The parameters a `DatabaseConnectionPool` keeps. -/
structure PoolParameters where
  mDbName : Bytes
  mDbServer : Bytes
  mDbUser : Bytes
  mDbPasswd : Bytes
  mDbPort : Int
  mDbDefaultCharset : Bytes
  mDbConnectTimeout : Int

/-- `DatabaseConnectionPool::DatabaseConnectionPool`, as far as the parameters go, with its order of arguments. -/
def PoolParameters.new (dbName dbServer : Bytes) (dbPort : Int) (dbUser dbPasswd dbDefaultCharset : Bytes) (connectTimeout : Int) :
    PoolParameters :=
  { mDbName := dbName, mDbServer := dbServer, mDbUser := dbUser, mDbPasswd := dbPasswd, mDbPort := dbPort,
    mDbDefaultCharset := dbDefaultCharset, mDbConnectTimeout := connectTimeout }

/-- The fields of `class DatabaseConnector` other than the pool. -/
structure ConnectorFields where
  mDbName : Bytes
  mDbUserName : Bytes
  mDbUserPass : Bytes
  mDbHost : Bytes
  mDbPort : Int
  mDbDefaultCharset : Bytes
  mDbConnectTimeout : Int

namespace ConnectorFields

/-- The members that `DatabaseConnector::DatabaseConnector` initialises before its body; `m_db_name` is not among them and starts
out empty. -/
def construct (args : ConnectorArgs) : ConnectorFields :=
  { mDbName := [], mDbUserName := args.dbUserName, mDbUserPass := args.dbUserPass, mDbHost := args.dbHost, mDbPort := args.dbPort,
    mDbDefaultCharset := args.dbDefaultCharset, mDbConnectTimeout := args.connectTimeout }

/-- `DatabaseConnector::Init` up to the pool. -/
def init (flags : DbFlags) (c : ConnectorFields) : ConnectorFields :=
  if c.mDbName.isEmpty then
    { c with
      mDbName := flags.dbName, mDbUserName := flags.dbUserName, mDbUserPass := flags.dbUserPass, mDbHost := flags.dbHost,
      mDbPort := flags.dbPort, mDbDefaultCharset := [] }
  else c

/-- The pool that `DatabaseConnector::Init` makes. -/
def poolParameters (c : ConnectorFields) : PoolParameters :=
  .new c.mDbName c.mDbHost c.mDbPort c.mDbUserName c.mDbUserPass c.mDbDefaultCharset c.mDbConnectTimeout

end ConnectorFields

/-- The parameters of the pool of a new `DatabaseConnector`. -/
def ConnectorArgs.poolParameters (args : ConnectorArgs) (flags : DbFlags) : PoolParameters :=
  ((ConnectorFields.construct args).init flags).poolParameters

/-- A `mysqlpp::Connection`: the object, and what `connect` was called with. -/
structure MysqlConnection where
  object : Nat
  connectTimeout : Int
  db : Bytes
  server : Bytes
  user : Bytes
  password : Bytes
  port : Int
  deriving DecidableEq

namespace PoolParameters

/-- The connection object after its `connect`, whose strings are passed as C strings. -/
def connect (p : PoolParameters) (object : Nat) : MysqlConnection :=
  { object := object, connectTimeout := p.mDbConnectTimeout, db := cStr p.mDbName, server := cStr p.mDbServer,
    user := cStr p.mDbUser, password := cStr p.mDbPasswd, port := p.mDbPort }

/-- One turn of the loop of `DatabaseConnectionPool::create`: the attempt with this number makes an object and connects it, or
throws and deletes it. -/
def tryConnect (p : PoolParameters) (connects : Nat → Option Nat) : StateM Nat (Option MysqlConnection) := fun i =>
  ((connects i).map p.connect, i + 1)

/-- `DatabaseConnectionPool::create`, by what its attempts to connect meet. -/
def create (p : PoolParameters) (dbRetryTime : Nat) (connects : Nat → Option Nat) : Option MysqlConnection :=
  ((retry (p.tryConnect connects) dbRetryTime).run 0).1

end PoolParameters

/-- The base class with the override of `create`, which its `grab` calls where it needs a new connection. -/
def ConnectionPool.withCreate {σ Env Conn : Type} (base : ConnectionPool σ (Option Conn) Conn) (create : Env → Option Conn) :
    ConnectionPool σ Env Conn where
  empty := base.empty
  grab b env := base.grab b (create env)
  release := base.release
  remove := base.remove

/-- `DatabaseConnectionPool::SetDefaultClientCharset`: the statement it executes, if it does. -/
def DatabaseConnectionPool.setDefaultClientCharset {σ Conn : Type} (p : DatabaseConnectionPool σ) (pc : Option Conn) :
    Option (Conn × Bytes) :=
  match pc with
  | none => none
  | some pc =>
    if !p.mDbDefaultCharset.isEmpty then some (pc, ascii "set NAMES '" ++ p.mDbDefaultCharset ++ ascii "'") else none

namespace ConnectorArgs

variable {σ Tid : Type} [DecidableEq Tid]

/-- The pool of a new `DatabaseConnector` and no call of it. -/
def start (args : ConnectorArgs) (flags : DbFlags) (base : ConnectionPool σ (Option MysqlConnection) MysqlConnection) :
    PoolState σ MysqlConnection Tid :=
  PoolState.new (base.withCreate ((args.poolParameters flags).create flags.dbRetryTime))
    (args.poolParameters flags).mDbDefaultCharset

/-- The calls of `grab` and `release` that the operations of a `DatabaseConnector` make, by any number of threads. -/
def machine (args : ConnectorArgs) (flags : DbFlags) (base : ConnectionPool σ (Option MysqlConnection) MysqlConnection) :
    Machine (PoolState σ MysqlConnection Tid) (PoolAction (Nat → Option Nat) MysqlConnection Tid) (PoolReply MysqlConnection) :=
  PoolState.machine (base.withCreate ((args.poolParameters flags).create flags.dbRetryTime)) flags.poolMaxDbCons

end ConnectorArgs

end FrontServer
