import FrontServer.ConnectionParameters
import FrontServer.Lemmas.ConnectionPool

/-!
# Where a connector's connections go

The constructor of `DatabaseConnector` leaves `m_db_name` empty whatever it is given, so `Init` takes the flags for all connection
parameters and no charset. Only the connect timeout gets through.
-/

namespace FrontServer

variable {σ Tid : Type} [DecidableEq Tid]

/-- A connection was opened with the constructor's database, host, port, user and password. -/
def ConnectorArgs.OpenedBy (args : ConnectorArgs) (pc : MysqlConnection) : Prop :=
  pc.db = args.dbName ∧ pc.server = args.dbHost ∧ pc.port = args.dbPort ∧ pc.user = args.dbUserName ∧ pc.password = args.dbUserPass

/-- `SetDefaultClientCharset` sets the constructor's charset on a connection, if there is one. -/
def ConnectorArgs.CharsetSet (args : ConnectorArgs) (p : DatabaseConnectionPool σ) (pc : MysqlConnection) : Prop :=
  args.dbDefaultCharset ≠ [] →
    p.setDefaultClientCharset (some pc) = some (pc, ascii "set NAMES '" ++ args.dbDefaultCharset ++ ascii "'")

/-- The flags have the values that the constructor was given. -/
def DbFlags.Agree (flags : DbFlags) (args : ConnectorArgs) : Prop :=
  cStr flags.dbName = args.dbName ∧ cStr flags.dbHost = args.dbHost ∧ flags.dbPort = args.dbPort ∧
    cStr flags.dbUserName = args.dbUserName ∧ cStr flags.dbUserPass = args.dbUserPass

/-- The parameters of the pool are the flags. -/
theorem ConnectorArgs.poolParameters_eq (args : ConnectorArgs) (flags : DbFlags) :
    args.poolParameters flags =
      { mDbName := flags.dbName, mDbServer := flags.dbHost, mDbUser := flags.dbUserName, mDbPasswd := flags.dbUserPass,
        mDbPort := flags.dbPort, mDbDefaultCharset := [], mDbConnectTimeout := args.connectTimeout } := rfl

/-- What `create` makes is connected with the parameters of the pool. -/
theorem PoolParameters.create_eq_some {p : PoolParameters} {dbRetryTime : Nat} {connects : Nat → Option Nat} {pc : MysqlConnection}
    (h : p.create dbRetryTime connects = some pc) : ∃ object, pc = p.connect object := by
  unfold create at h
  rcases hrun : (retry (p.tryConnect connects) dbRetryTime).run 0 with ⟨r, i⟩
  rw [hrun] at h
  rcases retry_cases (P := fun _ _ => True) (i := 0) (fun _ _ => trivial) trivial hrun with ⟨hnone, -⟩ | ⟨k, pc', j, -, hr, -, hbody⟩
  · cases hnone.symm.trans h
  · cases hr.symm.trans h
    obtain ⟨object, -, hobject⟩ := Option.map_eq_some_iff.mp (congrArg Prod.fst hbody)
    exact ⟨object, hobject.symm⟩

/-- A connection opened with the parameters of the pool is opened as the constructor said exactly when the flags agree. -/
theorem ConnectorArgs.openedBy_iff (args : ConnectorArgs) (flags : DbFlags) (object : Nat) :
    args.OpenedBy ((args.poolParameters flags).connect object) ↔ flags.Agree args := Iff.rfl

/-- The base class stays lawful with the override of `create`. -/
theorem ConnectionPool.Lawful.withCreate {σ Env Conn : Type} {base : ConnectionPool σ (Option Conn) Conn}
    {status : σ → Conn → ConnStatus} (h : base.Lawful status) (create : Env → Option Conn) :
    (base.withCreate create).Lawful status where
  empty := h.empty
  grab := fun hgrab => h.grab hgrab
  grab_others := fun hgrab => h.grab_others hgrab
  release := h.release
  release_others := h.release_others
  remove := h.remove
  remove_others := h.remove_others

namespace ConnectorArgs

variable {args : ConnectorArgs} {flags : DbFlags} {base : ConnectionPool σ (Option MysqlConnection) MysqlConnection}
  {status : σ → MysqlConnection → ConnStatus}

/-- Every connection that the pool has made was opened with its parameters. -/
theorem opened_of_made (hlaw : base.Lawful status) (hcreated : base.GivesCreated status)
    {acts : List (PoolAction (Nat → Option Nat) MysqlConnection Tid)} {replies : List (PoolReply MysqlConnection)}
    {s : PoolState σ MysqlConnection Tid} (h : (args.machine flags base).run (args.start flags base) acts = some (replies, s))
    {pc : MysqlConnection} (hpc : status s.pool.base pc ≠ .unmade) :
    ∃ object, pc = (args.poolParameters flags).connect object := by
  have hlaw' := hlaw.withCreate ((args.poolParameters flags).create flags.dbRetryTime)
  refine Machine.run_history (P := fun _ _ (s : PoolState σ MysqlConnection Tid) =>
    ∀ pc, status s.pool.base pc ≠ .unmade → ∃ object, pc = (args.poolParameters flags).connect object)
    (fun pc hpc => absurd (hlaw.empty pc) hpc) (fun {acts replies s a r s'} hrun ih hs pc hpc => ?_) h pc hpc
  rcases PoolState.made_of_step hlaw' (PoolState.holders_le hlaw' hrun) hs hpc with hbefore | ⟨env, hgrab⟩
  · exact ih pc hbefore
  · by_cases hunmade : status s.pool.base pc = .unmade
    · exact PoolParameters.create_eq_some (hcreated hgrab hunmade)
    · exact ih pc hunmade

/-- Every connection that a connector's pool creates is opened as the constructor said exactly when the flags have the constructor's
values. A connection that a `grab` hands out in some run is so, and has the constructor's charset set, exactly when moreover the
constructor was given no charset. -/
theorem connector_parameters (args : ConnectorArgs) (flags : DbFlags)
    (base : ConnectionPool σ (Option MysqlConnection) MysqlConnection) (status : σ → MysqlConnection → ConnStatus)
    (hlaw : base.Lawful status) (hcreated : base.GivesCreated status)
    (acts : List (PoolAction (Nat → Option Nat) MysqlConnection Tid)) (replies : List (PoolReply MysqlConnection))
    (s : PoolState σ MysqlConnection Tid) (h : (args.machine flags base).run (args.start flags base) acts = some (replies, s)) :
    (∀ connects pc, (args.poolParameters flags).create flags.dbRetryTime connects = some pc →
        (args.OpenedBy pc ↔ flags.Agree args)) ∧
      ∀ a pc s', (args.machine flags base).step s a = some (.grabbed (some pc), s') →
        (args.OpenedBy pc ∧ args.CharsetSet s.pool pc ↔ flags.Agree args ∧ args.dbDefaultCharset = []) := by
  refine ⟨fun connects pc hpc => ?_, fun a pc s' hs => ?_⟩
  · obtain ⟨object, rfl⟩ := PoolParameters.create_eq_some hpc
    exact args.openedBy_iff flags object
  · have hlaw' := hlaw.withCreate ((args.poolParameters flags).create flags.dbRetryTime)
    obtain ⟨t, ht⟩ := PoolState.grabCharset_of_grabbed hs
    have hused := PoolState.inUse_of_holders (PoolState.holders_le hlaw' h) (PoolState.holders_pos ht rfl)
    have hmade : status s.pool.base pc ≠ .unmade := by
      rw [hused]
      exact nofun
    obtain ⟨object, rfl⟩ := opened_of_made hlaw hcreated h hmade
    have hcharset : s.pool.mDbDefaultCharset = [] :=
      Machine.run_invariant (P := fun s : PoolState σ MysqlConnection Tid => s.pool.mDbDefaultCharset = [])
        (fun hnone hs => (PoolState.mDbDefaultCharset_of_step hs).trans hnone) rfl h
    have hset : args.CharsetSet s.pool ((args.poolParameters flags).connect object) ↔ args.dbDefaultCharset = [] := by
      have hnone : s.pool.setDefaultClientCharset (some ((args.poolParameters flags).connect object)) = none := by
        simp [DatabaseConnectionPool.setDefaultClientCharset, hcharset]
      rw [CharsetSet, hnone]
      by_cases harg : args.dbDefaultCharset = []
      · simp [harg]
      · simp [harg]
    rw [args.openedBy_iff flags object, hset]

/-- A connector to a database `shop`, and flags that nobody has set. -/
def shopArgs : ConnectorArgs :=
  { dbName := ascii "shop", dbUserName := ascii "shop", dbUserPass := ascii "secret", dbHost := ascii "10.0.0.1", dbPort := 3306,
    dbDefaultCharset := ascii "utf8", connectTimeout := 10 }

/-- The flags with their defaults. -/
def defaultFlags : DbFlags :=
  { dbName := [], dbUserName := [], dbUserPass := [], dbHost := [], dbPort := 0, dbRetryTime := 3, poolMaxDbCons := 20 }

/-- One `grab`, the first attempt of whose `create` succeeds. -/
def oneGrab : List (PoolAction (Nat → Option Nat) MysqlConnection Nat) :=
  [.callGrab 0, .grabLock 0 (fun _ => some 1), .grabCharset 0 false]

/-- It gives a connection to no database, on no host. -/
def flagsConnection : MysqlConnection :=
  { object := 1, connectTimeout := 10, db := [], server := [], user := [], password := [], port := 0 }

theorem oneGrab_replies :
    ((shopArgs.machine defaultFlags (recordPool MysqlConnection)).run (shopArgs.start defaultFlags (recordPool MysqlConnection))
      oneGrab).map (fun r => r.1) = some [.running, .running, .grabbed (some flagsConnection)] := by decide +kernel

/-- Given a database, `grab` hands out a connection to another one. -/
theorem shop_opened_elsewhere :
    ¬∀ (args : ConnectorArgs) (flags : DbFlags) (acts : List (PoolAction (Nat → Option Nat) MysqlConnection Nat))
      (replies : List (PoolReply MysqlConnection)) (s : PoolState _ MysqlConnection Nat), args.dbName ≠ [] →
        (args.machine flags (recordPool MysqlConnection)).run (args.start flags (recordPool MysqlConnection)) acts =
            some (replies, s) →
          ∀ pc, .grabbed (some pc) ∈ replies → args.OpenedBy pc := by
  intro h
  obtain ⟨⟨replies, s⟩, hrun, hreplies⟩ := Option.map_eq_some_iff.mp oneGrab_replies
  have hopened := h shopArgs defaultFlags oneGrab replies s (by decide) hrun flagsConnection
    (by rw [show replies = _ from hreplies]; decide)
  exact absurd hopened.1 (by decide)

theorem connector_parameters_oneGrab :
    ∃ replies s, (shopArgs.machine defaultFlags (recordPool MysqlConnection)).run
        (shopArgs.start defaultFlags (recordPool MysqlConnection)) oneGrab = some (replies, s) ∧
      ∀ connects pc, (shopArgs.poolParameters defaultFlags).create 3 connects = some pc →
        (shopArgs.OpenedBy pc ↔ defaultFlags.Agree shopArgs) := by
  obtain ⟨⟨replies, s⟩, hrun, -⟩ := Option.map_eq_some_iff.mp oneGrab_replies
  exact ⟨replies, s, hrun, (connector_parameters shopArgs defaultFlags (recordPool MysqlConnection) recordStatus recordPool_lawful
    recordPool_givesCreated oneGrab replies s hrun).1⟩

end ConnectorArgs

end FrontServer
