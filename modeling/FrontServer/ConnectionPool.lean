import FrontServer.DatabaseConnectionPool

/-!
# The base class and the life of a connection

`mysqlpp::ConnectionPool` is not part of the repository. What `DatabaseConnectionPool` relies on is how the base class moves a
connection object through its life: made by a `grab` or idle before it, in use until its `release`, idle again, and deleted by
`remove` or, while idle, by a `grab` that finds it too old. A base class that does so is `Lawful`; `recordPool` is one.
-/

namespace FrontServer

variable {σ Env Conn : Type}

/-- Where a connection object is in its life. -/
inductive ConnStatus where
  | unmade
  | idle
  | inUse
  | deleted
  deriving DecidableEq

/-- What the base class does to the connections, each of which has a status in its state: it only gives out a connection that is
idle or new, and does not touch one in use but by `release`. -/
structure ConnectionPool.Lawful (base : ConnectionPool σ Env Conn) (status : σ → Conn → ConnStatus) : Prop where
  empty : ∀ c, status base.empty c = .unmade
  grab : ∀ {b env pc b'}, base.grab b env = (some pc, b') → (status b pc = .idle ∨ status b pc = .unmade) ∧ status b' pc = .inUse
  grab_others : ∀ {b env r b'}, base.grab b env = (r, b') → ∀ c, r ≠ some c →
    status b' c = status b c ∨ status b c = .idle ∧ status b' c = .deleted
  release : ∀ {b pc}, status b pc = .inUse → status (base.release b pc) pc = .idle
  release_others : ∀ {b pc c}, c ≠ pc → status (base.release b pc) c = status b c
  remove : ∀ {b pc}, status b pc = .idle → status (base.remove b pc) pc = .deleted
  remove_others : ∀ {b pc c}, c ≠ pc → status (base.remove b pc) c = status b c

/-- Where `Env` is what `create` makes, a connection that the base class gives out and has not made before is that. -/
def ConnectionPool.GivesCreated (base : ConnectionPool σ (Option Conn) Conn) (status : σ → Conn → ConnStatus) : Prop :=
  ∀ {b created pc b'}, base.grab b created = (some pc, b') → status b pc = .unmade → created = some pc

/-! ## A lawful base class -/

variable [DecidableEq Conn]

/-- The status of a connection in `recordPool`, the latest one in its record. -/
def recordStatus (b : List (Conn × ConnStatus)) (pc : Conn) : ConnStatus := (b.lookup pc).getD .unmade

/-- A base class that records what becomes of its connections: `grab` gives an idle one, and where there is none the one that `create`
makes, if it makes one. -/
def recordPool (Conn : Type) [DecidableEq Conn] : ConnectionPool (List (Conn × ConnStatus)) (Option Conn) Conn where
  empty := []
  grab b created :=
    match b.find? (fun e => recordStatus b e.1 = .idle), created with
    | some e, _ => (some e.1, (e.1, .inUse) :: b)
    | none, some pc => if recordStatus b pc = .unmade then (some pc, (pc, .inUse) :: b) else (none, b)
    | none, none => (none, b)
  release b pc := (pc, .idle) :: b
  remove b pc := (pc, .deleted) :: b

/-- The latest entry of the record is the status of its connection. -/
theorem recordStatus_cons_self (b : List (Conn × ConnStatus)) (pc : Conn) (st : ConnStatus) :
    recordStatus ((pc, st) :: b) pc = st := by
  rw [recordStatus, List.lookup_cons_self, Option.getD_some]

theorem recordStatus_cons_of_ne (b : List (Conn × ConnStatus)) {pc c : Conn} (h : c ≠ pc) (st : ConnStatus) :
    recordStatus ((pc, st) :: b) c = recordStatus b c := by
  rw [recordStatus, List.lookup_cons, beq_false_of_ne h]
  rfl

/-- What `recordPool` gives is idle or has just been made, and is in use from then on. -/
theorem recordPool_grab {b b' : List (Conn × ConnStatus)} {created r : Option Conn}
    (h : (recordPool Conn).grab b created = (r, b')) :
    (∃ pc, r = some pc ∧ (recordStatus b pc = .idle ∨ recordStatus b pc = .unmade ∧ created = some pc) ∧
        b' = (pc, .inUse) :: b) ∨
      r = none ∧ b' = b := by
  simp only [recordPool] at h
  split at h
  · rename_i e he
    cases h
    have hidle := List.find?_some he
    exact Or.inl ⟨e.1, rfl, Or.inl (by simpa using hidle), rfl⟩
  · rename_i pc _
    split at h
    · rename_i hunmade
      cases h
      exact Or.inl ⟨pc, rfl, Or.inr ⟨hunmade, rfl⟩, rfl⟩
    · cases h
      exact Or.inr ⟨rfl, rfl⟩
  · cases h
    exact Or.inr ⟨rfl, rfl⟩

theorem recordPool_lawful : (recordPool Conn).Lawful recordStatus where
  empty := fun _ => rfl
  grab := by
    intro b env pc b' h
    rcases recordPool_grab h with ⟨pc', he, hbefore, rfl⟩ | ⟨he, -⟩
    · cases he
      exact ⟨hbefore.imp_right And.left, recordStatus_cons_self b pc .inUse⟩
    · cases he
  grab_others := by
    intro b env r b' h c hc
    left
    rcases recordPool_grab h with ⟨pc, rfl, -, rfl⟩ | ⟨-, rfl⟩
    · exact recordStatus_cons_of_ne b (fun e => hc (congrArg some e.symm)) .inUse
    · rfl
  release := fun {b pc} _ => recordStatus_cons_self b pc .idle
  release_others := fun {b _ _} hne => recordStatus_cons_of_ne b hne .idle
  remove := fun {b pc} _ => recordStatus_cons_self b pc .deleted
  remove_others := fun {b _ _} hne => recordStatus_cons_of_ne b hne .deleted

theorem recordPool_givesCreated : (recordPool Conn).GivesCreated recordStatus := by
  intro b created pc b' h hunmade
  rcases recordPool_grab h with ⟨pc', he, hbefore, -⟩ | ⟨he, -⟩
  · cases he
    rcases hbefore with hidle | ⟨-, hcreated⟩
    · cases hidle.symm.trans hunmade
    · exact hcreated
  · cases he

end FrontServer
