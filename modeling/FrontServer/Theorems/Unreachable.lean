import FrontServer.Theorems.Retries

/-!
# `is_db_unreachable` over several calls

The functions set `*is_db_unreachable` where `grab` gives no connection, and nowhere else do they write it: a call that reaches the
database leaves the variable as it was. Over calls that share one variable it tells whether some call so far got no connection, which is
what became of the last one only as long as no call after an unreachable one gets through.
-/

namespace FrontServer

variable {Conn : Type}

namespace DatabaseConnector

/-- A call with all that it gets besides `is_db_unreachable`: what its attempts meet, its budget and the caller's other pointers. -/
structure Call (Conn : Type) where
  op : Operation
  env : Nat → Option (Connection Conn)
  dbRetryTime : Nat
  queryRet : Rows
  simpleRet : Option Bool
  sqlStr : Bytes

namespace Call

/-- What the call leaves, where the variable that `is_db_unreachable` points to holds `unreachable` before it. -/
def leaves (c : Call Conn) (unreachable : Bool) : Db Conn :=
  ((c.op.call c.env c.dbRetryTime).run (Db.start (some unreachable) c.queryRet c.simpleRet c.sqlStr)).2

/-- An attempt within the budget meets a pool that gives no connection, and no attempt before it ends the call. -/
def GetsNull (c : Call Conn) : Prop := ∃ k < c.dbRetryTime, c.env k = none ∧ ∀ i < k, ¬Stops c.op (c.env i)

end Call

/-- The last thing a call did was to `grab` and get `NULL`. -/
def EndedByNull (db : Db Conn) : Prop := db.calls.getLast? = some (.grab none)

/-- The variable after calls that share it. -/
def afterCalls : List (Call Conn) → Bool → Bool
  | [], unreachable => unreachable
  | c :: cs, unreachable => afterCalls cs ((c.leaves unreachable).isDbUnreachable.getD unreachable)

/-! ## One call -/

/-- The last call of a turn. -/
theorem getLast?_turn (op : Operation) (got : Option (Connection Conn)) :
    (op.turn got).getLast? = some (.grab none) ↔ got = none := by
  cases got with
  | none => exact iff_of_true rfl rfl
  | some pcon =>
    rw [Operation.turn, List.getLast?_append]
    constructor
    · intro h
      cases h
    · intro h
      cases h

theorem turn_ne_nil (op : Operation) (got : Option (Connection Conn)) : op.turn got ≠ [] := by
  cases got with
  | none => exact List.cons_ne_nil _ _
  | some pcon => exact List.cons_ne_nil _ _

/-- The attempts a call gets to, by whether one of them got no connection. -/
theorem Call.attempts (c : Call Conn) (unreachable : Bool) :
    ∃ n, TurnsEnd c.op c.env n (Db.start (some unreachable) c.queryRet c.simpleRet c.sqlStr) (c.leaves unreachable) ∧
      (c.GetsNull ↔ ∃ k < n, c.env k = none) ∧ ∀ k < n, c.env k = none → n = k + 1 := by
  have hrun : (c.op.call c.env c.dbRetryTime).run (Db.start (some unreachable) c.queryRet c.simpleRet c.sqlStr) =
      (_, c.leaves unreachable) := rfl
  obtain ⟨n, hturns, hn, -⟩ := attempts_of_call c.op c.env c.dbRetryTime rfl rfl hrun
  refine ⟨n, hturns, ?_, fun k hk hnone => ?_⟩
  · constructor
    · rintro ⟨k, hk, hnone, hbefore⟩
      exact ⟨k, (hn k).mpr ⟨hk, hbefore⟩, hnone⟩
    · rintro ⟨k, hk, hnone⟩
      exact ⟨k, ((hn k).mp hk).1, hnone, ((hn k).mp hk).2⟩
  · by_contra hne
    have hstops : Stops c.op (c.env k) := by
      rw [hnone]
      trivial
    exact ((hn (k + 1)).mp (by omega)).2 k (Nat.lt_succ_self k) hstops

/-- A call ends by `NULL` exactly when an attempt it gets to meets one. -/
theorem Call.endedByNull_iff (c : Call Conn) (unreachable : Bool) : EndedByNull (c.leaves unreachable) ↔ c.GetsNull := by
  obtain ⟨n, hturns, hnull, hlast⟩ := c.attempts unreachable
  rw [EndedByNull, hturns.calls, hnull]
  cases n with
  | zero => exact iff_of_false nofun fun ⟨k, hk, _⟩ => Nat.not_lt_zero k hk
  | succ m =>
    have hend : ((List.range (m + 1)).flatMap (fun i => c.op.turn (c.env i))).getLast? = (c.op.turn (c.env m)).getLast? := by
      rw [List.range_succ, List.flatMap_append, List.flatMap_singleton, List.getLast?_append_of_ne_nil _ (turn_ne_nil _ _)]
    rw [hend, getLast?_turn]
    constructor
    · intro hnone
      exact ⟨m, Nat.lt_succ_self m, hnone⟩
    · rintro ⟨k, hk, hnone⟩
      obtain rfl : m = k := Nat.succ.inj (hlast k hk hnone)
      exact hnone

/-- A call sets the variable where it ends by `NULL`, and leaves it elsewhere. -/
theorem Call.isDbUnreachable_leaves (c : Call Conn) (unreachable : Bool) :
    ∃ b, (c.leaves unreachable).isDbUnreachable = some b ∧ (b = true ↔ unreachable = true ∨ c.GetsNull) := by
  obtain ⟨n, hturns, hnull, -⟩ := c.attempts unreachable
  refine ⟨_, hturns.isDbUnreachable, ?_⟩
  rw [hnull, Bool.or_eq_true, List.any_eq_true]
  simp only [List.mem_range, Option.isNone_iff_eq_none]

/-! ## Calls one after the other -/

theorem afterCalls_append (cs : List (Call Conn)) (c : Call Conn) (unreachable : Bool) :
    afterCalls (cs ++ [c]) unreachable =
      ((c.leaves (afterCalls cs unreachable)).isDbUnreachable.getD (afterCalls cs unreachable)) := by
  induction cs generalizing unreachable with
  | nil => rfl
  | cons c' cs ih => exact ih _

/-- The variable tells whether it was set before, or some call since got no connection. -/
theorem afterCalls_eq_true (cs : List (Call Conn)) (unreachable : Bool) :
    afterCalls cs unreachable = true ↔ unreachable = true ∨ ∃ c ∈ cs, c.GetsNull := by
  induction cs using List.reverseRecOn with
  | nil => simp [afterCalls]
  | append_singleton cs c ih =>
    obtain ⟨b, hb, hiff⟩ := c.isDbUnreachable_leaves (afterCalls cs unreachable)
    rw [afterCalls_append, hb, Option.getD_some, hiff, ih, or_assoc]
    simp [or_and_right, exists_or]

/-- Over calls that share one variable, it is true after each call exactly when that call ended because `grab` gave `NULL`, exactly when
every call that is made with the variable already set, by the caller or by an earlier call that got no connection, gets none either. -/
theorem unreachable_reflects_last_call_iff (cs : List (Call Conn)) (unreachable : Bool) :
    (∀ before c after, cs = before ++ c :: after →
        (afterCalls (before ++ [c]) unreachable = true ↔ EndedByNull (c.leaves (afterCalls before unreachable)))) ↔
      ∀ before c after, cs = before ++ c :: after → (unreachable = true ∨ ∃ c' ∈ before, c'.GetsNull) → c.GetsNull := by
  have hcall : ∀ (before : List (Call Conn)) (c : Call Conn),
      (afterCalls (before ++ [c]) unreachable = true ↔ EndedByNull (c.leaves (afterCalls before unreachable))) ↔
        ((unreachable = true ∨ ∃ c' ∈ before, c'.GetsNull) → c.GetsNull) := by
    intro before c
    have hset : afterCalls (before ++ [c]) unreachable = true ↔
        (unreachable = true ∨ ∃ c' ∈ before, c'.GetsNull) ∨ c.GetsNull := by
      rw [afterCalls_eq_true, or_assoc]
      simp [or_and_right, exists_or]
    rw [hset, c.endedByNull_iff]
    exact or_iff_right_iff_imp
  simp only [hcall]

/-- A call of `Execute` that meets `env`. -/
def executeCall (env : Nat → Option (Connection Nat)) : Call Nat :=
  { op := .execute (ascii "insert"), env := env, dbRetryTime := 3, queryRet := [], simpleRet := none, sqlStr := [] }

/-- The database is down for one call and back for the next, which succeeds and leaves the variable set. -/
theorem unreachable_kept_after_success :
    ¬∀ (cs : List (Call Nat)) (unreachable : Bool), ∀ before c after, cs = before ++ c :: after →
        (afterCalls (before ++ [c]) unreachable = true ↔ EndedByNull (c.leaves (afterCalls before unreachable))) := by
  intro h
  have hiff := h [executeCall fun _ => none, executeCall (fun i => lostReply (i + 1))] false [executeCall fun _ => none] _ [] rfl
  exact absurd (hiff.mp (by decide +kernel)) (by unfold EndedByNull; decide +kernel)

end DatabaseConnector

end FrontServer
