import FrontServer.Theorems.Retries

/-!
# What a query that fails leaves in `*query_ret`

`ExecuteQuery` writes the rows to the caller's result as soon as the query has given them. Without a charset nothing can fail after
that. With one the charset has still to be set back, and when that throws the rows stay, unless a later attempt writes others.
-/

namespace FrontServer

variable {Conn : Type}

namespace DatabaseConnector

/-- The attempts a call gets to: those below the budget that no attempt before them has ended. -/
def Reached (op : Operation) (env : Nat → Option (Connection Conn)) (dbRetryTime j : Nat) : Prop :=
  j < dbRetryTime ∧ ∀ i < j, ¬Stops op (env i)

/-- An attempt that hands rows to the caller and does not end the call is followed by one that hands over others, or its rows are those
the caller had. -/
def RowsKept (op : Operation) (env : Nat → Option (Connection Conn)) (dbRetryTime : Nat) (queryRet : Rows) : Prop :=
  ∀ j rows, Reached op env dbRetryTime j → op.storedBy (env j) = some rows → ¬Stops op (env j) →
    (∀ k, j < k → Reached op env dbRetryTime k → op.storedBy (env k) = none) → rows = queryRet

/-- Where an operation hands over rows at all, it does so in an attempt that succeeds. -/
theorem exists_stored_of_succeeds {op : Operation} {pcon pcon' : Connection Conn} {rows : Rows} (hstored : op.stored pcon = some rows)
    (hs : op.succeeds pcon' = true) : ∃ rows', op.stored pcon' = some rows' := by
  cases op with
  | executeQueryCharset queryStr charSetName =>
    refine ⟨(pcon'.outcome 2).rows, if_pos ?_⟩
    simp only [Operation.succeeds, Bool.and_eq_true] at hs ⊢
    exact hs.1
  | executeQuery queryStr => exact ⟨(pcon'.outcome 0).rows, if_pos hs⟩
  | execute sqlStr => cases hstored
  | escape => cases hstored

/-- Without a charset an attempt that hands over rows succeeds, so nothing is ever lost. -/
theorem rowsKept_executeQuery (queryStr : Bytes) (env : Nat → Option (Connection Conn)) (dbRetryTime : Nat) (queryRet : Rows) :
    RowsKept (.executeQuery queryStr) env dbRetryTime queryRet := by
  intro j rows _ hstored hgoing _
  obtain ⟨pcon, henv, hpcon⟩ := Option.bind_eq_some_iff.mp hstored
  rw [henv] at hgoing
  have hfails : ¬(pcon.connected && !(pcon.outcome 0).threw) = true := hgoing
  rw [Operation.stored, if_neg hfails] at hpcon
  cases hpcon

/-- A call that returns false leaves `*query_ret` as it was exactly when no attempt before the end of it has handed over other rows, the
last ones, and failed then. -/
theorem query_ret_kept_iff (op : Operation) (env : Nat → Option (Connection Conn)) (dbRetryTime : Nat) (isDbUnreachable : Option Bool)
    (queryRet : Rows) (simpleRet : Option Bool) (sqlStr : Bytes) (ret : Bool) (db : Db Conn)
    (h : (op.call env dbRetryTime).run (Db.start isDbUnreachable queryRet simpleRet sqlStr) = (ret, db)) :
    (ret = false → db.queryRet = queryRet) ↔ RowsKept op env dbRetryTime queryRet := by
  obtain ⟨n, hturns, hn, hret⟩ := attempts_of_call op env dbRetryTime rfl rfl h
  have hreached : ∀ j, Reached op env dbRetryTime j ↔ j < n := fun j => (hn j).symm
  unfold RowsKept
  simp only [hreached]
  cases ret with
  | true =>
    -- the last attempt succeeded, so it handed over rows if any did
    obtain ⟨k, pcon, rfl, henv, hs⟩ := hret.mp rfl
    refine iff_of_true nofun fun j rows hj hstored hgoing hlast => ?_
    obtain ⟨pcon', -, hpcon'⟩ := Option.bind_eq_some_iff.mp hstored
    obtain ⟨rows', hrows'⟩ := exists_stored_of_succeeds hpcon' hs
    rcases Nat.lt_succ_iff_lt_or_eq.mp hj with hlt | rfl
    · have hnone := hlast k hlt (Nat.lt_succ_self k)
      rw [henv, Operation.storedBy, Option.bind_some, hrows'] at hnone
      cases hnone
    · rw [henv] at hgoing
      exact absurd hs hgoing
  | false =>
    have hfails : ∀ j < n, ∀ rows, op.storedBy (env j) = some rows → ¬Stops op (env j) := by
      intro j hj rows hstored hstops
      obtain ⟨pcon, henv, -⟩ := Option.bind_eq_some_iff.mp hstored
      have hlast : n = j + 1 := by
        by_contra hne
        exact ((hn (j + 1)).mp (by omega)).2 j (Nat.lt_succ_self j) hstops
      rw [henv] at hstops
      exact absurd (hret.mpr ⟨j, pcon, hlast, henv, hstops⟩) (by decide)
    have hkept : (false = false → db.queryRet = queryRet) ↔ lastWrite (fun i => op.storedBy (env i)) queryRet n = queryRet := by
      rw [hturns.queryRet]
      exact ⟨fun hk => hk rfl, fun hk _ => hk⟩
    rw [hkept, lastWrite_eq_iff]
    exact ⟨fun hk j rows hj hstored _ => hk j rows hj hstored, fun hk j rows hj hstored => hk j rows hj hstored (hfails j hj rows hstored)⟩

/-- A connection that gives the rows of the query and is lost when the charset is set back, and no connection after that. -/
def lostWithRows : Nat → Option (Connection Nat)
  | 0 => some
    { conn := 7, connected := true
      outcome := fun i =>
        { applied := true, threw := i == 3, result := true
          rows := if i = 2 then [[ascii "1"]] else [[ascii "character_set_client", ascii "latin1"]] } }
  | _ => none

/-- The call with a charset fails and leaves the rows. -/
theorem rows_left_by_failure :
    ¬∀ (env : Nat → Option (Connection Nat)) (dbRetryTime : Nat) (queryStr charSetName : Bytes) (queryRet : Rows),
        ((executeQueryCharset env dbRetryTime queryStr charSetName).run (Db.start none queryRet none [])).1 = false →
          ((executeQueryCharset env dbRetryTime queryStr charSetName).run (Db.start none queryRet none [])).2.queryRet = queryRet := by
  intro h
  exact absurd (h lostWithRows 3 (ascii "select 1") (ascii "utf8") [] (by decide +kernel)) (by decide +kernel)

theorem query_ret_kept_iff_lostWithRows :
    (false = false → [[ascii "1"]] = ([] : Rows)) ↔
      RowsKept (.executeQueryCharset [] []) lostWithRows 1 [] :=
  query_ret_kept_iff (.executeQueryCharset [] []) lostWithRows 1 none [] none [] false
    { calls := [.grab (some 7), .statement 7 showCharset true, .statement 7 (setNames []) true, .statement 7 (.caller []) true,
        .statement 7 (setNames (ascii "latin1")) true, .release 7 true],
      grabs := 1, statements := 4, isDbUnreachable := none, queryRet := [[ascii "1"]],
      simpleRet := none, sqlStr := [] } (by rfl)

end DatabaseConnector

end FrontServer
