import FrontServer.Theorems.Retries

/-!
# How often the server applies the caller's statement

The functions decide by what the client's calls answer whether they try again. The server may have applied the statement of an attempt
that failed, and then applies it once more in a later one.
-/

namespace FrontServer

variable {Conn : Type}

namespace DatabaseConnector

/-- The server applies the caller's statement. -/
def isApplied : DbCall Conn → Bool
  | .statement _ (.caller _) applied => applied
  | _ => false

/-- How often the server applies the caller's statement. -/
def applications (calls : List (DbCall Conn)) : Nat := calls.countP isApplied

/-- The caller's statement is sent in an attempt, and the server applies it. -/
def Operation.applies : Operation → Option (Connection Conn) → Bool
  | _, none => false
  | .executeQueryCharset _ _, some pcon =>
    pcon.connected && !(pcon.outcome 0).threw && (originalCharset (pcon.outcome 0).rows []).toBool &&
      !(pcon.outcome 1).threw && (pcon.outcome 2).applied
  | .executeQuery _, some pcon => pcon.connected && (pcon.outcome 0).applied
  | .execute _, some pcon => pcon.connected && (pcon.outcome 0).applied
  | .escape, some _ => false

/-- Statements about the charset are not the caller's, at whatever place they are sent. -/
theorem countP_charset (pcon : Connection Conn) {stmts : List Statement} (h : ∀ stmt ∈ stmts, ∃ text, stmt = .charset text) (k : Nat) :
    ((stmts.zipIdx k).map (fun st => DbCall.statement pcon.conn st.1 (pcon.outcome st.2).applied)).countP isApplied = 0 := by
  rw [List.countP_eq_zero]
  intro c hc
  obtain ⟨⟨stmt, i⟩, hmem, rfl⟩ := List.mem_map.mp hc
  obtain ⟨text, rfl⟩ := h stmt (List.fst_mem_of_mem_zipIdx hmem)
  exact Bool.false_ne_true

/-- With the caller's statement among them, it alone counts. -/
theorem countP_caller (pcon : Connection Conn) {before after : List Statement} (hbefore : ∀ stmt ∈ before, ∃ text, stmt = .charset text)
    (hafter : ∀ stmt ∈ after, ∃ text, stmt = .charset text) (text : Bytes) :
    (statementCalls pcon (before ++ .caller text :: after)).countP isApplied = (pcon.outcome before.length).applied.toNat := by
  rw [statementCalls, List.zipIdx_append, List.map_append, List.countP_append, countP_charset pcon hbefore, List.zipIdx_cons,
    List.map_cons, List.countP_cons, countP_charset pcon hafter, Nat.zero_add, Nat.zero_add, Nat.zero_add]
  cases (pcon.outcome before.length).applied <;> rfl

/-- In one attempt the server applies the statement at most once. -/
theorem applications_turn (op : Operation) (got : Option (Connection Conn)) :
    applications (op.turn got) = (op.applies got).toNat := by
  cases got with
  | none => cases op <;> rfl
  | some pcon =>
    have hturn : applications (op.turn (some pcon)) = (statementCalls pcon (op.sent pcon)).countP isApplied := by
      simp [applications, Operation.turn, isApplied]
    rw [hturn]
    have hnone : ∀ stmt ∈ ([] : List Statement), ∃ text, stmt = .charset text := by simp
    by_cases hc : pcon.connected
    · cases op with
      | executeQueryCharset queryStr charSetName =>
        have hshow : ∀ stmt ∈ [showCharset], ∃ text, stmt = .charset text := by simp [showCharset]
        have hset : ∀ charset, ∀ stmt ∈ [setNames charset], ∃ text, stmt = .charset text := by simp [setNames]
        have hboth : ∀ stmt ∈ [showCharset, setNames charSetName], ∃ text, stmt = .charset text := by simp [showCharset, setNames]
        by_cases h₀ : (pcon.outcome 0).threw
        · simp only [Operation.sent, Operation.applies, hc, h₀]
          exact countP_charset pcon hshow 0
        · cases hrows : originalCharset (pcon.outcome 0).rows [] with
          | error e =>
            simp only [Operation.sent, Operation.applies, hc, h₀, hrows]
            exact countP_charset pcon hshow 0
          | ok original =>
            by_cases h₁ : (pcon.outcome 1).threw
            · simp only [Operation.sent, Operation.applies, hc, h₀, hrows, h₁]
              exact countP_charset pcon hboth 0
            · by_cases h₂ : (pcon.outcome 2).threw
              · simp only [Operation.sent, Operation.applies, hc, h₀, hrows, h₁, h₂]
                exact countP_caller pcon hboth hnone queryStr
              · simp only [Operation.sent, Operation.applies, hc, h₀, hrows, h₁, h₂]
                exact countP_caller pcon hboth (hset original) queryStr
      | executeQuery queryStr =>
        simp only [Operation.sent, Operation.applies, hc]
        exact countP_caller pcon hnone hnone queryStr
      | execute sqlStr =>
        simp only [Operation.sent, Operation.applies, hc]
        exact countP_caller pcon hnone hnone sqlStr
      | escape => rfl
    · cases op <;> simp [Operation.sent, Operation.applies, hc, statementCalls]

/-- Over the attempts of a call, the applications are the attempts that apply the statement. -/
theorem applications_flatMap (op : Operation) (env : Nat → Option (Connection Conn)) (n : Nat) :
    applications ((List.range n).flatMap (fun i => op.turn (env i))) = Nat.count (fun i => op.applies (env i) = true) n := by
  induction n with
  | zero => rfl
  | succ n ih =>
    have hturn := applications_turn op (env n)
    rw [applications] at ih hturn ⊢
    rw [List.range_succ, List.flatMap_append, List.countP_append, ih, List.flatMap_singleton, hturn, Nat.count_succ]
    cases op.applies (env n) <;> rfl

/-- A call makes the server apply the caller's statement at most once for each attempt, and at most once in all exactly when there are
no two attempts that both apply it, with no attempt in front of the second that succeeded or got no connection. -/
theorem applied_at_most_once (op : Operation) (env : Nat → Option (Connection Conn)) (dbRetryTime : Nat)
    (isDbUnreachable : Option Bool) (queryRet : Rows) (simpleRet : Option Bool) (sqlStr : Bytes) (ret : Bool) (db : Db Conn)
    (h : (op.call env dbRetryTime).run (Db.start isDbUnreachable queryRet simpleRet sqlStr) = (ret, db)) :
    applications db.calls ≤ dbRetryTime ∧
      (applications db.calls ≤ 1 ↔ ¬∃ i j, i < j ∧ j < dbRetryTime ∧ (∀ k < j, ¬Stops op (env k)) ∧
        op.applies (env i) = true ∧ op.applies (env j) = true) := by
  obtain ⟨n, hturns, hn, -⟩ := attempts_of_call op env dbRetryTime rfl rfl h
  rw [hturns.calls, applications_flatMap]
  constructor
  · have hle : n ≤ dbRetryTime := by
      by_contra hgt
      exact absurd ((hn dbRetryTime).mp (by omega)).1 (Nat.lt_irrefl _)
    exact (Nat.count_le _).trans hle
  · rw [Nat.count_eq_card_filter_range, Finset.card_le_one]
    constructor
    · rintro hone ⟨i, j, hij, hj, hgoing, hi, happlies⟩
      have hjn := (hn j).mpr ⟨hj, hgoing⟩
      have heq := hone i (by simp [hi]; omega) j (by simp [happlies]; omega)
      omega
    · intro hno i hi j hj
      simp only [Finset.mem_filter, Finset.mem_range] at hi hj
      rcases Nat.lt_trichotomy i j with hlt | heq | hlt
      · obtain ⟨hjr, hgoing⟩ := (hn j).mp hj.1
        exact absurd ⟨i, j, hlt, hjr, hgoing, hi.2, hj.2⟩ hno
      · exact heq
      · obtain ⟨hir, hgoing⟩ := (hn i).mp hi.1
        exact absurd ⟨j, i, hlt, hir, hgoing, hj.2, hi.2⟩ hno

/-- A connection that is lost when the charset is set back, after the caller's statement, and a second one on which all goes well. -/
def lostRestore : Nat → Option (Connection Nat)
  | 0 => some
    { conn := 7, connected := true, outcome := fun i => { applied := true, threw := i == 3, rows := [], result := true } }
  | 1 => some { conn := 8, connected := true, outcome := fun _ => { applied := true, threw := false, rows := [], result := true } }
  | _ => none

/-- `Execute` and `ExecuteQuery` with a charset can make the server apply the caller's statement twice. -/
theorem applied_twice :
    (¬∀ (env : Nat → Option (Connection Nat)) (sqlStr : Bytes),
        applications ((execute env 3 sqlStr).run (Db.start none [] none [])).2.calls ≤ 1) ∧
      ¬∀ (env : Nat → Option (Connection Nat)) (queryStr charSetName : Bytes),
        applications ((executeQueryCharset env 3 queryStr charSetName).run (Db.start none [] none [])).2.calls ≤ 1 := by
  constructor
  · intro h
    exact absurd (h lostReply (ascii "insert into t values (1)")) (by decide +kernel)
  · intro h
    exact absurd (h lostRestore (ascii "insert into t values (1)") (ascii "utf8")) (by decide +kernel)

theorem applied_at_most_once_lostReply :
    applications (lostReplyCalls []) ≤ 3 ∧
      (applications (lostReplyCalls []) ≤ 1 ↔ ¬∃ i j, i < j ∧ j < 3 ∧ (∀ k < j, ¬Stops (.execute []) (lostReply k)) ∧
        (Operation.execute []).applies (lostReply i) = true ∧ (Operation.execute []).applies (lostReply j) = true) :=
  applied_at_most_once (.execute []) lostReply 3 none [] none [] true
    { calls := lostReplyCalls [], grabs := 2, statements := 1, isDbUnreachable := none, queryRet := [], simpleRet := none,
      sqlStr := [] } (by rfl)

end DatabaseConnector

end FrontServer
