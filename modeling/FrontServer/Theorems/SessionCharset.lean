import FrontServer.Theorems.Retries

/-!
# The charset of a session that is given back

`ExecuteQuery` with a charset asks for `character_set_client`, sets all three charset variables of the session for its query, and sets
all three to what it was told for the client. So a connection that is given back as reusable has the client charset it had, and that
one for its results, whatever those had (`charset_restored_iff`).
-/

namespace FrontServer

variable {Conn : Type}

/-- The charset variables of a session: `character_set_client`, `character_set_connection` and `character_set_results`. -/
structure CharsetSession where
  client : Bytes
  connection : Bytes
  results : Bytes
  deriving DecidableEq

namespace CharsetSession

/-- The charset that a statement of the form `SET NAMES '...'` names. -/
def namesOf (text : Bytes) : Option Bytes :=
  if ascii "SET NAMES '" <+: text then some (text.drop (ascii "SET NAMES '").length).dropLast else none

/-- What a statement that the server applies does to the variables: `SET NAMES` sets all three, and the caller's statement none. -/
def apply (sess : CharsetSession) : Statement → CharsetSession
  | .caller _ => sess
  | .charset text =>
    match namesOf text with
    | some charset => { client := charset, connection := charset, results := charset }
    | none => sess

/-- What a call on a connection does to them. -/
def afterCall (sess : CharsetSession) : DbCall Conn → CharsetSession
  | .statement _ stmt applied => if applied then sess.apply stmt else sess
  | _ => sess

end CharsetSession

namespace DatabaseConnector

open CharsetSession

/-- A connection answers as a server does whose session has these variables: `show variables` gives the charset of the client, and a
statement whose call does not throw was applied. -/
structure Answers (pcon : Connection Conn) (sess : CharsetSession) : Prop where
  shown : (pcon.outcome 0).threw = false → (pcon.outcome 0).rows = [[ascii "character_set_client", sess.client]]
  applied : ∀ i, (pcon.outcome i).threw = false → (pcon.outcome i).applied = true

/-- The sessions of the connections that are given back as reusable, each as it was when the connection was grabbed and as it is then:
the number of `grab`s so far, and the session of the connection in use, as it was and as it is. -/
def givenBack (sess : Nat → CharsetSession) : Nat → CharsetSession × CharsetSession → List (DbCall Conn) →
    List (CharsetSession × CharsetSession)
  | _, _, [] => []
  | i, _, .grab _ :: calls => givenBack sess (i + 1) (sess i, sess i) calls
  | i, (before, now), .statement pc stmt applied :: calls =>
    givenBack sess i (before, now.afterCall (.statement pc stmt applied)) calls
  | i, (before, now), .release _ isBadCon :: calls =>
    if isBadCon then givenBack sess i (before, now) calls else (before, now) :: givenBack sess i (before, now) calls

/-! ## What is given back by a call -/

/-- Statements change the session in use. -/
theorem givenBack_statements (sess : Nat → CharsetSession) (i : Nat) (before now : CharsetSession) {stmts : List (DbCall Conn)}
    (h : ∀ c ∈ stmts, isStatement c = true) (calls : List (DbCall Conn)) :
    givenBack sess i (before, now) (stmts ++ calls) = givenBack sess i (before, stmts.foldl afterCall now) calls := by
  induction stmts generalizing now with
  | nil => rfl
  | cons c stmts ih =>
    obtain ⟨hc, hstmts⟩ := List.forall_mem_cons.mp h
    cases c with
    | grab pc => cases hc
    | release pc isBadCon => cases hc
    | statement pc stmt applied => exact ih _ hstmts

/-- The session at the end of an attempt. -/
def sessionAfter (op : Operation) (pcon : Connection Conn) (sess : CharsetSession) : CharsetSession :=
  (statementCalls pcon (op.sent pcon)).foldl afterCall sess

/-- A turn gives back the connection it got when all of it succeeded. -/
theorem mem_givenBack_turn {op : Operation} {got : Option (Connection Conn)} {sess : Nat → CharsetSession} {i : Nat}
    {cur p : CharsetSession × CharsetSession} {calls : List (DbCall Conn)} (hp : p ∈ givenBack sess i cur (op.turn got ++ calls)) :
    (∃ pcon, got = some pcon ∧ op.succeeds pcon = true ∧ p = (sess i, sessionAfter op pcon (sess i))) ∨
      ∃ cur', p ∈ givenBack sess (i + 1) cur' calls := by
  cases got with
  | none => exact Or.inr ⟨_, hp⟩
  | some pcon =>
    have hstmts : ∀ c ∈ statementCalls pcon (op.sent pcon), isStatement c = true := by
      intro c hc
      obtain ⟨st, -, rfl⟩ := List.mem_map.mp hc
      rfl
    rw [Operation.turn, List.cons_append, List.cons_append, List.append_assoc, givenBack, givenBack_statements _ _ _ _ hstmts,
      List.cons_append, List.nil_append, givenBack] at hp
    by_cases hs : op.succeeds pcon = true
    · rw [if_neg (by simp [hs])] at hp
      rcases List.mem_cons.mp hp with rfl | hp
      · exact Or.inl ⟨pcon, rfl, hs, rfl⟩
      · exact Or.inr ⟨_, hp⟩
    · rw [if_pos (by simp [hs])] at hp
      exact Or.inr ⟨_, hp⟩

/-- A call gives back connections of its turns that succeeded. -/
theorem mem_givenBack {op : Operation} {env : Nat → Option (Connection Conn)} {sess : Nat → CharsetSession}
    {p : CharsetSession × CharsetSession} (n i : Nat) (cur : CharsetSession × CharsetSession)
    (hp : p ∈ givenBack sess i cur ((List.range' i n).flatMap (fun j => op.turn (env j)))) :
    ∃ j pcon, env j = some pcon ∧ op.succeeds pcon = true ∧ p = (sess j, sessionAfter op pcon (sess j)) := by
  induction n generalizing i cur with
  | zero => cases hp
  | succ n ih =>
    rw [List.range'_succ, List.flatMap_cons] at hp
    rcases mem_givenBack_turn hp with ⟨pcon, henv, hs, hpair⟩ | ⟨cur', hp'⟩
    · exact ⟨i, pcon, henv, hs, hpair⟩
    · exact ih (i + 1) cur' hp'

/-! ## What the charset is set back to -/

theorem namesOf_setNames (charset : Bytes) : namesOf (ascii "SET NAMES '" ++ charset ++ ascii "'") = some charset := by
  unfold namesOf
  rw [List.append_assoc, if_pos (List.prefix_append _ _), List.drop_left]
  congr 1
  exact List.dropLast_concat

theorem apply_setNames (sess : CharsetSession) (charset : Bytes) : sess.apply (setNames charset) = ⟨charset, charset, charset⟩ := by
  unfold setNames CharsetSession.apply
  dsimp only
  rw [namesOf_setNames]

/-- An attempt that succeeds leaves all three variables at the charset of the client, up to its first zero byte. -/
theorem sessionAfter_of_succeeds {queryStr charSetName : Bytes} {pcon : Connection Conn} {sess : CharsetSession}
    (hans : Answers pcon sess) (hs : (Operation.executeQueryCharset queryStr charSetName).succeeds pcon = true) :
    sessionAfter (.executeQueryCharset queryStr charSetName) pcon sess = ⟨cStr sess.client, cStr sess.client, cStr sess.client⟩ := by
  simp only [Operation.succeeds, Bool.and_eq_true, Bool.not_eq_true'] at hs
  obtain ⟨⟨⟨⟨⟨hc, h₀⟩, -⟩, h₁⟩, h₂⟩, h₃⟩ := hs
  have hrows : originalCharset (pcon.outcome 0).rows [] = .ok (cStr sess.client) := by
    rw [hans.shown h₀]
    rfl
  have hsent : (Operation.executeQueryCharset queryStr charSetName).sent pcon =
      [showCharset, setNames charSetName, .caller queryStr, setNames (cStr sess.client)] := by
    simp [Operation.sent, hc, h₀, hrows, h₁, h₂]
  rw [sessionAfter, hsent]
  simp [statementCalls, afterCall, hans.applied 0 h₀, hans.applied 1 h₁, hans.applied 2 h₂, hans.applied 3 h₃, apply_setNames]

/-- A connection that `ExecuteQuery` with a charset gives back as reusable has the charsets for client and results it was grabbed with
exactly when those were the same, with no zero byte in it. -/
theorem charset_restored_iff (env : Nat → Option (Connection Conn)) (sess : Nat → CharsetSession)
    (hans : ∀ i pcon, env i = some pcon → Answers pcon (sess i)) (dbRetryTime : Nat) (queryStr charSetName : Bytes)
    (isDbUnreachable : Option Bool) (queryRet : Rows) (simpleRet : Option Bool) (sqlStr : Bytes) (ret : Bool) (db : Db Conn)
    (h : (executeQueryCharset env dbRetryTime queryStr charSetName).run (Db.start isDbUnreachable queryRet simpleRet sqlStr) =
      (ret, db)) (cur before after : CharsetSession) (hp : (before, after) ∈ givenBack sess 0 (cur, cur) db.calls) :
    (after.client = before.client ∧ after.results = before.results) ↔
      (before.results = before.client ∧ cStr before.client = before.client) := by
  obtain ⟨n, hturns, -⟩ := attempts_of_call (.executeQueryCharset queryStr charSetName) env dbRetryTime rfl rfl h
  rw [hturns.calls, List.range_eq_range'] at hp
  obtain ⟨j, pcon, henv, hs, hpair⟩ := mem_givenBack n 0 (cur, cur) hp
  rw [sessionAfter_of_succeeds (hans j pcon henv) hs] at hpair
  cases hpair
  dsimp only
  constructor
  · rintro ⟨hclient, hresults⟩
    exact ⟨hresults.symm.trans hclient, hclient⟩
  · rintro ⟨hsame, hclient⟩
    exact ⟨hclient, hclient.trans hsame.symm⟩

/-- A session whose results come in another charset than its statements are sent in. -/
def splitSession : CharsetSession := ⟨ascii "utf8", ascii "utf8", ascii "latin1"⟩

/-- A connection with that session on which all goes well, time and again. -/
def splitConnection : Nat → Option (Connection Nat) := fun _ => some
  { conn := 7, connected := true
    outcome := fun _ => { applied := true, threw := false, rows := [[ascii "character_set_client", ascii "utf8"]], result := true } }

theorem splitConnection_answers : ∀ i pcon, splitConnection i = some pcon → Answers pcon splitSession := by
  rintro i pcon h
  cases h
  exact ⟨fun _ => rfl, fun _ _ => rfl⟩

/-- The connection comes back with the client's charset for its results. -/
theorem results_not_restored :
    ¬∀ (env : Nat → Option (Connection Nat)) (sess : Nat → CharsetSession),
      (∀ i pcon, env i = some pcon → Answers pcon (sess i)) → ∀ (dbRetryTime : Nat) (queryStr charSetName : Bytes),
        ∀ p ∈ givenBack sess 0 (sess 0, sess 0)
          ((executeQueryCharset env dbRetryTime queryStr charSetName).run (Db.start none [] none [])).2.calls,
            p.2.client = p.1.client ∧ p.2.results = p.1.results := by
  intro h
  have hpair := h splitConnection (fun _ => splitSession) splitConnection_answers 3 (ascii "select 1") (ascii "gbk")
    (splitSession, ⟨ascii "utf8", ascii "utf8", ascii "utf8"⟩) (by decide +kernel)
  exact absurd hpair.2 (by decide)

theorem charset_restored_iff_splitConnection :
    ((ascii "utf8" = ascii "utf8" ∧ ascii "utf8" = ascii "latin1") ↔
      (ascii "latin1" = ascii "utf8" ∧ cStr (ascii "utf8") = ascii "utf8")) :=
  charset_restored_iff splitConnection (fun _ => splitSession) splitConnection_answers 1 [] [] none [] none [] true
    ((executeQueryCharset splitConnection 1 [] []).run (Db.start none [] none [])).2 (by rfl) splitSession splitSession
    ⟨ascii "utf8", ascii "utf8", ascii "utf8"⟩ (by decide +kernel)

end DatabaseConnector

end FrontServer
