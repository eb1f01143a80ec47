import FrontServer.Lib.SqlLiteral
import FrontServer.Theorems.Retries

/-!
# What `Escape` makes of a text

`Escape` builds a query object on a connection that it grabbed and gives the connection back, and asks nothing of either. The text stays
what it was, so it is safe between quotes exactly when it was before.
-/

namespace FrontServer

variable {Conn : Type}

namespace DatabaseConnector

/-- However many attempts it takes, `Escape` leaves the text as it was. -/
theorem sqlStr_escape (env : Nat → Option (Connection Conn)) (dbRetryTime : Nat) (isDbUnreachable : Option Bool) (queryRet : Rows)
    (simpleRet : Option Bool) (s : Bytes) {ret : Bool} {db : Db Conn}
    (h : (escape env dbRetryTime).run (Db.start isDbUnreachable queryRet simpleRet s) = (ret, db)) : db.sqlStr = s := by
  obtain ⟨n, hturns, -⟩ := attempts_of_call .escape env dbRetryTime rfl rfl h
  exact hturns.sqlStr

/-- What `Escape` leaves on success is, between quotes, one literal whose value is the text, exactly when the text has no quote and no
backslash but in front of `%` and `_`. -/
theorem escape_sound_iff (env : Nat → Option (Connection Conn)) (dbRetryTime : Nat) (isDbUnreachable : Option Bool) (queryRet : Rows)
    (simpleRet : Option Bool) (s : Bytes) (db : Db Conn)
    (h : (escape env dbRetryTime).run (Db.start isDbUnreachable queryRet simpleRet s) = (true, db)) :
    literal (quote :: db.sqlStr ++ [quote]) = some (s, []) ↔ Verbatim s := by
  rw [sqlStr_escape env dbRetryTime isDbUnreachable queryRet simpleRet s h]
  exact literal_eq_some_iff s

/-- A text with a quote in it ends the literal early, and the rest of it is read as SQL. -/
theorem quote_not_escaped :
    ¬∀ (env : Nat → Option (Connection Nat)) (dbRetryTime : Nat) (s : Bytes),
        ((escape env dbRetryTime).run (Db.start none [] none s)).1 = true →
          literal (quote :: ((escape env dbRetryTime).run (Db.start none [] none s)).2.sqlStr ++ [quote]) = some (s, []) := by
  intro h
  exact absurd (h lostReply 3 (ascii "' or 1=1 -- ") (by decide +kernel)) (by decide +kernel)

theorem escape_sound_iff_lostReply :
    literal (quote :: ascii "it's" ++ [quote]) = some (ascii "it's", []) ↔ Verbatim (ascii "it's") :=
  escape_sound_iff lostReply 3 none [] none (ascii "it's")
    { calls := [.grab (some 7), .release 7 false], grabs := 1, statements := 0, isDbUnreachable := none, queryRet := [],
      simpleRet := none, sqlStr := ascii "it's" } (by rfl)

end DatabaseConnector

end FrontServer
