import FrontServer.Lib.Json
import FrontServer.DingMsgSender

/-!
# The body that is posted

`SendDingMsg` writes a JSON document with the message between its quotes as it is. It escapes nothing, so the document is the one that
is meant for the messages without a quote, a backslash and a control character, and for no others: an escape in the message makes what
is read shorter than what was written, and a quote ends the string early.
-/

namespace FrontServer

open Json

/-- A message without the newline at its end, if there is one. -/
def withoutNewline (s : Bytes) : Bytes := if s.getLast? = some 10 then s.dropLast else s

namespace DingMsgSender

/-- The content that is meant: the names and the message. -/
def content (hostName processName text : Bytes) : Bytes :=
  ascii "[" ++ hostName ++ ascii "] [" ++ processName ++ ascii "] " ++ text

/-- The document with a content. -/
def document (content : Bytes) : Json :=
  .obj [(ascii "msgtype", .str (ascii "text")), (ascii "text", .obj [(ascii "content", .str content)]),
    (ascii "at", .obj [(ascii "atMobiles", .arr []), (ascii "isAtAll", .bool false)])]

/-! ## The text around the content -/

/-- The body in front of the quote that opens the content. -/
def front : Bytes := ascii "\x7b\"msgtype\": \"text\", \"text\": \x7b\"content\":"

/-- The body behind the quote that closes the content. -/
def back : Bytes := ascii "\x7d, \"at\": \x7b\"atMobiles\": [], \"isAtAll\": false\x7d\x7d"

/-- The tokens in front of the content. -/
def frontTokens : List Token :=
  [.lbrace, .str (ascii "msgtype"), .colon, .str (ascii "text"), .comma, .str (ascii "text"), .colon, .lbrace, .str (ascii "content"),
    .colon]

/-- The tokens behind the content. -/
def backTokens : List Token :=
  [.rbrace, .comma, .str (ascii "at"), .colon, .lbrace, .str (ascii "atMobiles"), .colon, .lbracket, .rbracket, .comma,
    .str (ascii "isAtAll"), .colon, .bool false, .rbrace, .rbrace]

theorem tokens_front (cs : Bytes) : tokens 0 (front ++ cs) = (tokens 0 cs).map fun ts => frontTokens ++ ts := by
  have hfront : front ++ cs = 123 :: 34 :: (ascii "msgtype" ++ 34 :: 58 :: 32 :: 34 :: (ascii "text" ++ 34 :: 44 :: 32 :: 34 ::
      (ascii "text" ++ 34 :: 58 :: 32 :: 123 :: 34 :: (ascii "content" ++ 34 :: 58 :: cs)))) := rfl
  have hmsgtype : Plain (ascii "msgtype") := by decide
  have htext : Plain (ascii "text") := by decide
  have hcontent : Plain (ascii "content") := by decide
  rw [hfront]
  simp only [tokens_lbrace, tokens_colon, tokens_blank, tokens_comma, tokens_quoted hmsgtype, tokens_quoted htext, tokens_quoted hcontent,
    Option.map_map]
  rfl

theorem tokens_back : tokens 0 back = some backTokens := by
  have hback : back = 125 :: 44 :: 32 :: 34 :: (ascii "at" ++ 34 :: 58 :: 32 :: 123 :: 34 :: (ascii "atMobiles" ++ 34 :: 58 :: 32 ::
      91 :: 93 :: 44 :: 32 :: 34 :: (ascii "isAtAll" ++ 34 :: 58 :: 32 :: (ascii "false" ++ [125, 125])))) := rfl
  have hat : Plain (ascii "at") := by decide
  have hmobiles : Plain (ascii "atMobiles") := by decide
  have hall : Plain (ascii "isAtAll") := by decide
  rw [hback]
  simp only [tokens_lbrace, tokens_rbrace, tokens_lbracket, tokens_rbracket, tokens_colon, tokens_blank, tokens_comma, tokens_false,
    tokens_quoted hat, tokens_quoted hmobiles, tokens_quoted hall]
  rfl

/-- With a string for the content and the tokens behind it as they are, the document is the one that is meant. -/
theorem document_back (v : Bytes) : Json.document (frontTokens ++ .str v :: backTokens) = some (document v) := rfl

/-- A document with a string for the content, whatever is behind it: the string is its content, and a member or the end of the object is
behind it. -/
theorem of_document {v : Bytes} {ts : List Token} {j : Json} (h : Json.document (frontTokens ++ .str v :: ts) = some j) :
    (∃ ms ms', j = .obj ((ascii "msgtype", .str (ascii "text")) :: (ascii "text", .obj ((ascii "content", .str v) :: ms)) :: ms')) ∧
      ∃ ts', ts = .comma :: ts' ∨ ts = .rbrace :: ts' := by
  have hfuel : 2 * (frontTokens ++ .str v :: ts).length = (2 * ts.length + 16) + 6 := by
    simp only [frontTokens, List.length_append, List.length_cons, List.length_nil]
    omega
  unfold Json.document at h
  rw [hfuel] at h
  split at h
  · rename_i j' hvalue
    cases h
    obtain ⟨ms, hmembers, rfl⟩ := of_value_object hvalue
    obtain ⟨_, _, ms', htype, rfl, ⟨_, rfl, hrest⟩ | ⟨hend, -⟩⟩ := of_members hmembers
    · cases htype
      obtain ⟨_, _, ms'', htext, rfl, -⟩ := of_members hrest
      obtain ⟨_, hinner, rfl⟩ := of_value_object htext
      obtain ⟨_, ts', ms, hcontent, rfl, hbehind⟩ := of_members hinner
      cases hcontent
      refine ⟨⟨ms, ms'', rfl⟩, ?_⟩
      rcases hbehind with ⟨ts'', hcomma, -⟩ | ⟨hrbrace, -⟩
      · exact ⟨ts'', Or.inl hcomma⟩
      · exact ⟨_, Or.inr hrbrace⟩
    · rw [hend] at htype
      cases htype
  · cases h

/-- Behind each quote of the rest of the body there is a colon, or something that is no token. -/
theorem back_after_quote :
    ∀ k < back.length, back[k]? = some 34 → (back.drop (k + 1)).head? = some 58 ∨ (tokens 0 (back.drop (k + 1))).isNone := by
  decide +kernel

/-- A string that ends at a quote of the rest of the body leaves no document. -/
theorem document_of_late_quote {pre rest : Bytes} (h : back = pre ++ 34 :: rest) (v : Bytes) {ts : List Token}
    (hts : tokens 0 rest = some ts) : Json.document (frontTokens ++ .str v :: ts) = none := by
  have hlt : pre.length < back.length := by
    rw [h, List.length_append, List.length_cons]
    omega
  have hquote : back[pre.length]? = some 34 := by rw [h, List.getElem?_append_right (Nat.le_refl _), Nat.sub_self, List.getElem?_cons_zero]
  have hrest : back.drop (pre.length + 1) = rest := by
    rw [h, List.drop_append, List.drop_eq_nil_of_le (Nat.le_succ _), Nat.add_sub_cancel_left]
    rfl
  have hbehind := back_after_quote pre.length hlt hquote
  rw [hrest] at hbehind
  rcases hbehind with hcolon | hnone
  · cases rest with
    | nil => cases hcolon
    | cons c cs =>
      cases hcolon
      rw [tokens_colon] at hts
      obtain ⟨ts, -, rfl⟩ := Option.map_eq_some_iff.mp hts
      refine Option.eq_none_iff_forall_ne_some.mpr fun j hj => ?_
      obtain ⟨-, ts', hcomma | hrbrace⟩ := of_document hj
      · cases hcomma
      · cases hrbrace
  · rw [hts] at hnone
    cases hnone

/-! ## The body -/

/-- The body with a text between the quotes of the content. -/
def body (text : Bytes) : Bytes := front ++ 34 :: (text ++ 34 :: back)

/-- A plain text is read back. -/
theorem parse_body {text : Bytes} (h : Plain text) : parse (body text) = some (document text) := by
  rw [parse, body, tokens_front, tokens_quoted h, tokens_back]
  exact document_back text

/-- Only a plain text is read back. -/
theorem plain_of_parse_body {text : Bytes} (h : parse (body text) = some (document text)) : Plain text := by
  obtain ⟨ts, hts, hdocument⟩ := Option.bind_eq_some_iff.mp h
  rw [body, tokens_front] at hts
  obtain ⟨ts', hquote, rfl⟩ := Option.map_eq_some_iff.mp hts
  obtain ⟨v, raw, rest, ts, hsplit, hrest, rfl, hcases⟩ := of_tokens_quote hquote
  have hv : v = text := by
    obtain ⟨⟨ms, ms', hj⟩, -⟩ := of_document hdocument
    simp only [document, obj.injEq, List.cons.injEq, Prod.mk.injEq, str.injEq] at hj
    exact hj.2.1.2.1.2.symm
  subst hv
  rcases List.append_eq_append_iff.mp hsplit with ⟨behind, hraw, hback⟩ | ⟨left, htext, -⟩
  · cases behind with
    | nil =>
      rw [List.append_nil] at hraw
      subst hraw
      exact hcases.elim (fun hlt => absurd hlt (Nat.lt_irrefl _)) And.right
    | cons c pre =>
      -- The string ends at a quote of the rest of the body.
      obtain ⟨-, hpre⟩ := List.cons.inj hback
      rw [document_of_late_quote hpre v hrest] at hdocument
      cases hdocument
  · have hle : raw.length ≤ v.length := by
      rw [htext, List.length_append]
      exact Nat.le_add_right _ _
    rcases hcases with hlt | ⟨rfl, hplain⟩
    · exact absurd hlt (Nat.not_lt.mpr hle)
    · exact hplain

/-! ## The message -/

theorem sendDingMsg_eq {hostName processName : Bytes} {msg : DingMsg} (htoken : msg.token ≠ []) :
    sendDingMsg hostName processName msg =
      some (ascii "https://oapi.dingtalk.com/robot/send?access_token=" ++ msg.token,
        body (content hostName processName (withoutNewline msg.msg))) := by
  have hstr : (if msg.msg ≠ [] ∧ msg.msg.getLast? = some 10 then msg.msg.take (msg.msg.length - 1) else msg.msg) =
      withoutNewline msg.msg := by
    rw [withoutNewline, List.dropLast_eq_take]
    by_cases hlast : msg.msg.getLast? = some 10
    · have hne : msg.msg ≠ [] := by
        rintro hnil
        rw [hnil] at hlast
        cases hlast
      rw [if_pos ⟨hne, hlast⟩, if_pos hlast]
    · rw [if_neg fun h => hlast h.2, if_neg hlast]
  have hopen : ascii "\x7b\"msgtype\": \"text\", \"text\": \x7b\"content\":\"" = front ++ [34] := by decide +kernel
  have hclose : ascii "\"\x7d, \"at\": \x7b\"atMobiles\": [], \"isAtAll\": false\x7d\x7d" = 34 :: back := by decide +kernel
  rw [sendDingMsg]
  dsimp only
  rw [if_neg htoken, hstr, hopen, hclose, body, content]
  simp only [List.append_assoc, List.cons_append, List.nil_append]

/-- A text is plain if and only if its parts are. -/
theorem plain_append {s t : Bytes} : Plain (s ++ t) ↔ Plain s ∧ Plain t := List.forall_mem_append

/-- With plain names the content is as plain as the message. -/
theorem plain_content {hostName processName text : Bytes} (hhost : Plain hostName) (hprocess : Plain processName) :
    Plain (content hostName processName text) ↔ Plain text := by
  have hopen : Plain (ascii "[") := by decide
  have hbetween : Plain (ascii "] [") := by decide
  have hclose : Plain (ascii "] ") := by decide
  have hnames : Plain (ascii "[" ++ hostName ++ ascii "] [" ++ processName ++ ascii "] ") :=
    plain_append.mpr ⟨plain_append.mpr ⟨plain_append.mpr ⟨plain_append.mpr ⟨hopen, hhost⟩, hbetween⟩, hprocess⟩, hclose⟩
  rw [content, plain_append]
  exact and_iff_right hnames

theorem validUtf8_withoutNewline {s : Bytes} (h : ValidUtf8 s) : ValidUtf8 (withoutNewline s) := by
  unfold withoutNewline
  by_cases hlast : s.getLast? = some 10
  · rw [if_pos hlast]
    exact h.dropLast hlast (by decide)
  · rwa [if_neg hlast]

theorem validUtf8_content {hostName processName text : Bytes} (hhost : ValidUtf8 hostName) (hprocess : ValidUtf8 processName)
    (htext : ValidUtf8 text) : ValidUtf8 (content hostName processName text) := by
  have hopen : ValidUtf8 (ascii "[") := validUtf8_of_ascii rfl
  have hbetween : ValidUtf8 (ascii "] [") := validUtf8_of_ascii rfl
  have hclose : ValidUtf8 (ascii "] ") := validUtf8_of_ascii rfl
  exact ((((hopen.append hhost).append hbetween).append hprocess).append hclose).append htext

theorem validUtf8_body {text : Bytes} (h : ValidUtf8 text) : ValidUtf8 (body text) := by
  have hfront : ValidUtf8 (front ++ [34]) := validUtf8_of_ascii rfl
  have hback : ValidUtf8 (34 :: back) := validUtf8_of_ascii rfl
  have hbody : body text = front ++ [34] ++ text ++ 34 :: back := by
    simp only [body, List.append_assoc, List.cons_append, List.nil_append]
  rw [hbody]
  exact (hfront.append h).append hback

/-- The posted body is a JSON document with the names and the message as its content, and with the other fields as they are meant,
exactly when the message without the newline at its end has no quote, no backslash and no control character. -/
theorem posted_body_iff {hostName processName : Bytes} {msg : DingMsg} (hhost : Plain hostName) (hprocess : Plain processName)
    (htoken : msg.token ≠ []) (hmsg : ValidUtf8 msg.msg) :
    (∃ url posted, sendDingMsg hostName processName msg = some (url, posted) ∧
        parse posted = some (document (content hostName processName (withoutNewline msg.msg))) ∧
        (ValidUtf8 hostName → ValidUtf8 processName → ValidUtf8 posted)) ↔
      Plain (withoutNewline msg.msg) := by
  constructor
  · rintro ⟨url, posted, hsend, hparse, -⟩
    rw [sendDingMsg_eq htoken] at hsend
    cases hsend
    exact (plain_content hhost hprocess).mp (plain_of_parse_body hparse)
  · intro hplain
    refine ⟨_, _, sendDingMsg_eq htoken, parse_body ((plain_content hhost hprocess).mpr hplain), fun hhost' hprocess' => ?_⟩
    exact validUtf8_body (validUtf8_content hhost' hprocess' (validUtf8_withoutNewline hmsg))

/-- The message of the unit test, which has a newline inside. -/
def unitTestMsg : DingMsg := { token := [49], msg := "测试\n1234567890".toList.flatMap String.utf8EncodeChar }

/-- The message of the unit test makes no document that is meant. -/
theorem posted_body_newline :
    ¬∀ (hostName processName : Bytes) (msg : DingMsg), Plain hostName → Plain processName → msg.token ≠ [] → ValidUtf8 msg.msg →
        ∃ url posted, sendDingMsg hostName processName msg = some (url, posted) ∧
          parse posted = some (document (content hostName processName (withoutNewline msg.msg))) ∧
          (ValidUtf8 hostName → ValidUtf8 processName → ValidUtf8 posted) := by
  intro h
  have hhost : Plain (ascii "host") := by decide
  have hprocess : Plain (ascii "process") := by decide
  obtain ⟨url, posted, hsend, hparse, -⟩ := h (ascii "host") (ascii "process") unitTestMsg hhost hprocess (by decide) ⟨_, rfl⟩
  rw [sendDingMsg_eq (by decide)] at hsend
  cases hsend
  exact absurd ((plain_content hhost hprocess).mp (plain_of_parse_body hparse)) (by decide +kernel)

theorem posted_body_iff_newline_at_end :
    (∃ url posted, sendDingMsg (ascii "host") (ascii "process") ⟨[49], ascii "ok\n"⟩ = some (url, posted) ∧
        parse posted = some (document (content (ascii "host") (ascii "process") (withoutNewline (ascii "ok\n")))) ∧
        (ValidUtf8 (ascii "host") → ValidUtf8 (ascii "process") → ValidUtf8 posted)) ↔
      Plain (withoutNewline (ascii "ok\n")) :=
  posted_body_iff (by decide) (by decide) (by decide) (validUtf8_of_ascii rfl)

end DingMsgSender

end FrontServer
