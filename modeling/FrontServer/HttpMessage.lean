import FrontServer.HttpBuf
import FrontServer.Lib.Lines

/-!
# HTTP messages as they are written

What a sender puts on the wire, in its own terms: lines that end in CR LF, an empty line behind them, and a body. `HttpHeadText` is
a head written field by field and `Message` a message the program is meant to take out of a flow; both carry their well-formedness.
-/

namespace FrontServer

/-- `':'`. -/
def colon : UInt8 := 58

/-- A string with no space at either end. -/
def Trimmed (s : Bytes) : Prop := s.head? ≠ some 32 ∧ s.getLast? ≠ some 32

/-- The lines of a head, each with CR LF behind it, and the empty line. -/
def headBytes (texts : List Bytes) : Bytes := joinLines LF (texts.map (· ++ [CR]) ++ [[CR]])

/-- A head as it is rendered: a start line, and for each field its name, a colon, a space and its value. -/
structure HttpHeadText where
  startLine : Bytes
  fields : List (Bytes × Bytes)
  start_ne : startLine ≠ []
  start_trimmed : Trimmed startLine
  start_line : CR ∉ startLine ∧ LF ∉ startLine
  fields_ne : fields ≠ []
  names_nodup : (fields.map Prod.fst).Nodup
  name_ne : ∀ f ∈ fields, f.1 ≠ []
  name_colon : ∀ f ∈ fields, colon ∉ f.1
  field_trimmed : ∀ f ∈ fields, Trimmed f.1 ∧ Trimmed f.2
  field_line : ∀ f ∈ fields, CR ∉ f.1 ∧ LF ∉ f.1 ∧ CR ∉ f.2 ∧ LF ∉ f.2

/-- The text of a field. -/
def fieldText (f : Bytes × Bytes) : Bytes := f.1 ++ colon :: 32 :: f.2

/-- The bytes of a rendered head. -/
def HttpHeadText.bytes (h : HttpHeadText) : Bytes := headBytes (h.startLine :: h.fields.map fieldText)

/-- The bytes of a message: a start line, raw names and values with a colon between them, and a body. -/
def messageBytes (startLine : Bytes) (fields : List (Bytes × Bytes)) (body : Bytes) : Bytes :=
  headBytes (startLine :: fields.map (fun f => f.1 ++ colon :: f.2)) ++ body

/-- The values of the fields whose name, trimmed, is `Content-Length`. -/
def contentLengths (fields : List (Bytes × Bytes)) : List Bytes :=
  (fields.filter (fun f => Utils.trimStr f.1 == ascii "Content-Length")).map (fun f => Utils.trimStr f.2)

/-- A message the program is meant to take out of a flow: its start line begins with one of the keywords, no line has a colon
other than the one of a field, one field is the length of the body in decimal, and the whole fits in the code's array. -/
structure Message where
  startLine : Bytes
  fields : List (Bytes × Bytes)
  body : Bytes
  length : Bytes
  keyword : ascii "GET" <+: startLine ∨ ascii "POST" <+: startLine ∨ ascii "HTTP" <+: startLine
  start_line : LF ∉ startLine ∧ colon ∉ startLine
  field_line : ∀ f ∈ fields, LF ∉ f.1 ∧ colon ∉ f.1 ∧ LF ∉ f.2 ∧ colon ∉ f.2
  one_length : contentLengths fields = [length]
  length_digits : length ≠ [] ∧ ∀ d ∈ length, isDigit d
  length_value : digitsValue length = body.length
  size_le : (messageBytes startLine fields body).length ≤ HttpBuf.readBufSize

/-- The bytes of the message. -/
def Message.bytes (m : Message) : Bytes := messageBytes m.startLine m.fields m.body

/-- A message that can be complete at the front of a buffer, whatever its start line begins with: no line has a colon other than the
one of a field, one field is the length of the body in decimal, and the whole fits in the code's array. -/
structure CompleteMessage where
  startLine : Bytes
  fields : List (Bytes × Bytes)
  body : Bytes
  length : Bytes
  start_ne : startLine ≠ []
  start_line : LF ∉ startLine ∧ colon ∉ startLine
  field_line : ∀ f ∈ fields, LF ∉ f.1 ∧ colon ∉ f.1 ∧ LF ∉ f.2 ∧ colon ∉ f.2
  one_length : contentLengths fields = [length]
  length_digits : length ≠ [] ∧ ∀ d ∈ length, isDigit d
  length_value : digitsValue length = body.length
  size_le : (messageBytes startLine fields body).length ≤ HttpBuf.readBufSize

/-- The bytes of the message. -/
def CompleteMessage.bytes (m : CompleteMessage) : Bytes := messageBytes m.startLine m.fields m.body

/-- A message that begins with a keyword is one of these. -/
def Message.complete (m : Message) : CompleteMessage where
  startLine := m.startLine
  fields := m.fields
  body := m.body
  length := m.length
  start_ne := by
    have hkeyword := m.keyword
    intro hnil
    rw [hnil] at hkeyword
    exact absurd hkeyword (by decide)
  start_line := m.start_line
  field_line := m.field_line
  one_length := m.one_length
  length_digits := m.length_digits
  length_value := m.length_value
  size_le := m.size_le

/-- A text begins with a message that is complete in it. -/
def BeginsWithMessage (d : Bytes) : Prop := ∃ m : CompleteMessage, m.bytes <+: d

end FrontServer
