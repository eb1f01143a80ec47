import FrontServer.Lib.CMemory

/-!
# JSON texts

The grammar of a JSON text, over its bytes: `tokens` cuts a text into tokens, and `parse` reads the tokens. A string is read by
`scanString`, with its escapes decoded; a surrogate without its other half has no value and is refused. What the bytes of a string are
in UTF-8 is not looked at.

A text between quotes that needs no escape is `Plain`. It is read back as it is (`scanString_plain`), and any other text that is read
to the end has a value shorter than itself (`scanString_cases`).
-/

namespace FrontServer

/-- A JSON value. The members of an object are in their order, and a number is its text. -/
inductive Json where
  | null
  | bool (b : Bool)
  | num (text : Bytes)
  | str (s : Bytes)
  | arr (items : List Json)
  | obj (members : List (Bytes × Json))

namespace Json

/-! ## Strings -/

/-- A character that stands for itself in a string: no quote, no backslash and no control character. -/
def isPlain (c : UInt8) : Bool := c != 34 && c != 92 && 32 ≤ c

/-- A text of such characters. -/
def Plain (s : Bytes) : Prop := ∀ c ∈ s, isPlain c = true

instance (s : Bytes) : Decidable (Plain s) := List.decidableBAll _ _

/-- The value of a hexadecimal digit. -/
def hexValue (c : UInt8) : Option Nat :=
  if isDigit c then some (c.toNat - 48)
  else if 97 ≤ c && c ≤ 102 then some (c.toNat - 87)
  else if 65 ≤ c && c ≤ 70 then some (c.toNat - 55)
  else none

/-- The value of four. -/
def hex4 (a b c d : UInt8) : Option Nat := do
  let a ← hexValue a
  let b ← hexValue b
  let c ← hexValue c
  let d ← hexValue d
  return 4096 * a + 256 * b + 16 * c + d

/-- The first and the second half of a surrogate pair. -/
def isHigh (n : Nat) : Bool := 0xD800 ≤ n && n < 0xDC00

/-- The second half of a surrogate pair. -/
def isLow (n : Nat) : Bool := 0xDC00 ≤ n && n < 0xE000

/-- The character behind a backslash that makes an escape with it alone. -/
def simpleEscape (c : UInt8) : Option UInt8 :=
  if c = 34 || c = 92 || c = 47 then some c
  else if c = 98 then some 8
  else if c = 102 then some 12
  else if c = 110 then some 10
  else if c = 114 then some 13
  else if c = 116 then some 9
  else none

/-- The escape behind a backslash: what it stands for, and how many characters it has. -/
def unescape : Bytes → Option (Bytes × Nat)
  | 117 :: a :: b :: c :: d :: rest => do
    let n ← hex4 a b c d
    if isHigh n then
      match rest with
      | 92 :: 117 :: a :: b :: c :: d :: _ => do
        let m ← hex4 a b c d
        if isLow m then some (String.utf8EncodeChar (Char.ofNat (0x10000 + 0x400 * (n - 0xD800) + (m - 0xDC00))), 11) else none
      | _ => none
    else if isLow n then none
    else some (String.utf8EncodeChar (Char.ofNat n), 5)
  | c :: _ => (simpleEscape c).map fun b => ([b], 1)
  | [] => none

/-- Read a string up to its closing quote, behind `skip` characters of an escape: its value, and how many characters are in front of the
quote. -/
def scanString : Nat → Bytes → Option (Bytes × Nat)
  | _, [] => none
  | skip + 1, _ :: cs => (scanString skip cs).map fun r => (r.1, r.2 + 1)
  | 0, c :: cs =>
    if c = 34 then some ([], 0)
    else if c = 92 then
      match unescape cs with
      | some (bs, n) => (scanString n cs).map fun r => (bs ++ r.1, r.2 + 1)
      | none => none
    else if 32 ≤ c then (scanString 0 cs).map fun r => (c :: r.1, r.2 + 1)
    else none

/-- An escape has at least as many characters as what it stands for. -/
theorem length_le_of_unescape {cs bs : Bytes} {n : Nat} (h : unescape cs = some (bs, n)) : bs.length ≤ n := by
  have hsize : ∀ c : Char, (String.utf8EncodeChar c).length ≤ 4 := by
    intro c
    rw [String.length_utf8EncodeChar]
    exact Char.utf8Size_le_four c
  unfold unescape at h
  split at h
  · obtain ⟨k, -, h⟩ := Option.bind_eq_some_iff.mp h
    split at h
    · split at h
      · obtain ⟨m, -, h⟩ := Option.bind_eq_some_iff.mp h
        split at h
        · obtain ⟨rfl, rfl⟩ := Prod.mk.inj (Option.some.inj h)
          exact (hsize _).trans (by decide)
        · cases h
      · cases h
    · split at h
      · cases h
      · obtain ⟨rfl, rfl⟩ := Prod.mk.inj (Option.some.inj h)
        exact (hsize _).trans (by decide)
  · obtain ⟨b, -, h⟩ := Option.map_eq_some_iff.mp h
    cases h
    exact Nat.le_refl 1
  · cases h

/-- A plain byte is one that needs no escape. -/
theorem isPlain_iff {c : UInt8} : isPlain c = true ↔ c ≠ 34 ∧ c ≠ 92 ∧ 32 ≤ c := by
  simp [isPlain, and_assoc]

/-- A text that is read to its closing quote: its value is shorter than the text, or the text has no escape and is its value. -/
theorem scanString_cases {skip : Nat} {cs v : Bytes} {n : Nat} (h : scanString skip cs = some (v, n)) :
    ∃ raw rest, cs = raw ++ 34 :: rest ∧ raw.length = n ∧ skip + v.length ≤ n ∧
      (skip = 0 → v.length < n ∨ v = raw ∧ Plain raw) := by
  induction cs generalizing skip v n with
  | nil =>
    cases skip with
    | zero => cases h
    | succ skip => cases h
  | cons c cs ih =>
    cases skip with
    | succ skip =>
      rw [scanString] at h
      obtain ⟨⟨v', n'⟩, hr, he⟩ := Option.map_eq_some_iff.mp h
      cases he
      obtain ⟨raw, rest, rfl, rfl, hle, -⟩ := ih hr
      exact ⟨c :: raw, rest, rfl, rfl, by dsimp only; omega, nofun⟩
    | zero =>
      rw [scanString] at h
      by_cases hquote : c = 34
      · rw [if_pos hquote] at h
        cases h
        exact ⟨[], cs, by rw [hquote]; rfl, rfl, Nat.le_refl _, fun _ => Or.inr ⟨rfl, nofun⟩⟩
      · rw [if_neg hquote] at h
        by_cases hback : c = 92
        · rw [if_pos hback] at h
          split at h
          · rename_i bs k hesc
            obtain ⟨⟨v', n'⟩, hr, he⟩ := Option.map_eq_some_iff.mp h
            cases he
            obtain ⟨raw, rest, rfl, rfl, hle, -⟩ := ih hr
            have hbs := length_le_of_unescape hesc
            have hlt : (bs ++ v').length < raw.length + 1 := by
              rw [List.length_append]
              omega
            exact ⟨c :: raw, rest, rfl, rfl, by dsimp only; omega, fun _ => Or.inl hlt⟩
          · cases h
        · rw [if_neg hback] at h
          by_cases hcontrol : 32 ≤ c
          · rw [if_pos hcontrol] at h
            obtain ⟨⟨v', n'⟩, hr, he⟩ := Option.map_eq_some_iff.mp h
            cases he
            obtain ⟨raw, rest, rfl, rfl, hle, hcases⟩ := ih hr
            refine ⟨c :: raw, rest, rfl, rfl, by simpa using hle, fun _ => ?_⟩
            rcases hcases rfl with hlt | ⟨rfl, hplain⟩
            · exact Or.inl (by simpa using hlt)
            · refine Or.inr ⟨rfl, fun b hb => ?_⟩
              rcases List.mem_cons.mp hb with rfl | hb
              · exact isPlain_iff.mpr ⟨hquote, hback, hcontrol⟩
              · exact hplain b hb
          · rw [if_neg hcontrol] at h
            cases h

/-- A text without an escape is its value. -/
theorem scanString_plain {s : Bytes} (h : Plain s) (rest : Bytes) : scanString 0 (s ++ 34 :: rest) = some (s, s.length) := by
  induction s with
  | nil => rfl
  | cons c s ih =>
    obtain ⟨hquote, hback, hcontrol⟩ := isPlain_iff.mp (h c List.mem_cons_self)
    rw [List.cons_append, scanString, if_neg hquote, if_neg hback, if_pos hcontrol, ih fun b hb => h b (List.mem_cons_of_mem c hb)]
    rfl

/-! ## UTF-8 -/

/-- A text that some characters are encoded to. -/
def ValidUtf8 (s : Bytes) : Prop := ∃ cs : List Char, s = cs.flatMap String.utf8EncodeChar

/-- Texts in UTF-8 make a text in UTF-8. -/
theorem ValidUtf8.append {s t : Bytes} (hs : ValidUtf8 s) (ht : ValidUtf8 t) : ValidUtf8 (s ++ t) := by
  obtain ⟨cs, rfl⟩ := hs
  obtain ⟨ds, rfl⟩ := ht
  exact ⟨cs ++ ds, List.flatMap_append.symm⟩

/-- A text of ASCII characters. -/
theorem validUtf8_of_ascii {s : Bytes} (h : s.all (fun b => b < 128) = true) : ValidUtf8 s := by
  have hchar : ∀ b : UInt8, b < 128 → String.utf8EncodeChar (Char.ofUInt8 b) = [b] := by
    intro b hb
    have hsize : (Char.ofUInt8 b).utf8Size = 1 := by
      rw [Char.utf8Size_eq_one_iff]
      have hle := UInt8.lt_iff_toNat_lt.mp hb
      exact UInt32.le_iff_toNat_le.mpr (Nat.le_of_lt_succ hle)
    rw [String.utf8EncodeChar_eq_singleton hsize]
    exact congrArg (fun b => [b]) (UInt8.toUInt8_toUInt32 b)
  induction s with
  | nil => exact ⟨[], rfl⟩
  | cons b s ih =>
    rw [List.all_cons, Bool.and_eq_true, decide_eq_true_eq] at h
    have hb : ValidUtf8 [b] := ⟨[Char.ofUInt8 b], by rw [List.flatMap_singleton, hchar b h.1]⟩
    exact hb.append (ih h.2)

/-- The last byte of a character is below 128 only if it is the only one. -/
theorem utf8EncodeChar_of_getLast? {c : Char} {b : UInt8} (h : (String.utf8EncodeChar c).getLast? = some b) (hb : b < 128) :
    String.utf8EncodeChar c = [b] := by
  have hcontinuation : ∀ x : UInt8, some (x &&& 0x3f ||| 0x80) ≠ some b := by
    intro x he
    have hle : 128 ≤ ((x &&& 0x3f) ||| 0x80).toNat := by
      rw [UInt8.toNat_or]
      exact Nat.right_le_or
    rw [Option.some.inj he] at hle
    exact absurd (UInt8.lt_iff_toNat_lt.mp hb) (Nat.not_lt.mpr hle)
  rcases Char.utf8Size_eq c with hsize | hsize | hsize | hsize
  · rw [String.utf8EncodeChar_eq_singleton hsize] at h ⊢
    exact congrArg (fun b => [b]) (Option.some.inj h)
  · rw [String.utf8EncodeChar_eq_cons_cons hsize] at h
    exact absurd h (hcontinuation _)
  · rw [String.utf8EncodeChar_eq_cons_cons_cons hsize] at h
    exact absurd h (hcontinuation _)
  · rw [String.utf8EncodeChar_eq_cons_cons_cons_cons hsize] at h
    exact absurd h (hcontinuation _)

/-- A character of one byte at the end of a text may be left out. -/
theorem ValidUtf8.dropLast {s : Bytes} {b : UInt8} (hs : ValidUtf8 s) (h : s.getLast? = some b) (hb : b < 128) :
    ValidUtf8 s.dropLast := by
  obtain ⟨cs, rfl⟩ := hs
  rcases List.eq_nil_or_concat cs with rfl | ⟨ds, c, rfl⟩
  · exact ⟨[], rfl⟩
  · have hflat : (ds ++ [c]).flatMap String.utf8EncodeChar = ds.flatMap String.utf8EncodeChar ++ String.utf8EncodeChar c := by
      rw [List.flatMap_append, List.flatMap_singleton]
    rw [List.concat_eq_append, hflat, List.getLast?_append_of_ne_nil _ String.utf8EncodeChar_ne_nil] at h
    rw [List.concat_eq_append, hflat, utf8EncodeChar_of_getLast? h hb, List.dropLast_concat]
    exact ⟨ds, rfl⟩

/-! ## Tokens -/

/-- The tokens of a text. -/
inductive Token where
  | lbrace
  | rbrace
  | lbracket
  | rbracket
  | colon
  | comma
  | null
  | bool (b : Bool)
  | num (text : Bytes)
  | str (s : Bytes)

/-- The white space between tokens. -/
def isBlank (c : UInt8) : Bool := c == 32 || c == 9 || c == 10 || c == 13

/-- Some digits, one at least. -/
def digits (s : Bytes) : Option Bytes :=
  let ds := s.takeWhile isDigit
  if ds.isEmpty then none else some ds

/-- The integer part of a number, behind its sign: a single zero, or digits that do not begin with one. -/
def intPart (s : Bytes) : Option Bytes := if s.head? = some 48 then some [48] else digits s

/-- The fraction of a number, which may be left out. -/
def fracPart (s : Bytes) : Option Bytes :=
  if s.head? = some 46 then (digits s.tail).map fun ds => 46 :: ds else some []

/-- The exponent of a number, which may be left out. -/
def expPart : Bytes → Option Bytes
  | [] => some []
  | c :: s =>
    if c = 101 || c = 69 then
      let sign := if s.head? = some 43 || s.head? = some 45 then s.take 1 else []
      (digits (s.drop sign.length)).map fun ds => c :: sign ++ ds
    else some []

/-- The number at the start of a text. -/
def number (s : Bytes) : Option Bytes := do
  let sign := if s.head? = some 45 then [45] else []
  let s := s.drop sign.length
  let int ← intPart s
  let s := s.drop int.length
  let frac ← fracPart s
  let s := s.drop frac.length
  let exp ← expPart s
  return sign ++ int ++ frac ++ exp

/-- The token that begins with a character, none for a blank, and how many of the characters behind belong to it. -/
def nextToken (c : UInt8) (cs : Bytes) : Option (List Token × Nat) :=
  if isBlank c then some ([], 0)
  else if c = 34 then (scanString 0 cs).map fun r => ([.str r.1], r.2 + 1)
  else if c = 123 then some ([.lbrace], 0)
  else if c = 125 then some ([.rbrace], 0)
  else if c = 91 then some ([.lbracket], 0)
  else if c = 93 then some ([.rbracket], 0)
  else if c = 58 then some ([.colon], 0)
  else if c = 44 then some ([.comma], 0)
  else if (ascii "null").isPrefixOf (c :: cs) then some ([.null], 3)
  else if (ascii "true").isPrefixOf (c :: cs) then some ([.bool true], 3)
  else if (ascii "false").isPrefixOf (c :: cs) then some ([.bool false], 4)
  else (number (c :: cs)).map fun text => ([.num text], text.length - 1)

/-- The tokens of a text, behind `skip` characters of the last one. -/
def tokens : Nat → Bytes → Option (List Token)
  | 0, [] => some []
  | _ + 1, [] => none
  | skip + 1, _ :: cs => tokens skip cs
  | 0, c :: cs =>
    match nextToken c cs with
    | some (ts, n) => (tokens n cs).map fun rest => ts ++ rest
    | none => none

/-- The rest of a token is passed over. -/
theorem tokens_append (raw rest : Bytes) : tokens raw.length (raw ++ rest) = tokens 0 rest := by
  induction raw with
  | nil => rfl
  | cons c raw ih => exact ih

/-- A token of one character. -/
theorem tokens_of_nextToken {c : UInt8} {ts : List Token} (cs : Bytes) (h : nextToken c cs = some (ts, 0)) :
    tokens 0 (c :: cs) = (tokens 0 cs).map fun rest => ts ++ rest := by
  rw [tokens, h]

/-- Blanks are skipped. -/
@[simp] theorem tokens_blank (cs : Bytes) : tokens 0 (32 :: cs) = tokens 0 cs := by
  have hnext : nextToken 32 cs = some ([], 0) := rfl
  rw [tokens_of_nextToken cs hnext]
  exact Option.map_id'

@[simp] theorem tokens_lbrace (cs : Bytes) : tokens 0 (123 :: cs) = (tokens 0 cs).map fun ts => .lbrace :: ts :=
  have hnext : nextToken 123 cs = some ([.lbrace], 0) := rfl
  tokens_of_nextToken cs hnext

@[simp] theorem tokens_rbrace (cs : Bytes) : tokens 0 (125 :: cs) = (tokens 0 cs).map fun ts => .rbrace :: ts :=
  have hnext : nextToken 125 cs = some ([.rbrace], 0) := rfl
  tokens_of_nextToken cs hnext

@[simp] theorem tokens_lbracket (cs : Bytes) : tokens 0 (91 :: cs) = (tokens 0 cs).map fun ts => .lbracket :: ts :=
  have hnext : nextToken 91 cs = some ([.lbracket], 0) := rfl
  tokens_of_nextToken cs hnext

@[simp] theorem tokens_rbracket (cs : Bytes) : tokens 0 (93 :: cs) = (tokens 0 cs).map fun ts => .rbracket :: ts :=
  have hnext : nextToken 93 cs = some ([.rbracket], 0) := rfl
  tokens_of_nextToken cs hnext

@[simp] theorem tokens_colon (cs : Bytes) : tokens 0 (58 :: cs) = (tokens 0 cs).map fun ts => .colon :: ts :=
  have hnext : nextToken 58 cs = some ([.colon], 0) := rfl
  tokens_of_nextToken cs hnext

@[simp] theorem tokens_comma (cs : Bytes) : tokens 0 (44 :: cs) = (tokens 0 cs).map fun ts => .comma :: ts :=
  have hnext : nextToken 44 cs = some ([.comma], 0) := rfl
  tokens_of_nextToken cs hnext

@[simp] theorem tokens_false (cs : Bytes) : tokens 0 (ascii "false" ++ cs) = (tokens 0 cs).map fun ts => .bool false :: ts := by
  have hchars : ascii "false" = [102, 97, 108, 115, 101] := by decide
  have hnext : nextToken 102 (97 :: 108 :: 115 :: 101 :: cs) = some ([.bool false], 4) := by
    simp [nextToken, isBlank, ascii]
  rw [hchars]
  show tokens 0 (102 :: 97 :: 108 :: 115 :: 101 :: cs) = _
  rw [tokens, hnext]
  rfl

/-- A quote starts a string. -/
theorem nextToken_quote (cs : Bytes) : nextToken 34 cs = (scanString 0 cs).map fun r => ([.str r.1], r.2 + 1) := rfl

/-- A string that is read. -/
theorem tokens_of_scanString {raw rest v : Bytes} (h : scanString 0 (raw ++ 34 :: rest) = some (v, raw.length)) :
    tokens 0 (34 :: (raw ++ 34 :: rest)) = (tokens 0 rest).map fun ts => .str v :: ts := by
  have hnext : nextToken 34 (raw ++ 34 :: rest) = some ([.str v], raw.length + 1) := by
    rw [nextToken_quote, h]
    rfl
  have hskip : tokens (raw.length + 1) (raw ++ 34 :: rest) = tokens 0 rest := by
    have happend := tokens_append (raw ++ [34]) rest
    rwa [List.length_append, List.length_singleton, List.append_assoc] at happend
  rw [tokens, hnext]
  dsimp only
  rw [hskip]
  rfl

/-- A string whose text is plain. -/
theorem tokens_quoted {s : Bytes} (h : Plain s) (rest : Bytes) :
    tokens 0 (34 :: (s ++ 34 :: rest)) = (tokens 0 rest).map fun ts => .str s :: ts :=
  tokens_of_scanString (scanString_plain h rest)

/-- A text that begins with a quote: there is a quote that ends the string, and tokens are behind it. The value is shorter than what is
between the quotes, or is just that and plain. -/
theorem of_tokens_quote {cs : Bytes} {ts : List Token} (h : tokens 0 (34 :: cs) = some ts) :
    ∃ v raw rest ts', cs = raw ++ 34 :: rest ∧ tokens 0 rest = some ts' ∧ ts = .str v :: ts' ∧
      (v.length < raw.length ∨ v = raw ∧ Plain raw) := by
  cases hscan : scanString 0 cs with
  | none =>
    rw [tokens, nextToken_quote, hscan] at h
    cases h
  | some r =>
    obtain ⟨v, n⟩ := r
    obtain ⟨raw, rest, rfl, rfl, -, hcases⟩ := scanString_cases hscan
    rw [tokens_of_scanString hscan] at h
    obtain ⟨ts', hrest, rfl⟩ := Option.map_eq_some_iff.mp h
    exact ⟨v, raw, rest, ts', rfl, hrest, rfl, hcases rfl⟩

/-! ## Values -/

mutual

/-- The value at the start of some tokens, with the tokens behind it. Two calls are nested for a token at most. -/
def value : Nat → List Token → Option (Json × List Token)
  | fuel + 1, t :: ts =>
    match t with
    | .null => some (.null, ts)
    | .bool b => some (.bool b, ts)
    | .num text => some (.num text, ts)
    | .str s => some (.str s, ts)
    | .lbracket =>
      match ts with
      | .rbracket :: ts => some (.arr [], ts)
      | ts => (elements fuel ts).map fun r => (.arr r.1, r.2)
    | .lbrace =>
      match ts with
      | .rbrace :: ts => some (.obj [], ts)
      | ts => (members fuel ts).map fun r => (.obj r.1, r.2)
    | _ => none
  | _, _ => none

/-- The elements of an array, and its end. -/
def elements : Nat → List Token → Option (List Json × List Token)
  | fuel + 1, ts =>
    match value fuel ts with
    | some (v, .comma :: ts) => (elements fuel ts).map fun r => (v :: r.1, r.2)
    | some (v, .rbracket :: ts) => some ([v], ts)
    | _ => none
  | 0, _ => none

/-- The members of an object, and its end. -/
def members : Nat → List Token → Option (List (Bytes × Json) × List Token)
  | fuel + 1, .str key :: .colon :: ts =>
    match value fuel ts with
    | some (v, .comma :: ts) => (members fuel ts).map fun r => ((key, v) :: r.1, r.2)
    | some (v, .rbrace :: ts) => some ([(key, v)], ts)
    | _ => none
  | _, _ => none

end

/-- An object that is not empty: its members are read. -/
theorem of_value_object {fuel : Nat} {key : Bytes} {ts rest : List Token} {j : Json}
    (h : value (fuel + 1) (.lbrace :: .str key :: ts) = some (j, rest)) :
    ∃ ms, members fuel (.str key :: ts) = some (ms, rest) ∧ j = .obj ms := by
  rw [value] at h
  · obtain ⟨⟨ms, rest'⟩, hms, he⟩ := Option.map_eq_some_iff.mp h
    cases he
    exact ⟨ms, hms, rfl⟩
  · nofun

/-- A member: its value is read, and a comma with more members or the end of the object is behind it. -/
theorem of_members {fuel : Nat} {key : Bytes} {ts rest : List Token} {ms : List (Bytes × Json)}
    (h : members (fuel + 1) (.str key :: .colon :: ts) = some (ms, rest)) :
    ∃ v ts' ms', value fuel ts = some (v, ts') ∧ ms = (key, v) :: ms' ∧
      ((∃ ts'', ts' = .comma :: ts'' ∧ members fuel ts'' = some (ms', rest)) ∨ ts' = .rbrace :: rest ∧ ms' = []) := by
  rw [members] at h
  split at h
  · rename_i v ts'' hv
    obtain ⟨⟨ms', rest'⟩, hms, he⟩ := Option.map_eq_some_iff.mp h
    cases he
    exact ⟨v, _, ms', hv, rfl, Or.inl ⟨ts'', rfl, hms⟩⟩
  · rename_i v ts'' hv
    cases h
    exact ⟨v, _, [], hv, rfl, Or.inr ⟨rfl, rfl⟩⟩
  · cases h

/-- The value of some tokens as a whole. -/
def document (ts : List Token) : Option Json :=
  match value (2 * ts.length) ts with
  | some (j, []) => some j
  | _ => none

/-- The value of a JSON text. -/
def parse (text : Bytes) : Option Json := (tokens 0 text).bind document

end Json

end FrontServer
