import FrontServer.Lib.Lines
import FrontServer.Lemmas.Utils

/-!
# A hex dump can be read back

A dump line shows up to sixteen bytes twice: as tokens of two hexadecimal digits with a blank behind each, filled up with blanks to
eighty characters, and after five more blanks as characters.
-/

namespace FrontServer

/-! ## What is written to a stream -/

/-- The stream `oss'` is `oss` after a text that met no field width and left none. -/
structure OStringStream.Wrote (oss : OStringStream) (text : Bytes) (oss' : OStringStream) : Prop where
  str : oss'.str = oss.str ++ text
  width : oss'.width = 0

namespace OStringStream

theorem wrote_nil {oss : OStringStream} (h : oss.width = 0) : oss.Wrote [] oss := ⟨(List.append_nil _).symm, h⟩

theorem wrote_put {oss : OStringStream} (h : oss.width = 0) (text : Bytes) : oss.Wrote text (oss.put text) :=
  ⟨by simp [put, h], rfl⟩

/-- Texts written one after the other. -/
theorem Wrote.trans {oss₁ oss₂ oss₃ : OStringStream} {text text' : Bytes} (h : oss₁.Wrote text oss₂) (h' : oss₂.Wrote text' oss₃) :
    oss₁.Wrote (text ++ text') oss₃ :=
  ⟨by rw [h'.str, h.str, List.append_assoc], h'.width⟩

/-- A text written for each of some bytes. -/
theorem wrote_foldl {body : OStringStream → UInt8 → OStringStream} {text : UInt8 → Bytes}
    (hbody : ∀ (oss : OStringStream) b, oss.width = 0 → oss.Wrote (text b) (body oss b)) (bs : Bytes) {oss : OStringStream} (h : oss.width = 0) :
    oss.Wrote (bs.flatMap text) (bs.foldl body oss) := by
  induction bs generalizing oss with
  | nil => exact wrote_nil h
  | cons b bs ih =>
    have hb := hbody oss b h
    rw [List.flatMap_cons, List.foldl_cons]
    exact hb.trans (ih hb.width)

/-- A text written some times. -/
theorem wrote_iterate (text : Bytes) (n : Nat) {oss : OStringStream} (h : oss.width = 0) :
    oss.Wrote (List.replicate n text).flatten ((fun oss => put oss text)^[n] oss) := by
  induction n generalizing oss with
  | zero => exact wrote_nil h
  | succ n ih =>
    have hput := wrote_put h text
    rw [List.replicate_succ, List.flatten_cons, Function.iterate_succ_apply]
    exact hput.trans (ih hput.width)

end OStringStream

namespace Utils

/-! ## The tokens and their reading -/

/-- What is shown of a number in hexadecimal: at least two digits. -/
def hexToken (n : Nat) : Bytes := ascii "0x" ++ List.replicate (2 - (hexadecimal n).length) 48 ++ hexadecimal n

/-- The value of a hexadecimal digit. -/
def hexDigitValue (c : UInt8) : Option Nat :=
  if 48 ≤ c && c ≤ 57 then some (c.toNat - 48)
  else if 97 ≤ c && c ≤ 102 then some (c.toNat - 87)
  else none

/-- Read a token: `0x` and two digits. -/
def readToken : Bytes → Option UInt8
  | [48, 120, a, b] => do
    let high ← hexDigitValue a
    let low ← hexDigitValue b
    return (16 * high + low).toUInt8
  | _ => none

/-- Read the tokens of a text, with blanks around them. -/
def readHex (text : Bytes) : Option Bytes := ((text.splitOn 32).filter (· ≠ [])).mapM readToken

/-- A hexadecimal digit as it is written. -/
def hexDigit (n : Nat) : UInt8 := n.digitChar.toNat.toUInt8

/-- A digit is neither a blank nor a line end, and is read as its value. -/
theorem hexDigit_spec : ∀ n < 16, hexDigit n ≠ 32 ∧ hexDigit n ≠ 10 ∧ hexDigitValue (hexDigit n) = some n := by
  decide

/-- The token of a byte has two digits, the first of them a zero where the number has only one. -/
theorem hexToken_eq {n : Nat} (h : n < 256) : hexToken n = [48, 120, hexDigit (n / 16), hexDigit (n % 16)] := by
  have hprefix : ascii "0x" = [48, 120] := by decide
  rw [hexToken, hprefix]
  by_cases hlt : n < 16
  · have hdigits : hexadecimal n = [hexDigit n] := by
      rw [hexadecimal, Nat.toDigits_of_lt_base hlt]
      rfl
    rw [hdigits, Nat.div_eq_of_lt hlt, Nat.mod_eq_of_lt hlt]
    rfl
  · have hdigits : hexadecimal n = [hexDigit (n / 16), hexDigit (n % 16)] := by
      rw [hexadecimal, Nat.toDigits_of_base_le (by decide) (by omega), Nat.toDigits_of_lt_base (by omega)]
      rfl
    rw [hdigits]
    rfl

/-- A byte that is no digit of a number, and neither of the two in front of one, is not in a token. -/
theorem not_mem_hexToken {c : UInt8} (hc : c = 32 ∨ c = 10) (b : UInt8) : c ∉ hexToken b.toNat := by
  have hb := b.toNat_lt
  have hhigh := hexDigit_spec (b.toNat / 16) (by omega)
  have hlow := hexDigit_spec (b.toNat % 16) (by omega)
  rw [hexToken_eq hb]
  rcases hc with rfl | rfl
  · simp [hhigh.1.symm, hlow.1.symm]
  · simp [hhigh.2.1.symm, hlow.2.1.symm]

theorem length_hexToken (b : UInt8) : (hexToken b.toNat).length = 4 := by
  rw [hexToken_eq b.toNat_lt]
  rfl

theorem readToken_hexToken (b : UInt8) : readToken (hexToken b.toNat) = some b := by
  have hb := b.toNat_lt
  rw [hexToken_eq hb]
  simp only [readToken, (hexDigit_spec (b.toNat / 16) (by omega)).2.2, (hexDigit_spec (b.toNat % 16) (by omega)).2.2,
    Option.bind_eq_bind, Option.bind_some, Nat.div_add_mod]
  exact congrArg some (UInt8.ofNat_toNat)

/-- Texts that are read back one by one are read back in order. -/
theorem mapM_map_of_forall {α β : Type} {l : List α} {f : α → β} {g : β → Option α} (h : ∀ a ∈ l, g (f a) = some a) :
    (l.map f).mapM g = some l := by
  induction l with
  | nil => rfl
  | cons a l ih =>
    rw [List.map_cons, List.mapM_cons, h a List.mem_cons_self, ih fun a' ha' => h a' (List.mem_cons_of_mem a ha')]
    rfl

/-- Tokens with a blank behind each, and more blanks. -/
theorem readHex_joinLines (bs : Bytes) (n : Nat) :
    readHex (joinLines 32 (bs.map fun b => hexToken b.toNat) ++ List.replicate n 32) = some bs := by
  have hblanks : ∀ n, List.replicate n (32 : UInt8) = joinLines 32 (List.replicate n []) := by
    intro n
    induction n with
    | zero => rfl
    | succ n ih => rw [List.replicate_succ, List.replicate_succ, joinLines_cons, ih, List.nil_append]
  have hlines : Lines 32 (joinLines 32 (bs.map fun b => hexToken b.toNat) ++ List.replicate n 32)
      ((bs.map fun b => hexToken b.toNat) ++ List.replicate n []) [] := by
    refine ⟨?_, ?_, List.not_mem_nil⟩
    · rw [hblanks, joinLines_append, List.append_nil]
    · intro l hl
      rcases List.mem_append.mp hl with hl | hl
      · obtain ⟨b, -, rfl⟩ := List.mem_map.mp hl
        exact not_mem_hexToken (Or.inl rfl) b
      · rw [List.eq_of_mem_replicate hl]
        exact List.not_mem_nil
  have htokens : (bs.map fun b => hexToken b.toNat).filter (· ≠ []) = bs.map fun b => hexToken b.toNat := by
    refine List.filter_eq_self.mpr fun l hl => ?_
    obtain ⟨b, -, rfl⟩ := List.mem_map.mp hl
    have hlen := length_hexToken b
    exact decide_eq_true (List.ne_nil_of_length_pos (by omega))
  have hread : (bs.map fun b => hexToken b.toNat).mapM readToken = some bs := mapM_map_of_forall fun b _ => readToken_hexToken b
  rw [readHex, hlines.splitOn_eq, List.filter_append, List.filter_append, htokens]
  simp [hread]

/-! ## The lines -/

/-- The bytes of the line at `i`. -/
def row (ctx : Bytes) (i : Nat) : Bytes := (ctx.drop (16 * i)).take 16

/-- The hexadecimal columns of a line, and its text without the line end. -/
def hexColumns (bs : Bytes) : Bytes :=
  joinLines 32 (bs.map fun b => hexToken b.toNat) ++ List.replicate (5 * (16 - bs.length)) 32

def lineText (bs : Bytes) : Bytes :=
  hexColumns bs ++ List.replicate 5 32 ++ bs.map fun b => if isAlnum b then b else 46

theorem length_hexColumns {bs : Bytes} (h : bs.length ≤ 16) : (hexColumns bs).length = 80 := by
  have hjoin : ∀ bs : Bytes, (joinLines 32 (bs.map fun b => hexToken b.toNat)).length = 5 * bs.length := by
    intro bs
    induction bs with
    | nil => rfl
    | cons b bs ih =>
      rw [List.map_cons, joinLines_cons, List.length_append, List.length_cons, ih, length_hexToken, List.length_cons]
      omega
  rw [hexColumns, List.length_append, hjoin, List.length_replicate]
  omega

/-- The columns of a line: the characters begin behind 85 others, the last five of them blanks. -/
theorem lineText_columns {bs : Bytes} (h : bs.length ≤ 16) :
    (lineText bs).length = 85 + bs.length ∧ ((lineText bs).drop 80).take 5 = ascii "     " ∧
      (lineText bs).drop 85 = bs.map fun b => if isAlnum b then b else 46 := by
  have hhex := length_hexColumns h
  have hfront : (hexColumns bs ++ List.replicate 5 32).length = 85 := by rw [List.length_append, hhex, List.length_replicate]
  refine ⟨?_, ?_, ?_⟩
  · rw [lineText, List.length_append, hfront, List.length_map]
  · rw [lineText, List.append_assoc, List.drop_left' hhex, List.take_left' List.length_replicate]
    decide
  · rw [lineText, List.drop_left' hfront]

/-- The hexadecimal numbers of a line. -/
theorem readHex_lineText {bs : Bytes} (h : bs.length ≤ 16) : readHex ((lineText bs).take 80) = some bs := by
  rw [lineText, List.append_assoc, List.take_left' (length_hexColumns h)]
  exact readHex_joinLines bs _

/-- No line end is inside of a line. -/
theorem not_mem_lineText (bs : Bytes) : 10 ∉ lineText bs := by
  intro h
  rcases List.mem_append.mp h with h | h
  · rcases List.mem_append.mp h with h | h
    · rcases List.mem_append.mp h with h | h
      · simp only [joinLines, List.map_map, List.mem_flatten, List.mem_map] at h
        obtain ⟨_, ⟨b, -, rfl⟩, h⟩ := h
        rcases List.mem_append.mp h with h | h
        · exact not_mem_hexToken (Or.inr rfl) b h
        · exact absurd (List.mem_singleton.mp h) (by decide)
      · exact absurd (List.eq_of_mem_replicate h) (by decide)
    · exact absurd (List.eq_of_mem_replicate h) (by decide)
  · obtain ⟨b, -, hb⟩ := List.mem_map.mp h
    by_cases halnum : isAlnum b
    · rw [if_pos halnum] at hb
      subst hb
      exact absurd halnum (by decide)
    · rw [if_neg halnum] at hb
      exact absurd hb (by decide)

/-! ## The loops -/

theorem wrote_putHex (oss : OStringStream) (b : UInt8) (h : oss.width = 0) :
    oss.Wrote (hexToken b.toNat ++ [32]) (putHex oss b) := by
  refine ⟨?_, rfl⟩
  simp [putHex, OStringStream.put, OStringStream.putInt, OStringStream.setfill, OStringStream.setHex, OStringStream.setw, h, hexToken]
  decide

theorem wrote_putAscii (oss : OStringStream) (b : UInt8) (h : oss.width = 0) :
    oss.Wrote [if isAlnum b then b else 46] (putAscii oss b) := by
  unfold putAscii
  by_cases halnum : isAlnum b
  · rw [if_pos halnum, if_pos halnum]
    exact OStringStream.wrote_put h _
  · rw [if_neg halnum, if_neg halnum]
    exact OStringStream.wrote_put h _

/-- An inner loop takes the bytes from where it starts up to its end or the end of the array. -/
theorem forBytes_eq {ctx : Bytes} (body : OStringStream → UInt8 → OStringStream) {j stop : Nat} (hj : j ≤ ctx.length)
    (hs : j ≤ stop) (oss : OStringStream) :
    forBytes ctx ctx.length stop body j oss =
      .ok ((min ctx.length stop : Nat), ((ctx.take stop).drop j).foldl body oss) := by
  induction h : min ctx.length stop - j generalizing j oss with
  | zero =>
    have he : min ctx.length stop = j := by omega
    rw [forBytes, if_neg (by omega), List.drop_eq_nil_of_le (by simp; omega), he]
    rfl
  | succ n ih =>
    have hlt : j < ctx.length := by omega
    have hread : readAt ctx j = .ok ctx[j] := readAt_eq_ok.mpr ⟨by omega, by simp [hlt]⟩
    rw [forBytes, if_pos (by omega), hread, ok_bind, List.drop_eq_getElem_cons (by simp; omega), List.foldl_cons,
      List.getElem_take]
    exact ih (j := j + 1) (by omega) (by omega) _ (by omega)

/-- The line at `i`. -/
theorem printLine_eq {ctx : Bytes} {i : Nat} (hi : 16 * i < ctx.length) (hn : ctx.length < 2 ^ 31 - 16) {oss : OStringStream}
    (h : oss.width = 0) :
    ∃ oss', printLine ctx ctx.length i oss = .ok oss' ∧ oss.Wrote (lineText (row ctx i) ++ [10]) oss' := by
  have hrow : (ctx.take (16 * (i + 1))).drop (16 * i) = row ctx i := by
    rw [row, List.drop_take]
    congr 1
    omega
  have hlen : (row ctx i).length = min ctx.length (16 * (i + 1)) - 16 * i := by
    rw [← hrow, List.length_drop, List.length_take, Nat.min_comm]
  have hstop : checkedInt (((i : Int) + 1) * cntPerLine) = .ok ((16 * (i + 1) : Nat) : Int) := by
    have he : ((i : Int) + 1) * cntPerLine = ((16 * (i + 1) : Nat) : Int) := by
      unfold cntPerLine
      omega
    rw [he]
    exact if_pos (by omega)
  have hstart : (i : Int) * cntPerLine = ((16 * i : Nat) : Int) := by
    unfold cntPerLine
    omega
  have hremain : (((16 * (i + 1) : Nat) : Int) - (min ctx.length (16 * (i + 1)) : Nat)).toNat = 16 - (row ctx i).length := by
    rw [hlen]
    omega
  have hpad : (List.replicate (16 - (row ctx i).length) (ascii "     ")).flatten = List.replicate (5 * (16 - (row ctx i).length)) 32 := by
    have hblanks : ascii "     " = List.replicate 5 32 := by decide
    rw [hblanks, List.flatten_replicate_replicate, Nat.mul_comm]
  have hhex := OStringStream.wrote_foldl wrote_putHex (row ctx i) h
  have hfill := OStringStream.wrote_iterate (ascii "     ") (16 - (row ctx i).length) hhex.width
  have hgap := OStringStream.wrote_put hfill.width (ascii "     ")
  have hascii := OStringStream.wrote_foldl wrote_putAscii (row ctx i) hgap.width
  have hend := OStringStream.wrote_put hascii.width (ascii "\n")
  have htext : (row ctx i).flatMap (fun b => hexToken b.toNat ++ [32]) ++
      ((List.replicate (16 - (row ctx i).length) (ascii "     ")).flatten ++ (ascii "     " ++
        ((row ctx i).flatMap (fun b => [if isAlnum b then b else 46]) ++ ascii "\n"))) = lineText (row ctx i) ++ [10] := by
    have hgap : ascii "     " = List.replicate 5 32 := by decide
    have hend : ascii "\n" = [10] := by decide
    rw [hpad, hgap, hend, ← List.map_eq_flatMap, lineText, hexColumns, joinLines, List.map_map, List.flatMap_def]
    simp only [List.append_assoc]
    rfl
  have hwrote := hhex.trans (hfill.trans (hgap.trans (hascii.trans hend)))
  rw [htext] at hwrote
  refine ⟨_, ?_, hwrote⟩
  unfold printLine
  rw [hstop, ok_bind, hstart, forBytes_eq putHex (by omega) (by omega), ok_bind, hrow]
  dsimp only
  rw [hremain, forBytes_eq putAscii (by omega) (by omega), ok_bind, hrow]
  rfl

/-- The lines from `i` on, where `n` are left. -/
theorem printLines_eq {ctx : Bytes} (hn : ctx.length < 2 ^ 31 - 16) {n i : Nat} (hi : i + n = (ctx.length + 15) / 16)
    {oss : OStringStream} (h : oss.width = 0) :
    ∃ oss', printLines ctx ctx.length i oss = .ok oss' ∧
      oss.Wrote (joinLines 10 ((List.range' i n).map fun k => lineText (row ctx k))) oss' := by
  induction n generalizing i oss with
  | zero =>
    refine ⟨oss, ?_, OStringStream.wrote_nil h⟩
    rw [printLines, if_neg (by unfold cntPerLine; omega)]
    rfl
  | succ n ih =>
    obtain ⟨oss₁, hline, hwrote⟩ := printLine_eq (i := i) (by omega) hn h
    obtain ⟨oss₂, hlines, hwrote'⟩ := ih (i := i + 1) (by omega) hwrote.width
    refine ⟨oss₂, ?_, ?_⟩
    · rw [printLines, if_pos (by unfold cntPerLine; omega), hline, ok_bind]
      exact hlines
    · have hjoin := hwrote.trans hwrote'
      rw [List.append_assoc] at hjoin
      rw [List.range'_succ, List.map_cons, joinLines_cons]
      exact hjoin

/-- The rows are the array. -/
theorem flatten_rows (ctx : Bytes) (n : Nat) : ((List.range n).map (row ctx)).flatten = ctx.take (16 * n) := by
  induction n with
  | zero => rfl
  | succ n ih =>
    rw [List.range_succ, List.map_append, List.flatten_append, ih, Nat.mul_succ, List.take_add]
    simp [row]

/-- A dump of an array prints a line for every sixteen bytes, the last of them for the rest, and an empty line. In each the characters
from the 85th on show the bytes of the line one by one, letters and digits as they are and dots for the others, with blanks in front of
them; and the hexadecimal numbers in the first 80 characters of the lines are the array. -/
theorem printHex_lossless (ctx : Bytes) (hn : ctx.length < 2 ^ 31 - 16) :
    ∃ (out : Bytes) (lines : List Bytes), printHex ctx ctx.length = .ok out ∧ Lines 10 out (lines ++ [[]]) [] ∧
      lines.length = (ctx.length + 15) / 16 ∧
      (∀ i line, lines[i]? = some line → line.length = 85 + ((ctx.drop (16 * i)).take 16).length ∧
        (line.drop 80).take 5 = ascii "     " ∧
          line.drop 85 = ((ctx.drop (16 * i)).take 16).map fun b => if isAlnum b then b else 46) ∧
      (lines.mapM fun line => readHex (line.take 80)).map List.flatten = some ctx := by
  obtain ⟨oss, hlines, hwrote⟩ := printLines_eq hn (Nat.zero_add _) (i := 0) (by rfl : OStringStream.new.width = 0)
  rw [← List.range_eq_range'] at hwrote
  refine ⟨oss.str ++ ascii "\n", (List.range ((ctx.length + 15) / 16)).map fun k => lineText (row ctx k), ?_, ⟨?_, ?_, List.not_mem_nil⟩,
    by simp, ?_, ?_⟩
  · exact congrArg (fun r : Except Fault OStringStream => r >>= fun oss => Except.ok (oss.str ++ ascii "\n")) hlines
  · rw [hwrote.str, joinLines_append, List.append_nil]
    rfl
  · intro l hl
    rcases List.mem_append.mp hl with hl | hl
    · obtain ⟨k, -, rfl⟩ := List.mem_map.mp hl
      exact not_mem_lineText _
    · rw [List.mem_singleton.mp hl]
      exact List.not_mem_nil
  · intro i line hline
    rw [List.getElem?_map] at hline
    obtain ⟨k, hk, rfl⟩ := Option.map_eq_some_iff.mp hline
    obtain ⟨-, rfl⟩ := List.getElem?_eq_some_iff.mp hk
    rw [List.getElem_range]
    exact lineText_columns (List.length_take_le _ _)
  · have hread : ((List.range ((ctx.length + 15) / 16)).map fun k => lineText (row ctx k)).mapM (fun line => readHex (line.take 80)) =
        some ((List.range ((ctx.length + 15) / 16)).map (row ctx)) := by
      have hmap : (fun k => lineText (row ctx k)) = lineText ∘ row ctx := rfl
      rw [hmap, ← List.map_map]
      refine mapM_map_of_forall fun bs hbs => ?_
      obtain ⟨k, -, rfl⟩ := List.mem_map.mp hbs
      exact readHex_lineText (List.length_take_le _ _)
    rw [hread, Option.map_some, flatten_rows, List.take_of_length_le (by omega)]

/-- A dump of eighteen bytes: one line full, and one of two bytes. -/
theorem printHex_lossless_eighteen :
    ∃ (out : Bytes) (lines : List Bytes), printHex (List.replicate 17 65 ++ [10]) 18 = .ok out ∧ Lines 10 out (lines ++ [[]]) [] ∧ lines.length = 2 ∧
      (∀ i line, lines[i]? = some line →
        line.length = 85 + (((List.replicate 17 65 ++ [10] : Bytes).drop (16 * i)).take 16).length ∧
        (line.drop 80).take 5 = ascii "     " ∧
          line.drop 85 = (((List.replicate 17 65 ++ [10] : Bytes).drop (16 * i)).take 16).map fun b => if isAlnum b then b else 46) ∧
      (lines.mapM fun line => readHex (line.take 80)).map List.flatten = some (List.replicate 17 65 ++ [10]) :=
  printHex_lossless (List.replicate 17 65 ++ [10]) (by decide)

end Utils

end FrontServer
