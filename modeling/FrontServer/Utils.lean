import FrontServer.Lib.CMemory

/-!
# `Utils`: strings

`tools/cgidump/utils.cpp`. A `std::map` from strings is a `Finmap`; numbers are written in decimal, by a stream that is not told
otherwise.
-/

namespace FrontServer

/-- `std::map<std::string, β>`. -/
abbrev StrMap (β : Type) := Finmap (fun _ : Bytes => β)

/-- The bytes an output stream writes for an unsigned number. -/
def decimal (n : Nat) : Bytes := (Nat.toDigits 10 n).map (fun c => c.toNat.toUInt8)

/-- The bytes an output stream writes for an `int`. -/
def decimalInt (n : Int) : Bytes := if n < 0 then ascii "-" ++ decimal n.natAbs else decimal n.natAbs

/-- The bytes it writes for one after `std::hex`. -/
def hexadecimal (n : Nat) : Bytes := (Nat.toDigits 16 n).map (fun c => c.toNat.toUInt8)

/-- A `std::ostringstream`: its text, and the settings that the manipulators make. They stay, except for the field width. -/
structure OStringStream where
  str : Bytes
  hex : Bool
  fill : UInt8
  width : Nat

namespace OStringStream

/-- A new stream: decimal numbers, filled up with blanks, and no field width. -/
def new : OStringStream := { str := [], hex := false, fill := 32, width := 0 }

/-- Write a text, filled up on the left to the field width, which is used up. -/
def put (oss : OStringStream) (text : Bytes) : OStringStream :=
  { oss with str := oss.str ++ List.replicate (oss.width - text.length) oss.fill ++ text, width := 0 }

/-- Write an `int` that is not negative. -/
def putInt (oss : OStringStream) (value : Nat) : OStringStream :=
  oss.put (if oss.hex then hexadecimal value else decimal value)

/-- `oss << std::setfill(c)`. -/
def setfill (oss : OStringStream) (c : UInt8) : OStringStream := { oss with fill := c }

/-- `oss << std::hex`. -/
def setHex (oss : OStringStream) : OStringStream := { oss with hex := true }

/-- `oss << std::setw(n)`. -/
def setw (oss : OStringStream) (n : Nat) : OStringStream := { oss with width := n }

end OStringStream

namespace Utils

/-- `Utils::TrimStr`: the spaces at both ends, and no other blanks, are cut off. -/
def trimStr (str : Bytes) : Bytes := (str.dropWhile (· == 32)).rdropWhile (· == 32)

/-- `Utils::SplitByDelimiter`, a call of `boost::split` with `boost::is_any_of`. Boost is assumed to do what it documents: it cuts at
every byte that is one of the delimiter's, and keeps empty pieces, since it is not told to compress them. -/
def splitByDelimiter (str delimiter : Bytes) : List Bytes := str.splitOnP (fun b => delimiter.contains b)

/-- `Utils::Long2IP`. -/
def long2IP (ip : UInt32) : Bytes :=
  decimal ((ip &&& 0xFF000000) >>> 24).toNat ++ ascii "." ++ decimal ((ip &&& 0x00FF0000) >>> 16).toNat ++ ascii "." ++
    decimal ((ip &&& 0x0000FF00) >>> 8).toNat ++ ascii "." ++ decimal (ip &&& 0x000000FF).toNat

/-! ## `PrintHex` -/

/-- `cnt_per_line`. -/
def cntPerLine : Int := 16

/-- What the first inner loop writes for a byte. -/
def putHex (oss : OStringStream) (value : UInt8) : OStringStream :=
  (((((oss.put (ascii "0x")).setfill 48).setHex).setw 2).putInt value.toNat).put (ascii " ")

/-- The characters that are shown as they are: digits and letters. -/
def isAlnum (value : UInt8) : Bool :=
  (48 ≤ value && value ≤ 57) || (97 ≤ value && value ≤ 122) || (65 ≤ value && value ≤ 90)

/-- What the last inner loop writes for a byte. -/
def putAscii (oss : OStringStream) (value : UInt8) : OStringStream :=
  if isAlnum value then oss.put [value] else oss.put (ascii ".")

/-- `for (; j < size && j < stop; ++j)` over the bytes `*(ctx + j)`, with the `j` it stops at. -/
def forBytes (ctx : Bytes) (size stop : Int) (body : OStringStream → UInt8 → OStringStream) (j : Int) (oss : OStringStream) :
    Except Fault (Int × OStringStream) :=
  if j < size ∧ j < stop then do
    let value ← readAt ctx j
    forBytes ctx size stop body (j + 1) (body oss value)
  else return (j, oss)
termination_by (stop - j).toNat

/-- The line at `i`. The next test of the outer loop computes the product that is checked here. -/
def printLine (ctx : Bytes) (size i : Int) (oss : OStringStream) : Except Fault OStringStream := do
  let stop ← checkedInt ((i + 1) * cntPerLine)
  let (j, oss) ← forBytes ctx size stop putHex (i * cntPerLine) oss
  let remain := stop - j
  let oss := (fun oss => OStringStream.put oss (ascii "     "))^[remain.toNat] oss
  let oss := oss.put (ascii "     ")
  let (_, oss) ← forBytes ctx size stop putAscii (i * cntPerLine) oss
  return oss.put (ascii "\n")

/-- The lines from `i` on. -/
def printLines (ctx : Bytes) (size i : Int) (oss : OStringStream) : Except Fault OStringStream :=
  if i * cntPerLine < size then do
    let oss ← printLine ctx size i oss
    printLines ctx size (i + 1) oss
  else return oss
termination_by (size - i * cntPerLine).toNat
decreasing_by
  unfold cntPerLine at *
  omega

/-- `Utils::PrintHex`: the text it writes to `os`, which has no field width set. -/
def printHex (ctx : Bytes) (size : Int) : Except Fault Bytes := do
  let oss ← printLines ctx size 0 OStringStream.new
  return oss.str ++ ascii "\n"

end Utils

end FrontServer
