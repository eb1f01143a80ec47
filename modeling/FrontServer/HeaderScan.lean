import FrontServer.Lib.CMemory

/-!
# The header scan

`HttpBuf::GetHttpHeaders`, `ParsePkg::GetHttpHeaders` and `ParseHttp` of `main.cpp` are one loop over the bytes, copied by hand:
`i` runs over the buffer, `pos` is where the current line starts, and a line's text without its last byte goes to what the copy
does with a line (`onLine`). The loop stops at the line feed that ends an empty line behind a line that ended in CR LF, or at the
end of the buffer.
-/

namespace FrontServer

/-- `'\n'`. -/
def LF : UInt8 := 10

/-- `'\r'`. -/
def CR : UInt8 := 13

/-- What the loop carries: the start of the current line and what the lines so far gave. -/
structure Scan (σ : Type) where
  pos : Nat
  acc : σ

variable {σ : Type}

/-- `i > 0 || '\r' == data[i - 1]`. -/
def scanEndsLine (data : Bytes) (i : Nat) : Except Fault Bool :=
  if i > 0 then pure true
  else do
    let b ← readAt data ((i : Int) - 1)
    pure (b == CR)

/-- `0 == i - pos - 1 && i > 3 && data[i - 2] == '\n' && data[i - 3] == '\r'`. -/
def scanBlankLine (data : Bytes) (i pos : Nat) : Except Fault Bool :=
  if (i : Int) - pos - 1 = 0 ∧ i > 3 then do
    let b ← readAt data ((i : Int) - 2)
    if b = LF then do
      let b ← readAt data ((i : Int) - 3)
      pure (b == CR)
    else pure false
  else pure false

/-- One turn of the loop at index `i`; `none` is the `break`. -/
def scanStep (onLine : σ → Bytes → σ) (data : Bytes) (i : Nat) (s : Scan σ) : Except Fault (Option (Scan σ)) := do
  let b ← readAt data i
  if b = LF then do
    let ends ← scanEndsLine data i
    if ends then
      if i > 1 then do
        let blank ← scanBlankLine data i s.pos
        if blank then pure none
        else do
          let head ← stringAt data s.pos ((i : Int) - s.pos - 1)
          pure (some { pos := i + 1, acc := onLine s.acc head })
      else pure (some { s with pos := i + 1 })
    else pure (some s)
  else pure (some s)

/-- `for (; i < len; ++i)`, with the number of turns left: the index the loop ended at and what it carried there. -/
def scanLoop (onLine : σ → Bytes → σ) (data : Bytes) : Nat → Nat → Scan σ → Except Fault (Nat × Scan σ)
  | 0, i, s => pure (i, s)
  | n + 1, i, s => do
    let r ← scanStep onLine data i s
    match r with
    | none => pure (i, s)
    | some s => scanLoop onLine data n (i + 1) s

/-- The whole scan: its result, what the lines gave, and `*remain_pos`. -/
def scanHeaders (onLine : σ → Bytes → σ) (data : Bytes) (len : Int) (acc : σ) (remainPos : Int) :
    Except Fault (Bool × σ × Int) :=
  if 0 = len then pure (false, acc, remainPos)
  else do
    let r ← scanLoop onLine data len.toNat 0 { pos := 0, acc := acc }
    pure (true, r.2.acc, (r.1 : Int) + 1)

end FrontServer
