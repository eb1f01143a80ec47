import Mathlib

/-!
# Memory as a C++ program sees it

A piece of memory is a list of bytes, an array object of `n` bytes is a `CArray n`. Every access is checked: one outside of the
object, or one whose length is negative, is a `Fault`, the model's name for what C++ leaves undefined and for the exceptions no
one catches. Integers are `Int`; where a 32-bit sum can leave its range the check is `checkedInt`.
-/

namespace FrontServer

/-- A byte string: a piece of memory, or the contents of a `std::string`. -/
abbrev Bytes := List UInt8

/-- The bytes of a literal in ASCII. -/
def ascii (s : String) : Bytes := s.toList.map (fun c => c.toNat.toUInt8)

/-- What ends a run: an access at an index outside of the object, a copy of a negative number of bytes (or of one that does not
fit), a `std::string` of negative length built at `pos` (`std::length_error`), and a signed sum outside of 32 bits. -/
inductive Fault where
  | outOfRange (i : Int)
  | badSize (n : Int)
  | lengthError (pos n : Int)
  | overflow (n : Int)
  deriving DecidableEq, Repr

/-- Read one byte. -/
def readAt (mem : Bytes) (i : Int) : Except Fault UInt8 :=
  if 0 ≤ i then
    match mem[i.toNat]? with
    | some b => .ok b
    | none => .error (.outOfRange i)
  else .error (.outOfRange i)

/-- Read `n` bytes from `off` on, as the source of a `memcpy`. -/
def readBytes (mem : Bytes) (off n : Int) : Except Fault Bytes :=
  if n < 0 then .error (.badSize n)
  else if 0 ≤ off ∧ off + n ≤ mem.length then .ok ((mem.drop off.toNat).take n.toNat)
  else .error (.outOfRange (off + n))

/-- The `std::string` of `n` bytes built at `pos`; a negative length throws. -/
def stringAt (mem : Bytes) (pos n : Int) : Except Fault Bytes :=
  if n < 0 then .error (.lengthError pos n) else readBytes mem pos n

/-- A 32-bit signed result. -/
def checkedInt (n : Int) : Except Fault Int := if -2 ^ 31 ≤ n ∧ n < 2 ^ 31 then .ok n else .error (.overflow n)

/-- An array object of `n` bytes. -/
structure CArray (n : Nat) where
  bytes : Bytes
  size_eq : bytes.length = n

namespace CArray

variable {n : Nat}

/-- `n` zero bytes. -/
def zeros (n : Nat) : CArray n := ⟨List.replicate n 0, List.length_replicate⟩

/-- The byte at an index; only meant below the size. -/
def get (a : CArray n) (i : Nat) : UInt8 := a.bytes.getD i 0

/-- Write bytes from `off` on, as the destination of a `memcpy`. -/
def write (a : CArray n) (off : Int) (src : Bytes) : Except Fault (CArray n) :=
  if h : 0 ≤ off ∧ off.toNat + src.length ≤ n then
    .ok ⟨a.bytes.take off.toNat ++ src ++ a.bytes.drop (off.toNat + src.length), by
      have := a.size_eq
      simp only [List.length_append, List.length_take, List.length_drop]
      omega⟩
  else .error (.outOfRange (off + src.length))

end CArray

/-- `memcpy(dst + dstOff, src + srcOff, size)`. -/
def memcpy {n : Nat} (dst : CArray n) (dstOff : Int) (src : Bytes) (srcOff size : Int) : Except Fault (CArray n) := do
  dst.write dstOff (← readBytes src srcOff size)

/-- `strncmp` from index `i` on: at most `n` bytes are compared, up to a difference or a terminating zero. -/
def strncmpFrom (i : Int) : Bytes → Bytes → Nat → Except Fault Int
  | _, _, 0 => .ok 0
  | a :: s, b :: t, n + 1 =>
    if a = b then if a = 0 then .ok 0 else strncmpFrom (i + 1) s t n
    else .ok ((a.toNat : Int) - b.toNat)
  | _, _, _ + 1 => .error (.outOfRange i)

/-- `strncmp(s, t, n)`. -/
def strncmp (s t : Bytes) (n : Nat) : Except Fault Int := strncmpFrom 0 s t n

/-- `isspace` in the C locale. -/
def isSpace (b : UInt8) : Bool := b == 32 || (9 ≤ b && b ≤ 13)

/-- `isdigit`. -/
def isDigit (b : UInt8) : Bool := 48 ≤ b && b ≤ 57

/-- The value of a list of decimal digits, the most significant first. -/
def digitsValue (ds : Bytes) : Nat := ds.foldl (fun v d => 10 * v + (d.toNat - 48)) 0

/-- `strtol(s, NULL, 10)` with a 64-bit `long`: blanks, a sign, digits; what lies outside of the range is clamped to it. -/
def strtol (s : Bytes) : Int :=
  let t := s.dropWhile isSpace
  let v : Int :=
    match t with
    | 45 :: ds => -(digitsValue (ds.takeWhile isDigit) : Int)
    | 43 :: ds => digitsValue (ds.takeWhile isDigit)
    | ds => digitsValue (ds.takeWhile isDigit)
  max (-2 ^ 63) (min (2 ^ 63 - 1) v)

/-- `atoi`: `strtol` cut to a 32-bit `int`. -/
def atoi (s : Bytes) : Int := (strtol s).bmod (2 ^ 32)

/-- The C string at the start of a byte string: up to the first zero. -/
def cStr (s : Bytes) : Bytes := s.takeWhile (· != 0)

/-- The `std::string` made of a `const char*`: up to the first zero, which has to be inside of the object. -/
def stringOf (mem : Bytes) : Except Fault Bytes := if 0 ∈ mem then .ok (cStr mem) else .error (.outOfRange mem.length)

/-- `new char[n]`, with what the memory happens to hold. -/
def newChars (fresh : Nat → UInt8) (n : Nat) : Bytes := (List.range n).map fresh

/-- `mem[i] = b`. -/
def storeAt (mem : Bytes) (i : Nat) (b : UInt8) : Except Fault Bytes :=
  if i < mem.length then .ok (mem.set i b) else .error (.outOfRange i)

/-- `strncpy(dst + off, src, n)`: the C string at `src`, cut to `n` bytes or filled up with zeros. -/
def strncpy (dst : Bytes) (off : Nat) (src : Bytes) (n : Nat) : Except Fault Bytes :=
  if src.length < n ∧ 0 ∉ src then .error (.outOfRange src.length)
  else if dst.length < off + n then .error (.outOfRange (off + n))
  else
    let s := cStr (src.take n)
    .ok (dst.take off ++ (s ++ List.replicate (n - s.length) 0) ++ dst.drop (off + n))

/-! ## Computations that may fault -/

/-- A computation goes on from a result. -/
@[simp] theorem ok_bind {ε α β : Type} (a : α) (f : α → Except ε β) : (Except.ok a >>= f) = f a := rfl

/-- A fault ends it. -/
@[simp] theorem error_bind {ε α β : Type} (e : ε) (f : α → Except ε β) : (Except.error e >>= f) = .error e := rfl

/-- A computation in two parts succeeds when both do. -/
theorem bind_eq_ok {ε α β : Type} {x : Except ε α} {f : α → Except ε β} {b : β} :
    (x >>= f) = .ok b ↔ ∃ a, x = .ok a ∧ f a = .ok b := by
  cases x with
  | error e => simp
  | ok a => simp

/-- Computations in turn have a result when each of them has. -/
theorem exists_bind_eq_ok {ε α β : Type} {x : Except ε α} {f : α → Except ε β} :
    (∃ b, (x >>= f) = .ok b) ↔ ∃ a, x = .ok a ∧ ∃ b, f a = .ok b := by
  cases x with
  | error e => simp
  | ok a => simp

/-- A search, and a second one where the first found something: both do. -/
theorem bind_eq_ok_some {ε α β : Type} {x : Except ε (Option α)} {f : Option α → Except ε (Option β)} {b : β}
    (hnone : f none = .ok none) : (x >>= f) = .ok (some b) ↔ ∃ a, x = .ok (some a) ∧ f (some a) = .ok (some b) := by
  rw [bind_eq_ok]
  constructor
  · rintro ⟨found, hfound, h⟩
    cases found with
    | none =>
      rw [hnone] at h
      cases h
    | some a => exact ⟨a, hfound, h⟩
  · rintro ⟨a, hfound, h⟩
    exact ⟨some a, hfound, h⟩

/-- A result, as an option. -/
theorem toOption_eq_some {ε α : Type} {x : Except ε α} {a : α} : x.toOption = some a ↔ x = .ok a := by
  cases x with
  | error e => simp [Except.toOption]
  | ok b => simp [Except.toOption]

/-- A computation with an optional result, asked for its result only. -/
theorem toOption_join_eq_some {ε α : Type} {x : Except ε (Option α)} {a : α} : x.toOption.join = some a ↔ x = .ok (some a) := by
  rw [Option.join_eq_some_iff, toOption_eq_some]

/-- A computation for each item of a list succeeds when all of them do. -/
theorem exists_mapM_eq_ok {ε α β : Type} {f : α → Except ε β} {l : List α} :
    (∃ bs, l.mapM f = .ok bs) ↔ ∀ a ∈ l, ∃ b, f a = .ok b := by
  induction l with
  | nil => exact iff_of_true ⟨[], rfl⟩ (by simp)
  | cons a l ih =>
    rw [List.forall_mem_cons, ← ih]
    simp only [List.mapM_cons, bind_eq_ok]
    constructor
    · rintro ⟨_, b, hb, bs, hbs, -⟩
      exact ⟨⟨b, hb⟩, bs, hbs⟩
    · rintro ⟨⟨b, hb⟩, bs, hbs⟩
      exact ⟨b :: bs, b, hb, bs, hbs, rfl⟩

/-! ## Reads and writes inside of an object -/

/-- A read gives the byte at the index. -/
theorem readAt_eq_ok {mem : Bytes} {i : Int} {b : UInt8} : readAt mem i = .ok b ↔ 0 ≤ i ∧ mem[i.toNat]? = some b := by
  unfold readAt
  split
  · rename_i hi
    cases hm : mem[i.toNat]? with
    | none => simp
    | some c => simp [hi]
  · rename_i hi
    simp [hi]

/-- A byte of the object is read. -/
theorem exists_readAt {mem : Bytes} {i : Int} : (∃ b, readAt mem i = .ok b) ↔ 0 ≤ i ∧ i < mem.length := by
  simp only [readAt_eq_ok, exists_and_left]
  refine and_congr_right fun hi => ⟨?_, fun hlt => ?_⟩
  · rintro ⟨b, hb⟩
    have := (List.getElem?_eq_some_iff.mp hb).1
    omega
  · exact ⟨mem[i.toNat], List.getElem?_eq_getElem (by omega)⟩

/-- A read of some bytes gives those of the memory. -/
theorem readBytes_eq_ok {mem bs : Bytes} {off n : Int} :
    readBytes mem off n = .ok bs ↔
      0 ≤ n ∧ 0 ≤ off ∧ off + n ≤ mem.length ∧ bs = (mem.drop off.toNat).take n.toNat := by
  unfold readBytes
  by_cases hn : n < 0
  · simp [hn]
  · by_cases ho : 0 ≤ off ∧ off + n ≤ mem.length
    · simp only [hn, ho, and_self, if_true, if_false, Except.ok.injEq, true_and]
      constructor
      · rintro rfl
        exact ⟨by omega, rfl⟩
      · rintro ⟨-, rfl⟩
        rfl
    · simp only [hn, ho, if_false, reduceCtorEq, false_iff]
      rintro ⟨-, h₁, h₂, -⟩
      exact ho ⟨h₁, h₂⟩

/-- It gives as many as asked for. -/
theorem length_of_readBytes {mem bs : Bytes} {off n : Int} (h : readBytes mem off n = .ok bs) : (bs.length : Int) = n := by
  obtain ⟨hn, ho, hl, rfl⟩ := readBytes_eq_ok.mp h
  rw [List.length_take, List.length_drop]
  omega

/-- Comparing a string with a pattern without zero bytes, as many bytes as the pattern has: the string begins with it, or ends inside of
it and the comparison reads on, or is different from it somewhere. -/
theorem strncmpFrom_cases {t : Bytes} (ht : 0 ∉ t) (i : Int) (s : Bytes) :
    t <+: s ∧ strncmpFrom i s t t.length = .ok 0 ∨
      (s <+: t ∧ s ≠ t) ∧ strncmpFrom i s t t.length = .error (.outOfRange (i + s.length)) ∨
      (¬t <+: s ∧ ¬s <+: t) ∧ ∃ d, strncmpFrom i s t t.length = .ok d ∧ d ≠ 0 := by
  induction t generalizing i s with
  | nil => exact Or.inl ⟨List.nil_prefix, by rw [List.length_nil, strncmpFrom]⟩
  | cons b t ih =>
    obtain ⟨hb, htail⟩ : 0 ≠ b ∧ 0 ∉ t := by simpa [List.mem_cons] using ht
    cases s with
    | nil => exact Or.inr (Or.inl ⟨⟨List.nil_prefix, by simp⟩, by simp [strncmpFrom]⟩)
    | cons a s =>
      rw [List.length_cons, strncmpFrom]
      by_cases hab : a = b
      · subst hab
        rw [if_pos rfl, if_neg (Ne.symm hb)]
        simp only [List.prefix_cons_inj, List.length_cons, Nat.cast_add, Nat.cast_one, ne_eq, List.cons.injEq, true_and]
        rw [show i + ((s.length : Int) + 1) = i + 1 + s.length by omega]
        exact ih htail (i + 1) s
      · refine Or.inr (Or.inr ⟨⟨?_, ?_⟩, ?_⟩)
        · exact fun h => hab (List.cons_prefix_cons.mp h).1.symm
        · exact fun h => hab (List.cons_prefix_cons.mp h).1
        · have hne : a.toNat ≠ b.toNat := fun e => hab (UInt8.toNat_inj.mp e)
          exact ⟨(a.toNat : Int) - b.toNat, by rw [if_neg hab], by omega⟩

/-- A comparison with a word: it is there, the text ends inside of it, or they differ. -/
theorem strncmp_cases {t : Bytes} (ht : 0 ∉ t) (s : Bytes) :
    t <+: s ∧ strncmp s t t.length = .ok 0 ∨
      (s <+: t ∧ s ≠ t) ∧ strncmp s t t.length = .error (.outOfRange s.length) ∨
      (¬t <+: s ∧ ¬s <+: t) ∧ ∃ d, strncmp s t t.length = .ok d ∧ d ≠ 0 := by
  have h := strncmpFrom_cases ht 0 s
  rw [Int.zero_add] at h
  exact h

namespace CArray

variable {n : Nat}

/-- A write puts the bytes in place of those that were there. -/
theorem write_eq_ok {a a' : CArray n} {off : Int} {src : Bytes} (h : a.write off src = .ok a') :
    0 ≤ off ∧ off.toNat + src.length ≤ n ∧
      a'.bytes = a.bytes.take off.toNat ++ src ++ a.bytes.drop (off.toNat + src.length) := by
  unfold write at h
  split at h
  · rename_i hw
    cases h
    exact ⟨hw.1, hw.2, rfl⟩
  · cases h

/-- A write inside of the array is made. -/
theorem exists_write (a : CArray n) {off : Int} (src : Bytes) (h₀ : 0 ≤ off) (h : off.toNat + src.length ≤ n) :
    ∃ a', a.write off src = .ok a' := by
  unfold write
  rw [dif_pos ⟨h₀, h⟩]
  exact ⟨_, rfl⟩

/-- The first bytes of an array, one index at a time. -/
theorem take_bytes (a : CArray n) {k : Nat} (h : k ≤ n) : a.bytes.take k = (List.range k).map a.get := by
  have hn := a.size_eq
  apply List.ext_getElem
  · rw [List.length_take, List.length_map, List.length_range]
    omega
  · intro i h₁ h₂
    rw [List.length_map, List.length_range] at h₂
    rw [List.getElem_take, List.getElem_map, List.getElem_range, get, List.getD_eq_getElem]

/-- A write changes the bytes it writes and no others. -/
theorem get_write {a a' : CArray n} {off : Int} {src : Bytes} (h : a.write off src = .ok a') (i : Nat) :
    a'.get i = if off.toNat ≤ i ∧ i < off.toNat + src.length then src.getD (i - off.toNat) 0 else a.get i := by
  obtain ⟨-, hle, hb⟩ := write_eq_ok h
  have hn := a.size_eq
  unfold get
  rw [hb, List.append_assoc]
  simp only [List.getD_eq_getElem?_getD, List.getElem?_append, List.length_take, List.getElem?_take, List.getElem?_drop]
  by_cases h₁ : i < off.toNat
  · rw [if_pos (by omega), if_pos h₁, if_neg (by omega)]
  · rw [if_neg (by omega)]
    by_cases h₂ : i < off.toNat + src.length
    · rw [if_pos (by omega), if_pos (by omega)]
      congr 2
      omega
    · rw [if_neg (by omega), if_neg (by omega)]
      congr 2
      omega

end CArray

/-- A copy that succeeds was one inside of both objects, and it changes the bytes it copies and no others. -/
theorem memcpy_eq_ok {n : Nat} {dst a : CArray n} {dstOff srcOff size : Int} {src : Bytes}
    (h : memcpy dst dstOff src srcOff size = .ok a) :
    0 ≤ size ∧ 0 ≤ dstOff ∧ dstOff + size ≤ n ∧ 0 ≤ srcOff ∧ srcOff + size ≤ src.length ∧
      ∀ i : Nat, a.get i = if dstOff ≤ i ∧ i < dstOff + size then src.getD (srcOff + i - dstOff).toNat 0
        else dst.get i := by
  unfold memcpy at h
  cases hr : readBytes src srcOff size with
  | error e => rw [hr] at h; cases h
  | ok bs =>
    rw [hr] at h
    have hw : dst.write dstOff bs = .ok a := h
    have hl := length_of_readBytes hr
    obtain ⟨hn, hs, hsn, rfl⟩ := readBytes_eq_ok.mp hr
    obtain ⟨hd, hdn, -⟩ := CArray.write_eq_ok hw
    refine ⟨hn, hd, by omega, hs, hsn, fun i => ?_⟩
    rw [CArray.get_write hw]
    by_cases hi : dstOff ≤ i ∧ i < dstOff + size
    · rw [if_pos (by omega), if_pos hi, List.getD_eq_getElem?_getD, List.getD_eq_getElem?_getD, List.getElem?_take,
        if_pos (by omega), List.getElem?_drop]
      congr 2
      omega
    · rw [if_neg (by omega), if_neg hi]

/-- A copy that stays inside of both objects succeeds. -/
theorem exists_memcpy {n : Nat} (dst : CArray n) (src : Bytes) {dstOff srcOff size : Int} (h : 0 ≤ size) (hd : 0 ≤ dstOff)
    (hdn : dstOff + size ≤ n) (hs : 0 ≤ srcOff) (hsn : srcOff + size ≤ src.length) :
    ∃ a, memcpy dst dstOff src srcOff size = .ok a ∧
      ∀ i : Nat, a.get i = if dstOff ≤ i ∧ i < dstOff + size then src.getD (srcOff + i - dstOff).toNat 0
        else dst.get i := by
  have hr : readBytes src srcOff size = .ok _ := readBytes_eq_ok.mpr ⟨h, hs, hsn, rfl⟩
  have hl := length_of_readBytes hr
  obtain ⟨a, ha⟩ := dst.exists_write ((src.drop srcOff.toNat).take size.toNat) hd (by omega)
  have hm : memcpy dst dstOff src srcOff size = .ok a := by rw [memcpy, hr]; exact ha
  obtain ⟨-, -, -, -, -, hg⟩ := memcpy_eq_ok hm
  exact ⟨a, hm, hg⟩

/-- The same for a copy that is left out when there is nothing to copy. -/
theorem exists_memcpy_unless {n : Nat} (dst : CArray n) (src : Bytes) {dstOff srcOff size : Int} (h : 0 ≤ size)
    (hd : 0 ≤ dstOff) (hdn : dstOff + size ≤ n) (hs : 0 ≤ srcOff) (hsn : srcOff + size ≤ src.length) :
    ∃ a, (if 0 ≠ size then memcpy dst dstOff src srcOff size else pure dst) = .ok a ∧
      ∀ i : Nat, a.get i = if dstOff ≤ i ∧ i < dstOff + size then src.getD (srcOff + i - dstOff).toNat 0
        else dst.get i := by
  by_cases hz : 0 = size
  · subst hz
    refine ⟨dst, rfl, fun i => ?_⟩
    rw [if_neg (by omega)]
  · obtain ⟨a, ha, hg⟩ := exists_memcpy dst src h hd hdn hs hsn
    exact ⟨a, by rw [if_pos hz, ha], hg⟩

/-- A copy of a negative number of bytes faults. -/
theorem memcpy_of_neg {n : Nat} (dst : CArray n) (dstOff srcOff : Int) {size : Int} (src : Bytes) (h : size < 0) :
    memcpy dst dstOff src srcOff size = .error (.badSize size) := by
  unfold memcpy readBytes
  rw [if_pos h]
  rfl

/-- A read inside of the first `k` bytes is the same in memory that begins with the same `k` bytes. -/
theorem readBytes_congr {mem mem' : Bytes} {k off n : Int} (h : mem.take k.toNat = mem'.take k.toNat) (hk : k ≤ mem.length)
    (hk' : k ≤ mem'.length) (hn : off + n ≤ k) : readBytes mem off n = readBytes mem' off n := by
  unfold readBytes
  by_cases hneg : n < 0
  · rw [if_pos hneg, if_pos hneg]
  · by_cases hoff : 0 ≤ off
    · rw [if_neg hneg, if_neg hneg, if_pos ⟨hoff, by omega⟩, if_pos ⟨hoff, by omega⟩]
      have hcut : ∀ m : Bytes, (m.drop off.toNat).take n.toNat = ((m.take k.toNat).drop off.toNat).take n.toNat := by
        intro m
        rw [List.drop_take, List.take_take, Nat.min_eq_left (by omega)]
      rw [hcut mem, hcut mem', h]
    · rw [if_neg hneg, if_neg hneg, if_neg (fun hin => hoff hin.1), if_neg (fun hin => hoff hin.1)]

/-- A copy depends on the bytes that it copies only. -/
theorem memcpy_congr {n : Nat} {mem mem' : Bytes} {k : Int} (h : mem.take k.toNat = mem'.take k.toNat) (hk : k ≤ mem.length)
    (hk' : k ≤ mem'.length) (dst : CArray n) (dstOff : Int) {off size : Int} (hsize : off + size ≤ k) :
    memcpy dst dstOff mem off size = memcpy dst dstOff mem' off size := by
  unfold memcpy
  rw [readBytes_congr h hk hk' hsize]

/-- A copy whose source is inside of its object can only leave its destination, behind its end. -/
theorem outOfRange_of_memcpy {n : Nat} {dst : CArray n} {src : Bytes} {dstOff srcOff size i : Int} (hd : 0 ≤ dstOff) (hs : 0 ≤ srcOff)
    (hin : srcOff + size ≤ src.length) (h : memcpy dst dstOff src srcOff size = .error (.outOfRange i)) : n < i := by
  by_cases hneg : size < 0
  · rw [memcpy_of_neg _ _ _ _ hneg] at h
    cases h
  · have hr : readBytes src srcOff size = .ok _ := readBytes_eq_ok.mpr ⟨by omega, hs, hin, rfl⟩
    have hlen := length_of_readBytes hr
    unfold memcpy CArray.write at h
    rw [hr, ok_bind] at h
    split at h
    · cases h
    · rename_i hout
      cases h
      omega

/-! ## C strings -/

/-- The C string of a text without a zero goes on with what is behind it. -/
theorem cStr_append {s : Bytes} (h : 0 ∉ s) (r : Bytes) : cStr (s ++ r) = s ++ cStr r := by
  unfold cStr
  refine List.takeWhile_append_of_pos fun c hc => ?_
  simpa using fun he : c = 0 => h (he ▸ hc)

/-- A zero ends the C string. -/
theorem cStr_append_of_mem {s : Bytes} (h : 0 ∈ s) (r : Bytes) : cStr (s ++ r) = cStr s := by
  unfold cStr
  rw [List.takeWhile_append, if_neg]
  intro hlen
  have heq := (List.takeWhile_prefix (l := s) (· != 0)).eq_of_length hlen
  rw [← heq] at h
  have := List.mem_takeWhile_imp h
  simp at this

/-- A string without a zero is the C string in front of one, whatever comes behind. -/
theorem cStr_append_zero {s : Bytes} (h : 0 ∉ s) (rest : Bytes) : cStr (s ++ 0 :: rest) = s := by
  rw [cStr_append h]
  simp [cStr]

/-- A text without a zero is its own C string. -/
theorem cStr_of_not_mem {s : Bytes} (h : 0 ∉ s) : cStr s = s :=
  List.takeWhile_eq_self_iff.mpr fun b hb => by simpa using ne_of_mem_of_not_mem hb h

/-- A string is read back from memory where it is followed by a zero, and only there. -/
theorem stringOf_eq_iff {s : Bytes} (h : 0 ∉ s) (b : UInt8) (rest : Bytes) : stringOf (s ++ b :: rest) = .ok s ↔ b = 0 := by
  constructor
  · intro hs
    by_contra hb
    have hlonger : cStr (s ++ b :: rest) = s ++ b :: cStr rest := by
      rw [cStr_append h]
      exact congrArg (s ++ ·) (List.takeWhile_cons_of_pos (by simpa using hb))
    unfold stringOf at hs
    split at hs
    · rw [hlonger] at hs
      exact absurd (Except.ok.inj hs) (by simp)
    · cases hs
  · rintro rfl
    rw [stringOf, if_pos (by simp), cStr_append_zero h]

/-- Copying a string without a zero overwrites as many bytes as it has, and does not end it. -/
theorem strncpy_of_not_mem {dst src : Bytes} {off n : Nat} (hn : n ≤ src.length) (h : 0 ∉ src.take n) (hd : off + n ≤ dst.length) :
    strncpy dst off src n = .ok (dst.take off ++ src.take n ++ dst.drop (off + n)) := by
  unfold strncpy
  rw [if_neg (by omega), if_neg (by omega), cStr_of_not_mem h]
  dsimp only
  rw [List.length_take, Nat.min_eq_left hn, Nat.sub_self, List.replicate_zero, List.append_nil]

end FrontServer
