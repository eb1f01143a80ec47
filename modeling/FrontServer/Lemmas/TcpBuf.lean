import FrontServer.Lib.Fifo
import FrontServer.Lib.Machine
import FrontServer.TcpBuf

/-!
# What the ring buffer holds

`TcpBuf.WellFormed` is the invariant of the two indices, `TcpBuf.contents` what a well-formed buffer holds. One statement for
each operation says what it does to the contents (`inputTcpPkg_of_le` and `inputTcpPkg_of_gt`, `preOutputTcpPkg_spec`, `outputTcpPkg_spec`).
-/

namespace FrontServer

namespace TcpBuf

/-- Both indices are inside of the array, and two cells at least are free. -/
structure WellFormed (b : TcpBuf) : Prop where
  start_nonneg : 0 ≤ b.mStart
  start_lt : b.mStart < maxBufSize
  end_nonneg : 0 ≤ b.mEnd
  end_lt : b.mEnd < maxBufSize
  dataLen_le : b.getDataLen ≤ maxBufSize - 2

/-- The bytes not yet read, the oldest first. -/
def contents (b : TcpBuf) : Bytes := window maxBufSize b.mBuf.get b.mStart.toNat b.getDataLen.toNat

/-- The most bytes a well-formed buffer holds. -/
def capacity : Nat := 8190

theorem new_wellFormed (client : Bytes) : (new client).WellFormed := by
  constructor <;> simp [new, getDataLen, maxBufSize]

@[simp] theorem contents_new (client : Bytes) : (new client).contents = [] := by
  simp [contents, new, getDataLen]

/-- The data length is the number of steps from the first index to the second. -/
theorem dataLen_spec {b : TcpBuf} (h : b.WellFormed) :
    0 ≤ b.getDataLen ∧ b.mEnd.toNat = ringIndex maxBufSize b.mStart.toNat b.getDataLen.toNat := by
  obtain ⟨h₁, h₂, h₃, h₄, h₅⟩ := h
  unfold getDataLen ringIndex at *
  unfold maxBufSize at *
  split_ifs at * <;> constructor <;> omega

/-- The second index determines the data length. -/
theorem getDataLen_of_end {b : TcpBuf} {n : Nat} (h₁ : 0 ≤ b.mStart) (h₂ : b.mStart < maxBufSize) (h₃ : 0 ≤ b.mEnd)
    (hn : n ≤ maxBufSize - 2) (h : b.mEnd.toNat = ringIndex maxBufSize b.mStart.toNat n) : b.getDataLen = n := by
  unfold getDataLen
  unfold ringIndex at h
  unfold maxBufSize at *
  split_ifs at * <;> omega

/-- A buffer whose second index is at most two cells short of a whole turn behind its first is well-formed. -/
theorem wellFormed_of_end {b : TcpBuf} {n : Nat} (h₁ : 0 ≤ b.mStart) (h₂ : b.mStart < maxBufSize) (h₃ : 0 ≤ b.mEnd)
    (hn : n ≤ maxBufSize - 2) (h : b.mEnd.toNat = ringIndex maxBufSize b.mStart.toNat n) : b.WellFormed := by
  have hlt : ringIndex maxBufSize b.mStart.toNat n < maxBufSize := ringIndex_lt (by omega) (by omega)
  refine ⟨h₁, h₂, h₃, by omega, ?_⟩
  rw [getDataLen_of_end h₁ h₂ h₃ hn h]
  unfold maxBufSize at *
  omega

@[simp] theorem length_contents (b : TcpBuf) : b.contents.length = b.getDataLen.toNat := by
  simp [contents]

/-- `GetDataLen` is the number of bytes held. -/
theorem getDataLen_eq {b : TcpBuf} (h : b.WellFormed) : b.getDataLen = b.contents.length := by
  have := (dataLen_spec h).1
  rw [length_contents]
  omega

theorem remainSize_eq {b : TcpBuf} (h : b.WellFormed) : b.remainSize = capacity - b.contents.length := by
  rw [remainSize, getDataLen_eq h]
  unfold capacity maxBufSize
  omega

theorem length_contents_le {b : TcpBuf} (h : b.WellFormed) : b.contents.length ≤ capacity := by
  have h₁ := getDataLen_eq h
  have h₂ := h.dataLen_le
  unfold capacity
  unfold maxBufSize at *
  omega

/-! ## Input -/

/-- The cells after a copy of `len` bytes from `data` to the places from `e` on. -/
def Written (data : Bytes) (e : Int) (len : Int) (cells cells' : Nat → UInt8) : Prop :=
  ∀ i < maxBufSize, cells' i =
    if e ≤ i ∧ i < e + len then data.getD (i - e).toNat 0
    else if i + maxBufSize < e + len then data.getD (i + maxBufSize - e).toNat 0
    else cells i

/-- What the copy leaves: the new end, the bytes from the old end on, and the cells it does not reach. -/
theorem copyIn_spec {b : TcpBuf} (h : b.WellFormed) {data : Bytes} {len : Int} (h₀ : 0 ≤ len) (hr : len ≤ b.remainSize)
    (hd : len ≤ data.length) :
    ∃ b', b.copyIn data len = .ok b' ∧ b'.mClient = b.mClient ∧ b'.mStart = b.mStart ∧ 0 ≤ b'.mEnd ∧
      b'.mEnd.toNat = ringIndex maxBufSize b.mEnd.toNat len.toNat ∧ Written data b.mEnd len b.mBuf.get b'.mBuf.get := by
  have h₁ := (dataLen_spec h).1
  obtain ⟨-, -, h₃, h₄, -⟩ := h
  have hrem : len ≤ maxBufSize - 2 := by
    unfold remainSize at hr
    omega
  unfold copyIn
  by_cases hw : b.mEnd + len ≥ maxBufSize
  · obtain ⟨buf₁, e₁, g₁⟩ := exists_memcpy b.mBuf data (show 0 ≤ maxBufSize - b.mEnd by omega) h₃ (by omega) le_rfl
      (by omega)
    obtain ⟨buf₂, e₂, g₂⟩ := exists_memcpy_unless buf₁ data (show 0 ≤ len - (maxBufSize - b.mEnd) by omega) le_rfl
      (by omega) (show 0 ≤ maxBufSize - b.mEnd by omega) (by omega)
    refine ⟨{ b with mBuf := buf₂, mEnd := len - (maxBufSize - b.mEnd) }, ?_, rfl, rfl, ?_, ?_, fun i hi => ?_⟩
    · rw [if_pos hw]
      dsimp only
      rw [e₁, ok_bind, e₂]
      rfl
    · dsimp only
      omega
    · dsimp only [ringIndex]
      rw [if_neg (by omega)]
      omega
    · dsimp only
      rw [g₂, g₁]
      by_cases hi₁ : b.mEnd ≤ i
      · rw [if_neg (by omega), if_pos (by omega), if_pos (by omega)]
        congr 2
        omega
      · rw [if_neg (by omega : ¬(b.mEnd ≤ i ∧ i < b.mEnd + len))]
        by_cases hi₂ : i + maxBufSize < b.mEnd + len
        · rw [if_pos (by omega), if_pos (by omega)]
          congr 2
          omega
        · rw [if_neg (by omega), if_neg (by omega), if_neg (by omega)]
  · obtain ⟨buf₁, e₁, g₁⟩ := exists_memcpy b.mBuf data h₀ h₃ (by omega) le_rfl (by omega)
    refine ⟨{ b with mBuf := buf₁, mEnd := b.mEnd + len }, ?_, rfl, rfl, ?_, ?_, fun i hi => ?_⟩
    · rw [if_neg hw, e₁]
      rfl
    · dsimp only
      omega
    · dsimp only [ringIndex]
      rw [if_pos (by omega)]
      omega
    · dsimp only
      rw [g₁]
      by_cases hi₁ : b.mEnd ≤ i ∧ i < b.mEnd + len
      · rw [if_pos hi₁, if_pos hi₁]
        congr 2
        omega
      · rw [if_neg hi₁, if_neg hi₁, if_neg (by omega)]

/-- A copy in that succeeds is of a non-negative number of bytes, all of them the caller's. -/
theorem copyIn_eq_ok {b b' : TcpBuf} {data : Bytes} {len : Int} (h : b.WellFormed) (hc : b.copyIn data len = .ok b') :
    0 ≤ len ∧ len ≤ data.length := by
  have h₃ := h.end_nonneg
  have h₄ := h.end_lt
  unfold copyIn at hc
  split at hc
  · dsimp only at hc
    obtain ⟨buf₁, e₁, hc⟩ := bind_eq_ok.mp hc
    obtain ⟨buf₂, e₂, -⟩ := bind_eq_ok.mp hc
    have := memcpy_eq_ok e₁
    split at e₂
    · have := memcpy_eq_ok e₂
      omega
    · omega
  · obtain ⟨buf₁, e₁, -⟩ := bind_eq_ok.mp hc
    have := memcpy_eq_ok e₁
    omega

/-- A segment that does not fit is refused, and the buffer is left as it was. -/
theorem inputTcpPkg_of_gt {b : TcpBuf} (h : b.WellFormed) {data : Bytes} {len : Int}
    (hlen : (capacity : Int) < b.contents.length + len) : b.inputTcpPkg data len = .ok (false, b) := by
  unfold inputTcpPkg
  rw [if_pos]
  · rfl
  · rw [remainSize_eq h]
    omega

/-- The bytes in front of the place written stay. -/
theorem Written.window_before {data : Bytes} {len : Int} {cells cells' : Nat → UInt8} {s n : Nat} (hs : s < maxBufSize)
    (hn : n + len.toNat ≤ maxBufSize) (h : Written data (ringIndex maxBufSize s n) len cells cells') :
    window maxBufSize cells' s n = window maxBufSize cells s n := by
  apply window_congr
  intro k hk
  have hlt := ringIndex_lt hs (show k ≤ maxBufSize by omega)
  rw [h _ hlt]
  unfold ringIndex
  split_ifs <;> first | rfl | omega

/-- The bytes written are the caller's. -/
theorem Written.window_after {data : Bytes} {len : Int} {cells cells' : Nat → UInt8} {e : Nat} (he : e < maxBufSize)
    (hn : len.toNat ≤ maxBufSize) (hd : len ≤ data.length) (h : Written data e len cells cells') :
    window maxBufSize cells' e len.toNat = data.take len.toNat := by
  have hl : (data.take len.toNat).length = len.toNat := by rw [List.length_take]; omega
  refine window_eq_of_forall hl fun k hk => ?_
  have hlt := ringIndex_lt he (show k ≤ maxBufSize by omega)
  have hkd : k < data.length := by omega
  have hget : ∀ j : Nat, j = k → data.getD j 0 = data[k] := by
    rintro j rfl
    rw [List.getD_eq_getElem]
  rw [h _ hlt, List.getElem_take]
  unfold ringIndex at hlt ⊢
  by_cases hwrap : e + k < maxBufSize
  · rw [if_pos hwrap, if_pos (by omega)]
    exact hget _ (by omega)
  · rw [if_neg hwrap, if_neg (by omega), if_pos (by omega)]
    exact hget _ (by omega)

/-- The terminator under the new end changes no byte in front of it. -/
theorem window_terminator {a a' : CArray maxBufSize} {s n : Nat} {e : Int} (hn : n < maxBufSize)
    (he : e.toNat = ringIndex maxBufSize s n) (h : a.write e [0] = .ok a') :
    window maxBufSize a'.get s n = window maxBufSize a.get s n := by
  apply window_congr
  intro k hk
  have hne : ringIndex maxBufSize s k ≠ e.toNat := he ▸ ringIndex_ne hk hn
  rw [CArray.get_write h, List.length_singleton, if_neg (by omega)]

/-- A segment that fits is appended. -/
theorem inputTcpPkg_of_le {b : TcpBuf} (h : b.WellFormed) {data : Bytes} {len : Int} (h₀ : 0 ≤ len)
    (hd : len ≤ data.length) (hlen : b.contents.length + len ≤ capacity) :
    ∃ b', b.inputTcpPkg data len = .ok (true, b') ∧ b'.WellFormed ∧ b'.mClient = b.mClient ∧
      b'.contents = b.contents ++ data.take len.toNat := by
  have hr : len ≤ b.remainSize := by rw [remainSize_eq h]; omega
  obtain ⟨⟨cl, a, s, e⟩, e₁, hcl, hst, hen₀, hen, hget⟩ := copyIn_spec h h₀ hr hd
  obtain ⟨hn₀, hend⟩ := dataLen_spec h
  obtain ⟨hs₀, hs₁, he₀, he₁, -⟩ := h
  dsimp only at hcl hst hen₀ hen hget
  subst hcl hst
  have hn : b.getDataLen.toNat + len.toNat ≤ maxBufSize - 2 := by
    rw [length_contents] at hlen
    unfold capacity at hlen
    unfold maxBufSize at *
    omega
  have hN : 2 ≤ maxBufSize := by decide
  have hS : b.mStart.toNat < maxBufSize := by omega
  -- the new end is as many cells behind the start as there are bytes now
  have hend₁ : e.toNat = ringIndex maxBufSize b.mStart.toNat (b.getDataLen.toNat + len.toNat) := by
    rw [hen, hend, ringIndex_add hS (by omega)]
  have hlt : e.toNat < maxBufSize := hend₁ ▸ ringIndex_lt hS (by omega)
  obtain ⟨a', e₂⟩ := a.exists_write [0] hen₀ (by rw [List.length_singleton]; omega)
  refine ⟨⟨b.mClient, a', b.mStart, e⟩, ?_, wellFormed_of_end hs₀ hs₁ hen₀ hn hend₁, rfl, ?_⟩
  · unfold inputTcpPkg
    rw [if_neg (by omega), e₁, ok_bind, e₂]
    rfl
  · have hw : Written data (ringIndex maxBufSize b.mStart.toNat b.getDataLen.toNat) len b.mBuf.get a.get := by
      intro i hi
      rw [hget i hi, ← hend, Int.toNat_of_nonneg he₀]
    have hl : (⟨b.mClient, a', b.mStart, e⟩ : TcpBuf).getDataLen = (b.getDataLen.toNat + len.toNat : Nat) :=
      getDataLen_of_end hs₀ hs₁ hen₀ hn hend₁
    unfold contents
    rw [hl, Int.toNat_natCast]
    dsimp only
    rw [window_terminator (by omega) hend₁ e₂, window_add _ hS (by omega), hw.window_before hS (by omega),
      hw.window_after (ringIndex_lt hS (by omega)) (by omega) hd]

/-- A call that succeeds refuses the segment, or appends a segment of a non-negative number of bytes, all the caller's. -/
theorem inputTcpPkg_eq_ok {b b' : TcpBuf} (h : b.WellFormed) {data : Bytes} {len : Int} {ret : Bool}
    (hc : b.inputTcpPkg data len = .ok (ret, b')) :
    capacity < b.contents.length + len ∨ 0 ≤ len ∧ len ≤ data.length := by
  by_cases hr : len > b.remainSize
  · left
    rw [remainSize_eq h] at hr
    omega
  · right
    unfold inputTcpPkg at hc
    rw [if_neg hr] at hc
    obtain ⟨b₁, e₁, -⟩ := bind_eq_ok.mp hc
    exact copyIn_eq_ok h e₁

/-- `InputTcpPkg` reads the first `len` bytes of the caller's memory. -/
theorem inputTcpPkg_congr {b : TcpBuf} (hwf : b.WellFormed) {data data' : Bytes} {len : Int}
    (h : data.take len.toNat = data'.take len.toNat) (hlen : len ≤ data.length) (hlen' : len ≤ data'.length) :
    b.inputTcpPkg data len = b.inputTcpPkg data' len := by
  have hcopy : b.copyIn data len = b.copyIn data' len := by
    have hend := hwf.end_lt
    unfold copyIn
    split
    · dsimp only
      rw [memcpy_congr h hlen hlen' b.mBuf b.mEnd (show 0 + (maxBufSize - b.mEnd) ≤ len by omega)]
      congr 1
      funext buf
      rw [memcpy_congr h hlen hlen' buf 0 (show maxBufSize - b.mEnd + (len - (maxBufSize - b.mEnd)) ≤ len by omega)]
    · rw [memcpy_congr h hlen hlen' b.mBuf b.mEnd (show 0 + len ≤ len by omega)]
  unfold inputTcpPkg
  rw [hcopy]

/-! ## Output -/

/-- What the copy gives the caller: the oldest bytes, and the place of the first one not copied. -/
theorem copyOut_spec {n : Nat} {b : TcpBuf} (h : b.WellFormed) (data : CArray n) {len : Int} (h₀ : 0 ≤ len)
    (hl : len ≤ b.getDataLen) (hn : len ≤ n) :
    ∃ a next, b.copyOut data len = .ok (a, next) ∧ 0 ≤ next ∧
      next.toNat = ringIndex maxBufSize b.mStart.toNat len.toNat ∧
      a.bytes.take len.toNat = b.contents.take len.toNat := by
  obtain ⟨hs₀, hs₁, -, -, hdl⟩ := h
  have hN : b.getDataLen ≤ maxBufSize := by omega
  have hS : b.mStart.toNat < maxBufSize := by omega
  have hsize := b.mBuf.size_eq
  -- a caller's array that holds the window from the start on holds the oldest bytes
  have hgoal : ∀ a : CArray n, (∀ k < len.toNat, a.get k = b.mBuf.get (ringIndex maxBufSize b.mStart.toNat k)) →
      a.bytes.take len.toNat = b.contents.take len.toNat := by
    intro a ha
    rw [CArray.take_bytes a (by omega), contents, take_window _ hS (by omega) (by omega)]
    apply List.map_congr_left
    intro k hk
    exact ha k (List.mem_range.mp hk)
  unfold copyOut
  by_cases hw : len + b.mStart ≥ maxBufSize
  · obtain ⟨a₁, e₁, g₁⟩ := exists_memcpy data b.mBuf.bytes (show 0 ≤ maxBufSize - b.mStart by omega) le_rfl (by omega) hs₀
      (by omega)
    obtain ⟨a₂, e₂, g₂⟩ := exists_memcpy_unless a₁ b.mBuf.bytes (show 0 ≤ len - (maxBufSize - b.mStart) by omega)
      (show 0 ≤ maxBufSize - b.mStart by omega) (by omega) le_rfl (by omega)
    refine ⟨a₂, len - (maxBufSize - b.mStart), ?_, by omega, ?_, hgoal a₂ fun k hk => ?_⟩
    · rw [if_pos hw]
      dsimp only
      rw [e₁, ok_bind, e₂]
      rfl
    · unfold ringIndex
      rw [if_neg (by omega)]
      omega
    · by_cases hk₁ : b.mStart.toNat + k < maxBufSize
      · have hk₂ : ¬(maxBufSize - b.mStart ≤ k ∧ k < maxBufSize - b.mStart + (len - (maxBufSize - b.mStart))) := by omega
        rw [g₂, if_neg hk₂, g₁, if_pos (by omega), ringIndex, if_pos hk₁, CArray.get]
        congr 1
        omega
      · have hk₂ : maxBufSize - b.mStart ≤ k ∧ k < maxBufSize - b.mStart + (len - (maxBufSize - b.mStart)) := by omega
        have hk₃ : (0 + k - (maxBufSize - b.mStart)).toNat = b.mStart.toNat + k - maxBufSize := by omega
        rw [g₂, if_pos hk₂, hk₃, ringIndex, if_neg hk₁, CArray.get]
  · obtain ⟨a₁, e₁, g₁⟩ := exists_memcpy data b.mBuf.bytes h₀ le_rfl (by omega) hs₀ (by omega)
    refine ⟨a₁, b.mStart + len, ?_, by omega, ?_, hgoal a₁ fun k hk => ?_⟩
    · rw [if_neg hw, e₁]
      rfl
    · unfold ringIndex
      rw [if_pos (by omega)]
      omega
    · rw [g₁, if_pos (by omega), ringIndex, if_pos (by omega), CArray.get]
      congr 1
      omega

/-- A copy out that succeeds is of a non-negative number of bytes, and the caller's array has room for them. -/
theorem copyOut_eq_ok {n : Nat} {b : TcpBuf} (h : b.WellFormed) {data : CArray n} {len : Int} {r : CArray n × Int}
    (hc : b.copyOut data len = .ok r) : 0 ≤ len ∧ len ≤ n := by
  have h₁ := h.start_nonneg
  have h₂ := h.start_lt
  unfold copyOut at hc
  split at hc
  · dsimp only at hc
    obtain ⟨a₁, e₁, hc⟩ := bind_eq_ok.mp hc
    obtain ⟨a₂, e₂, -⟩ := bind_eq_ok.mp hc
    have := memcpy_eq_ok e₁
    split at e₂
    · have := memcpy_eq_ok e₂
      omega
    · omega
  · obtain ⟨a₁, e₁, -⟩ := bind_eq_ok.mp hc
    have := memcpy_eq_ok e₁
    omega

/-- A copy out of a ring can only leave the caller's array, behind its end. -/
theorem outOfRange_of_copyOut {n : Nat} {b : TcpBuf} (hwf : b.WellFormed) {data : CArray n} {len i : Int} (hlen : len ≤ b.getDataLen)
    (h : b.copyOut data len = .error (.outOfRange i)) : n < i := by
  have hstart := hwf.start_nonneg
  have hlt := hwf.start_lt
  have hcap := hwf.dataLen_le
  have hsize := b.mBuf.size_eq
  unfold copyOut at h
  split at h
  · dsimp only at h
    cases h₁ : memcpy data 0 b.mBuf.bytes b.mStart (maxBufSize - b.mStart) with
    | error e =>
      rw [h₁, error_bind] at h
      cases h
      exact outOfRange_of_memcpy le_rfl hstart (by omega) h₁
    | ok a =>
      rw [h₁, ok_bind] at h
      split at h
      · cases h₂ : memcpy a (maxBufSize - b.mStart) b.mBuf.bytes 0 (len - (maxBufSize - b.mStart)) with
        | error e =>
          rw [h₂, error_bind] at h
          cases h
          exact outOfRange_of_memcpy (by omega) le_rfl (by omega) h₂
        | ok a' =>
          rw [h₂] at h
          cases h
      · cases h
  · cases h₁ : memcpy data 0 b.mBuf.bytes b.mStart len with
    | error e =>
      rw [h₁, error_bind] at h
      cases h
      exact outOfRange_of_memcpy le_rfl hstart (by omega) h₁
    | ok a =>
      rw [h₁] at h
      cases h

/-- A length is cut to what is held. -/
theorem cutLen_eq {b : TcpBuf} (h : b.WellFormed) (len : Int) : b.cutLen len = min len b.contents.length := by
  unfold cutLen
  rw [getDataLen_eq h]
  split <;> omega

/-- `PreOutputTcpPkg` gives the oldest bytes, as many as asked for or as there are. -/
theorem preOutputTcpPkg_spec {n : Nat} {b : TcpBuf} (h : b.WellFormed) (data : CArray n) {len : Int} (h₀ : 0 ≤ len)
    (hn : min len b.contents.length ≤ n) :
    ∃ a, b.preOutputTcpPkg data len = .ok (min len b.contents.length, a) ∧
      a.bytes.take (min len b.contents.length).toNat = b.contents.take len.toNat := by
  have hdl := getDataLen_eq h
  obtain ⟨a, next, e, -, -, ht⟩ := copyOut_spec h data (show 0 ≤ min len b.contents.length by omega) (by omega) hn
  refine ⟨a, ?_, ?_⟩
  · unfold preOutputTcpPkg
    rw [cutLen_eq h, e]
    rfl
  · rw [ht, show (min len b.contents.length).toNat = min len.toNat b.contents.length by omega, List.take_eq_take_iff]
    omega

/-- `OutputTcpPkg` gives the same bytes and removes them. -/
theorem outputTcpPkg_spec {n : Nat} {b : TcpBuf} (h : b.WellFormed) (data : CArray n) {len : Int} (h₀ : 0 ≤ len)
    (hn : min len b.contents.length ≤ n) :
    ∃ a b', b.outputTcpPkg data len = .ok (min len b.contents.length, a, b') ∧
      a.bytes.take (min len b.contents.length).toNat = b.contents.take len.toNat ∧
      b'.WellFormed ∧ b'.mClient = b.mClient ∧ b'.contents = b.contents.drop len.toNat := by
  have hdl := getDataLen_eq h
  obtain ⟨-, hend⟩ := dataLen_spec h
  have hcap := h.dataLen_le
  obtain ⟨a, next, e, hnext₀, hnext, ht⟩ := copyOut_spec h data (show 0 ≤ min len b.contents.length by omega) (by omega) hn
  obtain ⟨hs₀, hs₁, he₀, he₁, -⟩ := h
  have hk : (min len b.contents.length).toNat ≤ b.getDataLen.toNat := by omega
  have hS : b.mStart.toNat < maxBufSize := by omega
  have hnext₁ : next.toNat < maxBufSize := hnext ▸ ringIndex_lt hS (by omega)
  -- the bytes left are those between the new start and the end
  have hend₁ : b.mEnd.toNat =
      ringIndex maxBufSize next.toNat (b.getDataLen.toNat - (min len b.contents.length).toNat) := by
    rw [hnext, ringIndex_add hS (by omega), hend]
    congr 1
    omega
  have hl : ({ b with mStart := next } : TcpBuf).getDataLen =
      (b.getDataLen.toNat - (min len b.contents.length).toNat : Nat) :=
    getDataLen_of_end hnext₀ (by dsimp only; omega) he₀ (by omega) hend₁
  have hwf : ({ b with mStart := next } : TcpBuf).WellFormed :=
    wellFormed_of_end hnext₀ (by dsimp only; omega) he₀ (show b.getDataLen.toNat - (min len b.contents.length).toNat ≤
      maxBufSize - 2 by omega) hend₁
  refine ⟨a, { b with mStart := next }, ?_, ?_, hwf, rfl, ?_⟩
  · unfold outputTcpPkg
    rw [cutLen_eq ⟨hs₀, hs₁, he₀, he₁, hcap⟩, e]
    rfl
  · rw [ht, show (min len b.contents.length).toNat = min len.toNat b.contents.length by omega, List.take_eq_take_iff]
    omega
  · have hd := drop_window b.mBuf.get hS (show b.getDataLen.toNat ≤ maxBufSize by omega) hk
    have hc : b.contents.drop len.toNat = b.contents.drop (min len b.contents.length).toNat := by
      rw [List.drop_eq_drop_iff]
      omega
    rw [← contents, ← hnext] at hd
    rw [hc, hd, contents, hl, Int.toNat_natCast]

end TcpBuf

end FrontServer
