import FrontServer.Theorems.TcpBuf

/-!
# Where the ring buffer copies

Each call splits what it copies at the end of the array (`splitCopies`), and its copies are those the code makes (`copyIn_eq`,
`copyOut_eq`). In every reachable state all of them are ranges of the array and of the caller's memory, and the two cells that
`RemainSize` keeps back leave the terminator a cell of its own (`copies_in_range`).
-/

namespace FrontServer

/-- A `memcpy` between the array and the caller's memory: where it starts in each, and its size. -/
structure RingCopy where
  buf : Int
  caller : Int
  size : Int

/-- A copy of a non-negative size, inside of the array and of the first `len` bytes of the caller. -/
structure RingCopy.InRange (c : RingCopy) (len : Int) : Prop where
  size_nonneg : 0 ≤ c.size
  buf_nonneg : 0 ≤ c.buf
  buf_le : c.buf + c.size ≤ maxBufSize
  caller_nonneg : 0 ≤ c.caller
  caller_le : c.caller + c.size ≤ len

theorem RingCopy.InRange.mono {c : RingCopy} {len len' : Int} (h : c.InRange len) (hle : len ≤ len') : c.InRange len' :=
  ⟨h.size_nonneg, h.buf_nonneg, h.buf_le, h.caller_nonneg, h.caller_le.trans hle⟩

/-- The length that a call is given. -/
def TcpCall.len : TcpCall → Int
  | .input data => data.length
  | .preOutput _ len _ => len
  | .output _ len _ => len
  | .getDataLen => 0

namespace TcpBuf

/-- The copies of `len` bytes at the index `i`, in two pieces when they reach the end of the array. -/
def splitCopies (i len : Int) : List RingCopy :=
  if i + len ≥ maxBufSize then
    { buf := i, caller := 0, size := maxBufSize - i } ::
      if 0 ≠ len - (maxBufSize - i) then [{ buf := 0, caller := maxBufSize - i, size := len - (maxBufSize - i) }] else []
  else [{ buf := i, caller := 0, size := len }]

/-- The index behind them. -/
def indexBehind (i len : Int) : Int := if i + len ≥ maxBufSize then len - (maxBufSize - i) else i + len

/-- The copies that a call makes. -/
def copies (b : TcpBuf) : TcpCall → List RingCopy
  | .input data => if data.length > b.remainSize then [] else splitCopies b.mEnd data.length
  | .preOutput _ len _ => splitCopies b.mStart (b.cutLen len)
  | .output _ len _ => splitCopies b.mStart (b.cutLen len)
  | .getDataLen => []

/-- `InputTcpPkg` makes these copies into the array. -/
theorem copyIn_eq (b : TcpBuf) (data : Bytes) (len : Int) :
    b.copyIn data len =
      ((splitCopies b.mEnd len).foldlM (fun buf c => memcpy buf c.buf data c.caller c.size) b.mBuf).map
        (fun buf => { b with mBuf := buf, mEnd := indexBehind b.mEnd len }) := by
  unfold copyIn splitCopies indexBehind
  split
  · dsimp only
    rw [List.foldlM_cons]
    cases memcpy b.mBuf b.mEnd data 0 (maxBufSize - b.mEnd) with
    | error e => rfl
    | ok buf =>
      rw [ok_bind, ok_bind]
      split
      · rw [List.foldlM_cons]
        cases memcpy buf 0 data (maxBufSize - b.mEnd) (len - (maxBufSize - b.mEnd)) with
        | error e => rfl
        | ok buf' => rfl
      · rfl
  · rw [List.foldlM_cons]
    cases memcpy b.mBuf b.mEnd data 0 len with
    | error e => rfl
    | ok buf => rfl

/-- The other two make them out of it. -/
theorem copyOut_eq {n : Nat} (b : TcpBuf) (data : CArray n) (len : Int) :
    b.copyOut data len =
      ((splitCopies b.mStart len).foldlM (fun data c => memcpy data c.caller b.mBuf.bytes c.buf c.size) data).map
        (fun data => (data, indexBehind b.mStart len)) := by
  unfold copyOut splitCopies indexBehind
  rw [Int.add_comm]
  split
  · dsimp only
    rw [List.foldlM_cons]
    cases memcpy data 0 b.mBuf.bytes b.mStart (maxBufSize - b.mStart) with
    | error e => rfl
    | ok data' =>
      rw [ok_bind, ok_bind]
      split
      · rw [List.foldlM_cons]
        cases memcpy data' (maxBufSize - b.mStart) b.mBuf.bytes 0 (len - (maxBufSize - b.mStart)) with
        | error e => rfl
        | ok data'' => rfl
      · rfl
  · rw [List.foldlM_cons, Int.add_comm]
    cases memcpy data 0 b.mBuf.bytes b.mStart len with
    | error e => rfl
    | ok data' => rfl

/-- Pieces of at most the array's size from an index on are in range. -/
theorem inRange_of_mem_splitCopies {i len : Int} (h₀ : 0 ≤ i) (h₁ : i < maxBufSize) (hlen : 0 ≤ len) (hmax : len ≤ maxBufSize)
    {c : RingCopy} (hc : c ∈ splitCopies i len) : c.InRange len := by
  unfold splitCopies at hc
  split at hc
  · rcases List.mem_cons.mp hc with rfl | hc
    · exact ⟨by dsimp only; omega, h₀, by dsimp only; omega, le_rfl, by dsimp only; omega⟩
    · split at hc
      · rw [List.mem_singleton.mp hc]
        exact ⟨by dsimp only; omega, le_rfl, by dsimp only; omega, by dsimp only; omega, by dsimp only; omega⟩
      · cases hc
  · rw [List.mem_singleton.mp hc]
    exact ⟨hlen, h₀, by dsimp only; omega, le_rfl, by dsimp only; omega⟩

/-- The copies of a well-formed buffer are in range. -/
theorem WellFormed.inRange {b : TcpBuf} (h : b.WellFormed) (call : TcpCall) : ∀ c ∈ b.copies call, c.InRange call.len := by
  have hdata := (dataLen_spec h).1
  obtain ⟨hs₀, hs₁, he₀, he₁, hdl⟩ := h
  have hout : ∀ len : Nat, ∀ c ∈ splitCopies b.mStart (b.cutLen len), c.InRange len := by
    intro len c hc
    have hcut : 0 ≤ b.cutLen len ∧ b.cutLen len ≤ len ∧ b.cutLen len ≤ b.getDataLen := by
      unfold cutLen
      split
      · omega
      · omega
    exact (inRange_of_mem_splitCopies hs₀ hs₁ hcut.1 (by omega) hc).mono hcut.2.1
  intro c hc
  cases call with
  | input data =>
    rw [copies] at hc
    split at hc
    · cases hc
    · rename_i hroom
      unfold remainSize at hroom
      exact inRange_of_mem_splitCopies he₀ he₁ (Int.natCast_nonneg _) (by omega) hc
  | preOutput data len room => exact hout len c hc
  | output data len room => exact hout len c hc
  | getDataLen => cases hc

/-- The cell under the second index holds no byte that is still to be read. -/
theorem WellFormed.terminator {b : TcpBuf} (h : b.WellFormed) (k : Nat) (hk : k < b.getDataLen) :
    (b.mStart + k) % maxBufSize ≠ b.mEnd := by
  obtain ⟨hs₀, hs₁, he₀, he₁, hdl⟩ := h
  unfold getDataLen at hk hdl
  unfold maxBufSize at *
  split at hk
  · omega
  · split at hk
    · omega
    · omega

/-- A fresh buffer driven by any calls never faults. In the state it gets to, the data length is between 0 and 8190, and the next call,
whichever it is, copies with non-negative sizes, inside of the array and of the caller's first `len` bytes, and leaves its second
index, where `InputTcpPkg` puts the terminator, inside of the array and away from all bytes still to be read. -/
theorem copies_in_range (client : Bytes) (calls : List TcpCall) :
    ∃ replies b, machine.run (new client) calls = some (replies, b) ∧ 0 ≤ b.getDataLen ∧ b.getDataLen ≤ 8190 ∧
      ∀ call, (∀ c ∈ b.copies call, c.InRange call.len) ∧
        ∃ reply b', machine.step b call = some (reply, b') ∧ 0 ≤ b'.mEnd ∧ b'.mEnd < maxBufSize ∧
          ∀ k : Nat, k < b'.getDataLen → (b'.mStart + k) % maxBufSize ≠ b'.mEnd := by
  obtain ⟨replies, q, hq⟩ := fifoMachine_total BoundedFifo.empty calls
  obtain ⟨b, hb, hwf, hc⟩ := simulates_fifo.some_run (new_holds_empty client) hq
  refine ⟨replies, b, hb, (dataLen_spec hwf).1, hwf.dataLen_le, fun call => ⟨hwf.inRange call, ?_⟩⟩
  obtain ⟨replies', q', hq'⟩ := fifoMachine_total q [call]
  obtain ⟨reply, q'', _, hstep, -, -⟩ := Machine.run_cons_eq_some.mp hq'
  obtain ⟨b', hb', hwf', -⟩ := simulates_fifo.some_step ⟨hwf, hc⟩ hstep
  exact ⟨reply, b', hb', hwf'.end_nonneg, hwf'.end_lt, hwf'.terminator⟩

end TcpBuf

end FrontServer
