import FrontServer.Lemmas.HeadEnds

/-!
# The length that `ParseHttpPkg` asks for

The length is the declared one and the place where the head ends. What is buffered is the only bound on it, and the buffer is twice
the array that the bytes are copied to. So a declared length may take it below zero, above the array, or out of an `int`.
-/

namespace FrontServer

namespace HttpBuf

open HttpFlow

/-- `ParseHttpPkg` comes to add up this value of `Content-Length` and this end of the head. -/
def Reads (h : HttpBuf) (value : Bytes) (remainPos : Int) : Prop :=
  ∃ len readBuf head, h.mTcpBuf.preOutputTcpPkg (CArray.zeros readBufSize) readBufSize = .ok (len, readBuf) ∧ 0 < len ∧
    getHttpHeaders readBuf.bytes len HttpHead.empty 0 = .ok (true, head, remainPos) ∧
      head.headers.lookup (ascii "Content-Length") = some value

/-- `ParseHttpPkg` reaches `OutputTcpPkg` with this sum. One that does not fit an `int` is compared as the `int` it wraps to. -/
def Outputs (h : HttpBuf) (length : Int) : Prop :=
  ∃ value remainPos, h.Reads value remainPos ∧ length = atoi (cStr value) + remainPos ∧
    h.mTcpBuf.getDataLen ≥ length.bmod (2 ^ 32)

/-- The value that a head in front of the buffered bytes declares is not below zero by more than the head is long, fits an `int` with
the head, and fits the array with it, unless so much is not there yet. -/
def DeclaresFit (q : Bytes) : Prop :=
  ∀ ls e value, HeadEnds (q.take readBufSize) ls e → fieldOf contentLength ls = some value →
    -(e : Int) ≤ atoi (cStr value) ∧ atoi (cStr value) < 2 ^ 31 - e ∧
      (atoi (cStr value) ≤ readBufSize - e ∨ q.length - e < atoi (cStr value))

/-- What `ParseHttpPkg` reads is in the first bytes of the queue. -/
theorem reads_iff {h : HttpBuf} {q : Queue} (hq : h.Holds q) {value : Bytes} {remainPos : Int} :
    h.Reads value remainPos ↔
      ∃ ls e, HeadEnds (q.items.take readBufSize) ls e ∧ fieldOf contentLength ls = some value ∧ remainPos = (e : Nat) := by
  obtain ⟨a, hpeek, hread⟩ := peek_spec hq
  constructor
  · rintro ⟨len, readBuf, head, hout, hpos, hscan, hvalue⟩
    rw [hpeek] at hout
    cases hout
    have hne : q.items ≠ [] := by
      intro hnil
      rw [hnil] at hpos
      exact absurd hpos (by decide)
    rw [(hread hne).2] at hscan
    obtain ⟨ls, e, hends, -, rfl, he⟩ := (getHttpHeaders_eq_ok (front_ne_nil hne)).mp hscan
    rw [lookup_readLines_empty] at hvalue
    exact ⟨ls, e, hends, hvalue, he⟩
  · rintro ⟨ls, e, hends, hf, rfl⟩
    have hfront := hends.ne_nil hf
    have hne : q.items ≠ [] := by
      intro hnil
      rw [hnil] at hfront
      exact hfront rfl
    obtain ⟨hpos, hscan⟩ := hread hne
    refine ⟨_, a, readLines ls HttpHead.empty, hpeek, hpos, ?_, ?_⟩
    · rw [hscan]
      exact (getHttpHeaders_eq_ok hfront).mpr ⟨ls, e, hends, rfl, rfl, rfl⟩
    · rw [lookup_readLines_empty]
      exact hf

/-- `atoi` gives an `int`. -/
theorem atoi_bounds (s : Bytes) : -2 ^ 31 ≤ atoi s ∧ atoi s < 2 ^ 31 := by
  have hlo := Int.le_bmod (x := strtol s) (m := 2 ^ 32) (by decide)
  have hhi := Int.bmod_lt (x := strtol s) (m := 2 ^ 32) (by decide)
  unfold atoi
  omega

/-- A sum of an `int` and a small number is an `int`, or wraps to a negative one. -/
theorem bmod_length {length : Int} (hlo : -2 ^ 31 ≤ length) (hhi : length < 2 ^ 31 + 2 ^ 13) :
    length < 2 ^ 31 ∧ length.bmod (2 ^ 32) = length ∨ 2 ^ 31 ≤ length ∧ length.bmod (2 ^ 32) < 0 := by
  by_cases h : length < 2 ^ 31
  · exact Or.inl ⟨h, Int.bmod_eq_of_le (by omega) (by omega)⟩
  · right
    have hwrap : length.bmod (2 ^ 32) = length - 2 ^ 32 := by
      rw [← Int.sub_bmod_right]
      exact Int.bmod_eq_of_le (by omega) (by omega)
    omega

/-- `OutputTcpPkg` is reached when the sum is no `int`, or what is buffered is as much. -/
theorem outputs_iff {h : HttpBuf} {q : Queue} (hq : h.Holds q) {length : Int} :
    h.Outputs length ↔
      ∃ ls e value, HeadEnds (q.items.take readBufSize) ls e ∧ fieldOf contentLength ls = some value ∧
        length = atoi (cStr value) + (e : Nat) ∧ (2 ^ 31 ≤ length ∨ length ≤ q.items.length) := by
  have hdl : h.mTcpBuf.getDataLen = q.items.length := by rw [TcpBuf.getDataLen_eq hq.1, hq.2]
  have hwrap : ∀ ls e value, HeadEnds (q.items.take readBufSize) ls e → length = atoi (cStr value) + (e : Nat) →
      (h.mTcpBuf.getDataLen ≥ length.bmod (2 ^ 32) ↔ 2 ^ 31 ≤ length ∨ length ≤ q.items.length) := by
    intro ls e value hends hlength
    have hatoi := atoi_bounds (cStr value)
    have he := hends.le
    have hfront : (q.items.take readBufSize).length ≤ 4096 := List.length_take_le _ _
    rcases @bmod_length length (by omega) (by omega) with ⟨hint, hbmod⟩ | ⟨hbig, hbmod⟩
    · rw [hbmod, hdl]
      omega
    · rw [hdl]
      omega
  constructor
  · rintro ⟨value, remainPos, hread, hlength, hreach⟩
    obtain ⟨ls, e, hends, hf, rfl⟩ := (reads_iff hq).mp hread
    exact ⟨ls, e, value, hends, hf, hlength, (hwrap ls e value hends hlength).mp hreach⟩
  · rintro ⟨ls, e, value, hends, hf, hlength, hreach⟩
    exact ⟨value, e, (reads_iff hq).mpr ⟨ls, e, hends, hf, rfl⟩, hlength, (hwrap ls e value hends hlength).mpr hreach⟩

/-- The lengths asked for fit when what the head declares does. -/
theorem outputs_fit_iff {h : HttpBuf} {q : Queue} (hq : h.Holds q) :
    (∀ length, h.Outputs length → length < 2 ^ 31 ∧ 0 ≤ length ∧ length ≤ readBufSize) ↔ DeclaresFit q.items := by
  constructor
  · intro hfit ls e value hends hf
    have hfits : ∀ length, length = atoi (cStr value) + (e : Int) → (2 ^ 31 ≤ length ∨ length ≤ q.items.length) →
        length < 2 ^ 31 ∧ 0 ≤ length ∧ length ≤ readBufSize := fun length hlength hreach =>
      hfit length ((outputs_iff hq).mpr ⟨ls, e, value, hends, hf, hlength, hreach⟩)
    have hsum := hfits _ rfl
    omega
  · intro hdeclares length hout
    obtain ⟨ls, e, value, hends, hf, hlength, hreach⟩ := (outputs_iff hq).mp hout
    obtain ⟨hlo, hint, hroom⟩ := hdeclares ls e value hends hf
    omega

/-- A length that is reached faults when it does not fit. -/
theorem release_eq_fault {length : Int} {dataLen : Nat} (hlo : -2 ^ 31 ≤ length) (hreach : 2 ^ 31 ≤ length ∨ length ≤ dataLen) :
    release length dataLen = .fault ↔ ¬(length < 2 ^ 31 ∧ 0 ≤ length ∧ length ≤ readBufSize) := by
  unfold release
  split
  · rename_i hbig
    exact iff_of_true rfl (by omega)
  · rename_i hint
    rw [if_neg (by omega)]
    split
    · rename_i hbad
      exact iff_of_true rfl (by omega)
    · rename_i hgood
      exact iff_of_false nofun (by omega)

/-- A length asked for makes the call fault when it does not fit. -/
theorem parseHttpPkg_faults_iff {h : HttpBuf} {q : Queue} (hq : h.Holds q) {length : Int} (hout : h.Outputs length) :
    (∃ e, h.parseHttpPkg = .error e) ↔ ¬(length < 2 ^ 31 ∧ 0 ≤ length ∧ length ≤ readBufSize) := by
  obtain ⟨ls, e, value, hends, hf, hlength, hreach⟩ := (outputs_iff hq).mp hout
  have hne : q.items ≠ [] := by
    intro hnil
    rw [hnil] at hends
    exact hends.ne_nil hf rfl
  have houtcome : parseOutcome q.items = release length q.items.length := by
    rw [hends.parseOutcome_eq hne, linesOutcome, hf, hlength]
  have hatoi := atoi_bounds (cStr value)
  rw [← release_eq_fault (by omega) hreach, ← houtcome]
  have hspec := parseHttpPkg_spec hq
  generalize parseOutcome q.items = o at hspec
  cases o with
  | fault => exact iff_of_true hspec rfl
  | keep =>
    obtain ⟨ret, hok⟩ := hspec
    rw [hok]
    exact iff_of_false nofun nofun
  | extract n =>
    obtain ⟨ret, h', hok, -⟩ := hspec
    rw [hok]
    exact iff_of_false nofun nofun

/-- The segment of a call that comes to `ParseHttpPkg` is behind what was buffered. -/
theorem holds_of_input {h : HttpBuf} {q : Queue} (hq : h.Holds q) {s : Segment} {tcpBuf : TcpBuf}
    (hin : h.mTcpBuf.inputTcpPkg s.data s.len = .ok (true, tcpBuf)) :
    ∃ q' : Queue, Holds { h with mTcpBuf := tcpBuf } q' ∧ q'.items = q.items ++ s.bytes := by
  obtain ⟨hwf, hc⟩ := hq
  by_cases hfull : (TcpBuf.capacity : Int) < h.mTcpBuf.contents.length + s.len
  · rw [TcpBuf.inputTcpPkg_of_gt hwf hfull] at hin
    cases hin
  · rcases TcpBuf.inputTcpPkg_eq_ok hwf hin with hgt | ⟨hpos, hlen⟩
    · exact absurd hgt hfull
    · obtain ⟨b, hb, hwf', -, hc'⟩ := TcpBuf.inputTcpPkg_of_le hwf hpos hlen (by omega)
      rw [hin] at hb
      cases hb
      have hroom : (q.items ++ s.bytes).length ≤ TcpBuf.capacity := by
        rw [List.length_append, Segment.bytes, List.length_take, ← hc]
        omega
      exact ⟨⟨q.items ++ s.bytes, hroom⟩, ⟨hwf', by rw [hc', hc]; rfl⟩, rfl⟩

/-- In every state in which a call comes to `ParseHttpPkg`, the lengths that it asks `OutputTcpPkg` for are `int`s from zero to the size
of the array exactly when what is buffered then declares such a length in its head. One that is not makes the call fault. -/
theorem output_length_fits_iff (client : Bytes) (input : Bool) (segs : List Segment) (replies : List HttpReply) (h : HttpBuf)
    (s : Segment) (tcpBuf : TcpBuf) (hrun : machine.run (new client input) segs = some (replies, h))
    (hin : h.mTcpBuf.inputTcpPkg s.data s.len = .ok (true, tcpBuf)) :
    ((∀ length, Outputs { h with mTcpBuf := tcpBuf } length → length < 2 ^ 31 ∧ 0 ≤ length ∧ length ≤ readBufSize) ↔
        DeclaresFit (h.contents ++ s.bytes)) ∧
      ∀ length, Outputs { h with mTcpBuf := tcpBuf } length →
        ((∃ e, parseHttpPkg { h with mTcpBuf := tcpBuf } = .error e) ↔
          ¬(length < 2 ^ 31 ∧ 0 ≤ length ∧ length ≤ readBufSize)) := by
  obtain ⟨q, -, hq⟩ := run_holds hrun
  obtain ⟨q', hq', hitems⟩ := holds_of_input hq hin
  rw [hq.contents_eq, ← hitems]
  exact ⟨outputs_fit_iff hq', fun length hout => parseHttpPkg_faults_iff hq' hout⟩

/-- A head that declares a negative length. -/
def negativeLength : Segment := Segment.ofBytes (ascii "GET\r\nContent-Length:-99\r\n\r\n")

/-- Its lines and its end. -/
theorem negativeLength_headEnds :
    HeadEnds (negativeLength.bytes.take readBufSize) [ascii "GET\r", ascii "Content-Length:-99\r"] 27 := by
  have hbytes : negativeLength.bytes.take readBufSize = ascii "GET\r\nContent-Length:-99\r\n\r\n" := by
    rw [negativeLength, Segment.bytes_ofBytes]
    exact List.take_of_length_le (by decide)
  have hlines : Lines LF (ascii "GET\r\nContent-Length:-99\r\n\r\n")
      ([ascii "GET\r", ascii "Content-Length:-99\r"] ++ [CR] :: []) [] :=
    ⟨by decide, by decide, by decide⟩
  rw [hbytes]
  exact .blank hlines (passes_of_two_le (by decide) []) (by decide)

/-- An unused buffer has room for it. -/
theorem exists_input_negativeLength :
    ∃ tcpBuf, (new [] true).mTcpBuf.inputTcpPkg negativeLength.data negativeLength.len = .ok (true, tcpBuf) := by
  obtain ⟨hwf, hc⟩ := new_holds_empty [] true
  have hpos : 0 ≤ negativeLength.len := by decide
  have hlen : negativeLength.len ≤ negativeLength.data.length := by decide
  obtain ⟨tcpBuf, hin, -⟩ := TcpBuf.inputTcpPkg_of_le hwf hpos hlen (by rw [hc]; decide)
  exact ⟨tcpBuf, hin⟩

/-- The head ends at byte 27, and the sum is below zero. -/
theorem negative_length_asked_for :
    ¬∀ (client : Bytes) (input : Bool) (segs : List Segment) (replies : List HttpReply) (h : HttpBuf) (s : Segment)
        (tcpBuf : TcpBuf), machine.run (new client input) segs = some (replies, h) → (∀ s' ∈ segs, 0 < s'.len) → 0 < s.len →
          h.mTcpBuf.inputTcpPkg s.data s.len = .ok (true, tcpBuf) →
            ∀ length, Outputs { h with mTcpBuf := tcpBuf } length → length < 2 ^ 31 ∧ 0 ≤ length ∧ length ≤ readBufSize := by
  intro hall
  obtain ⟨tcpBuf, hin⟩ := exists_input_negativeLength
  obtain ⟨q, hq, hitems⟩ := holds_of_input (new_holds_empty [] true) hin
  have hout : Outputs { new [] true with mTcpBuf := tcpBuf } (-72) := by
    have hends : HeadEnds (q.items.take readBufSize) [ascii "GET\r", ascii "Content-Length:-99\r"] 27 := by
      rw [hitems]
      exact negativeLength_headEnds
    exact (outputs_iff hq).mpr ⟨_, 27, ascii "-99", hends, by decide +kernel, by decide +kernel, Or.inr (by omega)⟩
  exact absurd (hall [] true [] [] (new [] true) negativeLength tcpBuf rfl nofun (by decide) hin (-72) hout).2.1 (by decide)

theorem output_length_fits_iff_negativeLength :
    ∃ tcpBuf, (new [] true).mTcpBuf.inputTcpPkg negativeLength.data negativeLength.len = .ok (true, tcpBuf) ∧
      ((∀ length, Outputs { new [] true with mTcpBuf := tcpBuf } length → length < 2 ^ 31 ∧ 0 ≤ length ∧ length ≤ readBufSize) ↔
        DeclaresFit ((new [] true).contents ++ negativeLength.bytes)) := by
  obtain ⟨tcpBuf, hin⟩ := exists_input_negativeLength
  exact ⟨tcpBuf, hin, (output_length_fits_iff [] true [] [] (new [] true) negativeLength tcpBuf rfl hin).1⟩

end HttpBuf

end FrontServer
