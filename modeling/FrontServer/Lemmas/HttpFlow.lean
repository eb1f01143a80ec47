import FrontServer.HttpFlow
import FrontServer.Lemmas.HttpHead
import FrontServer.Lemmas.Keywords
import FrontServer.Theorems.TcpBuf

/-!
# An `HttpBuf` is a queue of bytes read from its front

`HttpBuf.simulates_flow` connects the code's `HttpBuf` to `HttpFlow.machine`. `HttpFlow.step_cases` says once what a step of the
queue can do, and `HttpFlow.parseOutcome_of_passes` and `HttpFlow.parseOutcome_of_stopsAt` read the front of the queue as lines.
-/

namespace FrontServer

/-- The bytes of a segment made of some bytes. -/
@[simp] theorem Segment.bytes_ofBytes (bs : Bytes) : (Segment.ofBytes bs).bytes = bs := by
  rw [Segment.bytes, Segment.ofBytes, Int.toNat_natCast, List.take_length]

/-- The header reader depends on the first `len` bytes of memory only. -/
theorem HttpBuf.getHttpHeaders_congr {data data' : Bytes} {len : Int} (hpos : 0 < len) (hlen : len ≤ data.length)
    (hlen' : len ≤ data'.length) (h : data.take len.toNat = data'.take len.toNat) (head : HttpHead) (remainPos : Int) :
    HttpBuf.getHttpHeaders data len head remainPos = HttpBuf.getHttpHeaders data' len head remainPos := by
  obtain ⟨ls, t, hl⟩ := exists_lines LF (data.take len.toNat)
  have hl' : Lines LF (data'.take len.toNat) ls t := h ▸ hl
  unfold HttpBuf.getHttpHeaders
  rw [scanHeaders_lines _ hpos hlen hl, scanHeaders_lines _ hpos hlen' hl']

namespace HttpBuf

/-- The ring of an `HttpBuf` holds the bytes of a queue. -/
def Holds (h : HttpBuf) (q : HttpFlow.Queue) : Prop := h.mTcpBuf.Holds q

/-- The bytes buffered. -/
def contents (h : HttpBuf) : Bytes := h.mTcpBuf.contents

/-- A buffer is empty when it has no data. -/
theorem contents_eq_nil_iff {h : HttpBuf} (hwf : h.mTcpBuf.WellFormed) : h.contents = [] ↔ 0 = h.mTcpBuf.getDataLen := by
  rw [TcpBuf.getDataLen_eq hwf, ← List.length_eq_zero_iff]
  have : h.contents = h.mTcpBuf.contents := rfl
  rw [this]
  omega

/-- The buffer's contents are the queue's items. -/
theorem Holds.contents_eq {h : HttpBuf} {q : HttpFlow.Queue} (hq : h.Holds q) : h.contents = q.items := hq.2

/-- A new buffer holds the empty queue. -/
theorem new_holds_empty (client : Bytes) (input : Bool) : (new client input).Holds BoundedFifo.empty :=
  TcpBuf.new_holds_empty client

/-- Taking a message out of the ring is what `release` says of the queue. -/
theorem extractMessage_spec {h : HttpBuf} {q : HttpFlow.Queue} (hq : h.Holds q) (value : Bytes) (remainPos : Int) :
    match HttpFlow.release (atoi value + remainPos) q.items.length with
    | .fault => ∃ e, h.extractMessage value remainPos = .error e
    | .keep => ∃ ret, h.extractMessage value remainPos = .ok ({ ret := ret, extracted := none }, h)
    | .extract n => ∃ ret h', h.extractMessage value remainPos = .ok ({ ret := ret, extracted := some (q.take n).1 }, h') ∧
        h'.Holds (q.take n).2 := by
  obtain ⟨hwf, hc⟩ := hq
  have hdl := TcpBuf.getDataLen_eq hwf
  rw [hc] at hdl
  generalize hn : atoi value + remainPos = n
  unfold extractMessage HttpFlow.release
  rw [hn]
  by_cases h₁ : n < -2 ^ 31 ∨ 2 ^ 31 ≤ n
  · have hcheck : checkedInt n = .error (.overflow n) := if_neg (by omega)
    rw [if_pos h₁, hcheck]
    exact ⟨_, rfl⟩
  · have hcheck : checkedInt n = .ok n := if_pos (by omega)
    rw [if_neg h₁, hcheck, ok_bind, hdl]
    by_cases h₂ : (q.items.length : Int) < n
    · rw [if_pos h₂, if_neg (by omega : ¬(q.items.length : Int) ≥ n)]
      exact ⟨true, rfl⟩
    · rw [if_neg h₂, if_pos (by omega : (q.items.length : Int) ≥ n)]
      by_cases h₃ : n < 0 ∨ readBufSize < n
      · rw [if_pos h₃]
        cases hout : h.mTcpBuf.outputTcpPkg (CArray.zeros readBufSize) n with
        | error e => exact ⟨e, rfl⟩
        | ok r =>
          -- a copy of that many bytes does not go through
          exfalso
          unfold TcpBuf.outputTcpPkg at hout
          obtain ⟨r', hcopy, -⟩ := bind_eq_ok.mp hout
          have hb := TcpBuf.copyOut_eq_ok hwf hcopy
          rw [TcpBuf.cutLen_eq hwf, hc] at hb
          omega
      · rw [if_neg h₃]
        have hmin : min n (q.items.length : Int) = n := by omega
        obtain ⟨a, b', e, ht, hwf', -, hc'⟩ := TcpBuf.outputTcpPkg_spec hwf (CArray.zeros readBufSize) (show 0 ≤ n by omega)
          (by rw [hc]; omega)
        rw [hc, hmin] at e ht
        rw [hc] at hc'
        rw [e, ok_bind]
        refine ⟨true, { h with mTcpBuf := b' }, ?_, hwf', hc'⟩
        dsimp only
        rw [ht, decide_eq_true rfl]
        rfl

/-- The caller's array after `PreOutputTcpPkg` reads as the front of the queue does. -/
theorem peek_spec {h : HttpBuf} {q : HttpFlow.Queue} (hq : h.Holds q) :
    ∃ a : CArray readBufSize,
      h.mTcpBuf.preOutputTcpPkg (CArray.zeros readBufSize) readBufSize = .ok ((q.items.take readBufSize).length, a) ∧
        (q.items ≠ [] → (0 : Int) < (q.items.take readBufSize).length ∧
          getHttpHeaders a.bytes (q.items.take readBufSize).length HttpHead.empty 0 =
            getHttpHeaders (q.items.take readBufSize) (q.items.take readBufSize).length HttpHead.empty 0) := by
  obtain ⟨hwf, hc⟩ := hq
  have hsize : (0 : Int) ≤ readBufSize := by decide
  obtain ⟨a, e, ht⟩ := TcpBuf.preOutputTcpPkg_spec hwf (CArray.zeros readBufSize) hsize (by omega)
  rw [hc] at e ht
  have hlen : (min (readBufSize : Int) q.items.length) = (q.items.take readBufSize).length := by
    rw [List.length_take]
    omega
  rw [hlen] at e ht
  refine ⟨a, e, fun hne => ?_⟩
  have hpos : (0 : Int) < (q.items.take readBufSize).length := by
    rw [← hlen]
    have := List.length_pos_of_ne_nil hne
    unfold readBufSize
    omega
  have hle : ((q.items.take readBufSize).length : Int) ≤ a.bytes.length := by
    rw [a.size_eq, ← hlen]
    omega
  refine ⟨hpos, getHttpHeaders_congr hpos hle le_rfl ?_ _ _⟩
  rw [ht, Int.toNat_natCast, Int.toNat_natCast, List.take_length]

/-- Reading the front of the ring is what `parseOutcome` says of the queue. -/
theorem parseHttpPkg_spec {h : HttpBuf} {q : HttpFlow.Queue} (hq : h.Holds q) :
    match HttpFlow.parseOutcome q.items with
    | .fault => ∃ e, h.parseHttpPkg = .error e
    | .keep => ∃ ret, h.parseHttpPkg = .ok ({ ret := ret, extracted := none }, h)
    | .extract n => ∃ ret h', h.parseHttpPkg = .ok ({ ret := ret, extracted := some (q.take n).1 }, h') ∧
        h'.Holds (q.take n).2 := by
  obtain ⟨a, e, hread⟩ := peek_spec hq
  unfold parseHttpPkg HttpFlow.parseOutcome
  rw [e, ok_bind]
  by_cases hnil : q.items = []
  · rw [if_pos hnil, hnil]
    exact ⟨false, rfl⟩
  · obtain ⟨hpos, hscan⟩ := hread hnil
    rw [if_neg hnil]
    dsimp only
    rw [if_neg (by omega), hscan]
    cases hres : getHttpHeaders (q.items.take readBufSize) (q.items.take readBufSize).length HttpHead.empty 0 with
    | error e => exact ⟨e, rfl⟩
    | ok r =>
      obtain ⟨ret, head, remainPos⟩ := r
      have hret : ret = true := by
        unfold getHttpHeaders scanHeaders at hres
        rw [if_neg (by omega)] at hres
        obtain ⟨r, -, hr⟩ := bind_eq_ok.mp hres
        cases hr
        rfl
      subst hret
      rw [ok_bind]
      dsimp only
      rw [if_pos rfl, HttpFlow.headOutcome]
      cases hv : head.headers.lookup (ascii "Content-Length") with
      | none => exact ⟨false, rfl⟩
      | some value => exact extractMessage_spec hq (cStr value) remainPos

/-- A call of the code's `HttpBuf` is a step of the queue. -/
theorem inputTcpPkg_step {h : HttpBuf} {q : HttpFlow.Queue} (hq : h.Holds q) (s : Segment) :
    Option.Rel (fun p r => p.1 = r.1 ∧ p.2.Holds r.2) (h.inputTcpPkg s.data s.len).toOption (HttpFlow.step q s) := by
  have hwf := hq.1
  have hc := hq.2
  have hdl := TcpBuf.getDataLen_eq hwf
  rw [hc] at hdl
  unfold inputTcpPkg HttpFlow.step
  cases hhttp : isHttpHeader s.data s.len with
  | error e => exact Option.Rel.none
  | ok isHttp =>
    rw [ok_bind, hdl]
    have hempty : (!isHttp) = true ∧ 0 = (q.items.length : Int) ↔ isHttp = false ∧ q.items = [] := by
      rw [Bool.not_eq_true', ← List.length_eq_zero_iff]
      exact and_congr_right fun _ => by omega
    dsimp only
    by_cases hdrop : isHttp = false ∧ q.items = []
    · rw [if_pos (hempty.mpr hdrop), if_pos hdrop]
      exact Option.Rel.some ⟨rfl, hq⟩
    · rw [if_neg (fun hn => hdrop (hempty.mp hn)), if_neg hdrop]
      by_cases hfull : (TcpBuf.capacity : Int) < q.items.length + s.len
      · rw [if_pos hfull, TcpBuf.inputTcpPkg_of_gt hwf (by rw [hc]; exact hfull)]
        exact Option.Rel.some ⟨rfl, hq⟩
      · rw [if_neg hfull]
        by_cases hbad : s.len < 0 ∨ (s.data.length : Int) < s.len
        · rw [if_pos hbad]
          cases hin : h.mTcpBuf.inputTcpPkg s.data s.len with
          | error e => exact Option.Rel.none
          | ok r =>
            exfalso
            have := TcpBuf.inputTcpPkg_eq_ok hwf hin
            rw [hc] at this
            omega
        · rw [if_neg hbad]
          obtain ⟨b', e, hwf', -, hc'⟩ := TcpBuf.inputTcpPkg_of_le hwf (show 0 ≤ s.len by omega)
            (show s.len ≤ s.data.length by omega) (by rw [hc]; omega)
          have hroom : q.items.length + s.bytes.length ≤ TcpBuf.capacity := by
            rw [Segment.bytes, List.length_take]
            omega
          rw [e, ok_bind]
          dsimp only
          rw [if_pos rfl, BoundedFifo.offer_of_le hroom]
          have hspec := parseHttpPkg_spec (h := { h with mTcpBuf := b' })
            (q := ⟨q.items ++ s.bytes, by rw [List.length_append]; exact hroom⟩)
            ⟨hwf', by rw [hc', hc]; rfl⟩
          unfold HttpFlow.parse
          generalize HttpFlow.parseOutcome _ = o at hspec ⊢
          cases o with
          | fault =>
            obtain ⟨e', he'⟩ := hspec
            rw [he']
            exact Option.Rel.none
          | keep =>
            obtain ⟨ret, he'⟩ := hspec
            rw [he']
            exact Option.Rel.some ⟨rfl, hwf', by rw [hc', hc]; rfl⟩
          | extract n =>
            obtain ⟨ret, h', he', hq'⟩ := hspec
            rw [he']
            exact Option.Rel.some ⟨rfl, hq'⟩

/-- The code's `HttpBuf` answers as the queue does. -/
theorem simulates_flow : Machine.Simulation machine HttpFlow.machine Holds where
  step := by
    intro h q s hq
    exact inputTcpPkg_step hq s

/-- After any run from a fresh `HttpBuf` its ring holds a queue, the one the same run leads to. -/
theorem run_holds {client : Bytes} {input : Bool} {segs : List Segment} {replies : List HttpReply} {h : HttpBuf}
    (hrun : machine.run (new client input) segs = some (replies, h)) :
    ∃ q, HttpFlow.machine.run BoundedFifo.empty segs = some (replies, q) ∧ h.Holds q :=
  simulates_flow.run_some (new_holds_empty client input) hrun

end HttpBuf

namespace HttpFlow

open HttpBuf

/-! ## Reading the front of the queue -/

/-- The header name the code looks up. -/
abbrev contentLength : Bytes := ascii "Content-Length"

/-- What complete lines that end in front of `remainPos` lead to. -/
def linesOutcome (ls : List Bytes) (remainPos : Int) (dataLen : Nat) : Outcome :=
  match fieldOf contentLength ls with
  | none => .keep
  | some value => release (atoi (cStr value) + remainPos) dataLen

/-- What the head of some lines leads to is what the lines lead to. -/
theorem headOutcome_readLines (ls : List Bytes) (remainPos : Int) (dataLen : Nat) :
    headOutcome (readLines ls HttpHead.empty) remainPos dataLen = linesOutcome ls remainPos dataLen := by
  unfold headOutcome linesOutcome
  cases hf : fieldOf contentLength ls with
  | none => simp only [lookup_readLines_empty, hf]
  | some value => simp only [lookup_readLines_empty, hf]

/-- What the header reader makes of a text: the scan of its complete lines. -/
theorem getHttpHeaders_lines {p t : Bytes} {ls : List Bytes} (hp : p ≠ []) (h : Lines LF p ls t) :
    getHttpHeaders p p.length HttpHead.empty 0 =
      (scanLines onLine [] ls HttpHead.empty).map (fun r => (true, r.2, (r.1.getD p.length : Int) + 1)) := by
  have hpos : (0 : Int) < p.length := by
    have := List.length_pos_of_ne_nil hp
    omega
  have h' : Lines LF (p.take (p.length : Int).toNat) ls t := by
    rw [Int.toNat_natCast, List.take_length]
    exact h
  unfold getHttpHeaders
  rw [scanHeaders_lines _ hpos le_rfl h', Int.toNat_natCast]

/-- Lines without a break: the head ends behind the text. -/
theorem getHttpHeaders_of_passes {p t : Bytes} {ls : List Bytes} (hp : p ≠ []) (h : Lines LF p ls t) (hpass : Passes [] ls) :
    getHttpHeaders p p.length HttpHead.empty 0 = .ok (true, readLines ls HttpHead.empty, (p.length : Int) + 1) := by
  rw [getHttpHeaders_lines hp h, scanLines_of_passes hpass, foldLines_eq_readLines]
  rfl

/-- A line the scan stops at: the head ends behind it. -/
theorem getHttpHeaders_of_stopsAt {p t l : Bytes} {ls ls' : List Bytes} (h : Lines LF p (ls ++ l :: ls') t)
    (hpass : Passes [] ls) (hs : StopsAt (joinLines LF ls) l) :
    getHttpHeaders p p.length HttpHead.empty 0 =
      .ok (true, readLines ls HttpHead.empty, ((joinLines LF ls).length : Int) + 2) := by
  have hp : p ≠ [] := by
    rintro rfl
    have := congrArg List.length h.eq
    simp at this
  rw [getHttpHeaders_lines hp h, scanLines_of_stopsAt hpass hs, foldLines_eq_readLines]
  rfl

/-- What the header reader can have met when it did not fault. -/
theorem getHttpHeaders_cases {p : Bytes} (hp : p ≠ []) {r : Bool × HttpHead × Int}
    (h : getHttpHeaders p p.length HttpHead.empty 0 = .ok r) :
    (∃ ls t, Lines LF p ls t ∧ Passes [] ls ∧ r = (true, readLines ls HttpHead.empty, (p.length : Int) + 1)) ∨
      ∃ ls l ls' t, Lines LF p (ls ++ l :: ls') t ∧ Passes [] ls ∧ StopsAt (joinLines LF ls) l ∧
        r = (true, readLines ls HttpHead.empty, ((joinLines LF ls).length : Int) + 2) := by
  obtain ⟨ls, t, hl⟩ := exists_lines LF p
  cases hs : scanLines onLine [] ls HttpHead.empty with
  | error e =>
    rw [getHttpHeaders_lines hp hl, hs] at h
    cases h
  | ok res =>
    obtain ⟨stop, head⟩ := res
    rcases scanLines_cases hs with ⟨hpass, -, -⟩ | ⟨ls₁, l, ls₂, rfl, hpass, hstop, -, -⟩
    · rw [getHttpHeaders_of_passes hp hl hpass] at h
      cases h
      exact Or.inl ⟨ls, t, hl, hpass, rfl⟩
    · rw [List.nil_append] at hstop
      rw [getHttpHeaders_of_stopsAt hl hpass hstop] at h
      cases h
      exact Or.inr ⟨ls₁, l, ls₂, t, hl, hpass, hstop, rfl⟩

/-- Of a queue that is not empty, something is read. -/
theorem front_ne_nil {q : Bytes} (hq : q ≠ []) : q.take readBufSize ≠ [] := by
  intro h
  rcases List.take_eq_nil_iff.mp h with h | h
  · exact absurd h (by decide)
  · exact hq h

/-- What is read is what the header reader makes of the first 4096 bytes. -/
theorem parseOutcome_of_reading {q : Bytes} (hq : q ≠ []) {ret : Bool} {head : HttpHead} {remainPos : Int}
    (h : getHttpHeaders (q.take readBufSize) (q.take readBufSize).length HttpHead.empty 0 = .ok (ret, head, remainPos)) :
    parseOutcome q = headOutcome head remainPos q.length := by
  unfold parseOutcome
  rw [if_neg hq, h]

/-- Lines without a break: the head ends behind the bytes read. -/
theorem parseOutcome_of_passes {q t : Bytes} {ls : List Bytes} (hq : q ≠ []) (h : Lines LF (q.take readBufSize) ls t)
    (hp : Passes [] ls) : parseOutcome q = linesOutcome ls ((q.take readBufSize).length + 1) q.length := by
  rw [parseOutcome_of_reading hq (getHttpHeaders_of_passes (front_ne_nil hq) h hp), headOutcome_readLines]

/-- A line the scan stops at: the head ends behind it. -/
theorem parseOutcome_of_stopsAt {q t l : Bytes} {ls ls' : List Bytes} (h : Lines LF (q.take readBufSize) (ls ++ l :: ls') t)
    (hp : Passes [] ls) (hs : StopsAt (joinLines LF ls) l) :
    parseOutcome q = linesOutcome ls ((joinLines LF ls).length + 2) q.length := by
  have hq : q ≠ [] := by
    rintro rfl
    have := congrArg List.length h.eq
    simp at this
  rw [parseOutcome_of_reading hq (getHttpHeaders_of_stopsAt h hp hs), headOutcome_readLines]

/-- A parse that does not fault has a reading of the front. -/
theorem exists_reading {q : Bytes} (hq : q ≠ []) (hf : parseOutcome q ≠ .fault) :
    ∃ head remainPos, getHttpHeaders (q.take readBufSize) (q.take readBufSize).length HttpHead.empty 0 =
      .ok (true, head, remainPos) := by
  cases hr : getHttpHeaders (q.take readBufSize) (q.take readBufSize).length HttpHead.empty 0 with
  | error e =>
    refine absurd ?_ hf
    unfold parseOutcome
    rw [if_neg hq, hr]
  | ok r =>
    rcases getHttpHeaders_cases (front_ne_nil hq) hr with ⟨ls, t, -, -, rfl⟩ | ⟨ls, l, ls', t, -, -, -, rfl⟩
    · exact ⟨_, _, rfl⟩
    · exact ⟨_, _, rfl⟩

/-- What reading the front can have met when it did not fault. -/
theorem parseOutcome_cases {q : Bytes} (hq : q ≠ []) (hf : parseOutcome q ≠ .fault) :
    (∃ ls t, Lines LF (q.take readBufSize) ls t ∧ Passes [] ls ∧
        parseOutcome q = linesOutcome ls ((q.take readBufSize).length + 1) q.length) ∨
      ∃ ls l ls' t, Lines LF (q.take readBufSize) (ls ++ l :: ls') t ∧ Passes [] ls ∧ StopsAt (joinLines LF ls) l ∧
        parseOutcome q = linesOutcome ls ((joinLines LF ls).length + 2) q.length := by
  obtain ⟨head, remainPos, hr⟩ := exists_reading hq hf
  rcases getHttpHeaders_cases (front_ne_nil hq) hr with ⟨ls, t, hl, hp, -⟩ | ⟨ls, l, ls', t, hl, hp, hs, -⟩
  · exact Or.inl ⟨ls, t, hl, hp, parseOutcome_of_passes hq hl hp⟩
  · exact Or.inr ⟨ls, l, ls', t, hl, hp, hs, parseOutcome_of_stopsAt hl hp hs⟩

/-- A message is taken out when it is there and fits the array. -/
theorem release_eq_extract {length : Int} {dataLen n : Nat} :
    release length dataLen = .extract n ↔ length = n ∧ n ≤ dataLen ∧ n ≤ readBufSize := by
  unfold release readBufSize
  constructor
  · intro h
    split at h
    · cases h
    · split at h
      · cases h
      · split at h
        · cases h
        · cases h
          omega
  · rintro ⟨rfl, h₁, h₂⟩
    rw [if_neg (by omega), if_neg (by omega), if_neg (by omega), Int.toNat_natCast]

/-- It is kept when it is not all there. -/
theorem release_eq_keep {length : Int} {dataLen : Nat} (h : (dataLen : Int) < length) (hlt : length < 2 ^ 31) :
    release length dataLen = .keep := by
  unfold release
  rw [if_neg (by omega), if_pos h]

/-- Lines lead to a message when they declare a length that is there and fits. -/
theorem linesOutcome_eq_extract {ls : List Bytes} {remainPos : Int} {dataLen n : Nat} :
    linesOutcome ls remainPos dataLen = .extract n ↔
      ∃ value, fieldOf contentLength ls = some value ∧ atoi (cStr value) + remainPos = n ∧ n ≤ dataLen ∧ n ≤ readBufSize := by
  unfold linesOutcome
  cases fieldOf contentLength ls with
  | none => simp
  | some value => simp [release_eq_extract]

/-- No more bytes are taken off than are there. -/
theorem le_of_extract {q : Bytes} {n : Nat} (h : parseOutcome q = .extract n) : n ≤ q.length ∧ n ≤ readBufSize := by
  have hq : q ≠ [] := by
    rintro rfl
    cases h
  have hf : parseOutcome q ≠ .fault := by
    rw [h]
    simp
  rcases parseOutcome_cases hq hf with ⟨ls, t, -, -, he⟩ | ⟨ls, l, ls', t, -, -, -, he⟩
  · obtain ⟨-, -, -, hn⟩ := linesOutcome_eq_extract.mp (he.symm.trans h)
    exact hn
  · obtain ⟨-, -, -, hn⟩ := linesOutcome_eq_extract.mp (he.symm.trans h)
    exact hn

/-! ## Steps of the queue -/

/-- What a parse gives: the queue, or the queue without the bytes taken off its front. -/
theorem parse_cases {q q' : Queue} {r : HttpReply} (h : parse q = some (r, q')) :
    parseOutcome q.items = .keep ∧ r = { ret := true, extracted := none } ∧ q'.items = q.items ∨
      ∃ n, parseOutcome q.items = .extract n ∧ r = { ret := true, extracted := some (q.items.take n) } ∧
        q'.items = q.items.drop n := by
  unfold parse at h
  cases ho : parseOutcome q.items with
  | fault => simp [ho] at h
  | keep =>
    rw [ho] at h
    cases h
    exact Or.inl ⟨rfl, rfl, rfl⟩
  | extract n =>
    rw [ho] at h
    cases h
    exact Or.inr ⟨n, rfl, rfl, rfl⟩

/-- What a step that does not fault can have done: drop the segment on an empty queue, refuse it for want of room, or append it
and read the front once. -/
theorem step_cases {q q' : Queue} {s : Segment} {r : HttpReply} (h : step q s = some (r, q')) :
    isHttpHeader s.data s.len = .ok false ∧ q.items = [] ∧ r = { ret := false, extracted := none } ∧ q' = q ∨
      (TcpBuf.capacity : Int) < q.items.length + s.len ∧ r = { ret := false, extracted := none } ∧ q' = q ∨
      0 ≤ s.len ∧ s.len ≤ s.data.length ∧ q.items.length + s.len ≤ TcpBuf.capacity ∧
        ((parseOutcome (q.items ++ s.bytes) = .keep ∧ r = { ret := true, extracted := none } ∧
            q'.items = q.items ++ s.bytes) ∨
          ∃ n, parseOutcome (q.items ++ s.bytes) = .extract n ∧
            r = { ret := true, extracted := some ((q.items ++ s.bytes).take n) } ∧
            q'.items = (q.items ++ s.bytes).drop n) := by
  unfold step at h
  cases hhttp : isHttpHeader s.data s.len with
  | error e => simp [hhttp] at h
  | ok isHttp =>
    rw [hhttp] at h
    dsimp only at h
    by_cases hdrop : isHttp = false ∧ q.items = []
    · rw [if_pos hdrop] at h
      cases h
      exact Or.inl ⟨by rw [hdrop.1], hdrop.2, rfl, rfl⟩
    · rw [if_neg hdrop] at h
      by_cases hfull : (TcpBuf.capacity : Int) < q.items.length + s.len
      · rw [if_pos hfull] at h
        cases h
        exact Or.inr (Or.inl ⟨hfull, rfl, rfl⟩)
      · rw [if_neg hfull] at h
        by_cases hbad : s.len < 0 ∨ (s.data.length : Int) < s.len
        · rw [if_pos hbad] at h
          cases h
        · rw [if_neg hbad] at h
          have hroom : q.items.length + s.bytes.length ≤ TcpBuf.capacity := by
            rw [Segment.bytes, List.length_take]
            omega
          rw [BoundedFifo.offer_of_le hroom] at h
          exact Or.inr (Or.inr ⟨by omega, by omega, by omega, parse_cases h⟩)

/-- A step with a segment that is not dropped and fits appends it and reads the front once. -/
theorem step_of_fits {q : Queue} {s : Segment} {isHttp : Bool} (hhttp : isHttpHeader s.data s.len = .ok isHttp)
    (hkeep : q.items = [] → isHttp = true) (h₀ : 0 ≤ s.len) (hd : s.len ≤ s.data.length)
    (hfit : q.items.length + s.len ≤ TcpBuf.capacity) :
    ∃ q₁ : Queue, q₁.items = q.items ++ s.bytes ∧ step q s = parse q₁ := by
  have hroom : q.items.length + s.bytes.length ≤ TcpBuf.capacity := by
    rw [Segment.bytes, List.length_take]
    omega
  have hdrop : ¬(isHttp = false ∧ q.items = []) := by
    rintro ⟨hf, he⟩
    rw [hkeep he] at hf
    cases hf
  refine ⟨⟨q.items ++ s.bytes, by rw [List.length_append]; exact hroom⟩, rfl, ?_⟩
  unfold step
  rw [hhttp]
  dsimp only
  rw [if_neg hdrop, if_neg (by omega), if_neg (by omega), BoundedFifo.offer_of_le hroom]

/-- A step with a segment that is not dropped and does not fit refuses it. -/
theorem step_of_full {q : Queue} {s : Segment} {isHttp : Bool} (hhttp : isHttpHeader s.data s.len = .ok isHttp)
    (hkeep : q.items = [] → isHttp = true) (hfull : (TcpBuf.capacity : Int) < q.items.length + s.len) :
    step q s = some ({ ret := false, extracted := none }, q) := by
  have hdrop : ¬(isHttp = false ∧ q.items = []) := by
    rintro ⟨hf, he⟩
    rw [hkeep he] at hf
    cases hf
  unfold step
  rw [hhttp]
  dsimp only
  rw [if_neg hdrop, if_pos hfull]

/-- A parse that keeps what is there. -/
theorem parse_of_keep {q : Queue} (h : parseOutcome q.items = .keep) :
    parse q = some ({ ret := true, extracted := none }, q) := by
  unfold parse
  rw [h]

/-- A parse that takes a message out. -/
theorem parse_of_extract {q : Queue} {n : Nat} (h : parseOutcome q.items = .extract n) :
    parse q = some ({ ret := true, extracted := some (q.items.take n) }, (q.take n).2) := by
  unfold parse
  rw [h]
  rfl

end HttpFlow

/-! ## Faults -/

namespace HttpBuf

/-- Where the extraction leaves an array, it is the one that the message is copied to. -/
theorem outOfRange_of_extractMessage {h : HttpBuf} (hwf : h.mTcpBuf.WellFormed) {value : Bytes} {remainPos i : Int}
    (hi : h.extractMessage value remainPos = .error (.outOfRange i)) : readBufSize < i := by
  unfold extractMessage at hi
  cases hcheck : checkedInt (atoi value + remainPos) with
  | error e =>
    rw [hcheck, error_bind] at hi
    unfold checkedInt at hcheck
    split at hcheck
    · cases hcheck
    · cases hcheck
      cases hi
  | ok length =>
    rw [hcheck, ok_bind] at hi
    split at hi
    · cases hout : h.mTcpBuf.outputTcpPkg (CArray.zeros readBufSize) length with
      | error e =>
        rw [hout, error_bind] at hi
        cases hi
        unfold TcpBuf.outputTcpPkg at hout
        cases hcopy : h.mTcpBuf.copyOut (CArray.zeros readBufSize) (h.mTcpBuf.cutLen length) with
        | error e =>
          rw [hcopy, error_bind] at hout
          cases hout
          refine TcpBuf.outOfRange_of_copyOut hwf ?_ hcopy
          rw [TcpBuf.cutLen_eq hwf, TcpBuf.getDataLen_eq hwf]
          exact min_le_right _ _
        | ok r =>
          rw [hcopy] at hout
          cases hout
      | ok r =>
        rw [hout] at hi
        cases hi
    · cases hi

/-- `ParseHttpPkg` reads and writes outside of `read_buf` only in front of it and behind its end. -/
theorem outOfRange_of_parseHttpPkg {h : HttpBuf} (hwf : h.mTcpBuf.WellFormed) {i : Int} (hi : h.parseHttpPkg = .error (.outOfRange i)) :
    i < 0 ∨ readBufSize < i := by
  obtain ⟨a, e, hread⟩ := peek_spec (h := h) (q := ⟨h.contents, TcpBuf.length_contents_le hwf⟩) ⟨hwf, rfl⟩
  unfold parseHttpPkg at hi
  rw [e, ok_bind] at hi
  dsimp only at hi hread
  split at hi
  · cases hi
  · rename_i hpos
    have hne : h.contents ≠ [] := by
      intro hnil
      rw [hnil] at hpos
      simp at hpos
    obtain ⟨-, hscan⟩ := hread hne
    obtain ⟨ls, t, hl⟩ := exists_lines LF (h.contents.take readBufSize)
    rw [hscan, HttpFlow.getHttpHeaders_lines (HttpFlow.front_ne_nil hne) hl] at hi
    cases hlines : scanLines onLine [] ls HttpHead.empty with
    | error e =>
      rw [hlines] at hi
      cases hi
      left
      rw [outOfRange_of_scanLines hlines]
      decide
    | ok r =>
      right
      rw [hlines] at hi
      simp only [Except.map, ok_bind, if_true] at hi
      split at hi
      · cases hi
      · exact outOfRange_of_extractMessage hwf hi

end HttpBuf

end FrontServer
