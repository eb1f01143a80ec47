import FrontServer.Lemmas.Packet
import FrontServer.Lemmas.ParsePkg

/-!
# Payload lengths on their way into the ring

The payload length of a frame is its IP total length less the lengths of the headers, and `InputPkg` only leaves out a payload of
length zero. The rings stay well formed over every run all the same: a negative length that is not dropped on the way ends the run
in the `memcpy` of `TcpBuf::InputTcpPkg`.
-/

namespace FrontServer

namespace ParsePkg

/-- The length with which the payload of a frame reaches `TcpBuf::InputTcpPkg`, if it does. -/
def ringCall (m : ParsePkg) (f : Bytes) : Option Int :=
  match m.sessionCall f with
  | .ok (_, some c) => (m.buf c.client c.input).ringCall c.data c.len
  | _ => none

/-- The indices of every ring lie inside of its array. -/
def IndicesInRange (m : ParsePkg) : Prop :=
  ∀ client s, m.mSessions.lookup client = some s → ∀ input,
    0 ≤ (s.side input).mTcpBuf.mStart ∧ (s.side input).mTcpBuf.mStart < maxBufSize ∧
      0 ≤ (s.side input).mTcpBuf.mEnd ∧ (s.side input).mTcpBuf.mEnd < maxBufSize

/-- The IP total length of a frame covers its IP header and its TCP header. -/
def TotalCoversHeaders (f : Bytes) : Prop :=
  ∀ ih l hf, ipHeader f = .ok (some ih) → IpHeader.ipLen f ih = .ok l → TcpHeader.hlenFlags f (ih + ipHdrLen) = .ok hf →
    ipHdrLen + TcpHeader.tcpHl hf ≤ l.toNat

/-- A frame was captured at least up to the end of its IP total length and of its TCP header. -/
def CapturedToEnd (f : Bytes) : Prop :=
  ∀ ih l hf, ipHeader f = .ok (some ih) → IpHeader.ipLen f ih = .ok l → TcpHeader.hlenFlags f (ih + ipHdrLen) = .ok hf →
    ih + l.toNat ≤ f.length ∧ ih + ipHdrLen + TcpHeader.tcpHl hf ≤ f.length

theorem RingsWellFormed.indicesInRange {m : ParsePkg} (h : m.RingsWellFormed) : m.IndicesInRange := by
  intro client s hs input
  have hwf := h client input
  have hbuf : m.buf client input = s.side input := by
    rw [buf, session, hs, Option.getD_some]
  rw [hbuf] at hwf
  exact ⟨hwf.start_nonneg, hwf.start_lt, hwf.end_nonneg, hwf.end_lt⟩

/-- What reaches the ring is the payload length the headers give. -/
theorem ringCall_eq_some {m : ParsePkg} {f : Bytes} {n : Int} (h : m.ringCall f = some n) :
    ∃ ih l hf, ipHeader f = .ok (some ih) ∧ IpHeader.ipLen f ih = .ok l ∧
      TcpHeader.hlenFlags f (ih + ipHdrLen) = .ok hf ∧ n = payloadLen l hf := by
  unfold ringCall at h
  split at h
  · rename_i ret c hcall
    obtain ⟨d, hd, -, -, hlen, -, -⟩ := decode_of_sessionCall hcall
    obtain ⟨-, -, -, rfl⟩ := HttpBuf.ringCall_eq_some.mp h
    obtain ⟨ih, hih, hat⟩ := decode_eq_some.mp hd
    obtain ⟨-, hf, l, hhf, hl, rfl⟩ := decodeAt_eq_some.mp hat
    exact ⟨ih, l, hf, hih, hl, hhf, hlen⟩
  · cases h

/-- A negative length that reaches the ring ends the run there. -/
theorem inputPkg_of_ringCall_neg {m : ParsePkg} (hm : m.RingsWellFormed) {f : Bytes} {n : Int} (h : m.ringCall f = some n)
    (hn : n < 0) (len : Int) : m.inputPkg f len = .error (.badSize n) := by
  unfold ringCall at h
  split at h
  · rename_i ret c hcall
    exact inputPkg_of_error hcall (HttpBuf.inputTcpPkg_of_ringCall_neg (hm _ _) h hn)
  · cases h

/-- Over every run the indices of all rings stay in range. In every state reached, the payload length of a frame that reaches the
ring is not negative exactly when the frame's total length covers its headers, and a negative one ends the run. -/
theorem ring_safety (ip : Bytes) (port : Int) (frames : List Bytes) (rets : List Bool) (m : ParsePkg)
    (h : machine.run (new.init ip port) frames = some (rets, m)) :
    m.IndicesInRange ∧
      ∀ f, ((∀ n, m.ringCall f = some n → 0 ≤ n) ↔ m.ringCall f = none ∨ TotalCoversHeaders f) ∧
        ∀ n, m.ringCall f = some n → n < 0 → m.inputPkg f f.length = .error (.badSize n) := by
  have hwf := ringsWellFormed_of_run h
  refine ⟨hwf.indicesInRange, fun f => ⟨?_, fun n hn hneg => inputPkg_of_ringCall_neg hwf hn hneg _⟩⟩
  constructor
  · intro hnonneg
    cases hcall : m.ringCall f with
    | none => exact Or.inl rfl
    | some n =>
      right
      intro ih l hf hih hl hhf
      obtain ⟨ih', l', hf', hih', hl', hhf', rfl⟩ := ringCall_eq_some hcall
      rw [hih] at hih'
      cases hih'
      rw [hl] at hl'
      cases hl'
      rw [hhf] at hhf'
      cases hhf'
      have := hnonneg _ hcall
      unfold payloadLen at this
      omega
  · intro hcover n hn
    rcases hcover with hnone | hcover
    · rw [hnone] at hn
      cases hn
    · obtain ⟨ih, l, hf, hih, hl, hhf, rfl⟩ := ringCall_eq_some hn
      have := hcover ih l hf hih hl hhf
      unfold payloadLen
      omega

/-- A frame to port 80 of 10.0.0.2 whose TCP header is longer than its total length says, with a keyword behind it. -/
def shortTotalFrame : Bytes :=
  frameOf [0x08, 0x00] 40 [10, 0, 0, 1, 10, 0, 0, 2] [0x1F, 0x90, 0, 80] 15 (List.replicate 40 0 ++ ascii "GET /")

/-- The payload length that reaches the ring can be negative, already with the first frame. -/
theorem negative_length_reaches_ring :
    ¬∀ (ip : Bytes) (port : Int) (frames : List Bytes) (rets : List Bool) (m : ParsePkg),
      machine.run (new.init ip port) frames = some (rets, m) →
        ∀ f, CapturedToEnd f → ∀ n, m.ringCall f = some n → 0 ≤ n := by
  intro h
  have hcap : CapturedToEnd shortTotalFrame := by
    intro ih l hf hih hl hhf
    have hih' : ipHeader shortTotalFrame = .ok (some 14) := by rfl
    rw [hih'] at hih
    cases hih
    have hl' : IpHeader.ipLen shortTotalFrame 14 = .ok 40 := by rfl
    rw [hl'] at hl
    cases hl
    have hhf' : TcpHeader.hlenFlags shortTotalFrame (14 + ipHdrLen) = .ok 0xF010 := by rfl
    rw [hhf'] at hhf
    cases hhf
    decide
  have hcall : (new.init (ascii "10.0.0.2") 80).ringCall shortTotalFrame = some (-40) := by rfl
  have := h (ascii "10.0.0.2") 80 [] [] _ (Machine.run_nil _ _) shortTotalFrame hcap (-40) hcall
  omega

/-- A frame to that port with the head of a request. -/
def headFrame : Bytes := frameOf [0x08, 0x00] 58 [10, 0, 0, 1, 10, 0, 0, 2] [0x1F, 0x90, 0, 80] 5 (ascii "GET / HTTP/1.1\r\n\r\n")

theorem ring_safety_headFrame :
    ∃ m, machine.run (new.init (ascii "10.0.0.2") 80) [headFrame, headFrame] = some ([true, true], m) ∧
      m.ringCall headFrame = some 18 ∧ m.IndicesInRange ∧
      ∀ f, ((∀ n, m.ringCall f = some n → 0 ≤ n) ↔ m.ringCall f = none ∨ TotalCoversHeaders f) ∧
        ∀ n, m.ringCall f = some n → n < 0 → m.inputPkg f f.length = .error (.badSize n) := by
  have hstored : (machine.run (new.init (ascii "10.0.0.2") 80) [headFrame, headFrame]).map (fun r => (r.1, r.2.ringCall headFrame)) =
      some ([true, true], some 18) := by decide +kernel
  obtain ⟨⟨rets, m⟩, hrun, he⟩ := Option.map_eq_some_iff.mp hstored
  obtain ⟨rfl, hcall⟩ := Prod.mk.inj he
  exact ⟨m, hrun, hcall, ring_safety (ascii "10.0.0.2") 80 [headFrame, headFrame] [true, true] m hrun⟩

end ParsePkg

end FrontServer
