import FrontServer.Lemmas.Packet
import FrontServer.Lemmas.ParsePkg

/-!
# What is read of a frame

`InputPkg` reads the frame up to the return of `TcpBuf::InputTcpPkg`, which has copied the payload by then; what follows works on the
ring. `ParsePkg.readFrame` is the first part, `ParsePkg.finish` the second, and `InputPkg` is the one behind the other
(`ParsePkg.inputPkg_eq`).
-/

namespace FrontServer

namespace HttpBuf

/-- `InputTcpPkg` up to the return of `TcpBuf::InputTcpPkg`, nothing for a segment that it drops. -/
def readSegment (h : HttpBuf) (data : Bytes) (len : Int) : Except Fault (Option (Bool × TcpBuf)) := do
  let isHttp ← isHttpHeader data len
  if !isHttp ∧ 0 = h.mTcpBuf.getDataLen then pure none
  else do
    let r ← h.mTcpBuf.inputTcpPkg data len
    pure (some r)

/-- `InputTcpPkg` from there on. -/
def finish (h : HttpBuf) : Option (Bool × TcpBuf) → Except Fault (HttpReply × HttpBuf)
  | none => pure ({ ret := false, extracted := none }, h)
  | some (ret, tcpBuf) =>
    if ret then do
      let (reply, h) ← parseHttpPkg { h with mTcpBuf := tcpBuf }
      pure ({ reply with ret := true }, h)
    else pure ({ ret := false, extracted := none }, { h with mTcpBuf := tcpBuf })

theorem inputTcpPkg_eq (h : HttpBuf) (data : Bytes) (len : Int) : h.inputTcpPkg data len = h.readSegment data len >>= h.finish := by
  unfold inputTcpPkg readSegment
  cases isHttpHeader data len with
  | error e => rfl
  | ok isHttp =>
    rw [ok_bind, ok_bind]
    split
    · rfl
    · cases h.mTcpBuf.inputTcpPkg data len with
      | error e => rfl
      | ok r => rfl

/-- Of a segment whose keyword comparison is made no use of, or comes out the same, its first `len` bytes are read. -/
theorem readSegment_congr {h : HttpBuf} (hwf : h.mTcpBuf.WellFormed) {data data' : Bytes} {len : Int}
    (hdata : data.take len.toNat = data'.take len.toNat) (hlen : len ≤ data.length) (hlen' : len ≤ data'.length) {isHttp isHttp' : Bool}
    (hhttp : isHttpHeader data len = .ok isHttp) (hhttp' : isHttpHeader data' len = .ok isHttp')
    (hsame : h.contents ≠ [] ∨ isHttp = isHttp') : h.readSegment data len = h.readSegment data' len := by
  unfold readSegment
  rw [hhttp, hhttp', ok_bind, ok_bind, TcpBuf.inputTcpPkg_congr hwf hdata hlen hlen']
  rcases hsame with hne | rfl
  · have hkept : ¬0 = h.mTcpBuf.getDataLen := fun hzero => hne ((contents_eq_nil_iff hwf).mpr hzero)
    rw [if_neg (fun hdrop => hkept hdrop.2), if_neg (fun hdrop => hkept hdrop.2)]
  · rfl

end HttpBuf

/-- What `InputPkg` keeps of a segment: whose it is, and what became of the ring, nothing for one that was dropped. -/
structure SegmentRead where
  client : Bytes
  input : Bool
  put : Option (Bool × TcpBuf)

namespace ParsePkg

/-- `InputPkg` as far as it reads the frame: what it returns, and what it keeps of a segment if there is one. -/
def readFrame (m : ParsePkg) (data : Bytes) : Except Fault (Bool × Option SegmentRead) := do
  let (ret, call) ← m.sessionCall data
  match call with
  | none => pure (ret, none)
  | some c => do
    let put ← (m.buf c.client c.input).readSegment c.data c.len
    pure (ret, some { client := c.client, input := c.input, put := put })

/-- `InputPkg` from there on. -/
def finish (m : ParsePkg) : Bool × Option SegmentRead → Except Fault (Bool × ParsePkg)
  | (ret, none) => pure (ret, m)
  | (ret, some s) => do
    let (_, h) ← (m.buf s.client s.input).finish s.put
    pure (ret, m.setBuf s.client s.input h)

/-- `InputPkg` first reads the frame, and what it does then does not look at it. -/
theorem inputPkg_eq (m : ParsePkg) (data : Bytes) (len : Int) : m.inputPkg data len = m.readFrame data >>= m.finish := by
  unfold readFrame
  cases hcall : m.sessionCall data with
  | error e =>
    unfold inputPkg
    rw [hcall]
    rfl
  | ok r =>
    obtain ⟨ret, call⟩ := r
    cases call with
    | none =>
      unfold inputPkg
      rw [hcall]
      rfl
    | some c =>
      have hinput := HttpBuf.inputTcpPkg_eq (m.buf c.client c.input) c.data c.len
      rw [ok_bind]
      dsimp only
      cases hread : (m.buf c.client c.input).readSegment c.data c.len with
      | error e =>
        rw [hread, error_bind] at hinput
        rw [inputPkg_of_error hcall hinput]
        rfl
      | ok put =>
        rw [hread, ok_bind] at hinput
        cases hfinish : (m.buf c.client c.input).finish put with
        | error e =>
          rw [hfinish] at hinput
          rw [inputPkg_of_error hcall hinput]
          show _ = (m.buf c.client c.input).finish put >>= _
          rw [hfinish]
          rfl
        | ok r =>
          rw [hfinish] at hinput
          rw [inputPkg_of_call hcall hinput]
          show _ = (m.buf c.client c.input).finish put >>= _
          rw [hfinish]
          rfl

end ParsePkg

end FrontServer
