import FrontServer.ParsePkg
import FrontServer.Lemmas.HttpFlow

/-!
# What a frame does to the sessions

A frame makes at most one call into one buffer, that of a client and a direction (`ParsePkg.inputPkg_cases`), and the buffers of all
others stay as they are. Every ring stays well formed, whatever the frames.
-/

namespace FrontServer

namespace HttpBuf

/-- The length with which `InputTcpPkg` calls `TcpBuf::InputTcpPkg`, if it does: it drops a segment without a keyword that finds the
buffer empty. -/
def ringCall (h : HttpBuf) (data : Bytes) (len : Int) : Option Int :=
  match isHttpHeader data len with
  | .error _ => none
  | .ok isHttp => if !isHttp ∧ 0 = h.mTcpBuf.getDataLen then none else some len

theorem ringCall_eq_some {h : HttpBuf} {data : Bytes} {len n : Int} :
    h.ringCall data len = some n ↔
      ∃ isHttp, isHttpHeader data len = .ok isHttp ∧ ¬(!isHttp ∧ 0 = h.mTcpBuf.getDataLen) ∧ len = n := by
  unfold ringCall
  cases isHttpHeader data len with
  | error e => simp
  | ok isHttp =>
    by_cases hdrop : !isHttp ∧ 0 = h.mTcpBuf.getDataLen
    · simp only [hdrop, and_self, if_true, reduceCtorEq, Except.ok.injEq, exists_eq_left', not_true_eq_false, false_and]
    · simp only [hdrop, if_false, Option.some.injEq, Except.ok.injEq, exists_eq_left', not_false_eq_true, true_and]

/-- A call that makes no call of the ring leaves the buffer as it is. -/
theorem eq_of_ringCall_none {h h' : HttpBuf} {data : Bytes} {len : Int} {reply : HttpReply}
    (hcall : h.ringCall data len = none) (hok : h.inputTcpPkg data len = .ok (reply, h')) : h' = h := by
  unfold inputTcpPkg at hok
  obtain ⟨isHttp, hhttp, hok⟩ := bind_eq_ok.mp hok
  by_cases hdrop : !isHttp ∧ 0 = h.mTcpBuf.getDataLen
  · rw [if_pos hdrop] at hok
    cases hok
    rfl
  · have hsome := ringCall_eq_some.mpr ⟨isHttp, hhttp, hdrop, rfl⟩
    rw [hcall] at hsome
    cases hsome

/-- A call of the ring with a negative length ends the run in its `memcpy`. -/
theorem inputTcpPkg_of_ringCall_neg {h : HttpBuf} (hwf : h.mTcpBuf.WellFormed) {data : Bytes} {len n : Int}
    (hcall : h.ringCall data len = some n) (hn : n < 0) : h.inputTcpPkg data len = .error (.badSize n) := by
  obtain ⟨isHttp, hhttp, hdrop, rfl⟩ := ringCall_eq_some.mp hcall
  have hroom : ¬len > h.mTcpBuf.remainSize := by
    rw [TcpBuf.remainSize_eq hwf]
    have := TcpBuf.length_contents_le hwf
    omega
  have hend : ¬h.mTcpBuf.mEnd + len ≥ maxBufSize := by
    have := hwf.end_lt
    omega
  have hring : h.mTcpBuf.inputTcpPkg data len = .error (.badSize len) := by
    unfold TcpBuf.inputTcpPkg TcpBuf.copyIn
    rw [if_neg hroom, if_neg hend, memcpy_of_neg _ _ _ _ hn]
    rfl
  unfold inputTcpPkg
  rw [hhttp, ok_bind, if_neg hdrop, hring]
  rfl

/-- A segment of negative length changes nothing, if the call returns. -/
theorem eq_of_neg {h h' : HttpBuf} (hwf : h.mTcpBuf.WellFormed) {data : Bytes} {len : Int} (hlen : len < 0)
    {reply : HttpReply} (hok : h.inputTcpPkg data len = .ok (reply, h')) : h' = h := by
  cases hcall : h.ringCall data len with
  | none => exact eq_of_ringCall_none hcall hok
  | some n =>
    obtain ⟨-, -, -, rfl⟩ := ringCall_eq_some.mp hcall
    rw [inputTcpPkg_of_ringCall_neg hwf hcall hlen] at hok
    cases hok

/-- Every call that returns keeps the ring well formed. -/
theorem wellFormed_of_inputTcpPkg {h h' : HttpBuf} (hwf : h.mTcpBuf.WellFormed) {data : Bytes} {len : Int} {reply : HttpReply}
    (hok : h.inputTcpPkg data len = .ok (reply, h')) : h'.mTcpBuf.WellFormed := by
  have hq : h.Holds ⟨h.contents, TcpBuf.length_contents_le hwf⟩ := ⟨hwf, rfl⟩
  have hstep : machine.step h ⟨data, len⟩ = some (reply, h') := congrArg Except.toOption hok
  obtain ⟨q', -, hq'⟩ := simulates_flow.step_some hq hstep
  exact hq'.1

end HttpBuf

namespace Session

/-- The buffer of one direction. -/
def side (s : Session) (input : Bool) : HttpBuf := if input then s.mInput else s.mOutput

/-- The session with another buffer for one direction. -/
def setSide (s : Session) (input : Bool) (h : HttpBuf) : Session :=
  if input then { s with mInput := h } else { s with mOutput := h }

@[simp] theorem side_new (client : Bytes) (input : Bool) : (new client).side input = HttpBuf.new client input := by
  cases input <;> rfl

@[simp] theorem side_setSide (s : Session) (input : Bool) (h : HttpBuf) : (s.setSide input h).side input = h := by
  cases input <;> rfl

theorem side_setSide_of_ne (s : Session) {input input' : Bool} (hne : input' ≠ input) (h : HttpBuf) :
    (s.setSide input h).side input' = s.side input' := by
  cases input <;> cases input' <;> first | rfl | exact absurd rfl hne

/-- A call goes to the buffer of its direction. -/
theorem inputTcpPkg_eq_ok {s s' : Session} {data : Bytes} {len : Int} {input : Bool} {reply : HttpReply} :
    s.inputTcpPkg data len input = .ok (reply, s') ↔
      ∃ h, (s.side input).inputTcpPkg data len = .ok (reply, h) ∧ s' = s.setSide input h := by
  cases input with
  | false =>
    show (s.mOutput.inputTcpPkg data len >>= _) = _ ↔ _
    rw [bind_eq_ok]
    constructor
    · rintro ⟨⟨reply, h⟩, hok, he⟩
      cases he
      exact ⟨h, hok, rfl⟩
    · rintro ⟨h, hok, rfl⟩
      exact ⟨(reply, h), hok, rfl⟩
  | true =>
    show (s.mInput.inputTcpPkg data len >>= _) = _ ↔ _
    rw [bind_eq_ok]
    constructor
    · rintro ⟨⟨reply, h⟩, hok, he⟩
      cases he
      exact ⟨h, hok, rfl⟩
    · rintro ⟨h, hok, rfl⟩
      exact ⟨(reply, h), hok, rfl⟩

end Session

namespace ParsePkg

/-- The buffer of a client and a direction, a new one where the client has no session. -/
def buf (m : ParsePkg) (client : Bytes) (input : Bool) : HttpBuf := (m.session client).side input

/-- The sessions with another buffer for a client and a direction. -/
def setBuf (m : ParsePkg) (client : Bytes) (input : Bool) (h : HttpBuf) : ParsePkg :=
  { m with mSessions := m.mSessions.insert client ((m.session client).setSide input h) }

@[simp] theorem buf_setBuf (m : ParsePkg) (client : Bytes) (input : Bool) (h : HttpBuf) :
    (m.setBuf client input h).buf client input = h := by
  simp [buf, session, setBuf]

/-- Another client's buffers, and the same client's of the other direction, stay as they are. -/
theorem buf_setBuf_of_ne (m : ParsePkg) {client client' : Bytes} {input input' : Bool} (h : HttpBuf)
    (hne : client' ≠ client ∨ input' ≠ input) : (m.setBuf client input h).buf client' input' = m.buf client' input' := by
  by_cases hclient : client' = client
  · subst hclient
    have hinput : input' ≠ input := hne.resolve_left (fun hne => hne rfl)
    simp [buf, session, setBuf, Session.side_setSide_of_ne _ hinput]
  · simp [buf, session, setBuf, Finmap.lookup_insert_of_ne _ hclient]

/-- A frame that makes a call has been decoded, and the call has its payload. -/
theorem decode_of_sessionCall {m : ParsePkg} {f : Bytes} {ret : Bool} {c : SessionCall}
    (h : m.sessionCall f = .ok (ret, some c)) :
    ∃ d, decode f = .ok (some d) ∧ m.getClientAddr f d.ih d.th = .ok (some (c.cIp, c.cPort, c.input)) ∧
      c.data = f.drop d.payload ∧ c.len = d.dataLen ∧ d.dataLen ≠ 0 ∧ ret = true := by
  unfold sessionCall at h
  split at h
  · cases h
  · obtain ⟨decoded, hdecoded, h⟩ := bind_eq_ok.mp h
    cases decoded with
    | none => cases h
    | some d =>
      obtain ⟨addr, haddr, h⟩ := bind_eq_ok.mp h
      rcases addr with _ | ⟨cIp, cPort, input⟩
      · cases h
      · dsimp only at h
        split at h
        · cases h
        · rename_i hlen
          cases h
          exact ⟨d, hdecoded, haddr, rfl, rfl, fun he => hlen he.symm, rfl⟩

/-- What one frame does: it makes no call and leaves the sessions as they are, or it makes one call into one buffer and leaves all
others as they are. -/
theorem inputPkg_cases {m m' : ParsePkg} {f : Bytes} {len : Int} {ret : Bool} (h : m.inputPkg f len = .ok (ret, m')) :
    m.sessionCall f = .ok (ret, none) ∧ m' = m ∨
      ∃ c reply b, m.sessionCall f = .ok (ret, some c) ∧
        (m.buf c.client c.input).inputTcpPkg c.data c.len = .ok (reply, b) ∧ m' = m.setBuf c.client c.input b := by
  unfold inputPkg at h
  obtain ⟨⟨ret', call⟩, hcall, h⟩ := bind_eq_ok.mp h
  cases call with
  | none =>
    cases h
    exact Or.inl ⟨hcall, rfl⟩
  | some c =>
    obtain ⟨⟨_, m₁⟩, hsession, h⟩ := bind_eq_ok.mp h
    cases h
    unfold inputPkg2Session at hsession
    obtain ⟨⟨reply, s'⟩, hs, hsession⟩ := bind_eq_ok.mp hsession
    cases hsession
    obtain ⟨b, hb, rfl⟩ := Session.inputTcpPkg_eq_ok.mp hs
    exact Or.inr ⟨c, reply, b, hcall, hb, rfl⟩

/-- A frame whose call returns leads to the sessions with the buffer the call leads to. -/
theorem inputPkg_of_call {m : ParsePkg} {f : Bytes} {len : Int} {ret : Bool} {c : SessionCall} {reply : HttpReply} {b : HttpBuf}
    (hcall : m.sessionCall f = .ok (ret, some c)) (hb : (m.buf c.client c.input).inputTcpPkg c.data c.len = .ok (reply, b)) :
    m.inputPkg f len = .ok (ret, m.setBuf c.client c.input b) := by
  have hs := Session.inputTcpPkg_eq_ok.mpr ⟨b, hb, rfl⟩
  unfold inputPkg inputPkg2Session
  rw [hcall, ok_bind]
  dsimp only
  rw [hs]
  rfl

/-- A frame whose call does not return faults as the call does. -/
theorem inputPkg_of_error {m : ParsePkg} {f : Bytes} {len : Int} {ret : Bool} {c : SessionCall} {e : Fault}
    (hcall : m.sessionCall f = .ok (ret, some c)) (he : (m.buf c.client c.input).inputTcpPkg c.data c.len = .error e) :
    m.inputPkg f len = .error e := by
  have hs : (m.session c.client).inputTcpPkg c.data c.len c.input = .error e := by
    unfold buf Session.side at he
    unfold Session.inputTcpPkg
    split
    · rename_i hinput
      rw [if_pos hinput] at he
      rw [he]
      rfl
    · rename_i hinput
      rw [if_neg hinput] at he
      rw [he]
      rfl
  unfold inputPkg inputPkg2Session
  rw [hcall, ok_bind]
  dsimp only
  rw [hs]
  rfl

/-- What `InputPkg` does with a frame depends on the call it makes only. -/
theorem inputPkg_congr {m : ParsePkg} {f f' : Bytes} (h : m.sessionCall f' = m.sessionCall f) (len len' : Int) :
    m.inputPkg f' len' = m.inputPkg f len := by
  unfold inputPkg
  rw [h]

theorem machine_step_eq_some {m m' : ParsePkg} {f : Bytes} {ret : Bool} :
    machine.step m f = some (ret, m') ↔ m.inputPkg f f.length = .ok (ret, m') := by
  exact toOption_eq_some

/-- Every ring of every session is well formed. -/
def RingsWellFormed (m : ParsePkg) : Prop := ∀ client input, (m.buf client input).mTcpBuf.WellFormed

theorem ringsWellFormed_init (ip : Bytes) (port : Int) : (new.init ip port).RingsWellFormed := by
  intro client input
  have hbuf : (new.init ip port).buf client input = HttpBuf.new client input := by
    simp [buf, session, init, new]
  rw [hbuf]
  exact TcpBuf.new_wellFormed client

/-- One frame keeps every ring well formed. -/
theorem RingsWellFormed.step {m m' : ParsePkg} (h : m.RingsWellFormed) {f : Bytes} {ret : Bool}
    (hs : machine.step m f = some (ret, m')) : m'.RingsWellFormed := by
  rcases inputPkg_cases (machine_step_eq_some.mp hs) with ⟨-, rfl⟩ | ⟨c, reply, b, -, hb, rfl⟩
  · exact h
  · intro client input
    by_cases hne : client ≠ c.client ∨ input ≠ c.input
    · rw [buf_setBuf_of_ne m b hne]
      exact h client input
    · obtain ⟨rfl, rfl⟩ : client = c.client ∧ input = c.input := by
        simpa [not_or] using hne
      rw [buf_setBuf]
      exact HttpBuf.wellFormed_of_inputTcpPkg (h _ _) hb

/-- What `Init` set stays. -/
theorem config_of_step {m m' : ParsePkg} {f : Bytes} {ret : Bool} (hs : machine.step m f = some (ret, m')) :
    m'.mIp = m.mIp ∧ m'.mPort = m.mPort ∧ m'.mInited = m.mInited := by
  rcases inputPkg_cases (machine_step_eq_some.mp hs) with ⟨-, rfl⟩ | ⟨c, reply, b, -, -, rfl⟩
  · exact ⟨rfl, rfl, rfl⟩
  · exact ⟨rfl, rfl, rfl⟩

/-- Every state reached after `Init` has well-formed rings. -/
theorem ringsWellFormed_of_run {ip : Bytes} {port : Int} {frames : List Bytes} {rets : List Bool} {m : ParsePkg}
    (h : machine.run (new.init ip port) frames = some (rets, m)) : m.RingsWellFormed :=
  Machine.run_invariant (fun h => h.step) (ringsWellFormed_init ip port) h

/-- Every state reached after `Init` is initialised. -/
theorem inited_of_run {ip : Bytes} {port : Int} {frames : List Bytes} {rets : List Bool} {m : ParsePkg}
    (h : machine.run (new.init ip port) frames = some (rets, m)) : m.mInited = true :=
  Machine.run_invariant (P := fun m => m.mInited = true) (fun hm hs => (config_of_step hs).2.2.trans hm) rfl h

end ParsePkg

end FrontServer
