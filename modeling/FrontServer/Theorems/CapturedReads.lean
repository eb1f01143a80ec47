import FrontServer.Lemmas.FrameReads

/-!
# Reads behind what was captured

`InputPkg` is given the captured length and does not look at it. Which bytes it reads follows from the fields of the frame alone
(`HeadersCaptured`, `SegmentCaptured`), and it stays inside of the captured bytes exactly when those bounds hold.
-/

namespace FrontServer

/-! ## Headers -/

/-- Where the types of a frame put its IP header. -/
def IpAt (f : Bytes) (ih : Nat) : Prop :=
  Tagged f ∧ VlanHeader.lengthType f etherHdrLen = .ok ipv4Type ∧ ih = etherHdrLen + vlanLen ∨
    EtherHeader.etherLengthType f 0 = .ok ipv4Type ∧ ih = etherHdrLen

/-- The headers that the types and the IP header of a frame tell of were captured: the IP header up to its protocol, the TCP header up
to its data offset. -/
structure HeadersCaptured (f : Bytes) : Prop where
  ether : etherHdrLen ≤ f.length
  vlan : Tagged f → etherHdrLen + vlanLen ≤ f.length
  ip : ∀ ih, IpAt f ih → ih + 10 ≤ f.length
  tcp : ∀ ih, IpAt f ih → TcpAt f ih → ih + ipHdrLen + 14 ≤ f.length

namespace ParsePkg

/-- The Ethernet header is read when it is captured, with the tag when the frame has one. -/
theorem exists_ipHeader {f : Bytes} :
    (∃ r, ipHeader f = .ok r) ↔ etherHdrLen ≤ f.length ∧ (Tagged f → etherHdrLen + vlanLen ≤ f.length) := by
  unfold ipHeader
  rw [exists_bind_eq_ok]
  constructor
  · rintro ⟨t, ht, r, hr⟩
    refine ⟨le_of_ntohsAt ht, fun htag => ?_⟩
    rw [Tagged, ht] at htag
    cases htag
    rw [if_pos rfl] at hr
    obtain ⟨u, hu, -⟩ := bind_eq_ok.mp hr
    exact le_of_ntohsAt hu
  · rintro ⟨hether, hvlan⟩
    obtain ⟨t, ht⟩ := exists_ntohsAt f (0 + 12) hether
    refine ⟨t, ht, ?_⟩
    split
    · rename_i htag
      obtain ⟨u, hu⟩ := exists_ntohsAt f (etherHdrLen + 2) (hvlan (by rw [Tagged, htag]; exact ht))
      refine exists_bind_eq_ok.mpr ⟨u, hu, ?_⟩
      split
      · exact ⟨_, rfl⟩
      · exact ⟨_, rfl⟩
    · split
      · exact ⟨_, rfl⟩
      · exact ⟨_, rfl⟩

/-- The two headers are read when they are captured as far as the flags of TCP, or the protocol of another packet. -/
theorem exists_decodeAt {f : Bytes} {ih : Nat} :
    (∃ r, decodeAt f ih = .ok r) ↔ ih + 10 ≤ f.length ∧ (TcpAt f ih → ih + ipHdrLen + 14 ≤ f.length) := by
  unfold decodeAt
  rw [exists_bind_eq_ok]
  constructor
  · rintro ⟨vhl, hvhl, r, hr⟩
    obtain ⟨p, hp, hr⟩ := bind_eq_ok.mp hr
    have hlast := exists_readAt.mp ⟨p, hp⟩
    refine ⟨by omega, ?_⟩
    rintro ⟨vhl', p', hvhl', hp', htcp⟩
    rw [hvhl] at hvhl'
    rw [hp] at hp'
    cases hvhl'
    cases hp'
    rw [if_pos htcp] at hr
    obtain ⟨hf, hhf, -⟩ := bind_eq_ok.mp hr
    exact le_of_ntohsAt hhf
  · rintro ⟨hip, htcp⟩
    obtain ⟨vhl, hvhl⟩ : ∃ b, IpHeader.ipVhl f ih = .ok b := exists_readAt.mpr (by omega)
    obtain ⟨p, hp⟩ : ∃ b, IpHeader.ipP f ih = .ok b := exists_readAt.mpr (by omega)
    refine ⟨vhl, hvhl, exists_bind_eq_ok.mpr ⟨p, hp, ?_⟩⟩
    split
    · rename_i hisTcp
      have hcap := htcp ⟨vhl, p, hvhl, hp, hisTcp⟩
      obtain ⟨hf, hhf⟩ := exists_ntohsAt f (ih + ipHdrLen + 12) (by omega)
      obtain ⟨l, hl⟩ := exists_ntohsAt f (ih + 2) (by omega)
      exact exists_bind_eq_ok.mpr ⟨hf, hhf, exists_bind_eq_ok.mpr ⟨l, hl, _, rfl⟩⟩
    · exact ⟨_, rfl⟩

/-- The addresses and the ports are in front of the flags, so they are captured then. -/
theorem exists_getClientAddr (m : ParsePkg) {f : Bytes} {ih : Nat} (h : ih + ipHdrLen + 14 ≤ f.length) :
    ∃ r, m.getClientAddr f ih (ih + ipHdrLen) = .ok r := by
  have haddr : ∀ off, off + 4 ≤ f.length → ∃ v, ntohlAt f off = .ok v := by
    intro off hoff
    obtain ⟨w₀, h₀⟩ := exists_ntohsAt f off (by omega)
    obtain ⟨w₁, h₁⟩ := exists_ntohsAt f (off + 2) (by omega)
    exact ⟨_, ntohlAt_eq_ok.mpr ⟨w₀, w₁, h₀, h₁, rfl⟩⟩
  have hhdr : ipHdrLen = 20 := rfl
  obtain ⟨src, hsrc⟩ := haddr (ih + 12) (by omega)
  obtain ⟨dst, hdst⟩ := haddr (ih + 16) (by omega)
  obtain ⟨sport, hsport⟩ := exists_ntohsAt f (ih + ipHdrLen) (by omega)
  obtain ⟨dport, hdport⟩ := exists_ntohsAt f (ih + ipHdrLen + 2) (by omega)
  unfold getClientAddr
  refine exists_bind_eq_ok.mpr ⟨src, hsrc, exists_bind_eq_ok.mpr ⟨dst, hdst, ?_⟩⟩
  refine exists_bind_eq_ok.mpr ⟨sport, hsport, exists_bind_eq_ok.mpr ⟨dport, hdport, ?_⟩⟩
  dsimp only
  split
  · exact ⟨_, rfl⟩
  · split
    · exact ⟨_, rfl⟩
    · exact ⟨_, rfl⟩

/-- The call that a frame makes by its header fields: it has an IP header that passes and a payload whose length is not zero, and it
is of the server. -/
def Carries (m : ParsePkg) (f : Bytes) (c : SessionCall) : Prop :=
  ∃ ih hf l, IpAt f ih ∧ TcpAt f ih ∧ TcpHeader.hlenFlags f (ih + ipHdrLen) = .ok hf ∧ IpHeader.ipLen f ih = .ok l ∧
    m.getClientAddr f ih (ih + ipHdrLen) = .ok (some (c.cIp, c.cPort, c.input)) ∧
      c.data = f.drop (ih + ipHdrLen + TcpHeader.tcpHl hf) ∧ c.len = payloadLen l hf ∧ c.len ≠ 0

/-- What `InputPkg` decodes when it has read the fields of the headers. -/
theorem decode_of_fields {f : Bytes} {ih : Nat} {hf l : UInt16} (hip : IpAt f ih) (htcp : TcpAt f ih)
    (hhf : TcpHeader.hlenFlags f (ih + ipHdrLen) = .ok hf) (hl : IpHeader.ipLen f ih = .ok l) :
    decode f = .ok (some ⟨ih, ih + ipHdrLen, ih + ipHdrLen + TcpHeader.tcpHl hf, payloadLen l hf⟩) :=
  decode_eq_some.mpr ⟨ih, ipHeader_eq_some.mpr hip, decodeAt_eq_some.mpr ⟨htcp, hf, l, hhf, hl, rfl⟩⟩

/-- What a frame with a TCP segment leads to by its header fields, given whose it is. -/
def callOfFields (f : Bytes) (ih : Nat) (hf l : UInt16) : Option (Bytes × Int × Bool) → Bool × Option SessionCall
  | none => (false, none)
  | some (cIp, cPort, input) =>
    if 0 = payloadLen l hf then (true, none)
    else (true, some ⟨cIp, cPort, input, f.drop (ih + ipHdrLen + TcpHeader.tcpHl hf), payloadLen l hf⟩)

/-- What it then asks of the sessions. -/
theorem sessionCall_of_fields {m : ParsePkg} (hm : m.mInited = true) {f : Bytes} {ih : Nat} {hf l : UInt16} (hip : IpAt f ih)
    (htcp : TcpAt f ih) (hhf : TcpHeader.hlenFlags f (ih + ipHdrLen) = .ok hf) (hl : IpHeader.ipLen f ih = .ok l)
    {addr : Option (Bytes × Int × Bool)} (haddr : m.getClientAddr f ih (ih + ipHdrLen) = .ok addr) :
    m.sessionCall f = .ok (callOfFields f ih hf l addr) := by
  unfold sessionCall
  rw [if_neg (by simp [hm]), decode_of_fields hip htcp hhf hl, ok_bind]
  dsimp only
  rw [haddr, ok_bind]
  cases addr with
  | none => rfl
  | some addr =>
    dsimp only [callOfFields]
    split
    · rfl
    · rfl

/-- A frame whose IP header does not pass the checks leads to nothing. -/
theorem sessionCall_of_not_tcp {m : ParsePkg} (hm : m.mInited = true) {f : Bytes} {ih : Nat} (hip : IpAt f ih) (htcp : ¬TcpAt f ih)
    (hcap : ih + 10 ≤ f.length) : m.sessionCall f = .ok (false, none) := by
  obtain ⟨decoded, hdecoded⟩ := exists_decodeAt.mpr ⟨hcap, fun hat => absurd hat htcp⟩
  cases decoded with
  | some d => exact absurd (decodeAt_eq_some.mp hdecoded).1 htcp
  | none =>
    unfold sessionCall decode
    rw [if_neg (by simp [hm]), ipHeader_eq_some.mpr hip, ok_bind]
    dsimp only
    rw [hdecoded]
    rfl

/-- A session is called just for the frames that carry a segment of a flow. -/
theorem sessionCall_eq_some {m : ParsePkg} (hm : m.mInited = true) {f : Bytes} {ret : Bool} {c : SessionCall} :
    m.sessionCall f = .ok (ret, some c) ↔ ret = true ∧ m.Carries f c := by
  constructor
  · intro h
    obtain ⟨d, hd, haddr, hdata, hlen, hne, hret⟩ := decode_of_sessionCall h
    obtain ⟨ih, hih, hat⟩ := decode_eq_some.mp hd
    obtain ⟨htcp, hf, l, hhf, hl, rfl⟩ := decodeAt_eq_some.mp hat
    exact ⟨hret, ih, hf, l, ipHeader_eq_some.mp hih, htcp, hhf, hl, haddr, hdata, hlen, by rw [hlen]; exact hne⟩
  · rintro ⟨rfl, ih, hf, l, hip, htcp, hhf, hl, haddr, hdata, hlen, hne⟩
    rw [sessionCall_of_fields hm hip htcp hhf hl haddr]
    dsimp only [callOfFields]
    rw [← hlen, if_neg (Ne.symm hne), ← hdata]

/-- The headers of a frame are read to the end when they were captured. -/
theorem exists_sessionCall {m : ParsePkg} (hm : m.mInited = true) {f : Bytes} :
    (∃ r, m.sessionCall f = .ok r) ↔ HeadersCaptured f := by
  unfold sessionCall decode
  rw [if_neg (by simp [hm]), exists_bind_eq_ok]
  constructor
  · rintro ⟨decoded, hdecoded, -⟩
    obtain ⟨found, hfound, hdecoded⟩ := bind_eq_ok.mp hdecoded
    obtain ⟨hether, hvlan⟩ := exists_ipHeader.mp ⟨found, hfound⟩
    have hat : ∀ ih, IpAt f ih → ∃ r, decodeAt f ih = .ok r := by
      intro ih hip
      have hih := ipHeader_eq_some.mpr hip
      rw [hfound] at hih
      cases hih
      exact ⟨decoded, hdecoded⟩
    exact ⟨hether, hvlan, fun ih hip => (exists_decodeAt.mp (hat ih hip)).1, fun ih hip => (exists_decodeAt.mp (hat ih hip)).2⟩
  · rintro ⟨hether, hvlan, hip, htcp⟩
    obtain ⟨found, hfound⟩ := exists_ipHeader.mpr ⟨hether, hvlan⟩
    cases found with
    | none => exact ⟨none, by rw [hfound]; rfl, _, rfl⟩
    | some ih =>
      have hat : IpAt f ih := ipHeader_eq_some.mp hfound
      obtain ⟨decoded, hdecoded⟩ := exists_decodeAt.mpr ⟨hip ih hat, htcp ih hat⟩
      refine ⟨decoded, by rw [hfound]; exact hdecoded, ?_⟩
      cases decoded with
      | none => exact ⟨_, rfl⟩
      | some d =>
        obtain ⟨htcpAt, hf, l, -, -, rfl⟩ := decodeAt_eq_some.mp hdecoded
        obtain ⟨addr, haddr⟩ := exists_getClientAddr m (htcp ih hat htcpAt)
        refine exists_bind_eq_ok.mpr ⟨addr, haddr, ?_⟩
        cases addr with
        | none => exact ⟨_, rfl⟩
        | some addr =>
          dsimp only
          split
          · exact ⟨_, rfl⟩
          · exact ⟨_, rfl⟩

end ParsePkg

/-! ## Payloads -/

namespace HttpBuf

/-- The segment was captured as far as a buffer reads it: the keyword comparison comes to an end in it, and where the buffer does not
drop it, it has no room for it or gets as many bytes as there are. -/
structure SegmentCaptured (h : HttpBuf) (data : Bytes) (len : Int) : Prop where
  keyword : ¬EndsInKeyword data
  copied : HasKeyword data ∨ h.contents ≠ [] →
    (TcpBuf.capacity : Int) < h.contents.length + len ∨ 0 ≤ len ∧ len ≤ data.length

/-- The segment is read when it is captured as far as its keyword and its bytes are looked at. -/
theorem exists_readSegment {h : HttpBuf} (hwf : h.mTcpBuf.WellFormed) {data : Bytes} {len : Int} (hlen : len ≠ 0) :
    (∃ r, h.readSegment data len = .ok r) ↔ h.SegmentCaptured data len := by
  have hempty := contents_eq_nil_iff hwf
  have hput : (∃ r, h.mTcpBuf.inputTcpPkg data len = .ok r) ↔
      (TcpBuf.capacity : Int) < h.contents.length + len ∨ 0 ≤ len ∧ len ≤ data.length := by
    constructor
    · rintro ⟨⟨ret, b⟩, hok⟩
      exact TcpBuf.inputTcpPkg_eq_ok hwf hok
    · intro hcond
      by_cases hroom : (TcpBuf.capacity : Int) < h.contents.length + len
      · exact ⟨_, TcpBuf.inputTcpPkg_of_gt hwf hroom⟩
      · obtain ⟨hnonneg, hle⟩ := hcond.resolve_left hroom
        obtain ⟨b, hb, -⟩ := TcpBuf.inputTcpPkg_of_le hwf hnonneg hle (not_lt.mp hroom)
        exact ⟨_, hb⟩
  unfold readSegment
  rw [exists_bind_eq_ok]
  constructor
  · rintro ⟨isHttp, hhttp, r, hr⟩
    obtain ⟨hcut, hkeyword⟩ := (isHttpHeader_eq_ok hlen).mp hhttp
    refine ⟨hcut, fun hreads => ?_⟩
    rw [if_neg] at hr
    · obtain ⟨put, hok, -⟩ := bind_eq_ok.mp hr
      exact hput.mp ⟨put, hok⟩
    · rintro ⟨hno, hzero⟩
      rcases hreads with hhas | hne
      · rw [hkeyword.mpr hhas] at hno
        cases hno
      · exact hne (hempty.mpr hzero)
  · rintro ⟨hcut, hcopied⟩
    refine ⟨_, isHttpHeader_of_not_cut hlen hcut, ?_⟩
    split
    · exact ⟨_, rfl⟩
    · rename_i hkept
      have hreads : HasKeyword data ∨ h.contents ≠ [] := by
        by_contra hnone
        obtain ⟨hno, hnil⟩ := not_or.mp hnone
        exact hkept ⟨by simpa using hno, hempty.mp (Classical.not_not.mp hnil)⟩
      obtain ⟨r, hr⟩ := hput.mpr (hcopied hreads)
      exact exists_bind_eq_ok.mpr ⟨r, hr, _, rfl⟩

end HttpBuf

namespace ParsePkg

/-- All that `InputPkg` reads of a frame was captured. -/
structure Captured (m : ParsePkg) (f : Bytes) : Prop where
  headers : HeadersCaptured f
  payload : ∀ c, m.Carries f c → (m.buf c.client c.input).SegmentCaptured c.data c.len

/-- Reads of a frame by a `ParsePkg` with well-formed rings stay inside of it exactly when it was captured that far. -/
theorem exists_readFrame {m : ParsePkg} (hm : m.mInited = true) (hwf : m.RingsWellFormed) {f : Bytes} :
    (∃ r, m.readFrame f = .ok r) ↔ m.Captured f := by
  unfold readFrame
  rw [exists_bind_eq_ok]
  constructor
  · rintro ⟨⟨ret, call⟩, hcall, hread⟩
    refine ⟨(exists_sessionCall hm).mp ⟨_, hcall⟩, fun c hc => ?_⟩
    have hcall' := (sessionCall_eq_some hm).mpr ⟨rfl, hc⟩
    rw [hcall] at hcall'
    cases hcall'
    obtain ⟨put, hput, -⟩ := exists_bind_eq_ok.mp hread
    obtain ⟨-, -, -, -, -, -, -, -, -, -, hne⟩ := hc
    exact (HttpBuf.exists_readSegment (hwf _ _) hne).mp ⟨put, hput⟩
  · rintro ⟨hheaders, hpayload⟩
    obtain ⟨⟨ret, call⟩, hcall⟩ := (exists_sessionCall hm).mpr hheaders
    refine ⟨_, hcall, ?_⟩
    cases call with
    | none => exact ⟨_, rfl⟩
    | some c =>
      have hc := ((sessionCall_eq_some hm).mp hcall).2
      have hcaptured := hpayload c hc
      obtain ⟨-, -, -, -, -, -, -, -, -, -, hne⟩ := hc
      obtain ⟨put, hput⟩ := (HttpBuf.exists_readSegment (hwf _ _) hne).mpr hcaptured
      exact exists_bind_eq_ok.mpr ⟨put, hput, _, rfl⟩

/-- In every state reached after `Init`, `InputPkg` reads a frame and then goes on without it, and what it reads is inside of the
captured bytes exactly when the headers the frame tells of were captured and the segment as far as the buffer reads it. -/
theorem captured_reads_iff (ip : Bytes) (port : Int) (frames : List Bytes) (rets : List Bool) (m : ParsePkg)
    (h : machine.run (new.init ip port) frames = some (rets, m)) (f : Bytes) :
    m.inputPkg f f.length = (m.readFrame f >>= m.finish) ∧ ((∃ r, m.readFrame f = .ok r) ↔ m.Captured f) := by
  have hwf := ringsWellFormed_of_run h
  have hm := inited_of_run h
  exact ⟨inputPkg_eq m f f.length, exists_readFrame hm hwf⟩

/-- A frame to port 80 of 10.0.0.2 with one byte of payload, captured to its end. -/
def oneByteFrame : Bytes := frameOf [0x08, 0x00] 41 [10, 0, 0, 1, 10, 0, 0, 2] [0x1F, 0x90, 0, 80] 5 (ascii "G")

/-- The keyword comparison reads the byte behind the frame. -/
theorem reads_behind_frame :
    ¬∀ (ip : Bytes) (port : Int) (frames : List Bytes) (rets : List Bool) (m : ParsePkg),
      machine.run (new.init ip port) frames = some (rets, m) → ∀ f, ∃ r, m.readFrame f = .ok r := by
  intro h
  obtain ⟨r, hr⟩ := h (ascii "10.0.0.2") 80 [] [] _ (Machine.run_nil _ _) oneByteFrame
  have hfault : (new.init (ascii "10.0.0.2") 80).readFrame oneByteFrame = .error (.outOfRange 1) := by rfl
  rw [hfault] at hr
  cases hr

/-- A frame from there with the start of a request. -/
def startFrame : Bytes := frameOf [0x08, 0x00] 56 [10, 0, 0, 1, 10, 0, 0, 2] [0x1F, 0x90, 0, 80] 5 (ascii "GET / HTTP/1.1\r\n")

/-- The frame that started a flow, sent again. -/
theorem captured_reads_iff_startFrame :
    ∃ m, machine.run (new.init (ascii "10.0.0.2") 80) [startFrame] = some ([true], m) ∧
      (m.mSessions.lookup (ascii "10.0.0.1:8080")).isSome ∧
      m.inputPkg startFrame startFrame.length = (m.readFrame startFrame >>= m.finish) ∧
      ((∃ r, m.readFrame startFrame = .ok r) ↔ m.Captured startFrame) := by
  have hone : (machine.run (new.init (ascii "10.0.0.2") 80) [startFrame]).map
      (fun r => (r.1, (r.2.mSessions.lookup (ascii "10.0.0.1:8080")).isSome)) = some ([true], true) := by decide +kernel
  obtain ⟨⟨rets, m⟩, hrun, he⟩ := Option.map_eq_some_iff.mp hone
  obtain ⟨rfl, hsession⟩ := Prod.mk.inj he
  exact ⟨m, hrun, hsession, captured_reads_iff (ascii "10.0.0.2") 80 [startFrame] [true] m hrun startFrame⟩

end ParsePkg

end FrontServer
