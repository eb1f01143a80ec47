import FrontServer.Theorems.CapturedReads

/-!
# Frames that differ behind their datagram

What lies behind the IP datagram of a frame (padding, a trailer) can be read by the keyword comparison, which looks at up to four bytes
of a payload that has fewer, and by the header reader of a datagram too short for a TCP header. Where neither happens, two frames with
the same datagram do the same (`padding_ignored_iff`).
-/

namespace FrontServer

/-! ## Frames with the same front -/

section Front

variable {f f' : Bytes} {n : Nat}

/-- Frames with the same front have the same bytes in it. -/
theorem getElem?_eq_of_take (h : f.take n = f'.take n) {i : Nat} (hi : i < n) : f[i]? = f'[i]? := by
  rw [← List.getElem?_take_of_lt hi, h, List.getElem?_take_of_lt hi]

/-- A byte of it is read the same in both. -/
theorem readAt_eq_of_take (h : f.take n = f'.take n) {i : Nat} (hi : i < n) : readAt f i = readAt f' i := by
  unfold readAt
  rw [Int.toNat_natCast, getElem?_eq_of_take h hi]

/-- A 16-bit field in it is read the same in both. -/
theorem ntohsAt_eq_of_take (h : f.take n = f'.take n) {off : Nat} (hoff : off + 2 ≤ n) : ntohsAt f off = ntohsAt f' off := by
  unfold ntohsAt
  rw [readAt_eq_of_take h (show off < n by omega), readAt_eq_of_take h (show off + 1 < n by omega)]

/-- So is a 32-bit field. -/
theorem ntohlAt_eq_of_take (h : f.take n = f'.take n) {off : Nat} (hoff : off + 4 ≤ n) : ntohlAt f off = ntohlAt f' off := by
  unfold ntohlAt
  rw [ntohsAt_eq_of_take h (show off + 2 ≤ n by omega), ntohsAt_eq_of_take h (show off + 2 + 2 ≤ n by omega)]

/-- A piece of it is the same in both. -/
theorem drop_take_eq_of_take {p k : Nat} (h : f.take (p + k) = f'.take (p + k)) : (f.drop p).take k = (f'.drop p).take k := by
  have hcut : ∀ g : Bytes, (g.drop p).take k = (g.take (p + k)).drop p := by
    intro g
    rw [List.drop_take, Nat.add_sub_cancel_left]
  rw [hcut f, hcut f', h]

/-- The IP header is at the same place in both. -/
theorem ipAt_of_take (h : f.take n = f'.take n) {ih : Nat} (hn : ih ≤ n) (hip : IpAt f ih) : IpAt f' ih := by
  have hih : etherHdrLen ≤ ih := by
    rcases hip with ⟨-, -, rfl⟩ | ⟨-, rfl⟩
    · exact Nat.le_add_right _ _
    · exact le_rfl
  have hether : EtherHeader.etherLengthType f 0 = EtherHeader.etherLengthType f' 0 :=
    ntohsAt_eq_of_take h (hih.trans hn)
  rcases hip with ⟨htag, hvlan, rfl⟩ | ⟨hip, rfl⟩
  · refine Or.inl ⟨hether.symm.trans htag, ?_, rfl⟩
    rw [← hvlan]
    exact (ntohsAt_eq_of_take h hn).symm
  · exact Or.inr ⟨hether.symm.trans hip, rfl⟩

/-- Both have a TCP header behind it or none has. -/
theorem tcpAt_iff_of_take (h : f.take n = f'.take n) {ih : Nat} (hn : ih + 10 ≤ n) : TcpAt f ih ↔ TcpAt f' ih := by
  unfold TcpAt IpHeader.ipVhl IpHeader.ipP
  rw [readAt_eq_of_take h (show ih < n by omega), readAt_eq_of_take h (show ih + 9 < n by omega)]

end Front

/-- Two frames that carry the same IP datagram, `l` bytes from `ih` on, and were captured to its end. Each has a TCP payload of a
length that is not negative. -/
structure SameDatagram (f f' : Bytes) (ih : Nat) (l : UInt16) : Prop where
  ip : IpAt f ih
  total : IpHeader.ipLen f ih = .ok l
  front : f.take (ih + l.toNat) = f'.take (ih + l.toNat)
  captured : ih + l.toNat ≤ f.length
  captured' : ih + l.toNat ≤ f'.length
  payload : ∃ hf, TcpHeader.hlenFlags f (ih + ipHdrLen) = .ok hf ∧ 0 ≤ payloadLen l hf
  payload' : ∃ hf, TcpHeader.hlenFlags f' (ih + ipHdrLen) = .ok hf ∧ 0 ≤ payloadLen l hf

namespace SameDatagram

variable {f f' : Bytes} {ih : Nat} {l : UInt16}

/-- The datagram has an IP header. -/
theorem le_total (h : SameDatagram f f' ih l) : ipHdrLen ≤ l.toNat := by
  obtain ⟨hf, -, hnonneg⟩ := h.payload
  unfold payloadLen at hnonneg
  omega

/-- The second frame has its IP header there too. -/
theorem ip' (h : SameDatagram f f' ih l) : IpAt f' ih := ipAt_of_take h.front (Nat.le_add_right _ _) h.ip

/-- It has the same total length. -/
theorem total' (h : SameDatagram f f' ih l) : IpHeader.ipLen f' ih = .ok l := by
  have hl := h.le_total
  rw [← h.total]
  exact (ntohsAt_eq_of_take h.front (by unfold ipHdrLen at hl; omega)).symm

/-- The two frames can be exchanged. -/
theorem symm (h : SameDatagram f f' ih l) : SameDatagram f' f ih l :=
  ⟨h.ip', h.total', h.front.symm, h.captured', h.captured, h.payload', h.payload⟩

end SameDatagram

/-! ## The keyword comparison -/

namespace HttpBuf

/-- The keyword comparison makes no difference between two segments: they lie in the same memory, or neither comparison reads behind it
and the buffer makes no use of what they give, or they give the same. -/
def KeywordAlike (h : HttpBuf) (d d' : Bytes) : Prop :=
  d = d' ∨ ¬EndsInKeyword d ∧ ¬EndsInKeyword d' ∧ (h.contents ≠ [] ∨ (HasKeyword d ↔ HasKeyword d'))

variable {h : HttpBuf} {d d' : Bytes} {len : Int}

/-- Where the keyword comparison makes no difference, nothing does. -/
theorem inputTcpPkg_congr (hwf : h.mTcpBuf.WellFormed) (hpos : 0 < len) (hbytes : d.take len.toNat = d'.take len.toNat)
    (hlen : len ≤ d.length) (hlen' : len ≤ d'.length) (halike : h.KeywordAlike d d') : h.inputTcpPkg d len = h.inputTcpPkg d' len := by
  rcases halike with rfl | ⟨hcut, hcut', hsame⟩
  · rfl
  · have hhttp := isHttpHeader_of_not_cut hpos.ne' hcut
    have hhttp' := isHttpHeader_of_not_cut hpos.ne' hcut'
    rw [inputTcpPkg_eq, inputTcpPkg_eq,
      readSegment_congr hwf hbytes hlen hlen' hhttp hhttp' (hsame.imp_right fun hiff => decide_eq_decide.mpr hiff)]

/-- A segment whose memory ends inside of a keyword is read on there. -/
theorem inputTcpPkg_of_cut (hpos : 0 < len) (hcut : EndsInKeyword d) : h.inputTcpPkg d len = .error (.outOfRange d.length) := by
  rcases isHttpHeader_cases d hpos.ne' with ⟨hhas, -⟩ | ⟨-, e⟩ | ⟨⟨-, hno⟩, -⟩
  · exact absurd hcut (not_endsInKeyword hhas)
  · unfold inputTcpPkg
    rw [e]
    rfl
  · exact absurd hcut hno

/-- Any other segment that was captured to its end is not read behind it, by four bytes or less. -/
theorem outOfRange_of_inputTcpPkg (hwf : h.mTcpBuf.WellFormed) (hpos : 0 < len) (hlen : len ≤ d.length) (hcut : ¬EndsInKeyword d)
    {i : Int} (he : h.inputTcpPkg d len = .error (.outOfRange i)) : i < 0 ∨ readBufSize < i := by
  unfold inputTcpPkg at he
  rw [isHttpHeader_of_not_cut hpos.ne' hcut, ok_bind] at he
  split at he
  · cases he
  · by_cases hroom : (TcpBuf.capacity : Int) < h.contents.length + len
    · rw [TcpBuf.inputTcpPkg_of_gt hwf hroom] at he
      cases he
    · obtain ⟨ring, hring, hwf', -⟩ := TcpBuf.inputTcpPkg_of_le hwf hpos.le hlen (not_lt.mp hroom)
      rw [hring, ok_bind] at he
      dsimp only at he
      rw [if_pos rfl] at he
      cases hparse : parseHttpPkg { h with mTcpBuf := ring } with
      | error e =>
        rw [hparse] at he
        cases he
        exact outOfRange_of_parseHttpPkg hwf' hparse
      | ok r =>
        rw [hparse] at he
        cases he

/-- A segment without a keyword is dropped on an empty buffer. -/
theorem inputTcpPkg_of_dropped (hwf : h.mTcpBuf.WellFormed) (hpos : 0 < len) (hcut : ¬EndsInKeyword d) (hno : ¬HasKeyword d)
    (hempty : h.contents = []) : h.inputTcpPkg d len = .ok ({ ret := false, extracted := none }, h) := by
  unfold inputTcpPkg
  rw [isHttpHeader_of_not_cut hpos.ne' hcut, decide_eq_false hno, ok_bind, if_pos ⟨rfl, (contents_eq_nil_iff hwf).mp hempty⟩]
  rfl

/-- The front of a keyword is kept in an empty buffer: there is no header line in it. -/
theorem contents_of_front {k : Bytes} (hk : k ∈ keywords) (hkd : k <+: d) (hlt : len < k.length) (hwf : h.mTcpBuf.WellFormed)
    (hpos : 0 < len) (hempty : h.contents = []) {reply : HttpReply} {h' : HttpBuf} (hok : h.inputTcpPkg d len = .ok (reply, h')) :
    h'.contents ≠ [] := by
  have hq : h.Holds ⟨h.contents, TcpBuf.length_contents_le hwf⟩ := ⟨hwf, rfl⟩
  have hstep : machine.step h ⟨d, len⟩ = some (reply, h') := congrArg Except.toOption hok
  obtain ⟨q', hflow, hq'⟩ := simulates_flow.step_some hq hstep
  rw [hq'.contents_eq]
  have hne : d.take len.toNat ≠ [] := by
    have hd := hkd.length_le
    apply List.ne_nil_of_length_pos
    rw [List.length_take]
    omega
  have hk₄ := length_keyword_le k hk
  rcases HttpFlow.step_cases hflow with ⟨hhttp, -⟩ | ⟨hfull, -⟩ | ⟨-, -, -, hparse⟩
  · exact absurd (((isHttpHeader_eq_ok hpos.ne').mp hhttp).2.mpr ⟨k, hk, hkd⟩) (by decide)
  · dsimp only at hfull
    rw [hempty, List.length_nil] at hfull
    unfold TcpBuf.capacity at hfull
    omega
  · dsimp only [Segment.bytes] at hparse
    rw [hempty, List.nil_append] at hparse
    rcases hparse with ⟨-, -, hitems⟩ | ⟨n, hextract, -⟩
    · rw [hitems]
      exact hne
    · have hfront : d.take len.toNat <+: k := by
        refine List.prefix_of_prefix_length_le (List.take_prefix _ _) hkd ?_
        rw [List.length_take]
        omega
      have hlf : LF ∉ (d.take len.toNat).take readBufSize := by
        intro hmem
        exact absurd (hfront.mem (List.mem_of_mem_take hmem)) ((by decide : ∀ k ∈ keywords, LF ∉ k) k hk)
      rw [HttpFlow.parseOutcome_of_passes hne (Lines.of_tail hlf) trivial] at hextract
      cases hextract

/-- Two calls end in the same fault, or leave the same contents. -/
def SameContents (x y : Except Fault (HttpReply × HttpBuf)) : Prop :=
  (∃ e, x = .error e ∧ y = .error e) ∨ ∃ r h r' h', x = .ok (r, h) ∧ y = .ok (r', h') ∧ h.contents = h'.contents

/-- Equal contents can be exchanged. -/
theorem SameContents.symm {x y : Except Fault (HttpReply × HttpBuf)} (hsame : SameContents x y) : SameContents y x := by
  rcases hsame with ⟨e, hx, hy⟩ | ⟨r, h₁, r', h₂, hx, hy, hc⟩
  · exact Or.inl ⟨e, hy, hx⟩
  · exact Or.inr ⟨r', h₂, r, h₁, hy, hx, hc.symm⟩

/-- The fault of a comparison that reads behind memory tells how much memory there was. -/
theorem eq_of_cut (hwf : h.mTcpBuf.WellFormed) (hpos : 0 < len) (hbytes : d.take len.toNat = d'.take len.toNat)
    (hlen : len ≤ d.length) (hlen' : len ≤ d'.length) (hcut : EndsInKeyword d)
    (hsame : SameContents (h.inputTcpPkg d len) (h.inputTcpPkg d' len)) : d = d' := by
  have hlt := hcut.length_lt
  rw [inputTcpPkg_of_cut hpos hcut] at hsame
  rcases hsame with ⟨e, he, he'⟩ | ⟨r, h₁, r', h₂, hok, -, -⟩
  · cases he
    by_cases hcut' : EndsInKeyword d'
    · rw [inputTcpPkg_of_cut hpos hcut'] at he'
      have hlength : d.length = d'.length := by
        simpa using he'.symm
      have hne : len.toNat ≠ 0 := by omega
      have hhead : d.head? = d'.head? := by
        have htake := congrArg List.head? hbytes
        rwa [List.head?_take, List.head?_take, if_neg hne, if_neg hne] at htake
      refine hcut.eq_of_length hcut' ?_ hhead hlength
      rintro rfl
      rw [List.length_nil] at hlen
      omega
    · have hout := outOfRange_of_inputTcpPkg hwf hpos hlen' hcut' he'
      unfold readBufSize at hout
      omega
  · cases hok

/-- A keyword behind the end of one segment only: the one is kept and the other is dropped. -/
theorem not_sameContents (hwf : h.mTcpBuf.WellFormed) (hpos : 0 < len) (hbytes : d.take len.toNat = d'.take len.toNat)
    (hcut' : ¬EndsInKeyword d') (hempty : h.contents = []) (hhas : HasKeyword d) (hno : ¬HasKeyword d') :
    ¬SameContents (h.inputTcpPkg d len) (h.inputTcpPkg d' len) := by
  obtain ⟨k, hk, hkd⟩ := hhas
  have hlt : len < k.length := by
    by_contra hle
    refine hno ⟨k, hk, ?_⟩
    have hfront : k <+: d.take len.toNat := by
      refine List.prefix_take_iff.mpr ⟨hkd, ?_⟩
      omega
    rw [hbytes] at hfront
    exact hfront.trans (List.take_prefix _ _)
  rw [inputTcpPkg_of_dropped hwf hpos hcut' hno hempty]
  rintro (⟨e, -, he⟩ | ⟨r, h₁, r', h₂, hok, hok', hc⟩)
  · cases he
  · cases hok'
    exact contents_of_front hk hkd hlt hwf hpos hempty hok (hc.trans hempty)

/-- Two segments of the same bytes lead to the same contents only where the keyword comparison makes no difference. -/
theorem keywordAlike_of_sameContents (hwf : h.mTcpBuf.WellFormed) (hpos : 0 < len) (hbytes : d.take len.toNat = d'.take len.toNat)
    (hlen : len ≤ d.length) (hlen' : len ≤ d'.length) (hsame : SameContents (h.inputTcpPkg d len) (h.inputTcpPkg d' len)) :
    h.KeywordAlike d d' := by
  by_cases hcut : EndsInKeyword d
  · exact Or.inl (eq_of_cut hwf hpos hbytes hlen hlen' hcut hsame)
  · by_cases hcut' : EndsInKeyword d'
    · exact Or.inl (eq_of_cut hwf hpos hbytes.symm hlen' hlen hcut' hsame.symm).symm
    · refine Or.inr ⟨hcut, hcut', ?_⟩
      by_cases hempty : h.contents = []
      · right
        constructor
        · intro hhas
          by_contra hno
          exact not_sameContents hwf hpos hbytes hcut' hempty hhas hno hsame
        · intro hhas
          by_contra hno
          exact not_sameContents hwf hpos hbytes.symm hcut hempty hhas hno hsame.symm
      · exact Or.inl hempty

end HttpBuf

namespace ParsePkg

/-- What is read of the headers behind the end of the datagram, where it has no whole TCP header, makes no difference: whose the
segments are and where their payload begins comes out the same, or both frames are not of the server, or both are and have no
payload. -/
def HeadersAlike (m : ParsePkg) (f f' : Bytes) (ih : Nat) (l : UInt16) : Prop :=
  ∀ hf hf', TcpAt f ih → TcpHeader.hlenFlags f (ih + ipHdrLen) = .ok hf → TcpHeader.hlenFlags f' (ih + ipHdrLen) = .ok hf' →
    m.getClientAddr f ih (ih + ipHdrLen) = m.getClientAddr f' ih (ih + ipHdrLen) ∧ TcpHeader.tcpHl hf = TcpHeader.tcpHl hf' ∨
      m.getClientAddr f ih (ih + ipHdrLen) = .ok none ∧ m.getClientAddr f' ih (ih + ipHdrLen) = .ok none ∨
        (m.getClientAddr f ih (ih + ipHdrLen) ≠ .ok none ∧ m.getClientAddr f' ih (ih + ipHdrLen) ≠ .ok none) ∧
          payloadLen l hf = 0 ∧ payloadLen l hf' = 0

/-- A datagram with the ports and the data offset in it has all that is read of the headers. -/
theorem headersAlike_of_le (m : ParsePkg) {f f' : Bytes} {ih : Nat} {l : UInt16} (h : SameDatagram f f' ih l) (hl : 34 ≤ l.toNat) :
    m.HeadersAlike f f' ih l := by
  intro hf hf' _ hhf hhf'
  have hread : ∀ off, off + 2 ≤ ih + l.toNat → ntohsAt f off = ntohsAt f' off := fun off => ntohsAt_eq_of_take h.front
  have haddr : ∀ off, off + 4 ≤ ih + l.toNat → ntohlAt f off = ntohlAt f' off := fun off => ntohlAt_eq_of_take h.front
  have hhdr : ipHdrLen = 20 := rfl
  left
  constructor
  · unfold getClientAddr IpHeader.ipSrc IpHeader.ipDst TcpHeader.portSrc TcpHeader.portDst
    rw [haddr (ih + 12) (by omega), haddr (ih + 16) (by omega), hread (ih + ipHdrLen) (by omega), hread (ih + ipHdrLen + 2) (by omega)]
  · unfold TcpHeader.hlenFlags at hhf hhf'
    rw [hread (ih + ipHdrLen + 12) (by omega), hhf'] at hhf
    cases hhf
    rfl

/-- Two segments of one flow and one length that lie in memory with the same bytes in them. -/
structure SameSegment (c c' : SessionCall) : Prop where
  client : c'.client = c.client
  input : c'.input = c.input
  len : c'.len = c.len
  pos : 0 < c.len
  bytes : c.data.take c.len.toNat = c'.data.take c.len.toNat
  captured : c.len ≤ c.data.length
  captured' : c.len ≤ c'.data.length

/-- The call for the second segment goes to the buffer of the first. -/
theorem SameSegment.inputTcpPkg_eq {c c' : SessionCall} (hs : SameSegment c c') (m : ParsePkg) :
    (m.buf c'.client c'.input).inputTcpPkg c'.data c'.len = (m.buf c.client c.input).inputTcpPkg c'.data c.len := by
  rw [hs.client, hs.input, hs.len]

/-- The same fields lead to no call, or to calls with the same segment. -/
theorem sameSegment_of_offset {f f' : Bytes} {ih : Nat} {l hf hf' : UInt16} (h : SameDatagram f f' ih l)
    (hnonneg : 0 ≤ payloadLen l hf) (hoffset : TcpHeader.tcpHl hf = TcpHeader.tcpHl hf') (addr : Option (Bytes × Int × Bool)) :
    (∃ ret, callOfFields f ih hf l addr = (ret, none) ∧ callOfFields f' ih hf' l addr = (ret, none)) ∨
      ∃ c c', callOfFields f ih hf l addr = (true, some c) ∧ callOfFields f' ih hf' l addr = (true, some c') ∧ SameSegment c c' := by
  have hcap := h.captured
  have hcap' := h.captured'
  have hlen : payloadLen l hf' = payloadLen l hf := by
    unfold payloadLen
    rw [hoffset]
  rcases addr with _ | ⟨cIp, cPort, input⟩
  · exact Or.inl ⟨false, rfl, rfl⟩
  · dsimp only [callOfFields]
    rw [hlen, ← hoffset]
    by_cases hzero : 0 = payloadLen l hf
    · rw [if_pos hzero, if_pos hzero]
      exact Or.inl ⟨true, rfl, rfl⟩
    · rw [if_neg hzero, if_neg hzero]
      -- the payload ends where the datagram does
      have hend : ih + ipHdrLen + TcpHeader.tcpHl hf + (payloadLen l hf).toNat = ih + l.toNat := by
        unfold payloadLen at hnonneg hzero ⊢
        omega
      refine Or.inr ⟨_, _, rfl, rfl, rfl, rfl, rfl, by dsimp only; omega, ?_, ?_, ?_⟩
      · exact drop_take_eq_of_take (by rw [hend]; exact h.front)
      · dsimp only
        rw [List.length_drop]
        omega
      · dsimp only
        rw [List.length_drop]
        omega

/-- Frames with the same datagram whose headers are read alike make no call, or calls with the same segment. -/
theorem sameSegment_of_headersAlike {m : ParsePkg} (hm : m.mInited = true) {f f' : Bytes} {ih : Nat} {l : UInt16}
    (h : SameDatagram f f' ih l) (halike : m.HeadersAlike f f' ih l) :
    (∃ ret, m.sessionCall f = .ok (ret, none) ∧ m.sessionCall f' = .ok (ret, none)) ∨
      ∃ c c', m.sessionCall f = .ok (true, some c) ∧ m.sessionCall f' = .ok (true, some c') ∧ SameSegment c c' := by
  have hl := h.le_total
  have hhdr : ipHdrLen = 20 := rfl
  have hcap := h.captured
  have hcap' := h.captured'
  obtain ⟨hf, hhf, hnonneg⟩ := h.payload
  obtain ⟨hf', hhf', -⟩ := h.payload'
  have htcp := tcpAt_iff_of_take h.front (show ih + 10 ≤ ih + l.toNat by omega)
  by_cases hat : TcpAt f ih
  · have hread := le_of_ntohsAt hhf
    have hread' := le_of_ntohsAt hhf'
    obtain ⟨addr, haddr⟩ := exists_getClientAddr m (show ih + ipHdrLen + 14 ≤ f.length by omega)
    obtain ⟨addr', haddr'⟩ := exists_getClientAddr m (show ih + ipHdrLen + 14 ≤ f'.length by omega)
    have hfields := halike hf hf' hat hhf hhf'
    rw [sessionCall_of_fields hm h.ip hat hhf h.total haddr, sessionCall_of_fields hm h.ip' (htcp.mp hat) hhf' h.total' haddr']
    rw [haddr, haddr'] at hfields
    rcases hfields with ⟨heq, hoffset⟩ | ⟨hnone, hnone'⟩ | ⟨⟨hsome, hsome'⟩, hzero, hzero'⟩
    · cases heq
      rcases sameSegment_of_offset h hnonneg hoffset addr with ⟨ret, he, he'⟩ | ⟨c, c', he, he', hs⟩
      · exact Or.inl ⟨ret, congrArg Except.ok he, congrArg Except.ok he'⟩
      · exact Or.inr ⟨c, c', congrArg Except.ok he, congrArg Except.ok he', hs⟩
    · cases hnone
      cases hnone'
      exact Or.inl ⟨false, rfl, rfl⟩
    · left
      rcases addr with _ | addr
      · exact absurd rfl hsome
      rcases addr' with _ | addr'
      · exact absurd rfl hsome'
      refine ⟨true, ?_, ?_⟩
      · rw [callOfFields, if_pos hzero.symm]
      · rw [callOfFields, if_pos hzero'.symm]
  · left
    exact ⟨false, sessionCall_of_not_tcp hm h.ip hat (by omega), sessionCall_of_not_tcp hm h.ip' (mt htcp.mpr hat) (by omega)⟩

/-- The same clients have sessions, and every buffer holds the same bytes. -/
def SameSessions (m m' : ParsePkg) : Prop :=
  (∀ client, client ∈ m.mSessions ↔ client ∈ m'.mSessions) ∧ ∀ client input, (m.buf client input).contents = (m'.buf client input).contents

/-- Two calls of `InputPkg` return the same and leave the same sessions, or end in the same fault. -/
inductive SameResult : Except Fault (Bool × ParsePkg) → Except Fault (Bool × ParsePkg) → Prop where
  | ok (ret : Bool) {m m' : ParsePkg} (h : m.SameSessions m') : SameResult (.ok (ret, m)) (.ok (ret, m'))
  | error (e : Fault) : SameResult (.error e) (.error e)

/-- A call has the result that it has. -/
theorem SameResult.refl (x : Except Fault (Bool × ParsePkg)) : SameResult x x := by
  cases x with
  | error e => exact SameResult.error e
  | ok r => exact SameResult.ok r.1 ⟨fun _ => Iff.rfl, fun _ _ => rfl⟩

/-- Nothing behind the datagram of either frame makes a difference, neither what is read of the headers there nor the keyword
comparison of a segment that the frames carry. -/
structure PaddingUnread (m : ParsePkg) (f f' : Bytes) (ih : Nat) (l : UInt16) : Prop where
  headers : m.HeadersAlike f f' ih l
  keyword : ∀ c c', m.Carries f c → m.Carries f' c' → (m.buf c.client c.input).KeywordAlike c.data c'.data

/-- What comes out the same for two frames with one segment comes out the same for the buffer it goes to. -/
theorem sameContents_of_sameResult {m : ParsePkg} {f f' : Bytes} {c c' : SessionCall} (hcall : m.sessionCall f = .ok (true, some c))
    (hcall' : m.sessionCall f' = .ok (true, some c')) (hs : SameSegment c c') {len len' : Int}
    (h : SameResult (m.inputPkg f len) (m.inputPkg f' len')) :
    HttpBuf.SameContents ((m.buf c.client c.input).inputTcpPkg c.data c.len) ((m.buf c.client c.input).inputTcpPkg c'.data c.len) := by
  rw [← hs.inputTcpPkg_eq]
  cases hb : (m.buf c.client c.input).inputTcpPkg c.data c.len with
  | error e =>
    rw [inputPkg_of_error hcall hb] at h
    cases hb' : (m.buf c'.client c'.input).inputTcpPkg c'.data c'.len with
    | error e' =>
      rw [inputPkg_of_error hcall' hb'] at h
      cases h
      exact Or.inl ⟨e, rfl, rfl⟩
    | ok r' =>
      rw [inputPkg_of_call hcall' hb'] at h
      cases h
  | ok r =>
    rw [inputPkg_of_call hcall hb] at h
    cases hb' : (m.buf c'.client c'.input).inputTcpPkg c'.data c'.len with
    | error e' =>
      rw [inputPkg_of_error hcall' hb'] at h
      cases h
    | ok r' =>
      rw [inputPkg_of_call hcall' hb'] at h
      obtain ⟨-, -, hbufs⟩ | - := h
      have hcontents := hbufs c.client c.input
      rw [buf_setBuf, ← hs.client, ← hs.input, buf_setBuf] at hcontents
      exact Or.inr ⟨_, _, _, _, rfl, rfl, hcontents⟩

/-- Two frames with one segment do the same where the buffer it goes to does. -/
theorem inputPkg_congr_of_sameSegment {m : ParsePkg} {f f' : Bytes} {c c' : SessionCall} (hcall : m.sessionCall f = .ok (true, some c))
    (hcall' : m.sessionCall f' = .ok (true, some c')) (hs : SameSegment c c')
    (h : (m.buf c.client c.input).inputTcpPkg c.data c.len = (m.buf c.client c.input).inputTcpPkg c'.data c.len) (len len' : Int) :
    m.inputPkg f len = m.inputPkg f' len' := by
  cases hb : (m.buf c.client c.input).inputTcpPkg c.data c.len with
  | error e =>
    rw [inputPkg_of_error hcall hb, inputPkg_of_error hcall' ((hs.inputTcpPkg_eq m).trans (h.symm.trans hb))]
  | ok r =>
    rw [inputPkg_of_call hcall hb, inputPkg_of_call hcall' ((hs.inputTcpPkg_eq m).trans (h.symm.trans hb)), hs.client, hs.input]

/-- Frames with the same datagram that do the same carry segments whose keyword comparison makes no difference. -/
theorem keywordAlike_of_sameResult {m : ParsePkg} (hm : m.mInited = true) (hwf : m.RingsWellFormed) {f f' : Bytes} {ih : Nat}
    {l : UInt16} (h : SameDatagram f f' ih l) (hheaders : m.HeadersAlike f f' ih l) {len len' : Int}
    (hsame : SameResult (m.inputPkg f len) (m.inputPkg f' len')) {c c' : SessionCall} (hc : m.Carries f c) (hc' : m.Carries f' c') :
    (m.buf c.client c.input).KeywordAlike c.data c'.data := by
  have hcall : m.sessionCall f = .ok (true, some c) := (sessionCall_eq_some hm).mpr ⟨rfl, hc⟩
  have hcall' : m.sessionCall f' = .ok (true, some c') := (sessionCall_eq_some hm).mpr ⟨rfl, hc'⟩
  rcases sameSegment_of_headersAlike hm h hheaders with ⟨ret, hnone, -⟩ | ⟨c₁, c₁', hcall₁, hcall₁', hs⟩
  · rw [hcall] at hnone
    cases hnone
  · rw [hcall] at hcall₁
    rw [hcall'] at hcall₁'
    cases hcall₁
    cases hcall₁'
    exact HttpBuf.keywordAlike_of_sameContents (hwf _ _) hs.pos hs.bytes hs.captured hs.captured'
      (sameContents_of_sameResult hcall hcall' hs hsame)

/-- Two frames that differ behind their datagram only do the same where what is read there makes no difference. For a datagram with the
ports and the data offset in it that is the only case in which they do. -/
theorem padding_ignored_iff (ip : Bytes) (port : Int) (frames : List Bytes) (rets : List Bool) (m : ParsePkg)
    (hrun : machine.run (new.init ip port) frames = some (rets, m)) (f f' : Bytes) (ih : Nat) (l : UInt16)
    (h : SameDatagram f f' ih l) :
    (m.PaddingUnread f f' ih l → SameResult (m.inputPkg f f.length) (m.inputPkg f' f'.length)) ∧
      (34 ≤ l.toNat → (SameResult (m.inputPkg f f.length) (m.inputPkg f' f'.length) ↔ m.PaddingUnread f f' ih l)) := by
  have hwf := ringsWellFormed_of_run hrun
  have hm := inited_of_run hrun
  have hsuff : m.PaddingUnread f f' ih l → SameResult (m.inputPkg f f.length) (m.inputPkg f' f'.length) := by
    rintro ⟨hheaders, hkeyword⟩
    rcases sameSegment_of_headersAlike hm h hheaders with ⟨ret, hcall, hcall'⟩ | ⟨c, c', hcall, hcall', hs⟩
    · rw [inputPkg_congr (hcall.trans hcall'.symm) f'.length]
      exact SameResult.refl _
    · have halike := hkeyword c c' ((sessionCall_eq_some hm).mp hcall).2 ((sessionCall_eq_some hm).mp hcall').2
      have hput := HttpBuf.inputTcpPkg_congr (hwf _ _) hs.pos hs.bytes hs.captured hs.captured' halike
      rw [inputPkg_congr_of_sameSegment hcall hcall' hs hput f.length f'.length]
      exact SameResult.refl _
  refine ⟨hsuff, fun hl => ⟨fun hsame => ?_, hsuff⟩⟩
  have hheaders := headersAlike_of_le m h hl
  exact ⟨hheaders, fun c c' hc hc' => keywordAlike_of_sameResult hm hwf h hheaders hsame hc hc'⟩

/-- `oneByteFrame` with five bytes of padding. -/
def paddedFrame (padding : Bytes) : Bytes := oneByteFrame ++ padding

/-- Zeros behind the one byte, or the rest of a keyword. -/
theorem paddedFrame_sameDatagram :
    SameDatagram (paddedFrame (ascii "ET" ++ [0, 0, 0])) (paddedFrame [0, 0, 0, 0, 0]) 14 41 where
  ip := Or.inr ⟨by decide +kernel, rfl⟩
  total := by decide +kernel
  front := by decide +kernel
  captured := by decide +kernel
  captured' := by decide +kernel
  payload := ⟨0x5010, by decide +kernel, by decide +kernel⟩
  payload' := ⟨0x5010, by decide +kernel, by decide +kernel⟩

/-- The call that the frame makes. -/
def paddedCall (padding : Bytes) : SessionCall := ⟨ascii "10.0.0.1", 8080, true, ascii "G" ++ padding, 1⟩

/-- The keyword comparison reads the padding behind a payload of one byte. -/
theorem padding_read :
    ¬∀ (ip : Bytes) (port : Int) (frames : List Bytes) (rets : List Bool) (m : ParsePkg),
      machine.run (new.init ip port) frames = some (rets, m) →
        ∀ (f f' : Bytes) (ih : Nat) (l : UInt16), SameDatagram f f' ih l →
          SameResult (m.inputPkg f f.length) (m.inputPkg f' f'.length) := by
  intro hall
  have hsame := hall (ascii "10.0.0.2") 80 [] [] _ (Machine.run_nil _ _) _ _ _ _ paddedFrame_sameDatagram
  have hm : (new.init (ascii "10.0.0.2") 80).mInited = true := rfl
  have hcall : (new.init (ascii "10.0.0.2") 80).sessionCall (paddedFrame (ascii "ET" ++ [0, 0, 0])) =
      .ok (true, some (paddedCall (ascii "ET" ++ [0, 0, 0]))) := by decide +kernel
  have hcall' : (new.init (ascii "10.0.0.2") 80).sessionCall (paddedFrame [0, 0, 0, 0, 0]) =
      .ok (true, some (paddedCall [0, 0, 0, 0, 0])) := by decide +kernel
  have hheaders := headersAlike_of_le (new.init (ascii "10.0.0.2") 80) paddedFrame_sameDatagram (by decide)
  have halike := keywordAlike_of_sameResult hm (ringsWellFormed_init _ _) paddedFrame_sameDatagram hheaders hsame
    ((sessionCall_eq_some hm).mp hcall).2 ((sessionCall_eq_some hm).mp hcall').2
  rcases halike with heq | ⟨-, -, hne | hiff⟩
  · exact absurd heq (by decide)
  · exact hne (by simp [buf, session, init, new, HttpBuf.contents, HttpBuf.new])
  · exact absurd (hiff.mp (by decide)) (by decide)

/-- Two frames of one byte of payload with different padding. -/
theorem padding_ignored_iff_paddedFrame :
    ((new.init (ascii "10.0.0.2") 80).PaddingUnread (paddedFrame (ascii "ET" ++ [0, 0, 0])) (paddedFrame [0, 0, 0, 0, 0]) 14 41 →
        SameResult ((new.init (ascii "10.0.0.2") 80).inputPkg (paddedFrame (ascii "ET" ++ [0, 0, 0])) 60)
          ((new.init (ascii "10.0.0.2") 80).inputPkg (paddedFrame [0, 0, 0, 0, 0]) 60)) ∧
      (34 ≤ (41 : UInt16).toNat →
        (SameResult ((new.init (ascii "10.0.0.2") 80).inputPkg (paddedFrame (ascii "ET" ++ [0, 0, 0])) 60)
            ((new.init (ascii "10.0.0.2") 80).inputPkg (paddedFrame [0, 0, 0, 0, 0]) 60) ↔
          (new.init (ascii "10.0.0.2") 80).PaddingUnread (paddedFrame (ascii "ET" ++ [0, 0, 0])) (paddedFrame [0, 0, 0, 0, 0]) 14 41)) :=
  padding_ignored_iff (ascii "10.0.0.2") 80 [] [] _ (Machine.run_nil _ _) _ _ 14 41 paddedFrame_sameDatagram

end ParsePkg

end FrontServer
