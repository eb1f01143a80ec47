import FrontServer.Flows
import FrontServer.Lemmas.Packet
import FrontServer.Lemmas.ParsePkg
import FrontServer.Lemmas.Utils

/-!
# What `InputPkg` does by the flow of a frame

`sessionCall_iff` says that the call `InputPkg` makes for a frame is the one of its flow, printed; the keys of different clients are
printed differently.
-/

namespace FrontServer

/-! ## Keys -/

/-- A key is read back up to its colon and on from it. -/
theorem Endpoint.lines_key (e : Endpoint) : Lines 58 e.key [Utils.long2IP e.addr] (decimal e.port.toNat) := by
  have hcolon : isDigit 58 = false := by decide
  refine ⟨?_, ?_, not_mem_decimal hcolon _⟩
  · have hascii : ascii ":" = [58] := by decide
    rw [Endpoint.key, hascii, joinLines_cons, joinLines_nil]
  · intro l hl
    rw [List.mem_singleton] at hl
    subst hl
    exact Utils.not_mem_long2IP hcolon (by decide) _

/-- Different clients have different keys. -/
theorem Endpoint.key_injective : Function.Injective Endpoint.key := by
  intro a b h
  have hb := b.lines_key
  rw [← h] at hb
  obtain ⟨haddr, hport⟩ := a.lines_key.unique hb
  have haddr := Utils.long2IP_injective (List.singleton_injective haddr)
  have hport := UInt16.toNat_inj.mp (decimal_injective hport)
  cases a
  cases b
  exact congrArg₂ Endpoint.mk haddr hport

namespace ParsePkg

/-! ## Calls -/

/-- The class as `Init` set it up for a server. -/
structure Serves (m : ParsePkg) (srv : Server) : Prop where
  ip : m.mIp = Utils.long2IP srv.addr
  port : m.mPort = srv.port
  inited : m.mInited = true

/-- After `Init` the server is the one told. -/
theorem init_serves (m : ParsePkg) (srv : Server) : (m.init (Utils.long2IP srv.addr) srv.port).Serves srv := ⟨rfl, rfl, rfl⟩

/-- It stays so. -/
theorem Serves.step {m m' : ParsePkg} {srv : Server} (h : m.Serves srv) {f : Bytes} {ret : Bool}
    (hs : machine.step m f = some (ret, m')) : m'.Serves srv := by
  obtain ⟨hip, hport, hinited⟩ := config_of_step hs
  exact ⟨hip.trans h.ip, hport.trans h.port, hinited.trans h.inited⟩

/-- The call `InputPkg` makes for a payload of a flow. -/
def callOf (flow : Flow) (s : Segment) : SessionCall :=
  { cIp := Utils.long2IP flow.client.addr, cPort := flow.client.port.toNat, input := flow.input, data := s.data, len := s.len }

/-- The call for a segment names the client of its flow. -/
@[simp] theorem client_callOf (flow : Flow) (s : Segment) : (callOf flow s).client = flow.client.key := by
  rw [SessionCall.client, callOf, decimalInt_natCast, Endpoint.key]

/-- The source is read from the two headers. -/
theorem source_eq_ok {f : Bytes} {d : Decoded} {e : Endpoint} :
    source f d = .ok e ↔ IpHeader.ipSrc f d.ih = .ok e.addr ∧ TcpHeader.portSrc f d.th = .ok e.port := by
  unfold source
  simp only [bind_eq_ok]
  constructor
  · rintro ⟨addr, haddr, port, hport, h⟩
    cases h
    exact ⟨haddr, hport⟩
  · rintro ⟨haddr, hport⟩
    exact ⟨_, haddr, _, hport, rfl⟩

/-- So is the destination. -/
theorem destination_eq_ok {f : Bytes} {d : Decoded} {e : Endpoint} :
    destination f d = .ok e ↔ IpHeader.ipDst f d.ih = .ok e.addr ∧ TcpHeader.portDst f d.th = .ok e.port := by
  unfold destination
  simp only [bind_eq_ok]
  constructor
  · rintro ⟨addr, haddr, port, hport, h⟩
    cases h
    exact ⟨haddr, hport⟩
  · rintro ⟨haddr, hport⟩
    exact ⟨_, haddr, _, hport, rfl⟩

/-- A frame carries a segment of a flow between its endpoints, one of them the server. -/
theorem flowOf_eq_some {srv : Server} {f : Bytes} {flow : Flow} {s : Segment} :
    flowOf srv f = some (flow, s) ↔
      ∃ d src dst, decode f = .ok (some d) ∧ source f d = .ok src ∧ destination f d = .ok dst ∧
        flowBetween srv src dst = some flow ∧ s = { data := f.drop d.payload, len := d.dataLen } := by
  unfold flowOf
  simp only [Option.bind_eq_bind, Option.bind_eq_some_iff, toOption_join_eq_some, toOption_eq_some]
  constructor
  · rintro ⟨d, hd, src, hsrc, dst, hdst, flow', hflow, h⟩
    cases h
    exact ⟨d, src, dst, hd, hsrc, hdst, hflow, rfl⟩
  · rintro ⟨d, src, dst, hd, hsrc, hdst, hflow, rfl⟩
    exact ⟨d, hd, src, hsrc, dst, hdst, flow, hflow, rfl⟩

/-- `GetClientAddr` gives the client of the flow, printed. -/
theorem getClientAddr_eq_ok {m : ParsePkg} {srv : Server} (hm : m.Serves srv) {f : Bytes} {d : Decoded}
    {r : Option (Bytes × Int × Bool)} :
    m.getClientAddr f d.ih d.th = .ok r ↔
      ∃ src dst, source f d = .ok src ∧ destination f d = .ok dst ∧
        r = (flowBetween srv src dst).map (fun flow => (Utils.long2IP flow.client.addr, (flow.client.port.toNat : Int), flow.input)) := by
  have hserver : ∀ e : Endpoint, ((e.port.toNat : Int) = m.mPort ∧ Utils.long2IP e.addr = m.mIp) ↔ e.IsServer srv := by
    intro e
    rw [hm.ip, hm.port, Endpoint.IsServer, Utils.long2IP_injective.eq_iff]
  have hmap : ∀ src dst : Endpoint,
      (if src.IsServer srv then some (Utils.long2IP dst.addr, (dst.port.toNat : Int), false)
        else if dst.IsServer srv then some (Utils.long2IP src.addr, (src.port.toNat : Int), true) else none) =
      (flowBetween srv src dst).map (fun flow => (Utils.long2IP flow.client.addr, (flow.client.port.toNat : Int), flow.input)) := by
    intro src dst
    unfold flowBetween
    split
    · rfl
    · split
      · rfl
      · rfl
  unfold getClientAddr
  simp only [bind_eq_ok, source_eq_ok, destination_eq_ok]
  constructor
  · rintro ⟨sa, hsa, da, hda, sp, hsp, dp, hdp, h⟩
    refine ⟨⟨sa, sp⟩, ⟨da, dp⟩, ⟨hsa, hsp⟩, ⟨hda, hdp⟩, ?_⟩
    rw [← hmap]
    simp only [hserver ⟨sa, sp⟩, hserver ⟨da, dp⟩] at h
    split at h
    · cases h; rw [if_pos ‹_›]
    · split at h
      · cases h; rw [if_neg ‹_›, if_pos ‹_›]
      · cases h; rw [if_neg ‹_›, if_neg ‹_›]
  · rintro ⟨src, dst, ⟨hsa, hsp⟩, ⟨hda, hdp⟩, rfl⟩
    refine ⟨_, hsa, _, hda, _, hsp, _, hdp, ?_⟩
    rw [← hmap]
    simp only [hserver src, hserver dst]
    split
    · rfl
    · split
      · rfl
      · rfl

/-- `InputPkg` makes a call for the frames of the server's flows whose payload length is not zero. -/
theorem sessionCall_iff {m : ParsePkg} {srv : Server} (hm : m.Serves srv) {f : Bytes} {ret : Bool} {c : SessionCall} :
    m.sessionCall f = .ok (ret, some c) ↔
      ret = true ∧ ∃ flow s, flowOf srv f = some (flow, s) ∧ s.len ≠ 0 ∧ c = callOf flow s := by
  constructor
  · intro h
    obtain ⟨d, hd, haddr, hdata, hlen, hne, rfl⟩ := decode_of_sessionCall h
    obtain ⟨src, dst, hsrc, hdst, hr⟩ := (getClientAddr_eq_ok hm).mp haddr
    obtain ⟨flow, hflow, he⟩ := Option.map_eq_some_iff.mp hr.symm
    refine ⟨rfl, flow, _, flowOf_eq_some.mpr ⟨d, src, dst, hd, hsrc, hdst, hflow, rfl⟩, hne, ?_⟩
    obtain ⟨cIp, cPort, input, data, len⟩ := c
    cases he
    cases hdata
    cases hlen
    rfl
  · rintro ⟨rfl, flow, s, hf, hne, rfl⟩
    obtain ⟨d, src, dst, hd, hsrc, hdst, hflow, rfl⟩ := flowOf_eq_some.mp hf
    have haddr := (getClientAddr_eq_ok hm).mpr ⟨src, dst, hsrc, hdst, rfl⟩
    rw [hflow] at haddr
    have hne : ¬0 = d.dataLen := fun he => hne he.symm
    unfold sessionCall
    rw [hm.inited]
    simp only [Bool.not_true, Bool.false_eq_true, if_false, hd, ok_bind, haddr, Option.map_some, hne]
    rfl

/-- A frame of a flow whose payload the buffer of that flow takes. -/
theorem step_of_flow {m : ParsePkg} {srv : Server} (hm : m.Serves srv) {f : Bytes} {flow : Flow} {s : Segment}
    (hf : flowOf srv f = some (flow, s)) (hne : s.len ≠ 0) {reply : HttpReply} {b : HttpBuf}
    (hb : HttpBuf.machine.step (m.buf flow.client.key flow.input) s = some (reply, b)) :
    machine.step m f = some (true, m.setBuf flow.client.key flow.input b) := by
  have hcall := (sessionCall_iff hm).mpr ⟨rfl, flow, s, hf, hne, rfl⟩
  rw [← client_callOf flow s] at hb ⊢
  exact machine_step_eq_some.mpr (inputPkg_of_call hcall (toOption_eq_some.mp hb))

/-- A frame without a call has no payload for a flow. -/
theorem payloadFor_of_no_call {m : ParsePkg} {srv : Server} (hm : m.Serves srv) {f : Bytes} {ret : Bool}
    (h : m.sessionCall f = .ok (ret, none)) (flow : Flow) : payloadFor srv flow f = none := by
  unfold payloadFor
  cases hf : flowOf srv f with
  | none => rfl
  | some p =>
    obtain ⟨flow', s⟩ := p
    dsimp only
    split
    · rename_i hs
      have hcall := (sessionCall_iff hm).mpr ⟨rfl, flow', s, hf, by omega, rfl⟩
      rw [h] at hcall
      cases hcall
    · rfl

/-- The key a frame is looked up by is that of its client, printed. -/
theorem sessionKey_eq {m : ParsePkg} {srv : Server} (hm : m.Serves srv) (f : Bytes) :
    m.sessionKey f = (clientOf srv f).map Endpoint.key := by
  unfold sessionKey
  split
  · rename_i ret c hcall
    obtain ⟨-, flow, s, hf, hne, rfl⟩ := (sessionCall_iff hm).mp hcall
    rw [client_callOf, clientOf, hf]
    simp only [ne_eq, hne, not_false_eq_true, if_true, Option.map_some]
  · rename_i hno
    unfold clientOf
    split
    · rfl
    · rename_i flow s hf
      split
      · rename_i hne
        exact absurd ((sessionCall_iff hm).mpr ⟨rfl, flow, s, hf, hne, rfl⟩) (hno _ _)
      · rfl

/-- The direction the code finds is that of the flow. -/
theorem direction_eq {m : ParsePkg} {srv : Server} (hm : m.Serves srv) {f : Bytes} {flow : Flow} {s : Segment}
    (hf : flowOf srv f = some (flow, s)) (hne : s.len ≠ 0) : m.direction f = some flow.input := by
  rw [direction, (sessionCall_iff hm).mpr ⟨rfl, flow, s, hf, hne, rfl⟩]
  rfl

/-! ## Frames sent the other way -/

/-- Where a byte of a frame lies in the frame sent the other way. -/
def swapIndex (ih i : Nat) : Nat :=
  if i < ih + 12 then i
  else if i < ih + 16 then i + 4
  else if i < ih + 20 then i - 4
  else if i < ih + 22 then i + 2
  else if i < ih + 24 then i - 2
  else i

/-- A text that begins with a piece of a frame. -/
theorem getElem?_piece_append {f : Bytes} {off n : Nat} (h : off + n ≤ f.length) (r : Bytes) (i : Nat) :
    ((f.drop off).take n ++ r)[i]? = if i < n then f[off + i]? else r[i - n]? := by
  have hlen : ((f.drop off).take n).length = n := by
    rw [List.length_take, List.length_drop]
    omega
  rw [List.getElem?_append, hlen]
  by_cases hi : i < n
  · rw [if_pos hi, if_pos hi, List.getElem?_take_of_lt hi, List.getElem?_drop]
  · rw [if_neg hi, if_neg hi]

/-- The pieces of the frame sent the other way, one after the other. -/
theorem getElem?_swapAt {f : Bytes} {ih : Nat} (h : ih + 24 ≤ f.length) (i : Nat) : (swapAt f ih)[i]? = f[swapIndex ih i]? := by
  have hat : ∀ {j k : Nat}, j = k → f[j]? = f[k]? := fun e => congrArg (fun j => f[j]?) e
  have hfront : (f.take (ih + 12)).length = ih + 12 := by
    rw [List.length_take]
    omega
  unfold swapAt swapIndex
  rw [List.append_assoc, List.append_assoc, List.append_assoc, List.append_assoc]
  by_cases h₁ : i < ih + 12
  · rw [if_pos h₁, List.getElem?_append_left (by omega), List.getElem?_take_of_lt h₁]
  rw [if_neg h₁, List.getElem?_append_right (by omega), hfront, getElem?_piece_append (show ih + 16 + 4 ≤ f.length by omega)]
  by_cases h₂ : i < ih + 16
  · rw [if_pos h₂, if_pos (by omega)]
    exact hat (by omega)
  rw [if_neg h₂, if_neg (by omega), getElem?_piece_append (show ih + 12 + 4 ≤ f.length by omega)]
  by_cases h₃ : i < ih + 20
  · rw [if_pos h₃, if_pos (by omega)]
    exact hat (by omega)
  rw [if_neg h₃, if_neg (by omega), getElem?_piece_append (show ih + 22 + 2 ≤ f.length by omega)]
  by_cases h₄ : i < ih + 22
  · rw [if_pos h₄, if_pos (by omega)]
    exact hat (by omega)
  rw [if_neg h₄, if_neg (by omega), getElem?_piece_append (show ih + 20 + 2 ≤ f.length by omega)]
  by_cases h₅ : i < ih + 24
  · rw [if_pos h₅, if_pos (by omega)]
    exact hat (by omega)
  · rw [if_neg h₅, if_neg (by omega), List.getElem?_drop]
    exact hat (by omega)

/-- A field of a frame is found in the frame sent the other way where its bytes have gone. -/
theorem ntohsAt_swapAt {f : Bytes} {ih : Nat} (h : ih + 24 ≤ f.length) {off off' : Nat} (h₀ : swapIndex ih off = off')
    (h₁ : swapIndex ih (off + 1) = off' + 1) {v : UInt16} (hv : ntohsAt f off' = .ok v) : ntohsAt (swapAt f ih) off = .ok v := by
  refine ntohsAt_congr ?_ ?_ hv
  · rw [getElem?_swapAt h, h₀]
  · rw [getElem?_swapAt h, h₁]

/-- A byte that is not moved is read as before. -/
theorem readAt_swapAt {f : Bytes} {ih : Nat} (h : ih + 24 ≤ f.length) {off : Nat} (h₀ : swapIndex ih off = off) {b : UInt8}
    (hb : readAt f off = .ok b) : readAt (swapAt f ih) off = .ok b := by
  rw [readAt_eq_ok, Int.toNat_natCast] at hb ⊢
  rwa [getElem?_swapAt h, h₀]

/-- A 32-bit field is read where it was moved from. -/
theorem ntohlAt_swapAt {f : Bytes} {ih : Nat} (h : ih + 24 ≤ f.length) {off off' : Nat}
    (hoff : ∀ k < 4, swapIndex ih (off + k) = off' + k) {v : UInt32} (hv : ntohlAt f off' = .ok v) :
    ntohlAt (swapAt f ih) off = .ok v := by
  obtain ⟨w₀, w₁, h₀, h₁, rfl⟩ := ntohlAt_eq_ok.mp hv
  refine ntohlAt_eq_ok.mpr ⟨w₀, w₁, ?_, ?_, rfl⟩
  · exact ntohsAt_swapAt h (hoff 0 (by decide)) (hoff 1 (by decide)) h₀
  · exact ntohsAt_swapAt h (hoff 2 (by decide)) (hoff 3 (by decide)) h₁

/-- The bytes in front of the addresses and behind the ports stay where they are. -/
theorem swapIndex_of_lt {ih i : Nat} (h : i < ih + 12) : swapIndex ih i = i := if_pos h

/-- Bytes behind the ports are not moved. -/
theorem swapIndex_of_le {ih i : Nat} (h : ih + 24 ≤ i) : swapIndex ih i = i := by
  unfold swapIndex
  rw [if_neg (by omega), if_neg (by omega), if_neg (by omega), if_neg (by omega), if_neg (by omega)]

/-- The frame sent the other way is decoded as the frame itself. -/
theorem decode_swapAt {f : Bytes} {d : Decoded} (hd : decode f = .ok (some d)) :
    ipHeader f = .ok (some d.ih) ∧ d.th = d.ih + 20 ∧ d.ih + 24 ≤ f.length ∧ decode (swapAt f d.ih) = .ok (some d) := by
  obtain ⟨ih, hih, hat⟩ := decode_eq_some.mp hd
  obtain ⟨⟨vhl, p, hvhl, hp, htcp⟩, hf, l, hhf, hl, rfl⟩ := decodeAt_eq_some.mp hat
  have hlen : ih + 24 ≤ f.length := by
    have := le_of_ntohsAt hhf
    unfold ipHdrLen at this
    omega
  refine ⟨hih, rfl, hlen, decode_eq_some.mpr ⟨ih, ?_, ?_⟩⟩
  · have htype : etherHdrLen ≤ ih := by
      rcases ipHeader_eq_some.mp hih with ⟨-, -, rfl⟩ | ⟨-, rfl⟩
      · exact Nat.le_add_right _ _
      · exact Nat.le_refl _
    unfold etherHdrLen at htype
    refine ipHeader_eq_some.mpr ?_
    rcases ipHeader_eq_some.mp hih with ⟨ht, hu, he⟩ | ⟨ht, he⟩
    · refine Or.inl ⟨ntohsAt_swapAt hlen ?_ ?_ ht, ntohsAt_swapAt hlen ?_ ?_ hu, he⟩
      · exact swapIndex_of_lt (by omega)
      · exact swapIndex_of_lt (by omega)
      · exact swapIndex_of_lt (by unfold etherHdrLen; omega)
      · exact swapIndex_of_lt (by unfold etherHdrLen; omega)
    · refine Or.inr ⟨ntohsAt_swapAt hlen ?_ ?_ ht, he⟩
      · exact swapIndex_of_lt (by omega)
      · exact swapIndex_of_lt (by omega)
  · refine decodeAt_eq_some.mpr ⟨⟨vhl, p, ?_, ?_, htcp⟩, hf, l, ?_, ?_, rfl⟩
    · exact readAt_swapAt hlen (swapIndex_of_lt (by omega)) hvhl
    · exact readAt_swapAt hlen (swapIndex_of_lt (by omega)) hp
    · exact ntohsAt_swapAt hlen (swapIndex_of_le (by unfold ipHdrLen; omega)) (swapIndex_of_le (by unfold ipHdrLen; omega)) hhf
    · exact ntohsAt_swapAt hlen (swapIndex_of_lt (by omega)) (swapIndex_of_lt (by omega)) hl

/-- Sent the other way, a frame comes from its destination and goes to its source. -/
theorem source_swapAt {f : Bytes} {d : Decoded} {src dst : Endpoint} (hth : d.th = d.ih + 20) (hlen : d.ih + 24 ≤ f.length)
    (hsrc : source f d = .ok src) (hdst : destination f d = .ok dst) :
    source (swapAt f d.ih) d = .ok dst ∧ destination (swapAt f d.ih) d = .ok src := by
  obtain ⟨hsa, hsp⟩ := source_eq_ok.mp hsrc
  obtain ⟨hda, hdp⟩ := destination_eq_ok.mp hdst
  have haddr : ∀ k < 4, swapIndex d.ih (d.ih + 12 + k) = d.ih + 16 + k ∧ swapIndex d.ih (d.ih + 16 + k) = d.ih + 12 + k := by
    intro k hk
    unfold swapIndex
    constructor
    · rw [if_neg (by omega), if_pos (by omega)]
      omega
    · rw [if_neg (by omega), if_neg (by omega), if_pos (by omega)]
      omega
  have hport : ∀ k < 2, swapIndex d.ih (d.th + k) = d.th + 2 + k ∧ swapIndex d.ih (d.th + 2 + k) = d.th + k := by
    intro k hk
    unfold swapIndex
    constructor
    · rw [if_neg (by omega), if_neg (by omega), if_neg (by omega), if_pos (by omega)]
      omega
    · rw [if_neg (by omega), if_neg (by omega), if_neg (by omega), if_neg (by omega), if_pos (by omega)]
      omega
  refine ⟨source_eq_ok.mpr ⟨?_, ?_⟩, destination_eq_ok.mpr ⟨?_, ?_⟩⟩
  · exact ntohlAt_swapAt hlen (fun k hk => (haddr k hk).1) hda
  · exact ntohsAt_swapAt hlen (hport 0 (by decide)).1 (hport 1 (by decide)).1 hdp
  · exact ntohlAt_swapAt hlen (fun k hk => (haddr k hk).2) hsa
  · exact ntohsAt_swapAt hlen (hport 0 (by decide)).2 (hport 1 (by decide)).2 hsp

/-- The flow of a frame sent the other way: the same client, in the other direction unless the client is the server itself. -/
theorem flowBetween_swap {srv : Server} {src dst : Endpoint} {flow : Flow} (h : flowBetween srv src dst = some flow) :
    flowBetween srv dst src = some ⟨flow.client, if flow.client.IsServer srv then flow.input else !flow.input⟩ := by
  unfold flowBetween at h ⊢
  by_cases hsrc : src.IsServer srv
  · rw [if_pos hsrc] at h
    cases h
    by_cases hdst : dst.IsServer srv
    · have heq : dst = src := by
        obtain ⟨hp, ha⟩ := hsrc
        obtain ⟨hp', ha'⟩ := hdst
        cases src
        cases dst
        exact congrArg₂ Endpoint.mk (ha'.trans ha.symm) (UInt16.toNat_inj.mp (Int.ofNat_inj.mp (hp'.trans hp.symm)))
      rw [if_pos hdst, if_pos hdst, heq]
    · rw [if_neg hdst, if_pos hsrc, if_neg hdst]
      rfl
  · rw [if_neg hsrc] at h
    by_cases hdst : dst.IsServer srv
    · rw [if_pos hdst] at h
      cases h
      rw [if_pos hdst, if_neg hsrc]
      rfl
    · rw [if_neg hdst] at h
      cases h

/-- With its endpoints exchanged, a frame is one of the same client, in the other direction. -/
theorem flowOf_swapEndpoints {srv : Server} {f : Bytes} {flow : Flow} {s : Segment} (h : flowOf srv f = some (flow, s)) :
    ∃ s', flowOf srv (swapEndpoints f) =
      some (⟨flow.client, if flow.client.IsServer srv then flow.input else !flow.input⟩, s') ∧ s'.len = s.len := by
  obtain ⟨d, src, dst, hd, hsrc, hdst, hflow, rfl⟩ := flowOf_eq_some.mp h
  obtain ⟨hih, hth, hlen, hswap⟩ := decode_swapAt hd
  obtain ⟨hsrc', hdst'⟩ := source_swapAt hth hlen hsrc hdst
  have hf : swapEndpoints f = swapAt f d.ih := by rw [swapEndpoints, hih]
  rw [hf]
  exact ⟨_, flowOf_eq_some.mpr ⟨d, dst, src, hswap, hsrc', hdst', flowBetween_swap hflow, rfl⟩, rfl⟩

end ParsePkg

end FrontServer
