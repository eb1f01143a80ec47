import FrontServer.Lemmas.Packet

/-!
# Where the two decoders agree

`PcapHandler` and `ParsePkg::InputPkg` decode each frame on their own. They differ on tagged frames: the handler skips the tag
before it reads the inner type, so it reads the IP total length in its place, and it rejects the frame where that equals the type
of IPv4 instead of where it differs.
-/

namespace FrontServer

/-- Where the IP header of a frame lies. -/
def ipOffset (f : Bytes) : Nat := if Tagged f then etherHdrLen + vlanLen else etherHdrLen

/-- Where the payload lies and its length, for a frame on which `InputPkg` reaches `GetClientAddr`. -/
def ParsePkg.reached (m : ParsePkg) (f : Bytes) : Option (Nat × Int) :=
  if m.mInited then (ParsePkg.decode f).toOption.join.map (fun d => (d.payload, d.dataLen)) else none

/-- Where the payload lies and its length, for a frame on which `PcapHandler` reaches `ParseHttp`. -/
def PcapHandler.reached (f : Bytes) : Option (Nat × Int) := (PcapHandler.decode f).toOption.join

/-- A frame that carries TCP over IPv4 was captured at least up to the end of the fixed part of its TCP header. -/
def FullyCaptured (f : Bytes) : Prop := TcpAt f (ipOffset f) → ipOffset f + 40 ≤ f.length

/-- On a tagged frame with a TCP segment, either the inner type is IPv4 or the IP total length is 2048, not both and not neither. -/
def DecodedAlike (f : Bytes) : Prop :=
  Tagged f → TcpAt f (ipOffset f) →
    (VlanHeader.lengthType f etherHdrLen = .ok ipv4Type ↔ IpHeader.ipLen f (ipOffset f) ≠ .ok 2048)

/-- In a tagged frame the IP header is behind the tag. -/
theorem ipOffset_of_tagged {f : Bytes} (h : Tagged f) : ipOffset f = etherHdrLen + vlanLen := if_pos h

/-- In a frame of IPv4 it is behind the Ethernet header. -/
theorem ipOffset_of_ipv4 {f : Bytes} (h : EtherHeader.etherLengthType f 0 = .ok ipv4Type) : ipOffset f = etherHdrLen := by
  refine if_neg fun ht => ?_
  rw [Tagged, h] at ht
  exact absurd ht (by decide)

/-- What both decoders make of a frame whose type they take. -/
def PayloadAt (f : Bytes) (ih : Nat) (a : Nat × Int) : Prop :=
  TcpAt f ih ∧ ∃ hf l, TcpHeader.hlenFlags f (ih + ipHdrLen) = .ok hf ∧ IpHeader.ipLen f ih = .ok l ∧
    a = (ih + ipHdrLen + TcpHeader.tcpHl hf, payloadLen l hf)

/-- The headers place one payload only. -/
theorem PayloadAt.unique {f : Bytes} {ih : Nat} {a b : Nat × Int} (ha : PayloadAt f ih a) (hb : PayloadAt f ih b) : a = b := by
  obtain ⟨-, hf, l, hhf, hl, rfl⟩ := ha
  obtain ⟨-, hf', l', hhf', hl', rfl⟩ := hb
  rw [hhf] at hhf'
  rw [hl] at hl'
  cases hhf'
  cases hl'
  rfl

/-- They place one when they are captured. -/
theorem exists_payloadAt {f : Bytes} {ih : Nat} (h : TcpAt f ih) (hlen : ih + 40 ≤ f.length) : ∃ a, PayloadAt f ih a := by
  obtain ⟨hf, hhf⟩ := exists_ntohsAt f (ih + ipHdrLen + 12) (by unfold ipHdrLen; omega)
  obtain ⟨l, hl⟩ := exists_ntohsAt f (ih + 2) (by omega)
  exact ⟨_, h, hf, l, hhf, hl, rfl⟩

/-! ## What each decoder accepts -/

/-- `ParsePkg` finds the IP header there. -/
theorem ParsePkg.ipHeader_eq_ipOffset {f : Bytes} {ih : Nat} (h : ParsePkg.ipHeader f = .ok (some ih)) : ih = ipOffset f := by
  rcases ParsePkg.ipHeader_eq_some.mp h with ⟨ht, -, rfl⟩ | ⟨ht, rfl⟩
  · exact (ipOffset_of_tagged ht).symm
  · exact (ipOffset_of_ipv4 ht).symm

/-- `PcapHandler` finds it there too. -/
theorem PcapHandler.ipHeader_eq_ipOffset {f : Bytes} {ih : Nat} (h : PcapHandler.ipHeader f = .ok (some ih)) :
    ih = ipOffset f := by
  rcases PcapHandler.ipHeader_eq_some.mp h with ⟨ht, -, rfl⟩ | ⟨ht, rfl⟩
  · exact (ipOffset_of_tagged ht).symm
  · exact (ipOffset_of_ipv4 ht).symm

/-- `InputPkg` reaches `GetClientAddr` on the frames whose type and IP header it takes. -/
theorem ParsePkg.reached_eq_some {m : ParsePkg} (hm : m.mInited = true) {f : Bytes} {a : Nat × Int} :
    m.reached f = some a ↔ ParsePkg.ipHeader f = .ok (some (ipOffset f)) ∧ PayloadAt f (ipOffset f) a := by
  unfold ParsePkg.reached
  rw [if_pos hm, Option.map_eq_some_iff]
  constructor
  · rintro ⟨d, hd, rfl⟩
    obtain ⟨ih, hih, hat⟩ := ParsePkg.decode_eq_some.mp (toOption_join_eq_some.mp hd)
    obtain rfl := ParsePkg.ipHeader_eq_ipOffset hih
    obtain ⟨htcp, hf, l, hhf, hl, rfl⟩ := ParsePkg.decodeAt_eq_some.mp hat
    exact ⟨hih, htcp, hf, l, hhf, hl, rfl⟩
  · rintro ⟨hih, htcp, hf, l, hhf, hl, rfl⟩
    have hat := ParsePkg.decodeAt_eq_some.mpr ⟨htcp, hf, l, hhf, hl, rfl⟩
    exact ⟨_, toOption_join_eq_some.mpr (ParsePkg.decode_eq_some.mpr ⟨_, hih, hat⟩), rfl⟩

/-- `PcapHandler` reaches `ParseHttp` on the frames whose type and IP header it takes. -/
theorem PcapHandler.reached_eq_some {f : Bytes} (hcap : FullyCaptured f) {a : Nat × Int} :
    PcapHandler.reached f = some a ↔ PcapHandler.ipHeader f = .ok (some (ipOffset f)) ∧ PayloadAt f (ipOffset f) a := by
  unfold PcapHandler.reached
  rw [toOption_join_eq_some, PcapHandler.decode_eq_some]
  constructor
  · rintro ⟨ih, hih, hat⟩
    obtain rfl := PcapHandler.ipHeader_eq_ipOffset hih
    obtain ⟨htcp, hf, l, w, hhf, hl, -, rfl⟩ := PcapHandler.decodeAt_eq_some.mp hat
    exact ⟨hih, htcp, hf, l, hhf, hl, rfl⟩
  · rintro ⟨hih, htcp, hf, l, hhf, hl, rfl⟩
    have hlen := hcap htcp
    obtain ⟨w, hw⟩ := exists_ntohsAt f (ipOffset f + ipHdrLen + 14) (by unfold ipHdrLen; omega)
    exact ⟨_, hih, PcapHandler.decodeAt_eq_some.mpr ⟨htcp, hf, l, w, hhf, hl, hw, rfl⟩⟩

/-- Both decoders take the type of a frame that is not tagged or of neither kind alike, and that of a tagged one exactly when the
inner type and the total length are as in `DecodedAlike`. -/
theorem ipHeader_alike_iff {f : Bytes} (hlen : ipOffset f + 40 ≤ f.length) :
    (PcapHandler.ipHeader f = .ok (some (ipOffset f)) ↔ ParsePkg.ipHeader f = .ok (some (ipOffset f))) ↔
      (Tagged f → (VlanHeader.lengthType f etherHdrLen = .ok ipv4Type ↔ IpHeader.ipLen f (ipOffset f) ≠ .ok 2048)) := by
  rw [PcapHandler.ipHeader_eq_some, ParsePkg.ipHeader_eq_some]
  by_cases ht : Tagged f
  · have hoff := ipOffset_of_tagged ht
    obtain ⟨l, hl⟩ := exists_ntohsAt f (ipOffset f + 2) (by omega)
    have hvlan : VlanHeader.lengthType f (etherHdrLen + vlanLen) = .ok l := by rw [← hoff]; exact hl
    have hiplen : IpHeader.ipLen f (ipOffset f) = .ok l := hl
    have htype : EtherHeader.etherLengthType f 0 = .ok etherType8021Q := ht
    have hne : (Except.ok etherType8021Q : Except Fault UInt16) ≠ .ok ipv4Type := by decide
    rw [hvlan, hiplen, htype, hoff]
    have htotal : (Except.ok l : Except Fault UInt16) ≠ .ok 2048 ↔ ipv4Type ≠ l := by
      rw [ne_eq, Except.ok.injEq, ne_comm]
      rfl
    simp only [htotal, hne, false_and, or_false, true_and, and_true, Except.ok.injEq, exists_eq_left', ht, forall_true_left]
    exact Iff.comm
  · have htype : EtherHeader.etherLengthType f 0 ≠ .ok etherType8021Q := ht
    simp only [htype, ht, false_and, false_or, false_imp_iff]

/-- The two decoders agree on a frame, that it passes and on where its payload lies and how long it is, exactly when it is decoded
alike. -/
theorem decoders_agree_iff (m : ParsePkg) (ip : Bytes) (port : Int) (f : Bytes) (hcap : FullyCaptured f) :
    (((PcapHandler.reached f).isSome ↔ ((m.init ip port).reached f).isSome) ∧
        ∀ a b, PcapHandler.reached f = some a → (m.init ip port).reached f = some b → a = b) ↔
      DecodedAlike f := by
  have hinit : (m.init ip port).mInited = true := rfl
  simp only [Option.isSome_iff_exists, ParsePkg.reached_eq_some hinit, PcapHandler.reached_eq_some hcap, exists_and_left]
  by_cases htcp : TcpAt f (ipOffset f)
  · have hex := exists_payloadAt htcp (hcap htcp)
    simp only [hex, and_true]
    rw [ipHeader_alike_iff (hcap htcp)]
    constructor
    · intro h ht _
      exact h.1 ht
    · intro h
      refine ⟨fun ht => h ht htcp, ?_⟩
      rintro a b ⟨-, ha⟩ ⟨-, hb⟩
      exact ha.unique hb
  · have hno : ∀ a, ¬PayloadAt f (ipOffset f) a := fun a ha => htcp ha.1
    simp only [hno, exists_false, and_false, iff_self, true_and, false_imp_iff, implies_true, true_iff]
    intro _ h
    exact absurd h htcp

/-- A tagged frame that is not IPv4 by its inner type, the one of IPv6, but reads like a TCP segment behind it. -/
def taggedFrame : Bytes :=
  frameOf [0x81, 0x00, 0, 1, 0x86, 0xDD] 40 [10, 0, 0, 1, 10, 0, 0, 2] [0, 80, 0x1F, 0x90] 5 []

/-- The decoders do not agree on every frame: `PcapHandler` parses this one as HTTP and `InputPkg` drops it. -/
theorem decoders_disagree :
    ¬∀ (m : ParsePkg) (ip : Bytes) (port : Int) (f : Bytes), FullyCaptured f →
      ((PcapHandler.reached f).isSome ↔ ((m.init ip port).reached f).isSome) ∧
        ∀ a b, PcapHandler.reached f = some a → (m.init ip port).reached f = some b → a = b := by
  intro h
  have hcap : FullyCaptured taggedFrame := fun _ => by decide
  have hpcap : PcapHandler.reached taggedFrame = some (58, 0) := by rfl
  have hparse : (ParsePkg.new.init [] 80).reached taggedFrame = none := by rfl
  have hiff := (h ParsePkg.new [] 80 taggedFrame hcap).1
  rw [hpcap, hparse] at hiff
  exact absurd (hiff.mp rfl) (by simp)

/-- A frame without a tag and with no payload. -/
def plainFrame : Bytes := frameOf [0x08, 0x00] 40 [10, 0, 0, 1, 10, 0, 0, 2] [0, 80, 0x1F, 0x90] 5 []

/-- An untagged frame, which both decode alike. -/
theorem decoders_agree_iff_plainFrame :
    (((PcapHandler.reached plainFrame).isSome ↔ ((ParsePkg.new.init [] 80).reached plainFrame).isSome) ∧
        ∀ a b, PcapHandler.reached plainFrame = some a → (ParsePkg.new.init [] 80).reached plainFrame = some b → a = b) ↔
      DecodedAlike plainFrame :=
  decoders_agree_iff ParsePkg.new [] 80 plainFrame (fun _ => by decide)

end FrontServer
