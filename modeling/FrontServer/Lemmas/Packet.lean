import FrontServer.PcapHandler

/-!
# What the two decoders accept

Each reader succeeds when its bytes were captured. From that: what a frame is like on which `InputPkg` reaches `GetClientAddr`, and
one on which `PcapHandler` reaches `ParseHttp`.
-/

namespace FrontServer

/-! ## Readers -/

theorem ntohsAt_eq_ok {mem : Bytes} {off : Nat} {v : UInt16} :
    ntohsAt mem off = .ok v ↔
      ∃ b₀ b₁, mem[off]? = some b₀ ∧ mem[off + 1]? = some b₁ ∧ b₀.toUInt16 <<< 8 ||| b₁.toUInt16 = v := by
  unfold ntohsAt
  rw [bind_eq_ok]
  simp only [bind_eq_ok, readAt_eq_ok, Int.natCast_nonneg, true_and, Int.toNat_natCast]
  constructor
  · rintro ⟨b₀, h₀, b₁, h₁, hv⟩
    cases hv
    exact ⟨b₀, b₁, h₀, h₁, rfl⟩
  · rintro ⟨b₀, b₁, h₀, h₁, rfl⟩
    exact ⟨b₀, h₀, b₁, h₁, rfl⟩

theorem ntohlAt_eq_ok {mem : Bytes} {off : Nat} {v : UInt32} :
    ntohlAt mem off = .ok v ↔
      ∃ w₀ w₁, ntohsAt mem off = .ok w₀ ∧ ntohsAt mem (off + 2) = .ok w₁ ∧ w₀.toUInt32 <<< 16 ||| w₁.toUInt32 = v := by
  unfold ntohlAt
  simp only [bind_eq_ok]
  constructor
  · rintro ⟨w₀, h₀, w₁, h₁, hv⟩
    cases hv
    exact ⟨w₀, w₁, h₀, h₁, rfl⟩
  · rintro ⟨w₀, w₁, h₀, h₁, rfl⟩
    exact ⟨w₀, h₀, w₁, h₁, rfl⟩

/-- A field that was captured is read. -/
theorem exists_ntohsAt (mem : Bytes) (off : Nat) (h : off + 2 ≤ mem.length) : ∃ v, ntohsAt mem off = .ok v := by
  have h₀ : mem[off]? = some mem[off] := List.getElem?_eq_getElem (by omega)
  have h₁ : mem[off + 1]? = some mem[off + 1] := List.getElem?_eq_getElem (by omega)
  exact ⟨_, ntohsAt_eq_ok.mpr ⟨_, _, h₀, h₁, rfl⟩⟩

/-- A field that is read was captured. -/
theorem le_of_ntohsAt {mem : Bytes} {off : Nat} {v : UInt16} (h : ntohsAt mem off = .ok v) : off + 2 ≤ mem.length := by
  obtain ⟨b₀, b₁, -, h₁, -⟩ := ntohsAt_eq_ok.mp h
  have := (List.getElem?_eq_some_iff.mp h₁).1
  omega

/-- A field is the same in memory that has the same bytes in its place. -/
theorem ntohsAt_congr {mem mem' : Bytes} {off off' : Nat} (h₀ : mem[off]? = mem'[off']?) (h₁ : mem[off + 1]? = mem'[off' + 1]?)
    {v : UInt16} (h : ntohsAt mem off = .ok v) : ntohsAt mem' off' = .ok v := by
  rw [ntohsAt_eq_ok] at h ⊢
  rwa [h₀, h₁] at h

/-- A frame, by the bytes from its type up to its IP header, the last byte of its total length, its addresses and ports, the data
offset of its TCP header, and what lies behind the fixed part of that. -/
def frameOf (type : Bytes) (total : UInt8) (addrs ports : Bytes) (offset : UInt8) (rest : Bytes) : Bytes :=
  let macs : Bytes := [0, 0, 0, 0, 0, 1, 0, 0, 0, 0, 0, 2]
  let ip : Bytes := [0x45, 0, 0, total, 0, 0, 0, 0, 64, 6, 0, 0]
  let tcp : Bytes := [0, 0, 0, 0, 0, 0, 0, 0, offset <<< 4, 0x10, 0, 0, 0, 0, 0, 0]
  macs ++ type ++ ip ++ addrs ++ ports ++ tcp ++ rest

/-! ## The IP header -/

/-- The IP header at an offset passes the checks both decoders make. -/
def TcpAt (f : Bytes) (ih : Nat) : Prop :=
  ∃ vhl p, IpHeader.ipVhl f ih = .ok vhl ∧ IpHeader.ipP f ih = .ok p ∧ IpHeader.isTcp vhl p = true

/-- The payload's length by the total length of the IP header and the length of the TCP header. -/
def payloadLen (ipLen hlenFlags : UInt16) : Int := (ipLen.toNat : Int) - ipHdrLen - TcpHeader.tcpHl hlenFlags

/-- What `InputPkg` has of a frame whose IP header passes. -/
theorem ParsePkg.decodeAt_eq_some {f : Bytes} {ih : Nat} {d : Decoded} :
    ParsePkg.decodeAt f ih = .ok (some d) ↔
      TcpAt f ih ∧ ∃ hf l, TcpHeader.hlenFlags f (ih + ipHdrLen) = .ok hf ∧ IpHeader.ipLen f ih = .ok l ∧
        d = ⟨ih, ih + ipHdrLen, ih + ipHdrLen + TcpHeader.tcpHl hf, payloadLen l hf⟩ := by
  unfold ParsePkg.decodeAt
  simp only [bind_eq_ok]
  constructor
  · rintro ⟨vhl, hvhl, p, hp, h⟩
    split at h
    · rename_i htcp
      simp only [bind_eq_ok] at h
      obtain ⟨hf, hhf, l, hl, h⟩ := h
      cases h
      exact ⟨⟨vhl, p, hvhl, hp, htcp⟩, hf, l, hhf, hl, rfl⟩
    · cases h
  · rintro ⟨⟨vhl, p, hvhl, hp, htcp⟩, hf, l, hhf, hl, rfl⟩
    refine ⟨vhl, hvhl, p, hp, ?_⟩
    rw [if_pos htcp]
    simp only [bind_eq_ok]
    exact ⟨hf, hhf, l, hl, rfl⟩

/-- What `PcapHandler` has of a frame whose IP header passes. -/
theorem PcapHandler.decodeAt_eq_some {f : Bytes} {ih : Nat} {r : Nat × Int} :
    PcapHandler.decodeAt f ih = .ok (some r) ↔
      TcpAt f ih ∧ ∃ hf l w, TcpHeader.hlenFlags f (ih + ipHdrLen) = .ok hf ∧ IpHeader.ipLen f ih = .ok l ∧
        TcpHeader.winSize f (ih + ipHdrLen) = .ok w ∧ r = (ih + ipHdrLen + TcpHeader.tcpHl hf, payloadLen l hf) := by
  unfold PcapHandler.decodeAt
  simp only [bind_eq_ok]
  constructor
  · rintro ⟨vhl, hvhl, l, hl, p, hp, h⟩
    split at h
    · rename_i htcp
      simp only [bind_eq_ok] at h
      obtain ⟨hf, hhf, w, hw, h⟩ := h
      cases h
      exact ⟨⟨vhl, p, hvhl, hp, htcp⟩, hf, l, w, hhf, hl, hw, rfl⟩
    · simp only [bind_eq_ok] at h
      obtain ⟨_, _, h⟩ := h
      cases h
  · rintro ⟨⟨vhl, p, hvhl, hp, htcp⟩, hf, l, w, hhf, hl, hw, rfl⟩
    refine ⟨vhl, hvhl, l, hl, p, hp, ?_⟩
    rw [if_pos htcp]
    simp only [bind_eq_ok]
    exact ⟨hf, hhf, w, hw, rfl⟩

/-! ## The type of a frame -/

/-- The frame carries an 802.1Q tag. -/
def Tagged (f : Bytes) : Prop := EtherHeader.etherLengthType f 0 = .ok etherType8021Q

instance (f : Bytes) : Decidable (Tagged f) := by unfold Tagged; infer_instance

/-- `InputPkg` takes IPv4 frames and frames tagged with 802.1Q whose inner type is IPv4. -/
theorem ParsePkg.ipHeader_eq_some {f : Bytes} {ih : Nat} :
    ParsePkg.ipHeader f = .ok (some ih) ↔
      EtherHeader.etherLengthType f 0 = .ok etherType8021Q ∧ VlanHeader.lengthType f etherHdrLen = .ok ipv4Type ∧
          ih = etherHdrLen + vlanLen ∨
        EtherHeader.etherLengthType f 0 = .ok ipv4Type ∧ ih = etherHdrLen := by
  unfold ParsePkg.ipHeader
  simp only [bind_eq_ok]
  constructor
  · rintro ⟨t, ht, h⟩
    split at h
    · rename_i htag
      simp only [bind_eq_ok] at h
      obtain ⟨u, hu, h⟩ := h
      split at h
      · cases h
      · rename_i hip
        cases h
        exact Or.inl ⟨by rw [ht, htag], by rw [hu, Classical.not_not.mp hip], rfl⟩
    · split at h
      · cases h
      · rename_i hip
        cases h
        exact Or.inr ⟨by rw [ht, Classical.not_not.mp hip], rfl⟩
  · rintro (⟨ht, hu, rfl⟩ | ⟨ht, rfl⟩)
    · refine ⟨_, ht, ?_⟩
      rw [if_pos rfl]
      simp only [bind_eq_ok]
      exact ⟨_, hu, by rw [if_neg (by simp)]; rfl⟩
    · refine ⟨_, ht, ?_⟩
      rw [if_neg (by decide), if_neg (by simp)]
      rfl

/-- `PcapHandler` takes IPv4 frames and tagged frames whose bytes behind the tag and its inner type do not read `0x0800`. -/
theorem PcapHandler.ipHeader_eq_some {f : Bytes} {ih : Nat} :
    PcapHandler.ipHeader f = .ok (some ih) ↔
      EtherHeader.etherLengthType f 0 = .ok etherType8021Q ∧
          (∃ t, VlanHeader.lengthType f (etherHdrLen + vlanLen) = .ok t ∧ ipv4Type ≠ t) ∧ ih = etherHdrLen + vlanLen ∨
        EtherHeader.etherLengthType f 0 = .ok ipv4Type ∧ ih = etherHdrLen := by
  unfold PcapHandler.ipHeader
  simp only [bind_eq_ok]
  constructor
  · rintro ⟨t, ht, h⟩
    split at h
    · rename_i htag
      simp only [bind_eq_ok] at h
      obtain ⟨u, hu, h⟩ := h
      split at h
      · cases h
      · rename_i hip
        cases h
        exact Or.inl ⟨by rw [ht, htag], ⟨u, hu, hip⟩, rfl⟩
    · split at h
      · rename_i hip
        cases h
        exact Or.inr ⟨by rw [ht, hip], rfl⟩
      · cases h
  · rintro (⟨ht, ⟨u, hu, hip⟩, rfl⟩ | ⟨ht, rfl⟩)
    · refine ⟨_, ht, ?_⟩
      rw [if_pos rfl]
      simp only [bind_eq_ok]
      exact ⟨u, hu, by rw [if_neg hip]; rfl⟩
    · refine ⟨_, ht, ?_⟩
      rw [if_neg (by decide), if_pos rfl]
      rfl

theorem ParsePkg.decode_eq_some {f : Bytes} {d : Decoded} :
    ParsePkg.decode f = .ok (some d) ↔ ∃ ih, ParsePkg.ipHeader f = .ok (some ih) ∧ ParsePkg.decodeAt f ih = .ok (some d) := by
  unfold ParsePkg.decode
  exact bind_eq_ok_some rfl

theorem PcapHandler.decode_eq_some {f : Bytes} {r : Nat × Int} :
    PcapHandler.decode f = .ok (some r) ↔
      ∃ ih, PcapHandler.ipHeader f = .ok (some ih) ∧ PcapHandler.decodeAt f ih = .ok (some r) := by
  unfold PcapHandler.decode
  exact bind_eq_ok_some rfl

end FrontServer
