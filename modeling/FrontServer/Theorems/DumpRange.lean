import FrontServer.Lemmas.Packet

/-!
# What the hex dump shows

`PcapHandler` moves to the end of the HTTP head, `next_pos` bytes behind the start of the payload, and dumps `content_len` bytes from
there, as many as the whole payload has. Behind a payload that was not empty the dump ends behind it.
-/

namespace FrontServer

/-- `PrintHex` stays inside of memory. -/
theorem exists_printHex {ctx : Bytes} {pos size : Int} :
    (∃ shown, printHex ctx pos size = .ok shown) ↔ ∀ i : Nat, i < size → 0 ≤ pos + i ∧ pos + i < ctx.length := by
  unfold printHex
  rw [exists_mapM_eq_ok]
  simp only [exists_readAt, List.bind_eq_flatMap, List.pure_def, List.mem_flatMap, List.mem_singleton, List.mem_range]
  constructor
  · intro h i hi
    exact h i ⟨i, by omega, rfl⟩
  · rintro h _ ⟨i, hi, rfl⟩
    exact h i (by omega)

/-- Where `ParseHttp` puts `*remain_pos`: it leaves it as it is for no bytes, and behind a byte for more. -/
theorem parseHttp_remainPos {data : Bytes} {len remainPos remainPos' : Int} {ret : Bool} {lines : List Bytes}
    (h : parseHttp data len remainPos = .ok (ret, lines, remainPos')) : len = 0 ∧ remainPos' = remainPos ∨ len ≠ 0 ∧ 1 ≤ remainPos' := by
  unfold parseHttp scanHeaders at h
  split at h
  · rename_i hzero
    cases h
    exact Or.inl ⟨hzero.symm, rfl⟩
  · rename_i hne
    obtain ⟨r, -, hr⟩ := bind_eq_ok.mp h
    cases hr
    exact Or.inr ⟨fun e => hne e.symm, by omega⟩

/-- A frame whose dump is printed: it was captured just to the end of its IP datagram, its TCP header has at least 20 bytes, its
payload, at `p`, has `contentLen` bytes, and the HTTP head in it ends at `nextPos`. -/
structure Dumped (bytes : Bytes) (p : Nat) (contentLen nextPos : Int) : Prop where
  decoded : PcapHandler.decode bytes = .ok (some (p, contentLen))
  captured : ∃ ih l, PcapHandler.ipHeader bytes = .ok (some ih) ∧ IpHeader.ipLen bytes ih = .ok l ∧ bytes.length = ih + l.toNat ∧
    ih + ipHdrLen + 20 ≤ p
  payload : 0 ≤ contentLen
  parsed : ∃ ret lines, parseHttp (bytes.drop p) contentLen 0 = .ok (ret, lines, nextPos)

/-- Such a frame ends with its payload. -/
theorem Dumped.length_eq {bytes : Bytes} {p : Nat} {contentLen nextPos : Int} (h : Dumped bytes p contentLen nextPos) :
    (bytes.length : Int) = p + contentLen := by
  obtain ⟨ih, l, hih, hl, hlen, -⟩ := h.captured
  obtain ⟨ih', hih', hat⟩ := PcapHandler.decode_eq_some.mp h.decoded
  rw [hih] at hih'
  cases hih'
  obtain ⟨-, hf, l', w, -, hl', -, hp⟩ := PcapHandler.decodeAt_eq_some.mp hat
  rw [hl] at hl'
  cases hl'
  cases hp
  rw [hlen, payloadLen]
  omega

/-- The dump starts at the payload when that is empty, and behind its first byte or further on otherwise. -/
theorem Dumped.nextPos_pos {bytes : Bytes} {p : Nat} {contentLen nextPos : Int} (h : Dumped bytes p contentLen nextPos) :
    contentLen = 0 ∧ nextPos = 0 ∨ 0 < contentLen ∧ 1 ≤ nextPos := by
  have hpayload := h.payload
  obtain ⟨ret, lines, hparse⟩ := h.parsed
  rcases parseHttp_remainPos hparse with ⟨hzero, hpos⟩ | ⟨hne, hpos⟩
  · exact Or.inl ⟨hzero, hpos⟩
  · exact Or.inr ⟨by omega, hpos⟩

/-- Only for an empty payload does the dump read nothing but what was captured. -/
theorem Dumped.exists_printHex_iff {bytes : Bytes} {p : Nat} {contentLen nextPos : Int} (h : Dumped bytes p contentLen nextPos) :
    (∃ shown, printHex bytes (p + nextPos) contentLen = .ok shown) ↔ contentLen = 0 := by
  have hlen := h.length_eq
  rw [exists_printHex]
  rcases h.nextPos_pos with ⟨hzero, -⟩ | ⟨hpayload, hpos⟩
  · exact iff_of_true (fun i hi => by omega) hzero
  · refine iff_of_false (fun hinside => ?_) (by omega)
    -- the last byte shown is behind the last one captured
    have hlast := hinside (contentLen - 1).toNat (by omega)
    omega

/-- So `PcapHandler` gets through such a frame exactly when `InputPkg` does and the payload is empty. -/
theorem Dumped.exists_pcapHandler_iff {bytes : Bytes} {p : Nat} {contentLen nextPos : Int} (h : Dumped bytes p contentLen nextPos)
    (m : ParsePkg) (caplen : Int) :
    (∃ r, pcapHandler m bytes caplen = .ok r) ↔ (∃ r, m.inputPkg bytes caplen = .ok r) ∧ contentLen = 0 := by
  obtain ⟨ret, lines, hparse⟩ := h.parsed
  rw [← h.exists_printHex_iff]
  unfold pcapHandler
  rw [h.decoded]
  constructor
  · rintro ⟨r, hr⟩
    obtain ⟨⟨ret', m'⟩, hinput, hr⟩ := bind_eq_ok.mp hr
    simp only [ok_bind, hparse] at hr
    obtain ⟨shown, hshown, -⟩ := bind_eq_ok.mp hr
    exact ⟨⟨_, hinput⟩, shown, hshown⟩
  · rintro ⟨⟨⟨ret', m'⟩, hinput⟩, shown, hshown⟩
    simp only [hinput, ok_bind, hparse, hshown]
    exact ⟨_, rfl⟩

/-- The dump stays inside of the payload, and reads only what was captured, exactly when the payload is empty. -/
theorem dump_in_payload_iff (bytes : Bytes) (p : Nat) (contentLen nextPos : Int) (h : Dumped bytes p contentLen nextPos) :
    (nextPos + contentLen ≤ contentLen ↔ contentLen = 0) ∧
      ((∃ shown, printHex bytes (p + nextPos) contentLen = .ok shown) ↔ contentLen = 0) := by
  refine ⟨?_, h.exists_printHex_iff⟩
  rcases h.nextPos_pos with ⟨hzero, hpos⟩ | ⟨hpayload, hpos⟩
  · exact iff_of_true (by omega) hzero
  · exact iff_of_false (by omega) (by omega)

/-- A frame with `GET` and a blank line in its payload. -/
def getHeadFrame : Bytes :=
  frameOf [0x08, 0x00] 47 [10, 0, 0, 1, 10, 0, 0, 2] [0x1F, 0x90, 0, 80] 5 (ascii "GET\r\n\r\n")

/-- The head is the whole payload of 7 bytes, and the dump is of the 7 bytes behind it. -/
theorem getHeadFrame_dumped : Dumped getHeadFrame 54 7 7 where
  decoded := by decide +kernel
  captured := ⟨14, 47, by decide +kernel, by decide +kernel, by decide, by decide⟩
  payload := by decide
  parsed := ⟨true, [ascii "GET"], by decide +kernel⟩

theorem dump_behind_payload :
    ¬∀ (bytes : Bytes) (p : Nat) (contentLen nextPos : Int), Dumped bytes p contentLen nextPos →
      nextPos + contentLen ≤ contentLen := by
  intro hall
  exact absurd (hall getHeadFrame 54 7 7 getHeadFrame_dumped) (by decide)

theorem dump_in_payload_iff_getHeadFrame :
    ((7 : Int) + 7 ≤ 7 ↔ (7 : Int) = 0) ∧ ((∃ shown, printHex getHeadFrame (54 + 7) 7 = .ok shown) ↔ (7 : Int) = 0) :=
  dump_in_payload_iff getHeadFrame 54 7 7 getHeadFrame_dumped

end FrontServer
