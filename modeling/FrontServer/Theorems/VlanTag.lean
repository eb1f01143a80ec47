import FrontServer.Theorems.RingSafety

/-!
# Frames with a tag and without

`InputPkg` reads the headers behind an 802.1Q tag where they lie then, four bytes further on, and takes and rejects the same frames.
So a tag changes neither what it returns nor the sessions (`vlan_transparent`).
-/

namespace FrontServer

/-- An 802.1Q tag with its control value. -/
def vlanTag (tci : UInt16) : Bytes := [0x81, 0x00, (tci >>> 8).toUInt8, tci.toUInt8]

/-- A frame with a tag behind its source address. -/
def insertTag (f : Bytes) (tci : UInt16) : Bytes := f.take 12 ++ vlanTag tci ++ f.drop 12

/-! ## Reads behind the tag -/

variable {f : Bytes} (tci : UInt16)

/-- What lies behind the addresses lies four bytes further on. -/
theorem getElem?_insertTag (h : 12 ≤ f.length) {i : Nat} (hi : 12 ≤ i) : (insertTag f tci)[i + vlanLen]? = f[i]? := by
  have hlen : (f.take 12 ++ vlanTag tci).length = 12 + vlanLen := by
    rw [List.length_append, List.length_take, Nat.min_eq_left h]
    rfl
  unfold insertTag
  rw [List.getElem?_append_right (by omega), hlen, List.getElem?_drop]
  congr 1
  omega

theorem readAt_insertTag (h : 12 ≤ f.length) {i : Nat} (hi : 12 ≤ i) {b : UInt8} (hb : readAt f i = .ok b) :
    readAt (insertTag f tci) (i + vlanLen : Nat) = .ok b := by
  rw [readAt_eq_ok, Int.toNat_natCast] at hb ⊢
  exact ⟨Int.natCast_nonneg _, by rw [getElem?_insertTag tci h hi, hb.2]⟩

theorem ntohsAt_insertTag (h : 12 ≤ f.length) {off : Nat} (hoff : 12 ≤ off) {v : UInt16} (hv : ntohsAt f off = .ok v) :
    ntohsAt (insertTag f tci) (off + vlanLen) = .ok v := by
  refine ntohsAt_congr (getElem?_insertTag tci h hoff).symm ?_ hv
  rw [Nat.add_right_comm]
  exact (getElem?_insertTag tci h (by omega)).symm

theorem ntohlAt_insertTag (h : 12 ≤ f.length) {off : Nat} (hoff : 12 ≤ off) {v : UInt32} (hv : ntohlAt f off = .ok v) :
    ntohlAt (insertTag f tci) (off + vlanLen) = .ok v := by
  obtain ⟨w₀, w₁, h₀, h₁, rfl⟩ := ntohlAt_eq_ok.mp hv
  refine ntohlAt_eq_ok.mpr ⟨w₀, w₁, ntohsAt_insertTag tci h hoff h₀, ?_, rfl⟩
  rw [Nat.add_right_comm]
  exact ntohsAt_insertTag tci h (by omega) h₁

/-- The payload is the same memory. -/
theorem drop_insertTag (h : 12 ≤ f.length) {p : Nat} (hp : 12 ≤ p) : (insertTag f tci).drop (p + vlanLen) = f.drop p := by
  apply List.ext_getElem?
  intro i
  rw [List.getElem?_drop, List.getElem?_drop, Nat.add_right_comm]
  exact getElem?_insertTag tci h (by omega)

/-! ## The headers -/

/-- What `InputPkg` has of a frame whose headers lie `n` bytes further on. -/
def Decoded.shift (n : Nat) (d : Decoded) : Decoded :=
  { ih := d.ih + n, th := d.th + n, payload := d.payload + n, dataLen := d.dataLen }

namespace ParsePkg

/-- The inner type of the tagged frame is the type of the other. -/
theorem ipHeader_insertTag {t : UInt16} (ht : EtherHeader.etherLengthType f 0 = .ok t) (hne : t ≠ etherType8021Q)
    {r : Option Nat} (hr : ipHeader f = .ok r) : ipHeader (insertTag f tci) = .ok (r.map (· + vlanLen)) := by
  have h : 12 ≤ f.length := by
    have := le_of_ntohsAt ht
    omega
  have houter : EtherHeader.etherLengthType (insertTag f tci) 0 = .ok etherType8021Q := by
    have hlen : (f.take 12).length = 12 := List.length_take_of_le h
    unfold EtherHeader.etherLengthType
    rw [ntohsAt_eq_ok]
    refine ⟨0x81, 0x00, ?_, ?_, rfl⟩
    · unfold insertTag
      rw [List.append_assoc, List.getElem?_append_right (by omega), hlen]
      rfl
    · unfold insertTag
      rw [List.append_assoc, List.getElem?_append_right (by omega), hlen]
      rfl
  have hinner : VlanHeader.lengthType (insertTag f tci) etherHdrLen = .ok t := ntohsAt_insertTag tci h le_rfl ht
  unfold ipHeader at hr ⊢
  rw [ht, ok_bind, if_neg (Ne.symm hne)] at hr
  rw [houter, ok_bind, if_pos rfl, hinner, ok_bind]
  split at hr
  · rename_i hip
    cases hr
    rw [if_pos hip]
    rfl
  · rename_i hip
    cases hr
    rw [if_neg hip]
    rfl

/-- The checks of the IP header come out the same, and what follows from it lies further on. -/
theorem decodeAt_insertTag (h : 12 ≤ f.length) {ih : Nat} (hih : 12 ≤ ih) {r : Option Decoded} (hr : decodeAt f ih = .ok r) :
    decodeAt (insertTag f tci) (ih + vlanLen) = .ok (r.map (Decoded.shift vlanLen)) := by
  unfold decodeAt at hr ⊢
  obtain ⟨vhl, hvhl, hr⟩ := bind_eq_ok.mp hr
  obtain ⟨p, hp, hr⟩ := bind_eq_ok.mp hr
  have hvhl' : IpHeader.ipVhl (insertTag f tci) (ih + vlanLen) = .ok vhl := readAt_insertTag tci h hih hvhl
  have hp' : IpHeader.ipP (insertTag f tci) (ih + vlanLen) = .ok p := by
    unfold IpHeader.ipP
    rw [Nat.add_right_comm]
    exact readAt_insertTag tci h (by omega) hp
  rw [hvhl', ok_bind, hp', ok_bind]
  split at hr
  · rename_i htcp
    obtain ⟨hf, hhf, hr⟩ := bind_eq_ok.mp hr
    obtain ⟨l, hl, hr⟩ := bind_eq_ok.mp hr
    cases hr
    have hhf' : TcpHeader.hlenFlags (insertTag f tci) (ih + vlanLen + ipHdrLen) = .ok hf := by
      unfold TcpHeader.hlenFlags
      rw [Nat.add_right_comm ih, Nat.add_right_comm (ih + ipHdrLen)]
      exact ntohsAt_insertTag tci h (by omega) hhf
    have hl' : IpHeader.ipLen (insertTag f tci) (ih + vlanLen) = .ok l := by
      unfold IpHeader.ipLen
      rw [Nat.add_right_comm]
      exact ntohsAt_insertTag tci h (by omega) hl
    rw [if_pos htcp]
    dsimp only
    rw [hhf', ok_bind, hl', ok_bind, Nat.add_right_comm ih, Nat.add_right_comm (ih + ipHdrLen)]
    rfl
  · rename_i htcp
    cases hr
    rw [if_neg htcp]
    rfl

/-- The addresses and the direction come out the same. -/
theorem getClientAddr_insertTag (m : ParsePkg) (h : 12 ≤ f.length) {ih th : Nat} (hih : 12 ≤ ih) (hth : 12 ≤ th)
    {r : Option (Bytes × Int × Bool)} (hr : m.getClientAddr f ih th = .ok r) :
    m.getClientAddr (insertTag f tci) (ih + vlanLen) (th + vlanLen) = .ok r := by
  unfold getClientAddr at hr ⊢
  obtain ⟨src, hsrc, hr⟩ := bind_eq_ok.mp hr
  obtain ⟨dst, hdst, hr⟩ := bind_eq_ok.mp hr
  obtain ⟨sport, hsport, hr⟩ := bind_eq_ok.mp hr
  obtain ⟨dport, hdport, hr⟩ := bind_eq_ok.mp hr
  have hsrc' : IpHeader.ipSrc (insertTag f tci) (ih + vlanLen) = .ok src := by
    unfold IpHeader.ipSrc
    rw [Nat.add_right_comm]
    exact ntohlAt_insertTag tci h (by omega) hsrc
  have hdst' : IpHeader.ipDst (insertTag f tci) (ih + vlanLen) = .ok dst := by
    unfold IpHeader.ipDst
    rw [Nat.add_right_comm]
    exact ntohlAt_insertTag tci h (by omega) hdst
  have hsport' : TcpHeader.portSrc (insertTag f tci) (th + vlanLen) = .ok sport := ntohsAt_insertTag tci h hth hsport
  have hdport' : TcpHeader.portDst (insertTag f tci) (th + vlanLen) = .ok dport := by
    unfold TcpHeader.portDst
    rw [Nat.add_right_comm]
    exact ntohsAt_insertTag tci h (by omega) hdport
  rw [hsrc', ok_bind, hdst', ok_bind, hsport', ok_bind, hdport', ok_bind]
  exact hr

/-- Both frames make the same call, or none. -/
theorem sessionCall_insertTag {m : ParsePkg} (htype : EtherHeader.etherLengthType f 0 ≠ .ok etherType8021Q)
    {r : Bool × Option SessionCall} (hr : m.sessionCall f = .ok r) : m.sessionCall (insertTag f tci) = .ok r := by
  unfold sessionCall decode at hr ⊢
  split at hr
  · rename_i hinit
    rw [if_pos hinit]
    exact hr
  · rename_i hinit
    rw [if_neg hinit]
    obtain ⟨decoded, hdecoded, hr⟩ := bind_eq_ok.mp hr
    obtain ⟨found, hfound, hdecoded⟩ := bind_eq_ok.mp hdecoded
    obtain ⟨t, ht, -⟩ := bind_eq_ok.mp hfound
    have hne : t ≠ etherType8021Q := fun he => htype (he ▸ ht)
    have h : 12 ≤ f.length := by
      have := le_of_ntohsAt ht
      omega
    rw [ipHeader_insertTag tci ht hne hfound, ok_bind]
    cases found with
    | none =>
      cases hdecoded
      exact hr
    | some ih =>
      obtain rfl : ih = etherHdrLen := by
        rcases ipHeader_eq_some.mp hfound with ⟨htag, -, -⟩ | ⟨-, hih⟩
        · exact absurd htag htype
        · exact hih
      dsimp only [Option.map_some] at hdecoded ⊢
      rw [decodeAt_insertTag tci h (by decide) hdecoded, ok_bind]
      cases decoded with
      | none => exact hr
      | some d =>
        obtain ⟨-, hf, l, -, -, rfl⟩ := decodeAt_eq_some.mp hdecoded
        obtain ⟨addr, haddr, hr⟩ := bind_eq_ok.mp hr
        have hih : 12 ≤ etherHdrLen := by decide
        have haddr' := getClientAddr_insertTag tci m h hih (Nat.le_add_right_of_le hih) haddr
        dsimp only [Option.map_some, Decoded.shift] at hr ⊢
        rw [haddr', ok_bind]
        cases addr with
        | none => exact hr
        | some addr =>
          dsimp only at hr ⊢
          rw [drop_insertTag tci h (by omega)]
          exact hr

/-- A frame that is not tagged and does not fault, and the same frame with a tag: the same result, the same sessions. -/
theorem vlan_transparent (m : ParsePkg) (f : Bytes) (tci : UInt16) (ret : Bool) (m' : ParsePkg)
    (htype : EtherHeader.etherLengthType f 0 ≠ .ok etherType8021Q) (hok : m.inputPkg f f.length = .ok (ret, m')) :
    m.inputPkg (insertTag f tci) (insertTag f tci).length = .ok (ret, m') := by
  obtain ⟨r, hcall, -⟩ := bind_eq_ok.mp hok
  have htagged := sessionCall_insertTag tci htype hcall
  rw [inputPkg_congr (htagged.trans hcall.symm) f.length]
  exact hok

theorem vlan_transparent_headFrame :
    ∃ m m', machine.run (new.init (ascii "10.0.0.2") 80) [headFrame] = some ([true], m) ∧
      m.inputPkg headFrame headFrame.length = .ok (true, m') ∧
      m.inputPkg (insertTag headFrame 5) (insertTag headFrame 5).length = .ok (true, m') := by
  have hrets : (machine.run (new.init (ascii "10.0.0.2") 80) [headFrame, headFrame]).map Prod.fst = some [true, true] := by decide +kernel
  obtain ⟨⟨rets, m'⟩, hrun, rfl⟩ := Option.map_eq_some_iff.mp hrets
  obtain ⟨ret, m, rets, hstep, hrest, he⟩ := Machine.run_cons_eq_some.mp hrun
  obtain ⟨ret', m₂, rets', hstep', hnil, rfl⟩ := Machine.run_cons_eq_some.mp hrest
  cases hnil
  cases he
  have hok : m.inputPkg headFrame headFrame.length = .ok (true, m') := machine_step_eq_some.mp hstep'
  exact ⟨m, m', Machine.run_cons_eq_some.mpr ⟨true, m, [], hstep, Machine.run_nil _ _, rfl⟩, hok,
    vlan_transparent m headFrame 5 true m' (by decide +kernel) hok⟩

end ParsePkg

end FrontServer
