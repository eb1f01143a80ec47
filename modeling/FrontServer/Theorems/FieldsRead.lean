import FrontServer.Theorems.Capture

/-!
# The fields that matter

`Reads` says which bytes of a frame `InputPkg` looks at. Captures that agree on these bytes are taken alike, with the same lines, the
same replies and the same sessions (`run_of_sameReads`). The others it does not look at: the hardware addresses, the rest of the tag, the
fragment and the checksum of the datagram, and of the segment the sequence number, the acknowledgement, the window, the checksum and the
options. So segments are put together in the order of the capture, and one that is sent twice is put in twice.
-/

namespace FrontServer

/-! ## Fields by their bytes -/

section Fields

variable {mem mem' : Bytes} {off : Nat}

theorem readAt_eq_of_getElem? (h : mem[off]? = mem'[off]?) : readAt mem off = readAt mem' off := by
  unfold readAt
  rw [Int.toNat_natCast, h]

theorem ntohsAt_eq_of_getElem? (h : ∀ i, off ≤ i → i < off + 2 → mem[i]? = mem'[i]?) : ntohsAt mem off = ntohsAt mem' off := by
  unfold ntohsAt
  rw [readAt_eq_of_getElem? (h off (by omega) (by omega)), readAt_eq_of_getElem? (h (off + 1) (by omega) (by omega))]

theorem ntohlAt_eq_of_getElem? (h : ∀ i, off ≤ i → i < off + 4 → mem[i]? = mem'[i]?) : ntohlAt mem off = ntohlAt mem' off := by
  have hhigh : ntohsAt mem off = ntohsAt mem' off := ntohsAt_eq_of_getElem? fun i hi hi' => h i hi (by omega)
  have hlow : ntohsAt mem (off + 2) = ntohsAt mem' (off + 2) := ntohsAt_eq_of_getElem? fun i hi hi' => h i (by omega) (by omega)
  unfold ntohlAt
  rw [hhigh, hlow]

end Fields

namespace CgiDump

/-- The bytes of a frame that `InputPkg` looks at: its type and the one in its tag; of an IPv4 frame the version, the header length and
the protocol; of one of TCP the total length, the addresses and ports, the data offset and flags, and all from the payload on. -/
def Reads (f : Bytes) (i : Nat) : Prop :=
  i = 12 ∨ i = 13 ∨ (Tagged f ∧ (i = 16 ∨ i = 17)) ∨
    (∃ ih, ParsePkg.ipHeader f = .ok (some ih) ∧
      (i = ih ∨ i = ih + 9 ∨ TcpAt f ih ∧ (ih + 2 ≤ i ∧ i < ih + 4 ∨ ih + 12 ≤ i ∧ i < ih + 24 ∨ ih + 32 ≤ i ∧ i < ih + 34))) ∨
      ∃ d, ParsePkg.decode f = .ok (some d) ∧ d.payload ≤ i

/-- The bytes in front of the payload that `InputPkg` does not look at, in a frame with a TCP header as long as its flags need. -/
theorem not_reads_iff {f : Bytes} {d : Decoded} (hd : ParsePkg.decode f = .ok (some d)) (hflags : d.th + 14 ≤ d.payload) {i : Nat}
    (hi : i < d.payload) :
    ¬Reads f i ↔ i < 12 ∨ (Tagged f ∧ (i = 14 ∨ i = 15)) ∨ i = d.ih + 1 ∨ d.ih + 4 ≤ i ∧ i < d.ih + 9 ∨
      d.ih + 10 ≤ i ∧ i < d.ih + 12 ∨ d.th + 4 ≤ i ∧ i < d.th + 12 ∨ d.th + 14 ≤ i := by
  obtain ⟨ih, hih, hat⟩ := ParsePkg.decode_eq_some.mp hd
  obtain ⟨htcp, hf, l, -, -, rfl⟩ := ParsePkg.decodeAt_eq_some.mp hat
  have hreads : Reads f i ↔ i = 12 ∨ i = 13 ∨ (Tagged f ∧ (i = 16 ∨ i = 17)) ∨ i = ih ∨ i = ih + 9 ∨ ih + 2 ≤ i ∧ i < ih + 4 ∨
      ih + 12 ≤ i ∧ i < ih + 24 ∨ ih + 32 ≤ i ∧ i < ih + 34 := by
    unfold Reads
    constructor
    · rintro (h | h | h | ⟨ih', hih', h⟩ | ⟨d', hd', h⟩)
      · exact Or.inl h
      · exact Or.inr (Or.inl h)
      · exact Or.inr (Or.inr (Or.inl h))
      · cases hih.symm.trans hih'
        rcases h with h | h | ⟨-, h⟩
        · exact Or.inr (Or.inr (Or.inr (Or.inl h)))
        · exact Or.inr (Or.inr (Or.inr (Or.inr (Or.inl h))))
        · exact Or.inr (Or.inr (Or.inr (Or.inr (Or.inr h))))
      · cases hd.symm.trans hd'
        omega
    · rintro (h | h | h | h | h | h)
      · exact Or.inl h
      · exact Or.inr (Or.inl h)
      · exact Or.inr (Or.inr (Or.inl h))
      · exact Or.inr (Or.inr (Or.inr (Or.inl ⟨ih, hih, Or.inl h⟩)))
      · exact Or.inr (Or.inr (Or.inr (Or.inl ⟨ih, hih, Or.inr (Or.inl h)⟩)))
      · exact Or.inr (Or.inr (Or.inr (Or.inl ⟨ih, hih, Or.inr (Or.inr ⟨htcp, h⟩)⟩)))
  rw [hreads]
  dsimp only at hi hflags ⊢
  unfold ipHdrLen at hi hflags ⊢
  rcases ParsePkg.ipHeader_eq_some.mp hih with ⟨htagged, -, rfl⟩ | ⟨htype, rfl⟩
  · have ht : Tagged f := htagged
    simp only [ht, true_and]
    unfold etherHdrLen vlanLen at *
    omega
  · have ht : ¬Tagged f := by
      intro htagged
      cases htype.symm.trans htagged
    simp only [ht, false_and, false_or]
    unfold etherHdrLen at *
    omega

/-- Two frames of one length that are the same where `InputPkg` looks. -/
structure SameReads (f f' : Bytes) : Prop where
  length : f.length = f'.length
  same : ∀ i, Reads f i → f[i]? = f'[i]?

namespace SameReads

variable {f f' : Bytes}

theorem etherLengthType_eq (h : SameReads f f') : EtherHeader.etherLengthType f 0 = EtherHeader.etherLengthType f' 0 :=
  ntohsAt_eq_of_getElem? fun i hi hi' => h.same i (by
    have hcases : i = 12 ∨ i = 13 := by omega
    exact hcases.imp id Or.inl)

theorem lengthType_eq (h : SameReads f f') (htagged : Tagged f) :
    VlanHeader.lengthType f etherHdrLen = VlanHeader.lengthType f' etherHdrLen :=
  ntohsAt_eq_of_getElem? fun i hi hi' => h.same i (by
    unfold etherHdrLen at hi hi'
    exact Or.inr (Or.inr (Or.inl ⟨htagged, by omega⟩)))

theorem ipHeaderLogged_eq (h : SameReads f f') : ParsePkg.ipHeaderLogged f = ParsePkg.ipHeaderLogged f' := by
  unfold ParsePkg.ipHeaderLogged
  rw [← h.etherLengthType_eq]
  by_cases htagged : Tagged f
  · rw [h.lengthType_eq htagged]
  · refine Logged.bind_congr_of_erase fun lengthType hok => ?_
    rw [Logged.erase_lift] at hok
    have hne : etherType8021Q ≠ lengthType := by
      rintro rfl
      exact htagged hok
    rw [if_neg hne, if_neg hne]

theorem decodeAtLogged_eq (h : SameReads f f') {ih : Nat} (hih : ParsePkg.ipHeader f = .ok (some ih)) :
    ParsePkg.decodeAtLogged f ih = ParsePkg.decodeAtLogged f' ih := by
  have hchecked : ∀ i, i = ih ∨ i = ih + 9 ∨ TcpAt f ih ∧ (ih + 2 ≤ i ∧ i < ih + 4 ∨ ih + 12 ≤ i ∧ i < ih + 24 ∨
      ih + 32 ≤ i ∧ i < ih + 34) → f[i]? = f'[i]? :=
    fun i hi => h.same i (Or.inr (Or.inr (Or.inr (Or.inl ⟨ih, hih, hi⟩))))
  unfold ParsePkg.decodeAtLogged
  rw [show IpHeader.ipVhl f' ih = IpHeader.ipVhl f ih from (readAt_eq_of_getElem? (hchecked ih (Or.inl rfl))).symm,
    show IpHeader.ipP f' ih = IpHeader.ipP f ih from (readAt_eq_of_getElem? (hchecked (ih + 9) (Or.inr (Or.inl rfl)))).symm]
  refine Logged.bind_congr_of_erase fun vhl hvhl => Logged.bind_congr_of_erase fun p hp => ?_
  rw [Logged.erase_lift] at hvhl hp
  by_cases htcp : IpHeader.isTcp vhl p = true
  · have hat : TcpAt f ih := ⟨vhl, p, hvhl, hp, htcp⟩
    have hflags : TcpHeader.hlenFlags f (ih + ipHdrLen) = TcpHeader.hlenFlags f' (ih + ipHdrLen) :=
      ntohsAt_eq_of_getElem? fun i hi hi' => hchecked i (Or.inr (Or.inr ⟨hat, by unfold ipHdrLen at hi hi'; omega⟩))
    have hlen : IpHeader.ipLen f ih = IpHeader.ipLen f' ih :=
      ntohsAt_eq_of_getElem? fun i hi hi' => hchecked i (Or.inr (Or.inr ⟨hat, by omega⟩))
    rw [if_pos htcp, if_pos htcp]
    dsimp only
    rw [hflags, hlen]
  · rw [if_neg htcp, if_neg htcp]

/-- What is read of a decoded frame, from the addresses to the payload. -/
theorem inputDecoded_eq (h : SameReads f f') {d : Decoded} (hd : ParsePkg.decode f = .ok (some d)) (s : CgiDump) :
    s.inputDecoded f d = s.inputDecoded f' d := by
  obtain ⟨ih, hih, hat⟩ := ParsePkg.decode_eq_some.mp hd
  obtain ⟨htcp, hf, l, -, -, rfl⟩ := ParsePkg.decodeAt_eq_some.mp hat
  have hfields : ∀ i, ih + 2 ≤ i ∧ i < ih + 4 ∨ ih + 12 ≤ i ∧ i < ih + 24 ∨ ih + 32 ≤ i ∧ i < ih + 34 → f[i]? = f'[i]? :=
    fun i hi => h.same i (Or.inr (Or.inr (Or.inr (Or.inl ⟨ih, hih, Or.inr (Or.inr ⟨htcp, hi⟩)⟩))))
  have hpayload : f.drop (ih + ipHdrLen + TcpHeader.tcpHl hf) = f'.drop (ih + ipHdrLen + TcpHeader.tcpHl hf) := by
    apply List.ext_getElem?
    intro i
    rw [List.getElem?_drop, List.getElem?_drop]
    exact h.same _ (Or.inr (Or.inr (Or.inr (Or.inr ⟨_, hd, Nat.le_add_right _ i⟩))))
  have hsrc : IpHeader.ipSrc f ih = IpHeader.ipSrc f' ih := ntohlAt_eq_of_getElem? fun i hi hi' => hfields i (by omega)
  have hdst : IpHeader.ipDst f ih = IpHeader.ipDst f' ih := ntohlAt_eq_of_getElem? fun i hi hi' => hfields i (by omega)
  have hportSrc : TcpHeader.portSrc f (ih + ipHdrLen) = TcpHeader.portSrc f' (ih + ipHdrLen) :=
    ntohsAt_eq_of_getElem? fun i hi hi' => hfields i (by unfold ipHdrLen at hi hi'; omega)
  have hportDst : TcpHeader.portDst f (ih + ipHdrLen) = TcpHeader.portDst f' (ih + ipHdrLen) :=
    ntohsAt_eq_of_getElem? fun i hi hi' => hfields i (by unfold ipHdrLen at hi hi'; omega)
  have hflags : TcpHeader.hlenFlags f (ih + ipHdrLen) = TcpHeader.hlenFlags f' (ih + ipHdrLen) :=
    ntohsAt_eq_of_getElem? fun i hi hi' => hfields i (by unfold ipHdrLen at hi hi'; omega)
  have haddr : ∀ m : ParsePkg, m.getClientAddr f ih (ih + ipHdrLen) = m.getClientAddr f' ih (ih + ipHdrLen) := by
    intro m
    unfold ParsePkg.getClientAddr
    rw [hsrc, hdst, hportSrc, hportDst]
  -- the hardware addresses are read, and only whether they were captured matters
  have hmacs : ∀ k : Writes PUnit, (liftM (readBytes f 0 12) >>= fun _ => k) = liftM (readBytes f' 0 12) >>= fun _ => k := by
    intro k
    unfold readBytes
    rw [← h.length]
    split
    · rfl
    · split
      · rfl
      · rfl
  have hprint : ParsePkg.printPkgInfo f ⟨ih, ih + ipHdrLen, ih + ipHdrLen + TcpHeader.tcpHl hf, payloadLen l hf⟩ =
      ParsePkg.printPkgInfo f' ⟨ih, ih + ipHdrLen, ih + ipHdrLen + TcpHeader.tcpHl hf, payloadLen l hf⟩ := by
    unfold ParsePkg.printPkgInfo
    dsimp only
    rw [hsrc, hdst, hportSrc, hportDst, hflags]
    exact hmacs _
  unfold inputDecoded
  dsimp only
  rw [hprint, hpayload]
  simp only [haddr]

end SameReads

/-- A frame with another byte in a place where `InputPkg` does not look. -/
theorem sameReads_set {f : Bytes} {i : Nat} (hi : ¬Reads f i) (b : UInt8) : SameReads f (f.set i b) where
  length := List.length_set.symm
  same j hj := by
    have hne : i ≠ j := by
      rintro rfl
      exact hi hj
    exact (List.getElem?_set_ne hne).symm

/-- A frame is taken as one that is the same where `InputPkg` looks. -/
theorem inputPkg_of_sameReads {f f' : Bytes} (h : SameReads f f') (s : CgiDump) (len len' : Int) :
    s.inputPkg f len = s.inputPkg f' len' := by
  unfold inputPkg
  rw [← h.ipHeaderLogged_eq]
  split
  · rfl
  · refine Logged.bind_congr_of_erase fun found hfound => ?_
    rw [ParsePkg.erase_ipHeaderLogged] at hfound
    cases found with
    | none => rfl
    | some ih =>
      dsimp only
      rw [← h.decodeAtLogged_eq hfound]
      refine Logged.bind_congr_of_erase fun decoded hdecoded => ?_
      rw [ParsePkg.erase_decodeAtLogged] at hdecoded
      cases decoded with
      | none => rfl
      | some d => exact h.inputDecoded_eq (ParsePkg.decode_eq_some.mpr ⟨ih, hfound, hdecoded⟩) s

/-- Two captures that are frame by frame the same where `InputPkg` looks are taken alike: both fault or both do not, and then every frame
gives the same reply and the same lines, and the sessions are the same in the end. -/
theorem run_of_sameReads {frames frames' : List Bytes} (h : List.Forall₂ SameReads frames frames') (s : CgiDump) :
    machine.run s frames = machine.run s frames' := by
  refine Machine.run_congr (fun s f f' hf => ?_) h s
  unfold machine
  dsimp only
  rw [inputPkg_of_sameReads hf s f.length f'.length]

/-- The request sent again, with another sequence number. -/
theorem run_of_sameReads_resent :
    machine.run (init (ascii "10.0.0.2") 80) [requestFrame, requestFrame] =
      machine.run (init (ascii "10.0.0.2") 80) [requestFrame, requestFrame.set 38 7] := by
  have hd : ParsePkg.decode requestFrame = .ok (some ⟨14, 34, 54, 25⟩) := by decide +kernel
  have hunread : ¬Reads requestFrame 38 := (not_reads_iff hd (by decide) (by decide)).mpr (by decide +kernel)
  have hsame : SameReads requestFrame requestFrame := ⟨rfl, fun _ _ => rfl⟩
  exact run_of_sameReads (.cons hsame (.cons (sameReads_set hunread 7) .nil)) _

end CgiDump

end FrontServer
