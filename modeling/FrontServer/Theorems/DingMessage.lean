import FrontServer.DingTalk

/-!
# The message of a stream

The put area ends two bytes in front of the end of the array, so there is room for a terminator behind it. But nothing writes one: the
message ends where the array, behind what was written, happens to hold its first zero.
-/

namespace FrontServer

/-- The end of the put area. -/
def dingTalkRoom : Nat := dingTalkBuffLength - 2

/-- The characters that an output writes, if there is room. -/
def Output.text : Output → Bytes
  | .write s => s
  | .flush => []
  | .endl => [10]

namespace DingTalk

/-- The stream after `text` was written to it, where the array was `mBuff`: as much of the text as there is room for, and the rest of the
array as it was. -/
structure Holds (dingTalkToken : Bytes) (mBuff : CArray dingTalkBuffLength) (text : Bytes) (d : DingTalk) : Prop where
  token : d.mStreambuf.mDingTalkToken = dingTalkToken
  bytes : d.mStreambuf.buf.bytes = text.take dingTalkRoom ++ mBuff.bytes.drop (min text.length dingTalkRoom)
  pptr : d.mStreambuf.pptr = min text.length dingTalkRoom
  epptr : d.mStreambuf.epptr = dingTalkRoom
  failed : d.good = false → dingTalkRoom ≤ text.length

variable {dingTalkToken : Bytes} {mBuff : CArray dingTalkBuffLength} {text : Bytes} {d : DingTalk}

theorem holds_new (dingTalkToken : Bytes) (mBuff : CArray dingTalkBuffLength) : Holds dingTalkToken mBuff [] (new dingTalkToken mBuff) :=
  ⟨rfl, rfl, rfl, rfl, nofun⟩

/-- Characters are put behind the text, as far as there is room; a stream that failed has none left. -/
theorem Holds.put (h : Holds dingTalkToken mBuff text d) (s : Bytes) :
    ∃ d', d.put s = .ok d' ∧ Holds dingTalkToken mBuff (text ++ s) d' := by
  obtain ⟨htoken, hbytes, hpptr, hepptr, hfailed⟩ := h
  have hroom : dingTalkRoom < dingTalkBuffLength := by decide
  unfold DingTalk.put
  cases hgood : d.good with
  | false =>
    have hfull := hfailed hgood
    have htake : (text ++ s).take dingTalkRoom = text.take dingTalkRoom := List.take_append_of_le_length hfull
    have hmin : min (text ++ s).length dingTalkRoom = min text.length dingTalkRoom := by
      rw [List.length_append]
      omega
    refine ⟨d, rfl, htoken, ?_, ?_, hepptr, fun _ => ?_⟩
    · rw [htake, hmin, hbytes]
    · rw [hmin, hpptr]
    · rw [List.length_append]
      omega
  | true =>
    have hspace : d.mStreambuf.epptr - d.mStreambuf.pptr = dingTalkRoom - text.length := by
      rw [hepptr, hpptr]
      omega
    generalize hn : min s.length (d.mStreambuf.epptr - d.mStreambuf.pptr) = n
    have hlen : (s.take n).length = n := by
      rw [List.length_take]
      omega
    have hfits : (d.mStreambuf.pptr : Int).toNat + (s.take n).length ≤ dingTalkBuffLength := by omega
    obtain ⟨buf, hbuf⟩ := d.mStreambuf.buf.exists_write (s.take n) (Int.natCast_nonneg _) hfits
    obtain ⟨-, -, hbuf'⟩ := CArray.write_eq_ok hbuf
    rw [Int.toNat_natCast, hlen, hbytes, hpptr] at hbuf'
    have hput : d.mStreambuf.sputn s =
        .ok (n, { d.mStreambuf with buf := buf, pptr := d.mStreambuf.pptr + n }) := by
      rw [DingStreamBuf.sputn]
      dsimp only
      rw [hn, hbuf]
      rfl
    have hmin : min (text ++ s).length dingTalkRoom = min text.length dingTalkRoom + n := by
      rw [List.length_append]
      omega
    rw [if_pos rfl, hput, ok_bind]
    refine ⟨_, rfl, htoken, ?_, ?_, hepptr, fun hfull => ?_⟩
    · dsimp only
      have hfront : (text.take dingTalkRoom).length = min text.length dingTalkRoom := by
        rw [List.length_take, Nat.min_comm]
      have htake : s.take n = s.take (dingTalkRoom - text.length) := by
        rw [← hn, hspace, Nat.min_comm, ← List.take_eq_take_min]
      rw [hbuf', hmin, List.take_left' hfront, htake, ← List.take_append, ← hfront, List.drop_length_add_append, List.drop_drop]
    · rw [hmin, ← hpptr]
    · have hne := of_decide_eq_false hfull
      rw [List.length_append]
      omega

theorem Holds.flush (h : Holds dingTalkToken mBuff text d) : Holds dingTalkToken mBuff text d.flush := by
  refine ⟨h.token, h.bytes, h.pptr, h.epptr, fun hbad => h.failed ?_⟩
  have hgood : d.flush.good = d.good := Bool.and_true d.good
  rw [← hgood, hbad]

/-- One output. -/
theorem Holds.output (h : Holds dingTalkToken mBuff text d) (out : Output) :
    ∃ d', d.output out = .ok d' ∧ Holds dingTalkToken mBuff (text ++ out.text) d' := by
  cases out with
  | write s => exact h.put s
  | flush =>
    rw [Output.text, List.append_nil]
    exact ⟨d.flush, rfl, h.flush⟩
  | endl =>
    obtain ⟨d', hput, hd'⟩ := h.put [10]
    refine ⟨d'.flush, ?_, hd'.flush⟩
    rw [DingTalk.output, hput]
    rfl

/-- All outputs. -/
theorem Holds.outputs (h : Holds dingTalkToken mBuff text d) (outs : List Output) :
    ∃ d', outs.foldlM DingTalk.output d = .ok d' ∧
      Holds dingTalkToken mBuff (text ++ outs.flatMap Output.text) d' := by
  induction outs generalizing text d with
  | nil =>
    rw [List.flatMap_nil, List.append_nil]
    exact ⟨d, rfl, h⟩
  | cons out outs ih =>
    obtain ⟨d₁, hout, h₁⟩ := h.output out
    obtain ⟨d₂, houts, h₂⟩ := ih h₁
    rw [List.append_assoc] at h₂
    refine ⟨d₂, ?_, h₂⟩
    rw [List.foldlM_cons, hout, ok_bind, houts]

/-- The message is the C string at the start of the array that the outputs left. -/
theorem run_eq (dingTalkToken : Bytes) (mBuff : CArray dingTalkBuffLength) (outs : List Output) :
    run dingTalkToken mBuff outs =
      (stringOf ((outs.flatMap Output.text).take dingTalkRoom ++
        mBuff.bytes.drop (min (outs.flatMap Output.text).length dingTalkRoom))).map fun msg => { token := dingTalkToken, msg := msg } := by
  obtain ⟨d, houts, htoken, hbytes, -, hepptr, -⟩ := (holds_new dingTalkToken mBuff).outputs outs
  rw [List.nil_append] at hbytes
  have hfits : (0 : Int).toNat + (List.replicate (d.mStreambuf.epptr + 2) (0 : UInt8)).length ≤ dingTalkBuffLength := by
    rw [List.length_replicate, hepptr]
    decide
  obtain ⟨buf, hbuf⟩ := d.mStreambuf.buf.exists_write (List.replicate (d.mStreambuf.epptr + 2) 0) (Int.le_refl 0) hfits
  rw [← hbytes, run, houts, ok_bind, DingStreamBuf.destruct]
  dsimp only
  rw [hbuf, htoken]
  cases stringOf d.mStreambuf.buf.bytes with
  | error e => rfl
  | ok msg => rfl

/-- The message is what was written exactly when the array held a zero behind what was written. -/
theorem run_eq_written_iff (dingTalkToken : Bytes) (mBuff : CArray dingTalkBuffLength) {outs : List Output}
    (hnul : ∀ s, .write s ∈ outs → 0 ∉ s) :
    run dingTalkToken mBuff outs = .ok { token := dingTalkToken, msg := (outs.flatMap Output.text).take dingTalkRoom } ↔
      mBuff.get (min (outs.flatMap Output.text).length dingTalkRoom) = 0 := by
  have hwritten : 0 ∉ outs.flatMap Output.text := by
    intro h
    obtain ⟨out, hmem, hzero⟩ := List.mem_flatMap.mp h
    cases out with
    | write s => exact hnul s hmem hzero
    | flush => cases hzero
    | endl => exact absurd (List.mem_singleton.mp hzero) (by decide)
  have htext : 0 ∉ (outs.flatMap Output.text).take dingTalkRoom := fun h => hwritten (List.mem_of_mem_take h)
  rw [run_eq]
  generalize hp : min (outs.flatMap Output.text).length dingTalkRoom = p
  have hlt : p < mBuff.bytes.length := by
    have hroom : dingTalkRoom < dingTalkBuffLength := by decide
    rw [mBuff.size_eq]
    omega
  have hget : mBuff.get p = mBuff.bytes[p] := List.getD_eq_getElem _ _ hlt
  rw [hget, ← stringOf_eq_iff htext mBuff.bytes[p] (mBuff.bytes.drop (p + 1)), ← List.drop_eq_getElem_cons hlt]
  cases stringOf ((outs.flatMap Output.text).take dingTalkRoom ++ mBuff.bytes.drop p) with
  | error e => exact iff_of_false nofun nofun
  | ok msg => simp [Except.map]

/-- The message is what was written, cut to the room there is, and made without a read behind the array, exactly when the array held a
zero at the first place that was not written. -/
theorem message_eq_written_iff (dingTalkToken : Bytes) (mBuff : CArray dingTalkBuffLength) (outs : List Output)
    (hnul : ∀ s, .write s ∈ outs → 0 ∉ s) :
    run dingTalkToken mBuff outs = .ok { token := dingTalkToken, msg := (outs.flatMap Output.text).take 4094 } ↔
      mBuff.get (min (outs.flatMap Output.text).length 4094) = 0 :=
  run_eq_written_iff dingTalkToken mBuff hnul

/-- An array that holds `xx` at first. -/
def usedBuff : CArray dingTalkBuffLength := ⟨120 :: 120 :: List.replicate 4094 0, by
  rw [List.length_cons, List.length_cons, List.length_replicate]
  rfl⟩

/-- There the message of `a` is `ax`. -/
theorem message_with_rest :
    ¬∀ (dingTalkToken : Bytes) (mBuff : CArray dingTalkBuffLength) (outs : List Output), (∀ s, .write s ∈ outs → 0 ∉ s) →
        run dingTalkToken mBuff outs = .ok { token := dingTalkToken, msg := (outs.flatMap Output.text).take 4094 } := by
  intro h
  have hrun := h [] usedBuff [.write (ascii "a")] (by simp; decide)
  rw [run_eq] at hrun
  revert hrun
  decide +kernel

theorem message_eq_written_iff_zeros :
    run [] (CArray.zeros dingTalkBuffLength) [.write [97], .endl] =
        .ok { token := [], msg := ([Output.write [97], .endl].flatMap Output.text).take 4094 } ↔
      (CArray.zeros dingTalkBuffLength).get (min ([Output.write [97], .endl].flatMap Output.text).length 4094) = 0 :=
  message_eq_written_iff [] (CArray.zeros dingTalkBuffLength) [.write [97], .endl] (by simp)

end DingTalk

end FrontServer
