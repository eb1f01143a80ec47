import FrontServer.Lemmas.HttpFlow

/-!
# What a flow's buffer is a piece of

A segment that finds no room is left out, and the ones behind it are appended as if it had not come (`gap_after_refusal`). The
buffer is a piece of the segments that had room: the last bytes of them, with nothing missing (`contents_suffix`).
-/

namespace FrontServer

namespace HttpBuf

/-- The buffer has room for a segment. -/
def HasRoom (h : HttpBuf) (s : Segment) : Prop := h.contents.length + s.len ≤ TcpBuf.capacity

instance (h : HttpBuf) (s : Segment) : Decidable (h.HasRoom s) := by unfold HasRoom; infer_instance

/-- The segments of a run from `h` that had room when they came, one behind the other. -/
def roomyBytes : HttpBuf → List Segment → Bytes
  | _, [] => []
  | h, s :: segs =>
    (if h.HasRoom s then s.bytes else []) ++
      match machine.step h s with
      | none => []
      | some (_, h') => roomyBytes h' segs

/-- One call leaves the end of what was there with the segment behind it, if it had room. -/
theorem contents_suffix_step {h h' : HttpBuf} {q : HttpFlow.Queue} {s : Segment} {r : HttpReply} (hq : h.Holds q)
    (hs : machine.step h s = some (r, h')) :
    (∃ q', h'.Holds q') ∧ h'.contents <:+ h.contents ++ (if h.HasRoom s then s.bytes else []) := by
  obtain ⟨q', hstep, hq'⟩ := simulates_flow.step_some hq hs
  refine ⟨⟨q', hq'⟩, ?_⟩
  have hroom : h.HasRoom s ↔ q.items.length + s.len ≤ TcpBuf.capacity := by
    rw [HasRoom, hq.contents_eq]
  rw [hq.contents_eq, hq'.contents_eq]
  rcases HttpFlow.step_cases hstep with ⟨-, hnil, -, rfl⟩ | ⟨hfull, -, rfl⟩ | ⟨-, -, hfit, hstore⟩
  · rw [hnil]
    exact List.nil_suffix
  · rw [if_neg (fun hr => absurd (hroom.mp hr) (not_le.mpr hfull)), List.append_nil]
  · rw [if_pos (hroom.mpr hfit)]
    rcases hstore with ⟨-, -, he⟩ | ⟨n, -, -, he⟩
    · rw [he]
    · rw [he]
      exact List.drop_suffix n _

/-- A run leaves the end of a text that ended in what was there, with the segments that had room behind it. -/
theorem contents_suffix_run {h h' : HttpBuf} {q : HttpFlow.Queue} {segs : List Segment} {replies : List HttpReply}
    {text : Bytes} (hq : h.Holds q) (ht : h.contents <:+ text) (hrun : machine.run h segs = some (replies, h')) :
    h'.contents <:+ text ++ roomyBytes h segs := by
  induction segs generalizing h q replies text with
  | nil =>
    cases hrun
    rw [roomyBytes, List.append_nil]
    exact ht
  | cons s segs ih =>
    obtain ⟨r, h₁, rs, hs, hr, -⟩ := Machine.run_cons_eq_some.mp hrun
    obtain ⟨⟨q₁, hq₁⟩, hsuf⟩ := contents_suffix_step hq hs
    have ht₁ : h₁.contents <:+ text ++ (if h.HasRoom s then s.bytes else []) := by
      refine hsuf.trans ?_
      obtain ⟨pre, rfl⟩ := ht
      exact ⟨pre, by rw [List.append_assoc]⟩
    have hend := ih hq₁ ht₁ hr
    rw [roomyBytes, hs]
    rwa [List.append_assoc] at hend

/-- When every segment finds room, all of them are the segments that had room. -/
theorem roomyBytes_of_room {h h' : HttpBuf} {segs : List Segment} {replies : List HttpReply}
    (hrun : machine.run h segs = some (replies, h'))
    (hroom : ∀ pre s post, segs = pre ++ s :: post → ∀ rs h₁, machine.run h pre = some (rs, h₁) → h₁.HasRoom s) :
    roomyBytes h segs = (segs.map Segment.bytes).flatten := by
  induction segs generalizing h replies with
  | nil => rfl
  | cons s segs ih =>
    obtain ⟨r, h₁, rs, hs, hr, -⟩ := Machine.run_cons_eq_some.mp hrun
    have htail : roomyBytes h₁ segs = (segs.map Segment.bytes).flatten := by
      refine ih hr fun pre s' post he rs' h₂ hr₂ => ?_
      exact hroom (s :: pre) s' post (by rw [he, List.cons_append]) (r :: rs') h₂
        (Machine.run_cons_eq_some.mpr ⟨r, h₁, rs', hs, hr₂, rfl⟩)
    rw [roomyBytes, hs, if_pos (hroom [] s segs rfl [] h rfl)]
    dsimp only
    rw [htail, List.map_cons, List.flatten_cons]

/-- At every point of every run the buffer is the end of the segments that had room when they came, one behind the other; when
every segment had room, it is the end of all segments offered. -/
theorem contents_suffix (client : Bytes) (input : Bool) (segs : List Segment) (replies : List HttpReply) (h : HttpBuf)
    (hrun : machine.run (new client input) segs = some (replies, h)) :
    h.contents <:+ roomyBytes (new client input) segs ∧
      ((∀ pre s post, segs = pre ++ s :: post →
          ∀ rs h₁, machine.run (new client input) pre = some (rs, h₁) → h₁.HasRoom s) →
        h.contents <:+ (segs.map Segment.bytes).flatten) := by
  have hnil : (new client input).contents <:+ [] := by
    rw [(new_holds_empty client input).contents_eq]
    exact List.suffix_refl []
  have hsuf := contents_suffix_run (new_holds_empty client input) hnil hrun
  rw [List.nil_append] at hsuf
  refine ⟨hsuf, fun hroom => ?_⟩
  rwa [← roomyBytes_of_room hrun hroom]

/-- The run of a head in two segments. -/
theorem contents_suffix_of_two_segments :
    ∃ replies h, machine.run (new [] true) [Segment.ofBytes (ascii "GET /\r\n"), Segment.ofBytes (ascii "\r\n")] =
        some (replies, h) ∧
      h.contents <:+ roomyBytes (new [] true) [Segment.ofBytes (ascii "GET /\r\n"), Segment.ofBytes (ascii "\r\n")] := by
  have hq : HttpFlow.machine.run BoundedFifo.empty
      [Segment.ofBytes (ascii "GET /\r\n"), Segment.ofBytes (ascii "\r\n")] =
      some ([{ ret := true, extracted := none }, { ret := true, extracted := none }], ⟨ascii "GET /\r\n\r\n", by decide⟩) := by
    rfl
  obtain ⟨h, hrun, -⟩ := simulates_flow.some_run (new_holds_empty [] true) hq
  exact ⟨_, h, hrun, (contents_suffix [] true _ _ h hrun).1⟩

/-! ## A gap -/

/-- A segment with a few bytes more than there is room for is refused, and the next one is appended. -/
theorem run_after_refusal {b : UInt8} (hp : b ≠ 80) (hg : b ≠ 71) (hh : b ≠ 72) {bs : Bytes} (hlen : (b :: bs).length = 8182) :
    ∃ replies h, machine.run (new [] true)
        [Segment.ofBytes (ascii "GET /\r\n\r\n"), Segment.ofBytes (b :: bs), Segment.ofBytes (ascii "B")] = some (replies, h) ∧
      h.contents = ascii "GET /\r\n\r\nB" := by
  have hfirst : HttpFlow.machine.step BoundedFifo.empty (Segment.ofBytes (ascii "GET /\r\n\r\n")) =
      some ({ ret := true, extracted := none }, ⟨ascii "GET /\r\n\r\n", by decide⟩) := by rfl
  have hrefused : HttpFlow.machine.step ⟨ascii "GET /\r\n\r\n", by decide⟩ (Segment.ofBytes (b :: bs)) =
      some ({ ret := false, extracted := none }, ⟨ascii "GET /\r\n\r\n", by decide⟩) := by
    refine HttpFlow.step_of_full (isHttpHeader_of_ne hp hg hh bs _) (fun h => by cases h) ?_
    change (8190 : Int) < (9 : Nat) + ((b :: bs).length : Nat)
    omega
  have hthird : HttpFlow.machine.step ⟨ascii "GET /\r\n\r\n", by decide⟩ (Segment.ofBytes (ascii "B")) =
      some ({ ret := true, extracted := none }, ⟨ascii "GET /\r\n\r\nB", by decide⟩) := by rfl
  have hlast := Machine.run_cons_eq_some.mpr ⟨_, _, _, hthird, Machine.run_nil _ _, rfl⟩
  have hrest := Machine.run_cons_eq_some.mpr ⟨_, _, _, hrefused, hlast, rfl⟩
  have hrun := Machine.run_cons_eq_some.mpr ⟨_, _, _, hfirst, hrest, rfl⟩
  obtain ⟨h, hr, hq⟩ := simulates_flow.some_run (new_holds_empty [] true) hrun
  exact ⟨_, h, hr, hq.contents_eq⟩

/-- The bytes on both sides of the gap do not stand together in what was offered. -/
theorem not_infix_of_gap {bs : Bytes} (h : ∀ b ∈ bs, b = 65) (hne : bs ≠ []) :
    ¬ascii "GET /\r\n\r\nB" <:+: ascii "GET /\r\n\r\n" ++ bs ++ ascii "B" := by
  rintro ⟨pre, suf, he⟩
  cases pre with
  | nil =>
    obtain ⟨b, bs, rfl⟩ := List.exists_cons_of_ne_nil hne
    have hb := h b (by simp)
    simp [ascii, hb] at he
  | cons c pre =>
    have htail : pre ++ ascii "GET /\r\n\r\nB" ++ suf = ascii "ET /\r\n\r\n" ++ bs ++ ascii "B" := congrArg List.tail he
    have hmem : (71 : UInt8) ∈ ascii "ET /\r\n\r\n" ++ bs ++ ascii "B" := by
      rw [← htail]
      simp [ascii]
    rcases List.mem_append.mp hmem with hmem | hmem
    · rcases List.mem_append.mp hmem with hmem | hmem
      · revert hmem
        decide
      · exact absurd (h 71 hmem) (by decide)
    · revert hmem
      decide

/-- A head of nine bytes is buffered, a segment of 8182 bytes is refused, and the byte behind it is appended to the head. -/
theorem gap_after_refusal :
    ∃ replies h, machine.run (new [] true)
        [Segment.ofBytes (ascii "GET /\r\n\r\n"), Segment.ofBytes (List.replicate 8182 65), Segment.ofBytes (ascii "B")] =
        some (replies, h) ∧
      ¬h.contents <:+: ascii "GET /\r\n\r\n" ++ List.replicate 8182 65 ++ ascii "B" := by
  have hlen : (65 :: List.replicate 8181 (65 : UInt8)).length = 8182 := by
    rw [List.length_cons, List.length_replicate]
  obtain ⟨replies, h, hrun, hc⟩ := run_after_refusal (by decide) (by decide) (by decide) hlen
  rw [← List.replicate_succ] at hrun
  refine ⟨replies, h, hrun, ?_⟩
  rw [hc]
  refine not_infix_of_gap (fun b hb => List.eq_of_mem_replicate hb) ?_
  rw [List.replicate_succ]
  exact List.cons_ne_nil _ _

end HttpBuf

end FrontServer
