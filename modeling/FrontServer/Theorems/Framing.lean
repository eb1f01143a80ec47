import FrontServer.Lemmas.HttpFlow

/-!
# What is taken out of a flow

A message taken out is sound when it is the head up to the first CR LF CR LF and as many bytes behind it as the `Content-Length`
header of that head says. The code takes out sound messages from buffers whose head is `WellFramed` (`framing_sound`). It does not
look whether a blank line was found, whether the length is a number and not negative, or what the byte of an empty line is.
-/

namespace FrontServer

/-- CR LF CR LF. -/
def crlfCrlf : Bytes := [CR, LF, CR, LF]

/-- The complete lines of a text, without their line feeds. -/
def completeLines (d : Bytes) : List Bytes := (d.splitOn LF).dropLast

theorem completeLines_eq {d t : Bytes} {ls : List Bytes} (h : Lines LF d ls t) : completeLines d = ls := by
  rw [completeLines, h.splitOn_eq, List.dropLast_concat]

open HttpBuf HttpFlow

/-- The `Content-Length` header of a head: the value of the last line that ends in CR LF and is a header of that name. -/
def contentLengthOf (d : Bytes) : Option Bytes :=
  (((completeLines d).filter (fun l => l.getLast? == some CR)).filterMap (fun l => lineField contentLength l.dropLast)).getLast?

/-- The head at the front of the buffered bytes, as far as it is read: up to the end of the first CR LF CR LF among the first 4096
bytes, or these. -/
def headOf (q : Bytes) : Bytes := q.take ((endOfFirst crlfCrlf (q.take readBufSize)).getD readBufSize)

/-- The head at the front is one the code frames right: it is not just an empty line, no line of one byte behind CR LF is anything
but the empty line CR LF, the lines taken for a `Content-Length` header end in CR LF, and the last one's value is a decimal numeral
below `2 ^ 31`. -/
structure WellFramed (q : Bytes) : Prop where
  front : ¬crlfCrlf <+: q
  blank : ∀ x, [CR, LF, x, LF] <:+: headOf q → x = CR ∨ x = LF
  crlf : ∀ l ∈ completeLines (headOf q), lineField contentLength l.dropLast ≠ none → l.getLast? = some CR
  numeral : ∀ v, contentLengthOf (headOf q) = some v → IsNumeral v ∧ digitsValue v < 2 ^ 31

/-- When the lines taken for the header end in CR LF, the header is the field the code reads. -/
theorem contentLengthOf_eq {d t : Bytes} {ls : List Bytes} (h : Lines LF d ls t)
    (hcr : ∀ l ∈ ls, lineField contentLength l.dropLast ≠ none → l.getLast? = some CR) :
    contentLengthOf d = fieldOf contentLength ls := by
  rw [contentLengthOf, completeLines_eq h, fieldOf, List.filterMap_filter]
  congr 1
  refine List.filterMap_congr fun l hl => ?_
  by_cases hn : lineField contentLength l.dropLast = none
  · rw [hn]
    split
    · rfl
    · rfl
  · rw [if_pos (by simpa using hcr l hl hn)]

/-- A CR LF CR LF behind the front is a break. -/
theorem breakEnds_of_crlfCrlf {d : Bytes} {e : Nat} (hfront : ¬crlfCrlf <+: d) (h : crlfCrlf <:+ d.take e) : BreakEnds d e := by
  obtain ⟨b, hb⟩ := h
  refine ⟨b, CR, ?_, by decide, hb.symm⟩
  rintro rfl
  rw [List.nil_append] at hb
  exact hfront (hb ▸ List.take_prefix e d)

/-- The beginning of the bytes read is a beginning of the bytes buffered. -/
theorem take_take_readBufSize {q : Bytes} {e : Nat} (he : e ≤ readBufSize) : (q.take readBufSize).take e = q.take e := by
  rw [List.take_take, Nat.min_eq_left he]

theorem front_take {q : Bytes} (h : ¬crlfCrlf <+: q) (e : Nat) : ¬crlfCrlf <+: q.take e :=
  fun hp => h (hp.trans (List.take_prefix e q))

/-- Without a break nothing is taken out: the length read is not negative, and the head is said to end behind the last byte. -/
theorem not_extract_of_passes {q t : Bytes} {ls : List Bytes} {n : Nat} (h : Lines LF (q.take readBufSize) ls t)
    (hp : Passes [] ls) (hw : WellFramed q) :
    linesOutcome ls ((q.take readBufSize).length + 1) q.length ≠ .extract n := by
  intro hout
  obtain ⟨v, hv, hn, hle, hmax⟩ := linesOutcome_eq_extract.mp hout
  have hnone : endOfFirst crlfCrlf (q.take readBufSize) = none :=
    endOfFirst_eq_none.mpr fun e he hsuf =>
      not_breakEnds_of_passes h hp (List.prefix_refl _) he (breakEnds_of_crlfCrlf (front_take hw.front _) hsuf)
  have hhead : headOf q = q.take readBufSize := by
    rw [headOf, hnone, Option.getD_none]
  have hcr := hw.crlf
  rw [hhead, completeLines_eq h] at hcr
  obtain ⟨⟨-, hdig⟩, hlt⟩ := hw.numeral v (by rw [hhead, contentLengthOf_eq h hcr, hv])
  rw [cStr_of_digits hdig, atoi_of_digits hdig hlt, List.length_take] at hn
  omega

/-- At a break the head ends with the first CR LF CR LF. -/
theorem endOfFirst_of_stopsAt {q t l : Bytes} {ls ls' : List Bytes} (h : Lines LF (q.take readBufSize) (ls ++ l :: ls') t)
    (hp : Passes [] ls) (hs : StopsAt (joinLines LF ls) l) (hw : WellFramed q) :
    endOfFirst crlfCrlf q = some ((joinLines LF ls).length + 2) ∧
      headOf q = q.take ((joinLines LF ls).length + 2) ∧
      Lines LF (q.take ((joinLines LF ls).length + 2)) (ls ++ [[CR]]) [] := by
  obtain ⟨hlen, hend⟩ := take_of_stopsAt h hs.1
  obtain ⟨b, x, -, hx, hbreak⟩ := breakEnds_of_stopsAt h hs
  have hmax : (joinLines LF ls).length + 2 ≤ readBufSize := hlen.trans (List.length_take_le _ _)
  have htake := take_take_readBufSize (q := q) hmax
  -- nothing in front of the line feed of the empty line
  have hbefore : ∀ e < (joinLines LF ls).length + 2, ¬crlfCrlf <:+ (q.take readBufSize).take e := fun e he hsuf =>
    not_breakEnds_before_stop h hp hs he (breakEnds_of_crlfCrlf (front_take hw.front _) hsuf)
  -- the line is in the head, so that it is the empty line
  have hxcr : x = CR := by
    have hle : (joinLines LF ls).length + 2 ≤ (endOfFirst crlfCrlf (q.take readBufSize)).getD readBufSize := by
      cases hf : endOfFirst crlfCrlf (q.take readBufSize) with
      | none => exact hmax
      | some e =>
        by_contra hlt
        exact hbefore e (not_le.mp hlt) (endOfFirst_eq_some.mp hf).2.1
    have hin : [CR, LF, x, LF] <:+: (q.take readBufSize).take ((joinLines LF ls).length + 2) := by
      rw [hbreak]
      exact (List.suffix_append b _).isInfix
    have hpre : (q.take readBufSize).take ((joinLines LF ls).length + 2) <+: headOf q := by
      rw [htake]
      exact List.take_prefix_take_left hle
    exact (hw.blank x (hin.trans hpre.isInfix)).resolve_right hx
  subst hxcr
  have hfirst : endOfFirst crlfCrlf (q.take readBufSize) = some ((joinLines LF ls).length + 2) :=
    endOfFirst_eq_some.mpr ⟨hlen, ⟨b, hbreak.symm⟩, hbefore⟩
  have hl : l = [CR] := by
    obtain ⟨y, rfl⟩ := List.length_eq_one_iff.mp hs.1
    have heq : joinLines LF ls ++ [y, LF] = (b ++ [CR, LF]) ++ [CR, LF] := by
      rw [List.append_assoc]
      exact hend.symm.trans hbreak
    exact congrArg (List.take 1) (List.append_inj' heq rfl).2
  subst hl
  refine ⟨endOfFirst_eq_some.mpr ⟨hlen.trans (List.length_take_le' _ _), ⟨b, ?_⟩, fun e he => ?_⟩, ?_, ?_, ?_, by simp⟩
  · rw [← htake, hbreak]
    rfl
  · rw [← take_take_readBufSize (he.le.trans hmax)]
    exact hbefore e he
  · rw [headOf, hfirst, Option.getD_some]
  · rw [← htake, hend, joinLines_append, joinLines_cons, joinLines_nil]
    simp
  · intro l' hl'
    rcases List.mem_append.mp hl' with hl' | hl'
    · exact h.line l' (by simp [hl'])
    · rw [List.mem_singleton.mp hl']
      decide

/-- What is taken out of a buffer with a well-framed head is that head, with its first CR LF CR LF, and as many bytes as its
`Content-Length` header says. -/
theorem parseOutcome_sound {q : Bytes} {n : Nat} (h : parseOutcome q = .extract n) (hw : WellFramed q) :
    ∃ e v, endOfFirst crlfCrlf q = some e ∧ contentLengthOf (q.take e) = some v ∧ IsNumeral v ∧ n = e + digitsValue v := by
  have hq : q ≠ [] := by
    rintro rfl
    cases h
  have hf : parseOutcome q ≠ .fault := by
    rw [h]
    simp
  rcases parseOutcome_cases hq hf with ⟨ls, t, hl, hp, he⟩ | ⟨ls, l, ls', t, hl, hp, hs, he⟩
  · exact absurd (he.symm.trans h) (not_extract_of_passes hl hp hw)
  · obtain ⟨hfirst, hhead, hlines⟩ := endOfFirst_of_stopsAt hl hp hs hw
    obtain ⟨v, hv, hn, -, -⟩ := linesOutcome_eq_extract.mp (he.symm.trans h)
    have hcr := hw.crlf
    rw [hhead, completeLines_eq hlines] at hcr
    have hfield : fieldOf contentLength (ls ++ [[CR]]) = fieldOf contentLength ls := by
      unfold fieldOf
      rw [List.filterMap_append]
      have hnil : [[CR]].filterMap (fun l => lineField contentLength l.dropLast) = [] := by decide
      rw [hnil, List.append_nil]
    have hlen : contentLengthOf (q.take ((joinLines LF ls).length + 2)) = some v := by
      rw [contentLengthOf_eq hlines hcr, hfield, hv]
    obtain ⟨hnum, hlt⟩ := hw.numeral v (by rw [hhead, hlen])
    refine ⟨_, v, hfirst, hlen, hnum, ?_⟩
    rw [cStr_of_digits hnum.2, atoi_of_digits hnum.2 hlt] at hn
    omega

namespace HttpBuf

/-- In every run, a call that takes bytes out of a buffer whose head is well framed takes out the head up to the first CR LF CR LF
and as many bytes behind it as the `Content-Length` header of this head says, and leaves the others. -/
theorem framing_sound (client : Bytes) (input : Bool) (segs : List Segment) (replies : List HttpReply) (h h' : HttpBuf)
    (s : Segment) (r : HttpReply) (taken : Bytes) (hrun : machine.run (new client input) segs = some (replies, h))
    (hstep : machine.step h s = some (r, h')) (htaken : r.extracted = some taken) (hw : WellFramed (h.contents ++ s.bytes)) :
    ∃ e v, endOfFirst crlfCrlf (h.contents ++ s.bytes) = some e ∧
      contentLengthOf ((h.contents ++ s.bytes).take e) = some v ∧ IsNumeral v ∧
      e + digitsValue v ≤ (h.contents ++ s.bytes).length ∧
      taken = (h.contents ++ s.bytes).take (e + digitsValue v) ∧
      h'.contents = (h.contents ++ s.bytes).drop (e + digitsValue v) := by
  obtain ⟨q, -, hq⟩ := run_holds hrun
  obtain ⟨q', hs, hq'⟩ := simulates_flow.step_some hq hstep
  rw [hq.contents_eq] at hw ⊢
  rw [hq'.contents_eq]
  rcases step_cases hs with ⟨-, -, rfl, -⟩ | ⟨-, rfl, -⟩ | ⟨-, -, -, ⟨-, rfl, -⟩ | ⟨n, hn, rfl, hitems⟩⟩
  · cases htaken
  · cases htaken
  · cases htaken
  · obtain ⟨e, v, he, hv, hnum, rfl⟩ := parseOutcome_sound hn hw
    cases htaken
    exact ⟨e, v, he, hv, hnum, (le_of_extract hn).1, rfl, hitems⟩

/-- A whole message of 25 bytes, taken out of a fresh buffer. -/
theorem framing_sound_of_empty_get :
    ∃ r h', machine.step (new [] true) (Segment.ofBytes (ascii "GET\r\nContent-Length:0\r\n\r\n")) = some (r, h') ∧
      ∃ e v, endOfFirst crlfCrlf (ascii "GET\r\nContent-Length:0\r\n\r\n") = some e ∧
        contentLengthOf ((ascii "GET\r\nContent-Length:0\r\n\r\n").take e) = some v ∧ IsNumeral v ∧
        e + digitsValue v ≤ (ascii "GET\r\nContent-Length:0\r\n\r\n").length ∧
        ascii "GET\r\nContent-Length:0\r\n\r\n" = (ascii "GET\r\nContent-Length:0\r\n\r\n").take (e + digitsValue v) ∧
        h'.contents = (ascii "GET\r\nContent-Length:0\r\n\r\n").drop (e + digitsValue v) := by
  have hs : HttpFlow.machine.step BoundedFifo.empty (Segment.ofBytes (ascii "GET\r\nContent-Length:0\r\n\r\n")) =
      some ({ ret := true, extracted := some (ascii "GET\r\nContent-Length:0\r\n\r\n") }, BoundedFifo.empty) := by rfl
  obtain ⟨h', hstep, -⟩ := simulates_flow.some_step (new_holds_empty [] true) hs
  have hc : (new [] true).contents ++ (Segment.ofBytes (ascii "GET\r\nContent-Length:0\r\n\r\n")).bytes =
      ascii "GET\r\nContent-Length:0\r\n\r\n" := by
    rw [(new_holds_empty [] true).contents_eq, Segment.bytes_ofBytes]
    rfl
  have hw : WellFramed (ascii "GET\r\nContent-Length:0\r\n\r\n") := by
    refine ⟨by decide, by decide +kernel, by decide +kernel, fun v hv => ?_⟩
    have hlen : contentLengthOf (headOf (ascii "GET\r\nContent-Length:0\r\n\r\n")) = some (ascii "0") := by decide +kernel
    rw [hlen] at hv
    cases hv
    decide +kernel
  have hsound := framing_sound [] true [] [] (new [] true) h' _ _ _ rfl hstep rfl (by rw [hc]; exact hw)
  rw [hc] at hsound
  exact ⟨_, h', hstep, hsound⟩

/-- With a negative length all bytes there are taken out, without any blank line. -/
theorem taken_without_blank_line :
    ∃ h', machine.step (new [] true) (Segment.ofBytes (ascii "GET\r\nContent-Length:-1\r\n")) =
        some ({ ret := true, extracted := some (ascii "GET\r\nContent-Length:-1\r\n") }, h') ∧
      endOfFirst crlfCrlf (ascii "GET\r\nContent-Length:-1\r\n") = none := by
  have hs : HttpFlow.machine.step BoundedFifo.empty (Segment.ofBytes (ascii "GET\r\nContent-Length:-1\r\n")) =
      some ({ ret := true, extracted := some (ascii "GET\r\nContent-Length:-1\r\n") }, BoundedFifo.empty) := by rfl
  obtain ⟨h', hstep, -⟩ := simulates_flow.some_step (new_holds_empty [] true) hs
  exact ⟨h', hstep, by decide⟩

end HttpBuf

end FrontServer
