import FrontServer.Lemmas.UnfinishedHead

/-!
# When a flow moves again

Further segments can make the code take bytes out of a buffer exactly when what stands at its front is `Recoverable`
(`recoverable_iff`). A complete head without a `Content-Length` header is not: it is read again at every call and stays for good
(`get_without_length_stays`).
-/

namespace FrontServer

open HttpBuf HttpFlow

/-- A head of these lines that ends at `e` declares a length, and is the head of a message of at least one byte that fits in the code's
array. -/
def Releasable (ls : List Bytes) (e : Nat) : Prop :=
  ∃ value, fieldOf contentLength ls = some value ∧ 1 ≤ atoi (cStr value) + e ∧ atoi (cStr value) + e ≤ readBufSize

/-- What stands at the front does not block the flow: nothing, or a head without a fault, such that
- when its end is there or no byte more will be read, it is `Releasable`,
- otherwise it is `Unfinished`, with the line behind its lines. -/
def Recoverable (q : Bytes) : Prop :=
  q = [] ∨ ∃ ls e, HeadEnds (q.take readBufSize) ls e ∧
    if e ≤ (q.take readBufSize).length ∨ readBufSize ≤ q.length then Releasable ls e
    else Unfinished q.length ls (q.drop (joinLines LF ls).length)

/-! ## What is taken out had a recoverable front -/

/-- A head that became the head of a message, in the room that was left, was unfinished. -/
theorem unfinished_of_headEnds {q x t value : Bytes} {ls ls' : List Bytes} {e : Nat} (hl : Lines LF q ls' t) (hpass : Passes [] ls')
    (hends : HeadEnds (q ++ x) ls e) (hf : fieldOf contentLength ls = some value) (hone : 1 ≤ atoi (cStr value) + e)
    (hlong : atoi (cStr value) + e ≤ (q ++ x).length) (hlen : (q ++ x).length ≤ readBufSize)
    (h : ls = ls' ∧ (e = (q ++ x).length + 1 ∨ ∃ y, StopsAt (joinLines LF ls') (t ++ y)) ∨ ∃ y m, ls = ls' ++ (t ++ y) :: m) :
    Unfinished q.length ls' t := by
  have hle := hends.le
  have hlines := hends.length_le
  obtain ⟨hpasses, hend⟩ := hends.cases
  have hq : q.length = (joinLines LF ls').length + t.length := by rw [hl.eq, List.length_append]
  rcases h with ⟨rfl, hstop⟩ | ⟨y, m, rfl⟩
  · refine Unfinished.declared hf ?_
    unfold LeavesRoom
    split
    · exact ⟨by omega, by rw [List.length_append] at hlen; omega⟩
    · rcases hend with hwhole | ⟨hblank, -⟩
      · omega
      · rcases hstop with hwhole | ⟨y, hstop⟩
        · omega
        · have hty := hstop.1
          rw [List.length_append] at hty
          unfold blankBytes
          split
          · rename_i hs
            have := hs.1
            omega
          · rename_i hs
            have ht : t = [] := by
              by_contra hne
              have hpos := List.length_pos_of_ne_nil hne
              have hy : y = [] := List.length_eq_zero_iff.mp (by omega)
              rw [hy, List.append_nil] at hstop
              exact hs hstop
            rw [if_pos ⟨ht, rfl, hstop.2⟩]
            rw [ht, List.length_nil] at hq
            omega
  · refine Unfinished.of_lines hq hpasses hf ?_ ?_
    · unfold LeavesRoom
      split
      · exact ⟨by omega, by omega⟩
      · omega
    · intro hpos
      rcases hend with hwhole | ⟨-, hb⟩
      · omega
      · exact hb

/-- Bytes that, with more behind them, have a message taken out are recoverable. -/
theorem recoverable_of_extract {q y : Bytes} {n : Nat} (hn : 1 ≤ n) (h : parseOutcome (q ++ y) = .extract n) : Recoverable q := by
  obtain ⟨ls, e, value, hends, hf, hsum, hle, hmax⟩ := parseOutcome_eq_extract.mp h
  rw [take_append_front] at hends
  by_cases hfull : readBufSize ≤ q.length
  · -- the bytes behind are not read
    rw [Nat.sub_eq_zero_of_le hfull, List.take_zero, List.append_nil] at hends
    refine Or.inr ⟨ls, e, hends, ?_⟩
    rw [if_pos (Or.inr hfull)]
    exact ⟨value, hf, by omega, by omega⟩
  · obtain ⟨ls', t, hl⟩ := exists_lines LF (q.take readBufSize)
    rcases hends.of_append hl with ⟨hsame, hstop⟩ | ⟨hpass, hmore⟩
    · refine Or.inr ⟨ls, e, hsame, ?_⟩
      rw [if_pos (Or.inl hstop)]
      exact ⟨value, hf, by omega, by omega⟩
    · refine Or.inr ⟨ls', _, .whole hl hpass, ?_⟩
      rw [if_neg (by omega)]
      have hshort : q.take readBufSize = q := List.take_of_length_le (by omega)
      have htake := List.length_take_le (readBufSize - q.length) y
      have hread : (q ++ y.take (readBufSize - q.length)).length = min readBufSize (q ++ y).length := by
        rw [List.length_append, List.length_append, List.length_take]
        omega
      rw [hshort] at hl hends hmore
      have htail : q.drop (joinLines LF ls').length = t := by
        rw [hl.eq, List.drop_left]
      rw [htail]
      exact unfinished_of_headEnds hl hpass hends hf (by omega) (by rw [hread]; omega) (by rw [hread]; omega) hmore

/-- Some bytes are taken out in a run. -/
def TakesOut (replies : List HttpReply) : Prop := ∃ r ∈ replies, ∃ taken, r.extracted = some taken ∧ taken ≠ []

/-- A run of the queue that takes bytes out does so from the bytes held with more behind them. -/
theorem exists_extract_of_run {q q' : Queue} {segs : List Segment} {replies : List HttpReply} (hq : q.items ≠ [])
    (hrun : machine.run q segs = some (replies, q')) (ht : TakesOut replies) :
    ∃ y n, 1 ≤ n ∧ parseOutcome (q.items ++ y) = .extract n := by
  induction segs generalizing q replies with
  | nil =>
    cases hrun
    obtain ⟨r, hr, -⟩ := ht
    simp at hr
  | cons s segs ih =>
    obtain ⟨r, q₁, rs, hs, hr, rfl⟩ := Machine.run_cons_eq_some.mp hrun
    obtain ⟨r', hr', taken, htaken, hne⟩ := ht
    have hlater : r'.extracted = some taken → r' ∈ rs → TakesOut rs := fun h hm => ⟨r', hm, taken, h, hne⟩
    have happend : q.items ++ s.bytes ≠ [] := fun he => hq (List.append_eq_nil_iff.mp he).1
    rcases step_cases hs with ⟨-, hnil, -, -⟩ | ⟨-, rfl, rfl⟩ | ⟨-, -, -, ⟨-, rfl, hitems⟩ | ⟨n, hn, rfl, hitems⟩⟩
    · exact absurd hnil hq
    · rcases List.mem_cons.mp hr' with rfl | hm
      · cases htaken
      · exact ih hq hr (hlater htaken hm)
    · rcases List.mem_cons.mp hr' with rfl | hm
      · cases htaken
      · obtain ⟨y, n, h₁, hy⟩ := ih (by rw [hitems]; exact happend) hr (hlater htaken hm)
        rw [hitems, List.append_assoc] at hy
        exact ⟨s.bytes ++ y, n, h₁, hy⟩
    · by_cases h₁ : 1 ≤ n
      · exact ⟨s.bytes, n, h₁, hn⟩
      · -- a message of no bytes leaves everything in place
        have hn0 : n = 0 := by omega
        subst hn0
        rw [List.drop_zero] at hitems
        rcases List.mem_cons.mp hr' with rfl | hm
        · cases htaken
          exact absurd rfl hne
        · obtain ⟨y, n, h₁, hy⟩ := ih (by rw [hitems]; exact happend) hr (hlater htaken hm)
          rw [hitems, List.append_assoc] at hy
          exact ⟨s.bytes ++ y, n, h₁, hy⟩

/-! ## A recoverable front can be taken out -/

/-- A segment that does not come first has its bytes put behind those held; four zero bytes behind it in memory keep the keyword
comparison inside. -/
theorem exists_step_of_extract {q : Queue} {y : Bytes} {n : Nat} (hq : q.items ≠ [])
    (hfit : q.items.length + y.length ≤ TcpBuf.capacity) (h : parseOutcome (q.items ++ y) = .extract n) :
    ∃ q', machine.step q { data := y ++ [0, 0, 0, 0], len := y.length } =
      some ({ ret := true, extracted := some ((q.items ++ y).take n) }, q') := by
  have hfour : 4 ≤ (y ++ [0, 0, 0, 0]).length := by
    rw [List.length_append]
    exact Nat.le_add_left _ _
  obtain ⟨isHttp, hhttp⟩ := exists_isHttpHeader hfour y.length
  have hbytes : Segment.bytes { data := y ++ [0, 0, 0, 0], len := y.length } = y := by
    rw [Segment.bytes, Int.toNat_natCast, List.take_left]
  have hlen : ((y.length : Nat) : Int) ≤ ((y ++ [0, 0, 0, 0]).length : Nat) := by
    rw [List.length_append]
    omega
  obtain ⟨q₁, hq₁, hstep⟩ := step_of_fits (q := q) (s := { data := y ++ [0, 0, 0, 0], len := y.length }) hhttp
    (fun hnil => absurd hnil hq) (Int.natCast_nonneg _) hlen (by rw [← Nat.cast_add]; exact Nat.cast_le.mpr hfit)
  rw [hbytes] at hq₁
  refine ⟨(q₁.take n).2, hstep.trans ?_⟩
  rw [parse_of_extract (by rw [hq₁]; exact h), hq₁]

/-- A recoverable front completes. -/
theorem Recoverable.completes {q : Bytes} (h : Recoverable q) (hq : q ≠ []) : Completes q := by
  obtain ⟨ls, e, hends, hcond⟩ := h.resolve_left hq
  by_cases hdone : e ≤ (q.take readBufSize).length ∨ readBufSize ≤ q.length
  · rw [if_pos hdone] at hcond
    obtain ⟨value, hf, hone, hmax⟩ := hcond
    exact Completes.of_headEnds hends hf hone hmax (hdone.imp_right fun hfull => by omega)
  · rw [if_neg hdone] at hcond
    have hshort : q.take readBufSize = q := List.take_of_length_le (by omega)
    cases hends with
    | @whole t hl hpass =>
      rw [hshort] at hl
      rw [hl.eq, List.drop_left, ← hl.eq] at hcond
      exact Completes.of_unfinished hl hpass hcond (by omega)
    | @blank ls' l t hl hpass hstop =>
      -- a blank line that is there ends the head
      have hlen := congrArg List.length hl.eq
      have hone := hstop.1
      simp only [joinLines_append, joinLines_cons, List.length_append, List.length_cons] at hlen
      omega

/-- From a recoverable front one more segment is enough. -/
theorem exists_step_of_recoverable {q : Queue} (h : Recoverable q.items) :
    ∃ s r q', machine.step q s = some (r, q') ∧ TakesOut [r] := by
  by_cases hq : q.items = []
  · have hempty : q = BoundedFifo.empty := BoundedFifo.ext hq
    subst hempty
    have hstep : machine.step BoundedFifo.empty (Segment.ofBytes (ascii "GET\r\nContent-Length:-1\r\n")) =
        some ({ ret := true, extracted := some (ascii "GET\r\nContent-Length:-1\r\n") }, BoundedFifo.empty) := by rfl
    exact ⟨_, _, _, hstep, _, List.mem_singleton_self _, _, rfl, by decide⟩
  · have hsize : readBufSize ≤ TcpBuf.capacity := by decide
    have hcap := q.length_le
    obtain ⟨y, n, hy, hn, hbegins⟩ := h.completes hq
    obtain ⟨q', hstep⟩ := exists_step_of_extract hq (by omega) (parseOutcome_eq_extract.mpr hbegins)
    refine ⟨_, _, q', hstep, _, List.mem_singleton_self _, _, rfl, ?_⟩
    intro hnil
    rcases List.take_eq_nil_iff.mp hnil with h0 | h0
    · omega
    · exact hq (List.append_eq_nil_iff.mp h0).1

namespace HttpBuf

/-- In every state of every run, further segments can make the code take out at least one byte exactly when the bytes held are
recoverable. -/
theorem recoverable_iff (client : Bytes) (input : Bool) (segs : List Segment) (replies : List HttpReply) (h : HttpBuf)
    (hrun : machine.run (new client input) segs = some (replies, h)) :
    (∃ more replies' h', machine.run h more = some (replies', h') ∧ TakesOut replies') ↔ Recoverable h.contents := by
  obtain ⟨q, -, hq⟩ := run_holds hrun
  rw [hq.contents_eq]
  constructor
  · rintro ⟨more, replies', h', hmore, ht⟩
    by_cases hnil : q.items = []
    · exact Or.inl hnil
    · obtain ⟨q', hq', -⟩ := simulates_flow.run_some hq hmore
      obtain ⟨y, n, hn, hout⟩ := exists_extract_of_run hnil hq' ht
      exact recoverable_of_extract hn hout
  · intro hrec
    obtain ⟨s, r, q', hs, ht⟩ := exists_step_of_recoverable hrec
    obtain ⟨h', hstep, -⟩ := simulates_flow.some_step hq hs
    exact ⟨[s], [r], h', Machine.run_cons_eq_some.mpr ⟨r, h', [], hstep, Machine.run_nil _ _, rfl⟩, ht⟩

/-- An unfinished head, which more segments can still have taken out. -/
theorem recoverable_iff_of_get_line :
    ∃ replies h, machine.run (new [] true) [Segment.ofBytes (ascii "GET /\r\n")] = some (replies, h) ∧
      ((∃ more replies' h', machine.run h more = some (replies', h') ∧ TakesOut replies') ↔ Recoverable (ascii "GET /\r\n")) := by
  have hq : HttpFlow.machine.run BoundedFifo.empty [Segment.ofBytes (ascii "GET /\r\n")] =
      some ([{ ret := true, extracted := none }], ⟨ascii "GET /\r\n", by decide⟩) := by rfl
  obtain ⟨h, hrun, hh⟩ := simulates_flow.some_run (new_holds_empty [] true) hq
  have hiff := recoverable_iff [] true _ _ h hrun
  rw [hh.contents_eq] at hiff
  exact ⟨_, h, hrun, hiff⟩

/-- A complete `GET` head without a `Content-Length` header is buffered, and no further segments ever have a byte taken out. -/
theorem get_without_length_stays :
    ∃ replies h, machine.run (new [] true) [Segment.ofBytes (ascii "GET / HTTP/1.1\r\nHost: a\r\n\r\n")] = some (replies, h) ∧
      ¬∃ more replies' h', machine.run h more = some (replies', h') ∧ TakesOut replies' := by
  have hq : HttpFlow.machine.run BoundedFifo.empty [Segment.ofBytes (ascii "GET / HTTP/1.1\r\nHost: a\r\n\r\n")] =
      some ([{ ret := true, extracted := none }], ⟨ascii "GET / HTTP/1.1\r\nHost: a\r\n\r\n", by decide⟩) := by rfl
  obtain ⟨h, hrun, hh⟩ := simulates_flow.some_run (new_holds_empty [] true) hq
  refine ⟨_, h, hrun, ?_⟩
  rintro ⟨more, replies', h', hmore, ht⟩
  obtain ⟨q', hq', -⟩ := simulates_flow.run_some hh hmore
  obtain ⟨y, n, hn, hout⟩ := exists_extract_of_run (List.cons_ne_nil _ _) hq' ht
  -- the blank line is there, and no length
  have hlines : Lines LF (ascii "GET / HTTP/1.1\r\nHost: a\r\n\r\n") ([ascii "GET / HTTP/1.1\r", ascii "Host: a\r"] ++ [CR] :: []) [] :=
    ⟨by decide, by decide, by decide⟩
  have hends : HeadEnds ((ascii "GET / HTTP/1.1\r\nHost: a\r\n\r\n" ++ y).take readBufSize)
      [ascii "GET / HTTP/1.1\r", ascii "Host: a\r"] 27 := by
    rw [take_append_front]
    exact HeadEnds.append (.blank hlines (passes_of_two_le (by decide) []) (by decide)) (by decide) _
  rw [hends.parseOutcome_eq (List.append_ne_nil_of_left_ne_nil (by decide) y)] at hout
  obtain ⟨value, hf, -⟩ := linesOutcome_eq_extract.mp hout
  have hnone : fieldOf contentLength [ascii "GET / HTTP/1.1\r", ascii "Host: a\r"] = none := by decide
  rw [hnone] at hf
  cases hf

end HttpBuf

end FrontServer
