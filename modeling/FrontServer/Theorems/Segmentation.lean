import FrontServer.Lemmas.CompleteMessage
import FrontServer.Theorems.NoGap

/-!
# Messages out of segments

However a list of messages is cut, a flow takes them out from the front of the list, in order, and holds the rest
(`segmentation`), provided that a segment that finds the buffer empty shows a whole keyword. A call takes out one message at most,
so that all of them are out exactly when the calls keep up with the messages that become complete.
-/

namespace FrontServer

/-- How many messages are whole among the first `n` bytes of a list of them. -/
def wholeMessages : List Message → Nat → Nat
  | [], _ => 0
  | m :: ms, n => if m.bytes.length ≤ n then wholeMessages ms (n - m.bytes.length) + 1 else 0

/-- The bytes of some messages, one behind the other. -/
def streamOf (ms : List Message) : Bytes := (ms.map Message.bytes).flatten

/-- The bytes of some segments, one behind the other. -/
def segmentBytes (segs : List Segment) : Bytes := (segs.map Segment.bytes).flatten

@[simp] theorem streamOf_cons (m : Message) (ms : List Message) : streamOf (m :: ms) = m.bytes ++ streamOf ms := rfl

@[simp] theorem segmentBytes_cons (s : Segment) (segs : List Segment) :
    segmentBytes (s :: segs) = s.bytes ++ segmentBytes segs := rfl

namespace Message

/-- The lines of the head of a message. -/
def texts (m : Message) : List Bytes := m.startLine :: m.fields.map (fun f => f.1 ++ colon :: f.2)

variable (m : Message)

/-- The message is its head and its body. -/
theorem bytes_eq : m.bytes = headBytes m.texts ++ m.body := rfl

/-- None of its lines is empty. -/
theorem texts_ne_nil : ∀ x ∈ m.texts, x ≠ [] := m.complete.texts_ne_nil

/-- Each of them is one line. -/
theorem not_mem_texts : ∀ x ∈ m.texts, LF ∉ x := m.complete.not_mem_texts

/-- A message is not empty. -/
theorem bytes_pos : 0 < m.bytes.length := by
  rw [bytes_eq, headBytes_eq]
  simp only [List.length_append, List.length_cons]
  omega

/-- The lengths the lines of the head give: the one of the body. -/
theorem filterMap_texts : m.texts.filterMap (HttpBuf.lineField HttpFlow.contentLength) = [m.length] := m.complete.filterMap_texts

/-- `atoi` reads the declared length, which is that of the body. -/
theorem atoi_length : atoi (cStr m.length) = m.body.length := m.complete.atoi_length

end Message

namespace HttpFlow

open HttpBuf

/-! ## One message -/

/-- A message at the front is taken out, whatever comes behind it. -/
theorem parseOutcome_message (m : Message) (r : Bytes) : parseOutcome (m.bytes ++ r) = .extract m.bytes.length :=
  parseOutcome_complete m.complete r

/-- Lines of the head of a message lead to no extraction before the whole message is there. -/
theorem linesOutcome_of_beginning (m : Message) {texts : List Bytes} (hp : texts <+: m.texts) {remainPos : Int} {dataLen : Nat}
    (hpos : (dataLen : Int) < m.body.length + remainPos) (hlt : remainPos ≤ 4097) :
    linesOutcome (texts.map (· ++ [CR])) remainPos dataLen = .keep := by
  unfold linesOutcome
  cases hf : fieldOf contentLength (texts.map (· ++ [CR])) with
  | none => rfl
  | some value =>
    rw [fieldOf_texts] at hf
    have hmem : value ∈ m.texts.filterMap (lineField contentLength) :=
      (hp.sublist.filterMap _).subset (List.mem_of_getLast? hf)
    rw [m.filterMap_texts, List.mem_singleton] at hmem
    subst hmem
    have hsize := m.size_le
    change m.bytes.length ≤ readBufSize at hsize
    rw [m.bytes_eq, List.length_append, readBufSize] at hsize
    dsimp only
    rw [m.atoi_length]
    exact release_eq_keep hpos (by omega)

/-- The beginning of a message at the front is kept. -/
theorem parseOutcome_incomplete (m : Message) {p : Bytes} (hp : p <+: m.bytes) (hlt : p.length < m.bytes.length) :
    parseOutcome p = .keep := by
  by_cases hnil : p = []
  · subst hnil
    rfl
  · have hsize := m.size_le
    change m.bytes.length ≤ readBufSize at hsize
    have hlen : m.bytes.length = (headBytes m.texts).length + m.body.length := by
      rw [m.bytes_eq, List.length_append]
    have htake : p.take readBufSize = p := List.take_of_length_le (by omega)
    by_cases hhead : p.length < (headBytes m.texts).length
    · -- the head is not complete
      have hl : ∀ l ∈ m.texts.map (· ++ [CR]) ++ [[CR]], LF ∉ l := by
        intro l hm
        rcases List.mem_append.mp hm with hm | hm
        · exact not_mem_map_cr m.not_mem_texts l hm
        · rw [List.mem_singleton.mp hm]
          decide
      obtain ⟨ls₁, l, ls₂, t, he, -, hlines⟩ := prefix_joinLines hl hp hhead
      obtain ⟨us, hus⟩ : ls₁ <+: m.texts.map (· ++ [CR]) := by
        have hle := congrArg List.length he
        simp only [List.length_append, List.length_cons, List.length_nil] at hle
        exact List.prefix_of_prefix_length_le ⟨l :: ls₂, he.symm⟩ (List.prefix_append _ _) (by omega)
      obtain ⟨texts, us', htexts, rfl, -⟩ := List.append_eq_map_iff.mp hus
      have hpre : texts <+: m.texts := ⟨us', htexts.symm⟩
      have hpass := passes_texts (fun x hx => m.texts_ne_nil x (hpre.subset hx)) []
      rw [← htake] at hlines
      rw [parseOutcome_of_passes hnil hlines hpass, htake]
      refine linesOutcome_of_beginning m hpre ?_ ?_
      · omega
      · rw [readBufSize] at hsize
        omega
    · -- the head is complete, the body is not
      obtain ⟨b, rfl⟩ : headBytes m.texts <+: p :=
        List.prefix_of_prefix_length_le (List.prefix_append _ _) hp (by omega)
      obtain ⟨ls, t, hlines⟩ := lines_headBytes m.not_mem_texts b
      rw [← htake] at hlines
      rw [parseOutcome_of_stopsAt hlines (passes_texts m.texts_ne_nil [])
        (stopsAt_texts (List.cons_ne_nil _ _) m.texts_ne_nil)]
      have hjoin : (headBytes m.texts).length = (joinLines LF (m.texts.map (· ++ [CR]))).length + 2 := by
        rw [headBytes_eq, List.length_append]
        rfl
      refine linesOutcome_of_beginning m (List.prefix_refl _) ?_ ?_
      · omega
      · rw [readBufSize] at hsize
        omega

/-! ## A run -/

/-- What a run from `q` asks of its segments: none is empty, all of a segment is in memory, the keyword comparison stays inside of
memory and succeeds when the queue is empty, and the segment fits. -/
def Admissible (q : Queue) (segs : List Segment) : Prop :=
  ∀ (pre : List Segment) (s : Segment) (post : List Segment), segs = pre ++ s :: post →
    ∀ (replies : List HttpReply) (q₁ : Queue), machine.run q pre = some (replies, q₁) →
    0 < s.len ∧ s.len ≤ s.data.length ∧ q₁.items.length + s.len ≤ TcpBuf.capacity ∧
      ∃ isHttp, isHttpHeader s.data s.len = .ok isHttp ∧ (q₁.items = [] → isHttp = true)

/-- From `n` bytes of the messages on, the calls left keep up: behind every point there are as many calls as messages not whole
there. -/
def KeepsUp (n : Nat) (segs : List Segment) (ms : List Message) : Prop :=
  ms.length ≤ segs.length ∧
    ∀ pre post, segs = pre ++ post → ms.length ≤ wholeMessages ms (n + (segmentBytes pre).length) + post.length

/-- Keeping up from one segment on. -/
theorem keepsUp_cons {n : Nat} {s : Segment} {segs : List Segment} {ms : List Message} :
    KeepsUp n (s :: segs) ms ↔ ms.length ≤ segs.length + 1 ∧ ∀ pre post, segs = pre ++ post →
      ms.length ≤ wholeMessages ms (n + s.bytes.length + (segmentBytes pre).length) + post.length := by
  constructor
  · rintro ⟨h₁, h₂⟩
    refine ⟨h₁, fun pre post he => ?_⟩
    have h := h₂ (s :: pre) post (by rw [he, List.cons_append])
    rwa [segmentBytes_cons, List.length_append, ← Nat.add_assoc] at h
  · rintro ⟨h₁, h₂⟩
    refine ⟨h₁, fun pre post he => ?_⟩
    cases pre with
    | nil =>
      rw [List.nil_append] at he
      rw [← he]
      exact le_trans h₁ (Nat.le_add_left _ _)
    | cons s' pre =>
      rw [List.cons_append, List.cons.injEq] at he
      obtain ⟨rfl, he⟩ := he
      have h := h₂ pre post he
      rwa [segmentBytes_cons, List.length_append, ← Nat.add_assoc]

/-- A call that takes a message out leaves one message less to keep up with. -/
theorem keepsUp_of_whole {n : Nat} {s : Segment} {segs : List Segment} {m : Message} {ms : List Message}
    (h : m.bytes.length ≤ n + s.bytes.length) :
    KeepsUp n (s :: segs) (m :: ms) ↔ KeepsUp (n + s.bytes.length - m.bytes.length) segs ms := by
  have hwhole : ∀ x, wholeMessages (m :: ms) (n + s.bytes.length + x) =
      wholeMessages ms (n + s.bytes.length - m.bytes.length + x) + 1 := by
    intro x
    rw [wholeMessages, if_pos (by omega), show n + s.bytes.length + x - m.bytes.length =
      n + s.bytes.length - m.bytes.length + x by omega]
  rw [keepsUp_cons, KeepsUp, List.length_cons]
  refine and_congr (by omega) (forall_congr' fun pre => forall_congr' fun post => imp_congr_right fun _ => ?_)
  rw [hwhole]
  omega

/-- A call that leaves the first message incomplete is a call less. -/
theorem keepsUp_of_incomplete {n : Nat} {s : Segment} {segs : List Segment} {m : Message} {ms : List Message}
    (h : n + s.bytes.length < m.bytes.length) :
    KeepsUp n (s :: segs) (m :: ms) ↔ KeepsUp (n + s.bytes.length) segs (m :: ms) := by
  rw [keepsUp_cons, KeepsUp]
  constructor
  · rintro ⟨-, h₂⟩
    have h₀ := h₂ [] segs rfl
    rw [wholeMessages, if_neg (by simpa [segmentBytes] using h)] at h₀
    exact ⟨by omega, h₂⟩
  · rintro ⟨h₁, h₂⟩
    exact ⟨by omega, h₂⟩

/-- What is left of an admissible run after its first step is admissible. -/
theorem Admissible.tail {q q' : Queue} {s : Segment} {segs : List Segment} {r : HttpReply} (h : Admissible q (s :: segs))
    (hs : machine.step q s = some (r, q')) : Admissible q' segs := by
  intro pre s' post he replies q₁ hrun
  exact h (s :: pre) s' post (by rw [he, List.cons_append]) (r :: replies) q₁
    (Machine.run_cons_eq_some.mpr ⟨r, q', replies, hs, hrun, rfl⟩)

/-- A queue that holds the beginning of the messages left, and gets the rest of them in segments, takes them out in order. -/
theorem run_messages {segs : List Segment} {q : Queue} {ms : List Message} (hcat : q.items ++ segmentBytes segs = streamOf ms)
    (hadm : Admissible q segs) :
    ∃ replies q' k, machine.run q segs = some (replies, q') ∧ k ≤ ms.length ∧
      replies.filterMap HttpReply.extracted = (ms.take k).map Message.bytes ∧ q'.items = streamOf (ms.drop k) ∧
      (k = ms.length ↔ KeepsUp q.items.length segs ms) := by
  induction segs generalizing q ms with
  | nil =>
    rw [segmentBytes, List.map_nil, List.flatten_nil, List.append_nil] at hcat
    refine ⟨[], q, 0, rfl, Nat.zero_le _, rfl, hcat, ?_⟩
    constructor
    · intro h0
      rw [List.eq_nil_of_length_eq_zero h0.symm]
      exact ⟨le_rfl, fun pre post _ => Nat.zero_le _⟩
    · rintro ⟨h₁, -⟩
      exact (Nat.le_zero.mp h₁).symm
  | cons s segs ih =>
    obtain ⟨hpos, hd, hfit, isHttp, hhttp, hkw⟩ := hadm [] s segs rfl [] q rfl
    obtain ⟨q₁, hq₁, hstep⟩ := step_of_fits hhttp hkw hpos.le hd hfit
    have hslen : 0 < s.bytes.length := by
      rw [Segment.bytes, List.length_take]
      omega
    have hcat₁ : q₁.items ++ segmentBytes segs = streamOf ms := by
      rw [hq₁, List.append_assoc, ← segmentBytes_cons]
      exact hcat
    have hlen₁ : q₁.items.length = q.items.length + s.bytes.length := by
      rw [hq₁, List.length_append]
    cases ms with
    | nil =>
      have hnil : q₁.items = [] := (List.append_eq_nil_iff.mp hcat₁).1
      rw [hnil, List.length_nil] at hlen₁
      omega
    | cons m ms =>
      have hp₁ : q₁.items <+: streamOf (m :: ms) := ⟨_, hcat₁⟩
      have hm : m.bytes <+: streamOf (m :: ms) := List.prefix_append _ _
      by_cases hle : m.bytes.length ≤ q₁.items.length
      · -- the first message is complete and is taken out
        obtain ⟨r, hr⟩ := List.prefix_of_prefix_length_le hm hp₁ hle
        have hout := parse_of_extract (q := q₁) (n := m.bytes.length) (by rw [← hr]; exact parseOutcome_message m r)
        have hstep₁ : machine.step q s = _ := hstep.trans hout
        have hitems : (q₁.take m.bytes.length).2.items = r := by
          change q₁.items.drop m.bytes.length = r
          rw [← hr, List.drop_left]
        have hcat₂ : (q₁.take m.bytes.length).2.items ++ segmentBytes segs = streamOf ms := by
          rw [hitems]
          rw [← hr, List.append_assoc, streamOf_cons] at hcat₁
          exact List.append_cancel_left hcat₁
        obtain ⟨replies, q', k, hrun, hk, hex, hq', hiff⟩ := ih hcat₂ (hadm.tail hstep₁)
        refine ⟨_, q', k + 1, Machine.run_cons_eq_some.mpr ⟨_, _, _, hstep₁, hrun, rfl⟩, ?_, ?_, hq', ?_⟩
        · rw [List.length_cons]
          omega
        · have hfront : q₁.items.take m.bytes.length = m.bytes := by
            rw [← hr, List.take_left]
          simp only [List.filterMap_cons, hfront, hex, List.take_succ_cons, List.map_cons]
        · rw [keepsUp_of_whole (by omega), ← hlen₁, List.length_cons, Nat.add_right_cancel_iff, hiff, hitems]
          rw [show r.length = q₁.items.length - m.bytes.length by rw [← hr, List.length_append]; omega]
      · -- the first message is not complete
        have hp : q₁.items <+: m.bytes := List.prefix_of_prefix_length_le hp₁ hm (by omega)
        have hstep₁ : machine.step q s = _ := hstep.trans (parse_of_keep (parseOutcome_incomplete m hp (by omega)))
        obtain ⟨replies, q', k, hrun, hk, hex, hq', hiff⟩ := ih hcat₁ (hadm.tail hstep₁)
        refine ⟨_, q', k, Machine.run_cons_eq_some.mpr ⟨_, _, _, hstep₁, hrun, rfl⟩, hk, ?_, hq', ?_⟩
        · simp only [List.filterMap_cons, hex]
        · rw [keepsUp_of_incomplete (by omega), ← hlen₁, hiff]

end HttpFlow

namespace HttpBuf

/-- A list of messages delivered to a fresh `HttpBuf` in segments: the segments are the messages cut anywhere, none is empty, each
fits when it comes, and the keyword comparison, which looks at four bytes whatever the length, stays inside of memory. A segment
that finds the buffer empty begins with a whole keyword. -/
structure Delivery (client : Bytes) (input : Bool) (msgs : List Message) (segs : List Segment) : Prop where
  cut : segmentBytes segs = streamOf msgs
  nonempty : ∀ s ∈ segs, 0 < s.len ∧ s.len ≤ s.data.length
  readable : ∀ s ∈ segs, ∃ isHttp, isHttpHeader s.data s.len = .ok isHttp
  fits : ∀ (pre : List Segment) (s : Segment) (post : List Segment), segs = pre ++ s :: post →
    ∀ (replies : List HttpReply) (h : HttpBuf), machine.run (new client input) pre = some (replies, h) → h.HasRoom s
  keyword : ∀ (pre : List Segment) (s : Segment) (post : List Segment), segs = pre ++ s :: post →
    ∀ (replies : List HttpReply) (h : HttpBuf), machine.run (new client input) pre = some (replies, h) →
    h.contents = [] → isHttpHeader s.data s.len = .ok true

variable {client : Bytes} {input : Bool} {msgs : List Message} {segs : List Segment}

/-- The segments of a delivery are admissible for the queue. -/
theorem Delivery.admissible (d : Delivery client input msgs segs) : HttpFlow.Admissible BoundedFifo.empty segs := by
  intro pre s post he replies q hrun
  obtain ⟨h, hrun', hq⟩ := simulates_flow.some_run (new_holds_empty client input) hrun
  have hs : s ∈ segs := by
    rw [he]
    simp
  obtain ⟨isHttp, hhttp⟩ := d.readable s hs
  have hroom := d.fits pre s post he replies h hrun'
  rw [HasRoom, hq.contents_eq] at hroom
  refine ⟨(d.nonempty s hs).1, (d.nonempty s hs).2, hroom, isHttp, hhttp, fun hnil => ?_⟩
  have hkw := d.keyword pre s post he replies h hrun' (by rw [hq.contents_eq]; exact hnil)
  rw [hhttp] at hkw
  cases hkw
  rfl

/-- Keeping up with the segments from the first one on. -/
theorem keepsUp_zero_iff : HttpFlow.KeepsUp 0 segs msgs ↔
    ∀ pre post, segs = pre ++ post → msgs.length ≤ wholeMessages msgs (segmentBytes pre).length + post.length := by
  have h₀ : wholeMessages msgs 0 = 0 := by
    cases msgs with
    | nil => rfl
    | cons m ms => rw [wholeMessages, if_neg (by have := m.bytes_pos; omega)]
  constructor
  · rintro ⟨-, h⟩ pre post he
    have hp := h pre post he
    rwa [Nat.zero_add] at hp
  · intro h
    refine ⟨?_, fun pre post he => by rw [Nat.zero_add]; exact h pre post he⟩
    have hp := h [] segs rfl
    rwa [segmentBytes, List.map_nil, List.flatten_nil, List.length_nil, h₀, Nat.zero_add] at hp

/-- However the messages are cut, they come out from the front of the list, whole and in order, and the buffer is left with just
the others. All of them are out and the buffer is empty exactly when, behind every point, there are at least as many segments as
messages not whole there. -/
theorem segmentation (d : Delivery client input msgs segs) :
    ∃ replies h k, machine.run (new client input) segs = some (replies, h) ∧ k ≤ msgs.length ∧
      replies.filterMap HttpReply.extracted = (msgs.take k).map Message.bytes ∧ h.contents = streamOf (msgs.drop k) ∧
      (k = msgs.length ↔ ∀ pre post, segs = pre ++ post →
        msgs.length ≤ wholeMessages msgs (segmentBytes pre).length + post.length) := by
  obtain ⟨replies, q, k, hrun, hk, hex, hq, hiff⟩ := HttpFlow.run_messages (q := BoundedFifo.empty) d.cut d.admissible
  obtain ⟨h, hrun', hh⟩ := simulates_flow.some_run (new_holds_empty client input) hrun
  exact ⟨replies, h, k, hrun', hk, hex, hh.contents_eq.trans hq, hiff.trans keepsUp_zero_iff⟩

/-- `GET` with the length `0` and no body. -/
def emptyGet : Message where
  startLine := ascii "GET"
  fields := [(ascii "Content-Length", ascii "0")]
  body := []
  length := ascii "0"
  keyword := by decide
  start_line := by decide
  field_line := by decide
  one_length := by decide
  length_digits := by decide +kernel
  length_value := by decide
  size_le := by decide

/-- `GET` with a body of one byte, the letter `G`. -/
def oneByteGet : Message where
  startLine := ascii "GET"
  fields := [(ascii "Content-Length", ascii "1")]
  body := ascii "G"
  length := ascii "1"
  keyword := by decide
  start_line := by decide
  field_line := by decide
  one_length := by decide
  length_digits := by decide +kernel
  length_value := by decide
  size_le := by decide

/-- What a run of the queue ends with is what the same run of the buffer ends with. -/
theorem contents_of_queue_run {replies replies' : List HttpReply} {q : HttpFlow.Queue} {h : HttpBuf}
    (hq : HttpFlow.machine.run BoundedFifo.empty segs = some (replies, q))
    (hrun : machine.run (new client input) segs = some (replies', h)) : h.contents = q.items := by
  obtain ⟨q', hq', hh⟩ := run_holds hrun
  rw [hq] at hq'
  cases hq'
  exact hh.contents_eq

/-- Segments that are admitted in what the queue holds when they come are delivered to the buffer. -/
theorem delivery_of_queue (cut : segmentBytes segs = streamOf msgs) (nonempty : ∀ s ∈ segs, 0 < s.len ∧ s.len ≤ s.data.length)
    (readable : ∀ s ∈ segs, ∃ isHttp, isHttpHeader s.data s.len = .ok isHttp)
    (holds : ∀ pre s post, segs = pre ++ s :: post → ∃ replies q, HttpFlow.machine.run BoundedFifo.empty pre = some (replies, q) ∧
      (q.items.length : Int) + s.len ≤ TcpBuf.capacity ∧ (q.items = [] → isHttpHeader s.data s.len = .ok true)) :
    Delivery client input msgs segs where
  cut := cut
  nonempty := nonempty
  readable := readable
  fits := by
    intro pre s post he replies h hrun
    obtain ⟨replies', q, hq, hroom, -⟩ := holds pre s post he
    rw [HasRoom, contents_of_queue_run hq hrun]
    exact hroom
  keyword := by
    intro pre s post he replies h hrun hnil
    obtain ⟨replies', q, hq, -, hkeyword⟩ := holds pre s post he
    rw [contents_of_queue_run hq hrun] at hnil
    exact hkeyword hnil

/-- Two messages in three segments: the second segment ends the first message and begins the second one. -/
def threeSegments : List Segment :=
  [Segment.ofBytes (ascii "GET\r\nContent-Length:0\r\n"), Segment.ofBytes (ascii "\r\nGET\r\nContent-Len"),
    Segment.ofBytes (ascii "gth:1\r\n\r\nG")]

/-- The three segments deliver the two messages. -/
theorem delivery_of_threeSegments : Delivery [] true [emptyGet, oneByteGet] threeSegments := by
  refine delivery_of_queue (by decide) (by decide) ?_ ?_
  · intro s hs
    simp only [threeSegments, List.mem_cons, List.not_mem_nil, or_false] at hs
    rcases hs with rfl | rfl | rfl
    · exact ⟨true, by rfl⟩
    · exact ⟨false, by rfl⟩
    · exact ⟨false, by rfl⟩
  · intro pre s post he
    rcases pre with _ | ⟨s₁, _ | ⟨s₂, _ | ⟨s₃, pre⟩⟩⟩
    · cases he
      exact ⟨[], BoundedFifo.empty, rfl, by decide, fun _ => by rfl⟩
    · cases he
      exact ⟨[{ ret := true, extracted := none }], ⟨ascii "GET\r\nContent-Length:0\r\n", by decide⟩, by rfl, by decide,
        fun hnil => absurd hnil (by decide)⟩
    · cases he
      exact ⟨[{ ret := true, extracted := none }, { ret := true, extracted := some emptyGet.bytes }],
        ⟨ascii "GET\r\nContent-Len", by decide⟩, by rfl, by decide, fun hnil => absurd hnil (by decide)⟩
    · simp [threeSegments] at he

/-- Two messages in three segments, cut inside of the first. -/
theorem segmentation_of_threeSegments :
    ∃ replies h k, machine.run (new [] true) threeSegments = some (replies, h) ∧
      k ≤ 2 ∧ replies.filterMap HttpReply.extracted = ([emptyGet, oneByteGet].take k).map Message.bytes ∧
      h.contents = streamOf ([emptyGet, oneByteGet].drop k) ∧
      (k = 2 ↔ ∀ pre post, threeSegments = pre ++ post →
        2 ≤ wholeMessages [emptyGet, oneByteGet] (segmentBytes pre).length + post.length) :=
  segmentation delivery_of_threeSegments

/-- Two messages in one segment: the second stays behind. One message cut in its keyword: all of it is dropped. One message whose
last byte comes alone, with nothing behind it in memory: the keyword comparison reads past it. -/
theorem messages_left_behind :
    (∃ replies h, machine.run (new [] true) [Segment.ofBytes (emptyGet.bytes ++ emptyGet.bytes)] = some (replies, h) ∧
      replies.filterMap HttpReply.extracted = [emptyGet.bytes] ∧ h.contents = emptyGet.bytes) ∧
    (∃ replies h, machine.run (new [] true)
        [{ data := ascii "GE" ++ [0, 0], len := 2 }, Segment.ofBytes (ascii "T\r\nContent-Length:0\r\n\r\n")] =
        some (replies, h) ∧
      segmentBytes [{ data := ascii "GE" ++ [0, 0], len := 2 }, Segment.ofBytes (ascii "T\r\nContent-Length:0\r\n\r\n")] =
        emptyGet.bytes ∧
      replies.filterMap HttpReply.extracted = [] ∧ h.contents = []) ∧
    machine.run (new [] true)
        [Segment.ofBytes (ascii "GET\r\nContent-Length:1\r\n\r\n"), Segment.ofBytes (ascii "G")] = none ∧
      segmentBytes [Segment.ofBytes (ascii "GET\r\nContent-Length:1\r\n\r\n"), Segment.ofBytes (ascii "G")] =
        oneByteGet.bytes := by
  refine ⟨?_, ?_, ?_, by decide⟩
  · have hq : HttpFlow.machine.run BoundedFifo.empty [Segment.ofBytes (emptyGet.bytes ++ emptyGet.bytes)] =
        some ([{ ret := true, extracted := some emptyGet.bytes }], ⟨emptyGet.bytes, by decide⟩) := by rfl
    obtain ⟨h, hrun, hh⟩ := simulates_flow.some_run (new_holds_empty [] true) hq
    exact ⟨_, h, hrun, by decide, hh.contents_eq⟩
  · have hq : HttpFlow.machine.run BoundedFifo.empty
        [{ data := ascii "GE" ++ [0, 0], len := 2 }, Segment.ofBytes (ascii "T\r\nContent-Length:0\r\n\r\n")] =
        some ([{ ret := false, extracted := none }, { ret := false, extracted := none }], BoundedFifo.empty) := by rfl
    obtain ⟨h, hrun, hh⟩ := simulates_flow.some_run (new_holds_empty [] true) hq
    exact ⟨_, h, hrun, by decide, by decide, hh.contents_eq⟩
  · have hq : HttpFlow.machine.run BoundedFifo.empty
        [Segment.ofBytes (ascii "GET\r\nContent-Length:1\r\n\r\n"), Segment.ofBytes (ascii "G")] = none := by rfl
    exact simulates_flow.none_run (new_holds_empty [] true) hq

end HttpBuf

end FrontServer
