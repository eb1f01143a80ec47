import FrontServer.PcapHandler
import FrontServer.Theorems.Framing

/-!
# Where a head ends, and where its scan faults

The scan breaks at the first byte other than LF that stands alone on a line behind CR LF, with a byte in front (`BreakEnds`), and it
faults at an empty line that comes before (`EmptyLineFirst`). Its guard for a line end takes any LF but a first one, where CR LF was
meant, and its guard against looking back too far leaves out the first place at which CR LF CR LF can end. From the first guard come
the faults and the breaks at a byte that is not CR, from the second the blank line at the front that is not found.
-/

namespace FrontServer

variable {σ : Type}

/-! ## Breaks -/

/-- A scan of lines that does not fault ran through the text, which has no break in it, or stopped where the first one ends. -/
theorem scanLines_end {onLine : σ → Bytes → σ} {d t : Bytes} {ls : List Bytes} (h : Lines LF d ls t) {acc acc' : σ}
    {stop : Option Nat} (hok : scanLines onLine [] ls acc = .ok (stop, acc')) :
    (stop = none ∧ ∀ e ≤ d.length, ¬BreakEnds d e) ∨
      ∃ i, stop = some i ∧ i + 1 ≤ d.length ∧ BreakEnds d (i + 1) ∧ ∀ e ≤ i, ¬BreakEnds d e := by
  rcases scanLines_cases hok with ⟨hp, hstop, -⟩ | ⟨ls₁, l, ls₂, rfl, hp, hs, hstop, -⟩
  · exact Or.inl ⟨hstop, fun e he => not_breakEnds_of_passes h hp (List.prefix_refl d) he⟩
  · rw [List.nil_append] at hs hstop
    exact Or.inr ⟨_, hstop, (take_of_stopsAt h hs.1).1, breakEnds_of_stopsAt h hs,
      fun e he => not_breakEnds_before_stop h hp hs (Nat.lt_succ_of_le he)⟩

/-- Where a scan that does not fault leaves `*remain_pos`: one behind a text that has no break, or behind the first break. -/
def ScanEnds (d : Bytes) (remainPos : Int) : Prop :=
  (remainPos = d.length + 1 ∧ ∀ e ≤ d.length, ¬BreakEnds d e) ∨
    ∃ e : Nat, remainPos = e ∧ e ≤ d.length ∧ BreakEnds d e ∧ ∀ e' < e, ¬BreakEnds d e'

theorem scanHeaders_end {onLine : σ → Bytes → σ} {data : Bytes} {len : Int} (hpos : 0 < len) (hlen : len ≤ data.length) {acc acc' : σ}
    {remainPos remainPos' : Int} {ret : Bool} (hok : scanHeaders onLine data len acc remainPos = .ok (ret, acc', remainPos')) :
    ScanEnds (data.take len.toNat) remainPos' := by
  obtain ⟨ls, t, h⟩ := exists_lines LF (data.take len.toNat)
  have hd : (data.take len.toNat).length = len.toNat := by
    rw [List.length_take]
    omega
  rw [scanHeaders_lines _ hpos hlen h] at hok
  cases hscan : scanLines onLine [] ls acc with
  | error e =>
    rw [hscan] at hok
    cases hok
  | ok s =>
    rw [hscan] at hok
    cases hok
    rcases scanLines_end h hscan with ⟨hstop, hno⟩ | ⟨i, hstop, hle, hbreak, hno⟩
    · refine Or.inl ⟨?_, hno⟩
      rw [hstop, Option.getD_none, hd]
    · refine Or.inr ⟨i + 1, ?_, hle, hbreak, fun e' he' => hno e' (by omega)⟩
      rw [hstop, Option.getD_some]
      omega

/-! ## Faults -/

/-- An empty line (a line feed at the front, or behind another one) with no break in front of it. -/
def EmptyLineFirst (d : Bytes) : Prop :=
  ∃ b r, d = b ++ LF :: r ∧ (b = [] ∨ [LF] <:+ b) ∧ ∀ e ≤ b.length, ¬BreakEnds d e

/-- A text that is empty or ends in a line feed has no unfinished line. -/
theorem tail_eq_nil {b u : Bytes} {m : List Bytes} (h : Lines LF b m u) (hb : b = [] ∨ [LF] <:+ b) : u = [] := by
  rcases hb with rfl | ⟨p, hp⟩
  · exact (List.append_eq_nil_iff.mp h.eq.symm).2
  · rcases List.eq_nil_or_concat' u with hu | ⟨v, a, rfl⟩
    · exact hu
    · have he : p ++ [LF] = (joinLines LF m ++ v) ++ [a] := by rw [hp, h.eq, List.append_assoc]
      have ha : LF = a := by simpa using (List.append_inj' he rfl).2
      exact absurd (by simp [ha]) h.tail

/-- An empty line among lines that the scan reads up to a stop stands behind the stop. -/
theorem exists_stop_before {ls₁ ls₂ m m' : List Bytes} {l : Bytes} (h : m ++ [] :: m' = ls₁ ++ l :: ls₂) (hp : Passes [] ls₁)
    (hl : l ≠ []) : ∃ c, m = ls₁ ++ l :: c := by
  rcases List.append_eq_append_iff.mp h with ⟨a, hls, ha⟩ | ⟨c, hm, hc⟩
  · rcases a with _ | ⟨x, a⟩
    · exact absurd (List.cons.inj ha).1.symm hl
    · obtain ⟨rfl, -⟩ := List.cons.inj ha
      rw [hls] at hp
      exact absurd rfl (passes_append.mp hp).2.1
  · rcases c with _ | ⟨x, c⟩
    · exact absurd (List.cons.inj hc).1 hl
    · obtain ⟨rfl, -⟩ := List.cons.inj hc
      exact ⟨c, hm⟩

/-- The scan faults at an empty line that comes before the first break, and at nothing else. -/
theorem scanHeaders_ok_iff (onLine : σ → Bytes → σ) {data : Bytes} {len : Int} (hpos : 0 < len) (hlen : len ≤ data.length) (acc : σ)
    (remainPos : Int) :
    (∃ r, scanHeaders onLine data len acc remainPos = .ok r) ↔ ¬EmptyLineFirst (data.take len.toNat) := by
  obtain ⟨ls, t, h⟩ := exists_lines LF (data.take len.toNat)
  rw [scanHeaders_lines _ hpos hlen h]
  cases hscan : scanLines onLine [] ls acc with
  | error e =>
    obtain ⟨ls₁, ls₂, rfl, hp⟩ := scanLines_eq_error hscan
    have heq : data.take len.toNat = joinLines LF ls₁ ++ LF :: (joinLines LF ls₂ ++ t) := by
      rw [h.eq]
      simp
    have hlines : Lines LF (joinLines LF ls₁) ls₁ [] := ⟨by simp, fun l hl => h.line l (by simp [hl]), by simp⟩
    refine iff_of_false (by rintro ⟨r, hr⟩; cases hr) (not_not.mpr ⟨_, _, heq, ?_, fun e he => ?_⟩)
    · rcases List.eq_nil_or_concat' ls₁ with rfl | ⟨m, l, rfl⟩
      · exact Or.inl rfl
      · exact Or.inr ⟨joinLines LF m ++ l, by simp⟩
    · exact not_breakEnds_of_passes hlines hp ⟨_, heq.symm⟩ he
  | ok s =>
    refine iff_of_true ⟨_, rfl⟩ ?_
    rintro ⟨b, r, hd, hb, hno⟩
    obtain ⟨m, u, hm⟩ := exists_lines LF b
    obtain rfl := tail_eq_nil hm hb
    obtain ⟨m', t', hm'⟩ := exists_lines LF r
    have hlines : Lines LF (data.take len.toNat) (m ++ [] :: m') t' := by
      have hl : ∀ l ∈ m ++ [[]], LF ∉ l := by
        intro l hl
        rcases List.mem_append.mp hl with hl | hl
        · exact hm.line l hl
        · rw [List.mem_singleton.mp hl]
          exact List.not_mem_nil
      have happ := hm'.append_left hl
      have he : joinLines LF (m ++ [[]]) ++ r = data.take len.toNat := by
        rw [hd, hm.eq]
        simp
      rwa [he, List.append_assoc] at happ
    obtain ⟨rfl, -⟩ := h.unique hlines
    rcases scanLines_cases hscan with ⟨hp, -⟩ | ⟨ls₁, l, ls₂, hls, hp, hs, -⟩
    · exact absurd rfl (passes_append.mp hp).2.1
    · rw [List.nil_append] at hs
      have hl : l ≠ [] := by
        rintro rfl
        exact absurd hs.1 (by decide)
      obtain ⟨c, rfl⟩ := exists_stop_before hls hp hl
      rw [hls] at h
      refine hno _ ?_ (breakEnds_of_stopsAt h hs)
      rw [hm.eq, joinLines_append, joinLines_cons, List.append_nil]
      have hl₁ := hs.1
      simp only [List.length_append, List.length_cons]
      omega

/-- On a memory of just `len` bytes, where every access outside of the buffer is a fault, `HttpBuf::GetHttpHeaders`,
`ParsePkg::GetHttpHeaders` and `ParseHttp` go through exactly when no empty line comes before the first break. -/
theorem header_scan_safe_iff (data : Bytes) (len : Int) (hpos : 0 < len) (hlen : len ≤ data.length) (head : HttpHead)
    (headers : StrMap Bytes) (remainPos : Int) :
    ((∃ r, HttpBuf.getHttpHeaders (data.take len.toNat) len head remainPos = .ok r) ↔ ¬EmptyLineFirst (data.take len.toNat)) ∧
      ((∃ r, ParsePkg.getHttpHeaders (data.take len.toNat) len headers remainPos = .ok r) ↔
        ¬EmptyLineFirst (data.take len.toNat)) ∧
      ((∃ r, parseHttp (data.take len.toNat) len remainPos = .ok r) ↔ ¬EmptyLineFirst (data.take len.toNat)) := by
  have hlen' : len ≤ (data.take len.toNat).length := by
    rw [List.length_take]
    omega
  have htake : (data.take len.toNat).take len.toNat = data.take len.toNat := by
    rw [List.take_take, Nat.min_self]
  have hiff : ∀ {τ : Type} (onLine : τ → Bytes → τ) (acc : τ),
      (∃ r, scanHeaders onLine (data.take len.toNat) len acc remainPos = .ok r) ↔ ¬EmptyLineFirst (data.take len.toNat) := by
    intro τ onLine acc
    have h := scanHeaders_ok_iff onLine hpos hlen' acc remainPos
    rwa [htake] at h
  exact ⟨hiff HttpBuf.onLine head, hiff ParsePkg.onLine headers, hiff _ []⟩

/-- Two line feeds in a row: a string of length -1 is built. -/
theorem empty_line_faults :
    HttpBuf.getHttpHeaders (ascii "GET\n\n") 5 HttpHead.empty 0 = .error (.lengthError 4 (-1)) ∧
      ParsePkg.getHttpHeaders (ascii "GET\n\n") 5 ∅ 0 = .error (.lengthError 4 (-1)) ∧
      parseHttp (ascii "GET\n\n") 5 0 = .error (.lengthError 4 (-1)) := by
  exact ⟨by rfl, by rfl, by rfl⟩

theorem header_scan_safe_iff_get :
    (∃ r, HttpBuf.getHttpHeaders (ascii "GET\r\n") 5 HttpHead.empty 0 = .ok r) ↔ ¬EmptyLineFirst (ascii "GET\r\n") :=
  (header_scan_safe_iff (ascii "GET\r\n") 5 (by decide) (by decide) HttpHead.empty ∅ 0).1

/-! ## The end of the head -/

/-- What the scan is for: it stops in front of the end of a text exactly when the text has a CR LF CR LF, and then `*remain_pos` is
behind the first one; otherwise it is one behind the text. -/
structure EndsAtBlankLine (d : Bytes) (remainPos : Int) : Prop where
  stops : remainPos ≤ d.length ↔ crlfCrlf <:+: d
  first : ∀ e, endOfFirst crlfCrlf d = some e → remainPos = e
  whole : ¬crlfCrlf <:+: d → remainPos = d.length + 1

/-- A text whose first break is its first CR LF CR LF: it does not begin with one, and a byte other than CR that stands alone on a line
behind CR LF, with something in front, comes behind one. -/
structure BlankLineFirst (d : Bytes) : Prop where
  front : ¬crlfCrlf <+: d
  alone : ∀ b x, b ≠ [] → b ++ [CR, LF, x, LF] <+: d → x = CR ∨ x = LF ∨ crlfCrlf <:+: b ++ [CR, LF]

/-- In a text that does not begin with CR LF CR LF, one in its first bytes is a break in them. -/
theorem exists_breakEnds_of_infix {p d : Bytes} (hfront : ¬crlfCrlf <+: d) (hpre : p <+: d) (h : crlfCrlf <:+: p) :
    ∃ e ≤ p.length, BreakEnds d e := by
  obtain ⟨e, he⟩ := infix_iff_endOfFirst.mp h
  obtain ⟨hle, hsuf, -⟩ := endOfFirst_eq_some.mp he
  refine ⟨e, hle, breakEnds_of_crlfCrlf hfront ?_⟩
  obtain ⟨r, rfl⟩ := hpre
  rwa [List.take_append_of_le_length hle]

/-- Where CR LF CR LF ends in a text that ends in a byte alone on a line behind CR LF: at the end, or in front of the byte. -/
theorem crlfCrlf_ends {b : Bytes} {x : UInt8} (hx : x ≠ LF) {e : Nat} (h : crlfCrlf <:+ (b ++ [CR, LF, x, LF]).take e) :
    x = CR ∨ crlfCrlf <:+: b ++ [CR, LF] := by
  by_cases hall : (b ++ [CR, LF, x, LF]).length ≤ e
  · rw [List.take_of_length_le hall] at h
    obtain ⟨c, hc⟩ := h
    have hend := (List.append_inj' hc rfl).2
    simp only [crlfCrlf, List.cons.injEq, and_true, true_and] at hend
    exact Or.inl hend.symm
  · rw [List.length_append] at hall
    simp only [List.length_cons, List.length_nil] at hall
    have hsplit : b ++ [CR, LF, x, LF] = (b ++ [CR, LF]) ++ [x, LF] := by simp
    by_cases hle : e ≤ (b ++ [CR, LF]).length
    · rw [hsplit, List.take_append_of_le_length hle] at h
      exact Or.inr (h.isInfix.trans (List.take_prefix e _).isInfix)
    · rw [List.length_append] at hle
      simp only [List.length_cons, List.length_nil] at hle
      -- what is left ends in the byte
      have htake : (b ++ [CR, LF, x, LF]).take e = (b ++ [CR, LF]) ++ [x] := by
        rw [show b ++ [CR, LF, x, LF] = ((b ++ [CR, LF]) ++ [x]) ++ [LF] by simp]
        refine List.take_left' ?_
        simp only [List.length_append, List.length_cons, List.length_nil]
        omega
      rw [htake] at h
      obtain ⟨c, hc⟩ := h
      rw [show c ++ crlfCrlf = (c ++ [CR, LF, CR]) ++ [LF] by simp [crlfCrlf]] at hc
      have hend := (List.append_inj' hc rfl).2
      simp only [List.cons.injEq, and_true] at hend
      exact absurd hend.symm hx

/-- A scan that ends as it is meant to is one of a text whose first break is its first CR LF CR LF. -/
theorem EndsAtBlankLine.blankLineFirst {d : Bytes} {remainPos : Int} (hends : EndsAtBlankLine d remainPos)
    (hscan : ScanEnds d remainPos) : BlankLineFirst d := by
  constructor
  · intro hfront
    have hlen : 4 ≤ d.length := hfront.length_le
    have hfirst : endOfFirst crlfCrlf d = some 4 := by
      refine endOfFirst_eq_some.mpr ⟨hlen, ?_, fun e he hsuf => ?_⟩
      · rw [← show d.take 4 = crlfCrlf from (List.prefix_iff_eq_take.mp hfront).symm]
      · have hle : 4 ≤ (d.take e).length := hsuf.length_le
        rw [List.length_take] at hle
        omega
    have hpos := hends.first 4 hfirst
    rcases hscan with ⟨hend, -⟩ | ⟨e, he, -, ⟨b, x, hb, -, htake⟩, -⟩
    · omega
    · have hbreak := congrArg List.length htake
      have hbpos := List.length_pos_of_ne_nil hb
      rw [List.length_take, List.length_append] at hbreak
      simp only [List.length_cons, List.length_nil] at hbreak
      omega
  · intro b x hb hpre
    by_cases hx : x = LF
    · exact Or.inr (Or.inl hx)
    · have htake : d.take (b ++ [CR, LF, x, LF]).length = b ++ [CR, LF, x, LF] := (List.prefix_iff_eq_take.mp hpre).symm
      have hbreak : BreakEnds d (b ++ [CR, LF, x, LF]).length := ⟨b, x, hb, hx, htake⟩
      rcases hscan with ⟨-, hno⟩ | ⟨e, he, hle, -, hno⟩
      · exact absurd hbreak (hno _ hpre.length_le)
      · -- the first break is the first CR LF CR LF, and it is not behind this one
        obtain ⟨e', he'⟩ := infix_iff_endOfFirst.mp (hends.stops.mp (by omega))
        have hpos := hends.first e' he'
        obtain rfl : e' = e := by omega
        have hsuf := (endOfFirst_eq_some.mp he').2.1
        have hle' : e' ≤ (b ++ [CR, LF, x, LF]).length := by
          by_contra hlt
          exact hno _ (by omega) hbreak
        obtain ⟨r, rfl⟩ := hpre
        rw [List.take_append_of_le_length hle'] at hsuf
        rcases crlfCrlf_ends hx hsuf with hcr | hin
        · exact Or.inl hcr
        · exact Or.inr (Or.inr hin)

/-- The scan of a text whose first break is its first CR LF CR LF ends as it is meant to. -/
theorem BlankLineFirst.endsAtBlankLine {d : Bytes} {remainPos : Int} (hd : BlankLineFirst d)
    (hscan : ScanEnds d remainPos) : EndsAtBlankLine d remainPos := by
  rcases hscan with ⟨hend, hno⟩ | ⟨e, hpos, hle, ⟨b, x, hb, hx, htake⟩, hno⟩
  · have hnone : ¬crlfCrlf <:+: d := by
      intro hin
      obtain ⟨e, he, hbreak⟩ := exists_breakEnds_of_infix hd.front (List.prefix_refl d) hin
      exact hno e he hbreak
    exact ⟨iff_of_false (by omega) hnone, fun e he => absurd (infix_iff_endOfFirst.mpr ⟨e, he⟩) hnone, fun _ => hend⟩
  · have hpre : b ++ [CR, LF, x, LF] <+: d := htake ▸ List.take_prefix e d
    have hlen : e = b.length + 4 := by
      have := congrArg List.length htake
      rw [List.length_take, List.length_append] at this
      simp only [List.length_cons, List.length_nil] at this
      omega
    have hfirst : endOfFirst crlfCrlf d = some e := by
      refine endOfFirst_eq_some.mpr ⟨hle, ?_, fun e' he' hsuf => hno e' he' (breakEnds_of_crlfCrlf hd.front hsuf)⟩
      rcases hd.alone b x hb hpre with rfl | hlf | hin
      · rw [htake]
        exact List.suffix_append b crlfCrlf
      · exact absurd hlf hx
      · have hpre' : b ++ [CR, LF] <+: d := by
          refine List.IsPrefix.trans ?_ hpre
          exact ⟨[x, LF], by simp⟩
        obtain ⟨e', he', hbreak⟩ := exists_breakEnds_of_infix hd.front hpre' hin
        rw [List.length_append] at he'
        simp only [List.length_cons, List.length_nil] at he'
        exact absurd hbreak (hno e' (by omega))
    have hin : crlfCrlf <:+: d := infix_iff_endOfFirst.mpr ⟨e, hfirst⟩
    refine ⟨iff_of_true (by omega) hin, fun e' he' => ?_, fun hnone => absurd hin hnone⟩
    rw [hfirst] at he'
    cases he'
    exact hpos

/-- Any of the copies of the scan ends as it is meant to exactly on the texts whose first break is their first CR LF CR LF. -/
theorem scanHeaders_ends_iff {onLine : σ → Bytes → σ} {data : Bytes} {len : Int} (hpos : 0 < len) (hlen : len ≤ data.length)
    {acc acc' : σ} {remainPos remainPos' : Int} {ret : Bool}
    (hok : scanHeaders onLine data len acc remainPos = .ok (ret, acc', remainPos')) :
    EndsAtBlankLine (data.take len.toNat) remainPos' ↔ BlankLineFirst (data.take len.toNat) := by
  have hscan := scanHeaders_end hpos hlen hok
  exact ⟨fun hends => hends.blankLineFirst hscan, fun hd => hd.endsAtBlankLine hscan⟩

namespace HttpBuf

/-- A header reading that does not fault ends at the first CR LF CR LF, or one behind the buffer where there is none, exactly when the
first break in the buffer is its first CR LF CR LF. -/
theorem header_end_iff (data : Bytes) (len : Int) (head head' : HttpHead) (remainPos remainPos' : Int) (ret : Bool) (hpos : 0 < len)
    (hlen : len ≤ data.length) (hok : getHttpHeaders data len head remainPos = .ok (ret, head', remainPos')) :
    EndsAtBlankLine (data.take len.toNat) remainPos' ↔ BlankLineFirst (data.take len.toNat) :=
  scanHeaders_ends_iff hpos hlen hok

/-- A byte other than CR alone on a line ends the head, and a CR LF CR LF at the front does not. -/
theorem head_ends_elsewhere :
    (∃ head, getHttpHeaders (ascii "GET\r\nx\n") 7 HttpHead.empty 0 = .ok (true, head, 7) ∧
        ¬EndsAtBlankLine (ascii "GET\r\nx\n") 7) ∧
      ∃ head, getHttpHeaders (ascii "\r\n\r\n") 4 HttpHead.empty 0 = .ok (true, head, 5) ∧
        ¬EndsAtBlankLine (ascii "\r\n\r\n") 5 := by
  refine ⟨⟨_, by rfl, fun hends => ?_⟩, ⟨_, by rfl, fun hends => ?_⟩⟩
  · exact absurd (hends.stops.mp (by decide)) (by decide)
  · exact absurd (hends.stops.mpr (by decide)) (by decide)

theorem header_end_iff_get :
    EndsAtBlankLine (ascii "GET\r\n\r\n") 7 ↔ BlankLineFirst (ascii "GET\r\n\r\n") := by
  have hok : ∃ head, getHttpHeaders (ascii "GET\r\n\r\n") 7 HttpHead.empty 0 = .ok (true, head, 7) := ⟨_, by rfl⟩
  obtain ⟨head, hok⟩ := hok
  exact header_end_iff (ascii "GET\r\n\r\n") 7 HttpHead.empty head 0 7 true (by decide) (by decide) hok

end HttpBuf

end FrontServer
