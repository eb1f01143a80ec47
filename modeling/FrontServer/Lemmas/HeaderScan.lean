import FrontServer.HeaderScan
import FrontServer.Lib.Lines

/-!
# The header scan reads lines

`scanLines` is the scan over the lines of a text instead of its bytes. The byte loop does what it says, whatever lies in memory
behind the text (`scanLoop_lines`, `scanHeaders_lines`), so that nothing after this module speaks of indices.
-/

namespace FrontServer

variable {σ : Type}

/-- Behind the text `pre` the line `l` is the one the scan breaks at: one byte, any byte, behind a line that ended in CR LF. -/
def StopsAt (pre l : Bytes) : Prop := l.length = 1 ∧ [CR, LF] <:+ pre ∧ 3 ≤ pre.length

instance (pre l : Bytes) : Decidable (StopsAt pre l) := by unfold StopsAt; infer_instance

/-- What the scan makes of a complete line behind the text `pre`: its text without the last byte is handed on, unless the line is
the first one and one byte long. -/
def takeLine (onLine : σ → Bytes → σ) (pre l : Bytes) (acc : σ) : σ :=
  if l.length = 1 ∧ pre = [] then acc else onLine acc l.dropLast

/-- The scan over complete lines behind the text `pre`: the index it broke at, if it did, and what the lines gave. -/
def scanLines (onLine : σ → Bytes → σ) : Bytes → List Bytes → σ → Except Fault (Option Nat × σ)
  | _, [], acc => .ok (none, acc)
  | pre, l :: ls, acc =>
    if l = [] then .error (if pre = [] then .outOfRange (-1) else .lengthError pre.length (-1))
    else if StopsAt pre l then .ok (some (pre.length + 1), acc)
    else scanLines onLine (pre ++ l ++ [LF]) ls (takeLine onLine pre l acc)

/-- Lines read before: nothing, or a text of two bytes at least that ends in a line feed. -/
def LinesBefore (pre : Bytes) : Prop := pre = [] ∨ [LF] <:+ pre ∧ 2 ≤ pre.length

/-! ## One turn of the loop -/

/-- The byte behind a text. -/
theorem readAt_append (pre : Bytes) (b : UInt8) (r : Bytes) : readAt (pre ++ b :: r) (pre.length : Int) = .ok b := by
  rw [readAt_eq_ok]
  simp

/-- A byte other than the line feed changes nothing. -/
theorem scanStep_of_ne (onLine : σ → Bytes → σ) (pre r : Bytes) {b : UInt8} (hb : b ≠ LF) (s : Scan σ) :
    scanStep onLine (pre ++ b :: r) pre.length s = .ok (some s) := by
  unfold scanStep
  rw [readAt_append, ok_bind, if_neg hb]
  rfl

/-- The loop runs through bytes with no line feed among them. -/
theorem scanLoop_pass (onLine : σ → Bytes → σ) {l : Bytes} (hl : LF ∉ l) (pre r : Bytes) (n : Nat) (s : Scan σ) :
    scanLoop onLine (pre ++ (l ++ r)) (l.length + n) pre.length s =
      scanLoop onLine (pre ++ (l ++ r)) n (pre.length + l.length) s := by
  induction l generalizing pre with
  | nil => simp
  | cons b l ih =>
    simp only [List.mem_cons, not_or] at hl
    have hb : b ≠ LF := fun e => hl.1 e.symm
    have hi := ih hl.2 (pre ++ [b])
    simp only [List.append_assoc, List.cons_append, List.nil_append, List.length_append, List.length_cons, List.length_nil]
      at hi
    rw [List.length_cons, show l.length + 1 + n = (l.length + n) + 1 by omega, scanLoop, List.cons_append,
      scanStep_of_ne onLine pre _ hb, ok_bind]
    dsimp only
    rw [hi]
    congr 1
    omega

/-- Behind a text of two bytes and a line feed the last two bytes are CR LF when the byte before the line feed is CR. -/
theorem suffix_crlf_iff (p : Bytes) (b : UInt8) : [CR, LF] <:+ p ++ [b, LF] ↔ b = CR := by
  constructor
  · rintro ⟨q, hq⟩
    have h := (List.append_inj' hq rfl).2
    simpa using h.symm
  · rintro rfl
    exact List.suffix_append _ _

/-- The test for an empty line behind CR LF, at the line feed of the line `l`. -/
theorem scanBlankLine_eq {pre l : Bytes} (hpre : LinesBefore pre) (hl : l ≠ []) (r : Bytes) :
    scanBlankLine (pre ++ (l ++ LF :: r)) (pre.length + l.length) pre.length = .ok (decide (StopsAt pre l)) := by
  unfold scanBlankLine
  have hpos := List.length_pos_of_ne_nil hl
  by_cases h₁ : l.length = 1 ∧ 3 ≤ pre.length
  · obtain ⟨hl₁, hp₃⟩ := h₁
    rcases hpre with rfl | ⟨⟨p, rfl⟩, -⟩
    · simp at hp₃
    · obtain ⟨p, b, rfl⟩ : ∃ q b, p = q ++ [b] := by
        rcases List.eq_nil_or_concat' p with rfl | ⟨q, b, rfl⟩
        · simp at hp₃
        · exact ⟨q, b, rfl⟩
      have hr₂ := readAt_append (p ++ [b]) LF (l ++ LF :: r)
      have hr₃ := readAt_append p b (LF :: (l ++ LF :: r))
      have hlen : (p ++ [b] ++ [LF]).length = p.length + 2 := by simp
      have he : p ++ [b] ++ [LF] ++ (l ++ LF :: r) = p ++ b :: LF :: (l ++ LF :: r) := by simp
      have he₂ : p ++ [b] ++ LF :: (l ++ LF :: r) = p ++ b :: LF :: (l ++ LF :: r) := by simp
      rw [he₂, List.length_append, List.length_singleton] at hr₂
      rw [hlen] at hp₃ ⊢
      rw [if_pos (by omega), he, show ((p.length + 2 + l.length : Nat) : Int) - 2 = (p.length + 1 : Nat) by omega, hr₂,
        ok_bind, if_pos rfl, show ((p.length + 2 + l.length : Nat) : Int) - 3 = (p.length : Nat) by omega, hr₃, ok_bind]
      have hiff : StopsAt (p ++ [b] ++ [LF]) l ↔ b = CR := by
        rw [StopsAt, hlen, List.append_assoc, List.singleton_append, suffix_crlf_iff]
        exact ⟨fun h => h.2.1, fun h => ⟨hl₁, h, hp₃⟩⟩
      by_cases hb : b = CR
      · rw [decide_eq_true (hiff.mpr hb), hb]
        rfl
      · rw [decide_eq_false (fun h => hb (hiff.mp h)), beq_false_of_ne hb]
        rfl
  · rw [if_neg (by omega), decide_eq_false (fun h => h₁ ⟨h.1, h.2.2⟩)]
    rfl

/-- The text of a line without its last byte. -/
theorem stringAt_line (pre r : Bytes) {l : Bytes} (hl : l ≠ []) :
    stringAt (pre ++ (l ++ LF :: r)) pre.length ((pre.length + l.length : Nat) - pre.length - 1) = .ok l.dropLast := by
  have hpos := List.length_pos_of_ne_nil hl
  unfold stringAt
  rw [if_neg (by omega), readBytes_eq_ok]
  refine ⟨by omega, by omega, ?_, ?_⟩
  · simp only [List.length_append, List.length_cons]
    omega
  · rw [Int.toNat_natCast, List.drop_left, List.take_append_of_le_length (by omega), List.dropLast_eq_take]
    congr 1
    omega

/-- One turn of the loop at the line feed of a line `l`. -/
theorem scanStep_line (onLine : σ → Bytes → σ) {pre : Bytes} (hpre : LinesBefore pre) (l r : Bytes) (acc : σ) :
    scanStep onLine (pre ++ (l ++ LF :: r)) (pre.length + l.length) ⟨pre.length, acc⟩ =
      if l = [] then .error (if pre = [] then .outOfRange (-1) else .lengthError pre.length (-1))
      else if StopsAt pre l then .ok none
      else .ok (some ⟨pre.length + l.length + 1, takeLine onLine pre l acc⟩) := by
  have hb := readAt_append (pre ++ l) LF r
  rw [List.append_assoc, List.length_append] at hb
  unfold scanStep
  rw [hb, ok_bind, if_pos rfl]
  by_cases hl : l = []
  · subst hl
    rcases hpre with rfl | ⟨⟨p, rfl⟩, hp⟩
    · simp [scanEndsLine, readAt]
    · simp only [List.length_append, List.length_cons, List.length_nil, List.append_assoc] at hp ⊢
      simp only [scanEndsLine, Nat.add_zero]
      rw [if_pos (by omega)]
      simp only [pure, Except.pure, ok_bind, if_true]
      rw [if_pos (by omega)]
      simp only [scanBlankLine]
      rw [if_neg (by omega)]
      simp only [pure, Except.pure, ok_bind, Bool.false_eq_true, if_false]
      simp [stringAt]
  · have hpos := List.length_pos_of_ne_nil hl
    have hends : scanEndsLine (pre ++ (l ++ LF :: r)) (pre.length + l.length) = .ok true := by
      unfold scanEndsLine
      rw [if_pos (by omega)]
      rfl
    rw [hends, ok_bind, if_pos rfl, if_neg hl]
    by_cases h₁ : pre.length + l.length > 1
    · rw [if_pos h₁, scanBlankLine_eq hpre hl, ok_bind]
      by_cases hs : StopsAt pre l
      · rw [if_pos (by simpa using hs), if_pos hs]
        rfl
      · rw [if_neg (by simpa using hs), if_neg hs, stringAt_line pre r hl, ok_bind, takeLine, if_neg]
        · rfl
        · rintro ⟨h, rfl⟩
          simp only [List.length_nil] at h₁
          omega
    · have hp : pre = [] := List.length_eq_zero_iff.mp (by omega)
      subst hp
      have hl₁ : l.length = 1 := by
        simp only [List.length_nil] at h₁
        omega
      rw [if_neg h₁, if_neg (by simp [StopsAt]), takeLine, if_pos ⟨hl₁, rfl⟩]
      rfl

/-! ## The loop -/

/-- The byte loop does with a text, whatever lies behind it, what the scan of its lines says. -/
theorem scanLoop_lines (onLine : σ → Bytes → σ) {ls : List Bytes} (hls : ∀ l ∈ ls, LF ∉ l) {t : Bytes} (ht : LF ∉ t)
    (slack : Bytes) {pre : Bytes} (hpre : LinesBefore pre) (acc : σ) :
    (scanLoop onLine (pre ++ (joinLines LF ls ++ (t ++ slack))) ((joinLines LF ls).length + t.length) pre.length
        ⟨pre.length, acc⟩).map (fun r => (r.1, r.2.acc)) =
      (scanLines onLine pre ls acc).map (fun r => (r.1.getD (pre.length + (joinLines LF ls).length + t.length), r.2)) := by
  induction ls generalizing pre acc with
  | nil =>
    have hp := scanLoop_pass onLine ht pre slack 0 ⟨pre.length, acc⟩
    simp only [joinLines_nil, List.nil_append, List.length_nil, Nat.zero_add, Nat.add_zero] at hp ⊢
    rw [hp]
    rfl
  | cons l ls ih =>
    have hp := scanLoop_pass onLine (hls l (by simp)) pre (LF :: (joinLines LF ls ++ (t ++ slack)))
      ((joinLines LF ls).length + t.length + 1) ⟨pre.length, acc⟩
    simp only [joinLines_cons, List.append_assoc, List.cons_append, List.length_append, List.length_cons]
    rw [show l.length + ((joinLines LF ls).length + 1) + t.length =
      l.length + ((joinLines LF ls).length + t.length + 1) by omega, hp, scanLoop, scanStep_line onLine hpre]
    rw [scanLines]
    by_cases hl : l = []
    · rw [if_pos hl, if_pos hl]
      rfl
    · rw [if_neg hl, if_neg hl]
      by_cases hs : StopsAt pre l
      · rw [if_pos hs, if_pos hs]
        obtain ⟨h₁, -, -⟩ := hs
        rw [h₁]
        rfl
      · rw [if_neg hs, if_neg hs, ok_bind]
        have hpos := List.length_pos_of_ne_nil hl
        have hpre' : LinesBefore (pre ++ l ++ [LF]) := by
          refine Or.inr ⟨List.suffix_append _ _, ?_⟩
          simp only [List.length_append, List.length_cons, List.length_nil]
          omega
        have hi := ih (fun l' hl' => hls l' (by simp [hl'])) hpre' (takeLine onLine pre l acc)
        simp only [List.append_assoc, List.cons_append, List.nil_append, List.length_append, List.length_cons,
          List.length_nil] at hi ⊢
        rw [show pre.length + l.length + 1 = pre.length + (l.length + (0 + 1)) by omega, hi]
        congr 1
        funext r
        congr 2
        omega

/-- The whole scan, of the first `len` bytes of a piece of memory. -/
theorem scanHeaders_lines (onLine : σ → Bytes → σ) {data t : Bytes} {len : Int} {ls : List Bytes} (hpos : 0 < len)
    (hlen : len ≤ data.length) (h : Lines LF (data.take len.toNat) ls t) (acc : σ) (remainPos : Int) :
    scanHeaders onLine data len acc remainPos =
      (scanLines onLine [] ls acc).map (fun r => (true, r.2, (r.1.getD len.toNat : Int) + 1)) := by
  obtain ⟨heq, hls, ht⟩ := h
  have hdata : data = [] ++ (joinLines LF ls ++ (t ++ data.drop len.toNat)) := by
    rw [List.nil_append, ← List.append_assoc, ← heq, List.take_append_drop]
  have hn : (joinLines LF ls).length + t.length = len.toNat := by
    rw [← List.length_append, ← heq, List.length_take]
    omega
  have hloop := scanLoop_lines onLine hls ht (data.drop len.toNat) (Or.inl rfl : LinesBefore []) acc
  rw [← hdata, hn] at hloop
  simp only [List.length_nil, Nat.zero_add, hn] at hloop
  unfold scanHeaders
  rw [if_neg (by omega)]
  generalize scanLoop onLine data len.toNat 0 ⟨0, acc⟩ = x at hloop ⊢
  generalize scanLines onLine [] ls acc = y at hloop ⊢
  cases x with
  | error e =>
    cases y with
    | error e' => cases hloop; rfl
    | ok r => cases hloop
  | ok r =>
    cases y with
    | error e' => cases hloop
    | ok r' =>
      simp only [Except.map, Except.ok.injEq, Prod.mk.injEq] at hloop
      obtain ⟨h₁, h₂⟩ := hloop
      simp only [ok_bind, Except.map, pure, Except.pure, h₁, h₂]

/-! ## Lines the scan runs through -/

/-- Behind the text `pre` the scan runs through all of these lines, with no fault and no break. -/
def Passes : Bytes → List Bytes → Prop
  | _, [] => True
  | pre, l :: ls => l ≠ [] ∧ ¬StopsAt pre l ∧ Passes (pre ++ l ++ [LF]) ls

/-- What lines the scan runs through give. -/
def foldLines (onLine : σ → Bytes → σ) : Bytes → List Bytes → σ → σ
  | _, [], acc => acc
  | pre, l :: ls, acc => foldLines onLine (pre ++ l ++ [LF]) ls (takeLine onLine pre l acc)

/-- The text behind more lines. -/
theorem append_joinLines_cons (pre l : Bytes) (ls : List Bytes) :
    pre ++ l ++ [LF] ++ joinLines LF ls = pre ++ joinLines LF (l :: ls) := by
  simp

theorem passes_append {pre : Bytes} {ls ls' : List Bytes} :
    Passes pre (ls ++ ls') ↔ Passes pre ls ∧ Passes (pre ++ joinLines LF ls) ls' := by
  induction ls generalizing pre with
  | nil => simp [Passes]
  | cons l ls ih =>
    rw [List.cons_append, Passes, Passes, ih, append_joinLines_cons]
    tauto

/-- The scan runs through lines of two bytes and more. -/
theorem passes_of_two_le {ls : List Bytes} (h : ∀ l ∈ ls, 2 ≤ l.length) (pre : Bytes) : Passes pre ls := by
  induction ls generalizing pre with
  | nil => trivial
  | cons l ls ih =>
    have h₂ := h l (by simp)
    refine ⟨?_, ?_, ih (fun l' hl' => h l' (by simp [hl'])) _⟩
    · rintro rfl
      simp at h₂
    · rintro ⟨h₁, -⟩
      omega

/-- Lines the scan runs through are read before the lines behind them. -/
theorem scanLines_append {onLine : σ → Bytes → σ} {pre : Bytes} {ls : List Bytes} (h : Passes pre ls) (ls' : List Bytes)
    (acc : σ) :
    scanLines onLine pre (ls ++ ls') acc = scanLines onLine (pre ++ joinLines LF ls) ls' (foldLines onLine pre ls acc) := by
  induction ls generalizing pre acc with
  | nil => simp [foldLines]
  | cons l ls ih =>
    obtain ⟨hl, hs, hp⟩ := h
    rw [List.cons_append, scanLines, if_neg hl, if_neg hs, ih hp, foldLines, append_joinLines_cons]

/-- The scan of lines it runs through ends behind them. -/
theorem scanLines_of_passes {onLine : σ → Bytes → σ} {pre : Bytes} {ls : List Bytes} (h : Passes pre ls) (acc : σ) :
    scanLines onLine pre ls acc = .ok (none, foldLines onLine pre ls acc) := by
  have hn : scanLines onLine pre (ls ++ []) acc = _ := scanLines_append h [] acc
  rw [List.append_nil] at hn
  rw [hn, scanLines]

/-- The scan breaks at the first line it stops at, whatever comes behind. -/
theorem scanLines_of_stopsAt {onLine : σ → Bytes → σ} {pre l : Bytes} {ls : List Bytes} (h : Passes pre ls)
    (hs : StopsAt (pre ++ joinLines LF ls) l) (ls' : List Bytes) (acc : σ) :
    scanLines onLine pre (ls ++ l :: ls') acc =
      .ok (some ((pre ++ joinLines LF ls).length + 1), foldLines onLine pre ls acc) := by
  have hl : l ≠ [] := by
    rintro rfl
    simp [StopsAt] at hs
  rw [scanLines_append h, scanLines, if_neg hl, if_pos hs]

/-- What a scan that does not fault can have done: it ran through all lines, or it broke at one of them. -/
theorem scanLines_cases {onLine : σ → Bytes → σ} {pre : Bytes} {ls : List Bytes} {acc acc' : σ} {stop : Option Nat}
    (h : scanLines onLine pre ls acc = .ok (stop, acc')) :
    Passes pre ls ∧ stop = none ∧ acc' = foldLines onLine pre ls acc ∨
      ∃ ls₁ l ls₂, ls = ls₁ ++ l :: ls₂ ∧ Passes pre ls₁ ∧ StopsAt (pre ++ joinLines LF ls₁) l ∧
        stop = some ((pre ++ joinLines LF ls₁).length + 1) ∧ acc' = foldLines onLine pre ls₁ acc := by
  induction ls generalizing pre acc with
  | nil =>
    cases h
    exact Or.inl ⟨trivial, rfl, rfl⟩
  | cons l ls ih =>
    rw [scanLines] at h
    by_cases hl : l = []
    · rw [if_pos hl] at h
      cases h
    · rw [if_neg hl] at h
      by_cases hs : StopsAt pre l
      · rw [if_pos hs] at h
        cases h
        exact Or.inr ⟨[], l, ls, rfl, trivial, by simpa using hs, by simp, rfl⟩
      · rw [if_neg hs] at h
        rcases ih h with ⟨hp, hn, ha⟩ | ⟨ls₁, l', ls₂, rfl, hp, hs', hn, ha⟩
        · exact Or.inl ⟨⟨hl, hs, hp⟩, hn, ha⟩
        · rw [append_joinLines_cons] at hs' hn
          exact Or.inr ⟨l :: ls₁, l', ls₂, rfl, ⟨hl, hs, hp⟩, hs', hn, ha⟩

/-- A scan that faults met an empty line behind lines it ran through. -/
theorem scanLines_eq_error {onLine : σ → Bytes → σ} {pre : Bytes} {ls : List Bytes} {acc : σ} {e : Fault}
    (h : scanLines onLine pre ls acc = .error e) : ∃ ls₁ ls₂, ls = ls₁ ++ [] :: ls₂ ∧ Passes pre ls₁ := by
  induction ls generalizing pre acc with
  | nil => cases h
  | cons l ls ih =>
    by_cases hl : l = []
    · exact ⟨[], ls, by rw [hl]; rfl, trivial⟩
    · rw [scanLines, if_neg hl] at h
      by_cases hs : StopsAt pre l
      · rw [if_pos hs] at h
        cases h
      · rw [if_neg hs] at h
        obtain ⟨ls₁, ls₂, rfl, hp⟩ := ih h
        exact ⟨l :: ls₁, ls₂, rfl, hl, hs, hp⟩

/-- A scan reads outside of its text in front of it only. -/
theorem outOfRange_of_scanLines {onLine : σ → Bytes → σ} {pre : Bytes} {ls : List Bytes} {acc : σ} {i : Int}
    (h : scanLines onLine pre ls acc = .error (.outOfRange i)) : i = -1 := by
  induction ls generalizing pre acc with
  | nil => cases h
  | cons l ls ih =>
    rw [scanLines] at h
    split at h
    · split at h
      · cases h
        rfl
      · cases h
    · split at h
      · cases h
      · exact ih h

/-! ## Where the scan breaks, in bytes -/

/-- The scan has nothing to break at in lines it runs through: behind their first byte no byte stands alone on a line behind CR LF. -/
theorem not_break_of_passes {p t : Bytes} {ls : List Bytes} (h : Lines LF p ls t) (hp : Passes [] ls) {b : Bytes} (hb : b ≠ [])
    {x : UInt8} (hx : x ≠ LF) : ¬b ++ [CR, LF, x, LF] <+: p := by
  rintro ⟨r, hsplit⟩
  obtain ⟨m, u, hm⟩ := exists_lines LF b
  obtain ⟨m', t', hm'⟩ := exists_lines LF r
  -- CR is the end of one line, and the byte is the whole of the next
  have hlf : ∀ l ∈ m ++ [u ++ [CR], [x]], LF ∉ l := by
    intro l hl
    rcases List.mem_append.mp hl with hl | hl
    · exact hm.line l hl
    · simp only [List.mem_cons, List.not_mem_nil, or_false] at hl
      rcases hl with rfl | rfl
      · simp only [List.mem_append, List.mem_singleton, not_or]
        exact ⟨hm.tail, by decide⟩
      · simpa using hx.symm
  have hlines : Lines LF p (m ++ [u ++ [CR], [x]] ++ m') t' := by
    have hl := hm'.append_left hlf
    have he : joinLines LF (m ++ [u ++ [CR], [x]]) ++ r = p := by
      rw [← hsplit, hm.eq]
      simp
    rwa [he] at hl
  obtain ⟨rfl, -⟩ := h.unique hlines
  have hpass := (passes_append.mp hp).1
  rw [show m ++ [u ++ [CR], [x]] = (m ++ [u ++ [CR]]) ++ [[x]] by simp] at hpass
  obtain ⟨-, hstop, -⟩ := (passes_append.mp hpass).2
  refine hstop ⟨rfl, ?_, ?_⟩
  · rw [joinLines_append, joinLines_cons, joinLines_nil]
    exact ⟨joinLines LF m ++ u, by simp⟩
  · have hlen := List.length_pos_of_ne_nil hb
    rw [hm.eq, List.length_append] at hlen
    simp only [List.nil_append, joinLines_append, joinLines_cons, joinLines_nil, List.length_append, List.length_cons,
      List.length_nil]
    omega

/-- The first `e` bytes of a text end in a line of one byte behind CR LF, and something stands in front of that. -/
def BreakEnds (d : Bytes) (e : Nat) : Prop := ∃ b x, b ≠ [] ∧ x ≠ LF ∧ d.take e = b ++ [CR, LF, x, LF]

/-- Lines the scan runs through have no break in them. -/
theorem not_breakEnds_of_passes {p d t : Bytes} {ls : List Bytes} (h : Lines LF p ls t) (hp : Passes [] ls) (hpre : p <+: d)
    {e : Nat} (he : e ≤ p.length) : ¬BreakEnds d e := by
  rintro ⟨b, x, hb, hx, htake⟩
  obtain ⟨r, rfl⟩ := hpre
  rw [List.take_append_of_le_length he] at htake
  refine not_break_of_passes h hp hb hx ?_
  rw [← htake]
  exact List.take_prefix e p

/-- The text up to the line the scan stops at, and that line. -/
theorem take_of_stopsAt {d t l : Bytes} {ls ls' : List Bytes} (h : Lines LF d (ls ++ l :: ls') t) (hl : l.length = 1) :
    (joinLines LF ls).length + 2 ≤ d.length ∧ d.take ((joinLines LF ls).length + 2) = joinLines LF ls ++ (l ++ [LF]) := by
  have heq : d = (joinLines LF ls ++ (l ++ [LF])) ++ (joinLines LF ls' ++ t) := by
    rw [h.eq, joinLines_append, joinLines_cons]
    simp
  have hlen : (joinLines LF ls).length + 2 = (joinLines LF ls ++ (l ++ [LF])).length := by
    rw [List.length_append, List.length_append, hl]
    rfl
  rw [hlen, heq]
  exact ⟨(List.prefix_append _ _).length_le, List.take_left⟩

/-- The scan stops where a break ends. -/
theorem breakEnds_of_stopsAt {d t l : Bytes} {ls ls' : List Bytes} (h : Lines LF d (ls ++ l :: ls') t)
    (hs : StopsAt (joinLines LF ls) l) : BreakEnds d ((joinLines LF ls).length + 2) := by
  have htake := (take_of_stopsAt h hs.1).2
  obtain ⟨hl, ⟨q, hq⟩, hlen⟩ := hs
  obtain ⟨x, rfl⟩ := List.length_eq_one_iff.mp hl
  have hx : x ≠ LF := by
    have hline := h.line [x] (by simp)
    simpa [eq_comm] using hline
  refine ⟨q, x, ?_, hx, ?_⟩
  · rintro rfl
    rw [← hq] at hlen
    exact absurd hlen (by decide)
  · rw [htake, ← hq, List.append_assoc]
    rfl

/-- That break is the first one. -/
theorem not_breakEnds_before_stop {d t l : Bytes} {ls ls' : List Bytes} (h : Lines LF d (ls ++ l :: ls') t) (hp : Passes [] ls)
    (hs : StopsAt (joinLines LF ls) l) {e : Nat} (he : e < (joinLines LF ls).length + 2) : ¬BreakEnds d e := by
  have hlines : Lines LF (joinLines LF ls ++ l) ls l := ⟨rfl, fun l' hl' => h.line l' (by simp [hl']), h.line l (by simp)⟩
  have hpre : joinLines LF ls ++ l <+: d := by
    rw [h.eq, joinLines_append, joinLines_cons]
    exact ⟨LF :: (joinLines LF ls' ++ t), by simp⟩
  refine not_breakEnds_of_passes hlines hp hpre ?_
  rw [List.length_append, hs.1]
  omega

/-! ## Scans that differ in what they make of a line -/

section Map

variable {τ : Type}

/-- What the loop carries, with a picture of what the lines gave. -/
def Scan.map (f : σ → τ) (s : Scan σ) : Scan τ := { pos := s.pos, acc := f s.acc }

/-- A turn of the loop looks at the bytes and at the start of the line alone. -/
theorem scanStep_map {onLine : σ → Bytes → σ} {onLine' : τ → Bytes → τ} {f : σ → τ}
    (h : ∀ acc head, f (onLine acc head) = onLine' (f acc) head) (data : Bytes) (i : Nat) (s : Scan σ) :
    scanStep onLine' data i (s.map f) = (scanStep onLine data i s).map (Option.map (Scan.map f)) := by
  obtain ⟨pos, acc⟩ := s
  unfold scanStep
  dsimp only [Scan.map]
  cases readAt data i with
  | error e => rfl
  | ok b =>
    rw [ok_bind, ok_bind]
    split
    · cases scanEndsLine data i with
      | error e => rfl
      | ok ends =>
        rw [ok_bind, ok_bind]
        split
        · split
          · cases scanBlankLine data i pos with
            | error e => rfl
            | ok blank =>
              rw [ok_bind, ok_bind]
              split
              · rfl
              · cases stringAt data pos ((i : Int) - pos - 1) with
                | error e => rfl
                | ok head =>
                  rw [ok_bind, ok_bind, ← h]
                  rfl
          · rfl
        · rfl
    · rfl

/-- So does the loop. -/
theorem scanLoop_map {onLine : σ → Bytes → σ} {onLine' : τ → Bytes → τ} {f : σ → τ}
    (h : ∀ acc head, f (onLine acc head) = onLine' (f acc) head) (data : Bytes) (n i : Nat) (s : Scan σ) :
    scanLoop onLine' data n i (s.map f) = (scanLoop onLine data n i s).map (fun r => (r.1, r.2.map f)) := by
  induction n generalizing i s with
  | zero => rfl
  | succ n ih =>
    rw [scanLoop, scanLoop, scanStep_map h]
    cases scanStep onLine data i s with
    | error e => rfl
    | ok r =>
      cases r with
      | none => rfl
      | some s' => exact ih (i + 1) s'

/-- Two scans with the same picture of what the lines give fault at the same index, or end at the same one with the same picture. -/
theorem scanHeaders_map {onLine : σ → Bytes → σ} {onLine' : τ → Bytes → τ} {f : σ → τ}
    (h : ∀ acc head, f (onLine acc head) = onLine' (f acc) head) (data : Bytes) (len : Int) (acc : σ) (remainPos : Int) :
    scanHeaders onLine' data len (f acc) remainPos =
      (scanHeaders onLine data len acc remainPos).map (fun r => (r.1, f r.2.1, r.2.2)) := by
  unfold scanHeaders
  split
  · rfl
  · have hloop := scanLoop_map h data len.toNat 0 { pos := 0, acc := acc }
    rw [Scan.map] at hloop
    rw [hloop]
    cases scanLoop onLine data len.toNat 0 { pos := 0, acc := acc } with
    | error e => rfl
    | ok r => rfl

end Map

end FrontServer
