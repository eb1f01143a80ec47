import FrontServer.Lemmas.HeadEnds
import FrontServer.Lemmas.HttpMessage

/-!
# What can become of an unfinished head

A head whose blank line is not there yet becomes the head of a message when the array has room left for the rest of it: for the blank
line and the body behind a length that is declared, for the end of the line that declares one, or for another line that does. A length
below zero needs no blank line. `Unfinished` lists these cases with the bytes that each of them takes. A head that bytes were put behind
and that then declares a length in the array was `Unfinished` before (`Unfinished.of_lines`), and an `Unfinished` one `Completes`.
-/

namespace FrontServer

namespace HttpBuf

open HttpFlow

/-! ## Fields -/

/-- The value that stands after more lines: one of theirs, or else the one before them. -/
theorem fieldOf_append (name : Bytes) (ls ls' : List Bytes) :
    fieldOf name (ls ++ ls') = (fieldOf name ls').or (fieldOf name ls) := by
  unfold fieldOf
  rw [List.filterMap_append, List.getLast?_append]

theorem fieldOf_cons (name l : Bytes) (ls : List Bytes) :
    fieldOf name (l :: ls) = (fieldOf name ls).or (lineField name l.dropLast) := by
  have hone : fieldOf name [l] = lineField name l.dropLast := by
    unfold fieldOf
    cases hl : lineField name l.dropLast with
    | none => simp [hl]
    | some v => simp [hl]
  rw [← hone, ← List.singleton_append, fieldOf_append]

theorem fieldOf_concat (name l : Bytes) (ls : List Bytes) :
    fieldOf name (ls ++ [l]) = (lineField name l.dropLast).or (fieldOf name ls) := by
  rw [fieldOf_append, fieldOf_cons]
  rfl

/-- A value comes from a line, and the lines take more bytes than the name and the value. -/
theorem length_lt_of_fieldOf {name value : Bytes} {ls : List Bytes} (h : fieldOf name ls = some value) :
    name.length + value.length + 2 < (joinLines LF ls).length := by
  induction ls with
  | nil => cases h
  | cons l ls ih =>
    rw [fieldOf_cons] at h
    rw [joinLines_cons, List.length_append, List.length_cons]
    cases hf : fieldOf name ls with
    | some v =>
      rw [hf, Option.some_or] at h
      cases h
      have := ih hf
      omega
    | none =>
      rw [hf, Option.none_or] at h
      have hlt := length_lt_of_lineField h
      rw [List.length_dropLast] at hlt
      omega

/-! ## The line before a blank line -/

/-- Lines that the reader runs through are not empty. -/
theorem two_le_of_passes {pre : Bytes} {ls : List Bytes} (h : Passes pre ls) (hne : ls ≠ []) : 2 ≤ (joinLines LF ls).length := by
  cases ls with
  | nil => exact absurd rfl hne
  | cons l ls =>
    have hpos := List.length_pos_of_ne_nil h.1
    rw [joinLines_cons, List.length_append, List.length_cons]
    omega

/-- The reader stops at a line when the one in front of it ends in CR. -/
theorem stopsAt_concat {ls : List Bytes} {l b : Bytes} (hl : l ≠ []) :
    StopsAt (joinLines LF (ls ++ [l])) b ↔
      b.length = 1 ∧ l.getLast? = some CR ∧ 3 ≤ (joinLines LF (ls ++ [l])).length := by
  obtain ⟨l, c, rfl⟩ := List.eq_nil_or_concat' l |>.resolve_left hl
  have heq : joinLines LF (ls ++ [l ++ [c]]) = (joinLines LF ls ++ l) ++ [c, LF] := by simp
  have hsuffix : [CR, LF] <:+ joinLines LF (ls ++ [l ++ [c]]) ↔ c = CR := by
    rw [heq]
    constructor
    · intro h
      have hlast := List.suffix_of_suffix_length_le h (List.suffix_append _ [c, LF]) le_rfl
      have hboth := hlast.eq_of_length rfl
      exact (List.cons.inj hboth).1.symm
    · rintro rfl
      exact List.suffix_append _ _
  unfold StopsAt
  rw [hsuffix, List.getLast?_concat, Option.some.injEq]

/-! ## Room for a message -/

/-- A head of `n` bytes can be made one that declares this length and fits the array: a length below zero when there is room for
`line` bytes more, and any other when there is room for the body behind `blank` bytes more, with which the head ends. -/
def LeavesRoom (n line blank : Nat) (length : Int) : Prop :=
  if length < 0 then -(readBufSize : Int) ≤ length ∧ n + line ≤ readBufSize else length + (n + blank : Nat) ≤ readBufSize

/-- Fewer bytes leave room where more do. -/
theorem LeavesRoom.mono {n line blank n' line' blank' : Nat} {length : Int} (h : LeavesRoom n line blank length)
    (hline : n' + line' ≤ n + line) (hblank : 0 ≤ length → n' + blank' ≤ n + blank) : LeavesRoom n' line' blank' length := by
  unfold LeavesRoom at h ⊢
  split
  · rename_i hneg
    rw [if_pos hneg] at h
    exact ⟨h.1, hline.trans h.2⟩
  · rename_i hpos
    rw [if_neg hpos] at h
    have := hblank (by omega)
    omega

/-- The number of bytes that end a head of these lines and this unfinished line, which is not to declare a length. -/
def blankBytes (ls : List Bytes) (t : Bytes) : Nat :=
  if StopsAt (joinLines LF ls) t then 1 -- LF
  else if t = [] ∧ StopsAt (joinLines LF ls) [CR] then 2 -- CR LF
  else if t.getLast? = some CR ∧ lineField contentLength t.dropLast = none then 3 -- LF CR LF
  else if lineField contentLength t = none then 4 -- CR LF CR LF
  else 5 -- a second colon in the line, and CR LF CR LF

/-- A head of `n` bytes, with these lines and this unfinished line, has room left for becoming the head of a message. -/
inductive Unfinished (n : Nat) (ls : List Bytes) (t : Bytes) : Prop where
  /-- The lines declare a length, and there is room for the end of the head, or none is needed. -/
  | declared {value : Bytes} (h : fieldOf contentLength ls = some value)
      (hroom : LeavesRoom n 0 (blankBytes ls t) (atoi (cStr value)))
  /-- The unfinished line declares one when it ends here: with LF, and LF CR LF or LF CR LF CR LF for a blank line. -/
  | ended {value : Bytes} (h : lineField contentLength t.dropLast = some value)
      (hroom : LeavesRoom n 1 (if t.getLast? = some CR then 3 else 5) (atoi (cStr value)))
  /-- It declares one with these digits, CR LF behind them, and CR LF for a blank line. -/
  | counted {ds value : Bytes} (hd : ∀ d ∈ ds, isDigit d) (h : lineField contentLength (t ++ ds) = some value)
      (hroom : LeavesRoom n (ds.length + 2) (ds.length + 4) (atoi (cStr value)))
  /-- It is a beginning of the name, and there is room for the rest of the name, a colon, -1 and CR LF. -/
  | named (hc : colon ∉ t) (h : Utils.trimStr (t ++ contentLength.drop (t.dropWhile (· == 32)).length) = contentLength)
      (hroom : n + (contentLength.length - (t.dropWhile (· == 32)).length) + 5 ≤ readBufSize)
  /-- There is room for LF and another line, the name, a colon, -1 and CR LF, and for CR in front of them where the reader would stop. -/
  | further (ht : t ≠ []) (hroom : n + (if StopsAt (joinLines LF ls) t then 21 else 20) ≤ readBufSize)

/-! ## What a head became was unfinished -/

variable {n : Nat} {ls : List Bytes} {t : Bytes}

/-- A line that came to declare a length needs no more than digits, where its colon was there. -/
theorem Unfinished.of_lineField_of_mem {y value : Bytes} (hc : colon ∈ t) (h : lineField contentLength (t ++ y) = some value)
    (hroom : LeavesRoom n (y.length + 2) (y.length + 4) (atoi (cStr value))) : Unfinished n ls t := by
  obtain ⟨name, u, rfl, hn, hu, hy, hk, rfl⟩ := lineField_append_of_mem hc h
  have hwith : ∀ ds, (∀ d ∈ ds, isDigit d) →
      lineField contentLength (name ++ colon :: u ++ ds) = some (Utils.trimStr (u ++ ds)) := by
    intro ds hds
    refine lineField_eq_some.mpr ⟨name, u ++ ds, by simp, hn, ?_, hk, rfl⟩
    rw [List.mem_append, not_or]
    exact ⟨hu, fun hm => absurd (hds colon hm) (by decide)⟩
  rw [atoi_trimStr] at hroom
  rcases atoi_append_cases u y with hsame | ⟨hzero, hrest⟩
  · have hdigits : ∀ d ∈ y.takeWhile isDigit, isDigit d := fun d hd => List.mem_takeWhile_imp hd
    have hle := (List.takeWhile_prefix (l := y) isDigit).length_le
    refine Unfinished.counted hdigits (hwith _ hdigits) ?_
    rw [atoi_trimStr, ← hsame]
    exact hroom.mono (by omega) fun _ => by omega
  · -- what was there is blank, and so is a length of zero
    have hnone : ∀ d ∈ ([] : Bytes), isDigit d := nofun
    refine Unfinished.counted hnone (hwith [] hnone) ?_
    rw [atoi_trimStr, List.append_nil, hzero]
    unfold LeavesRoom at hroom ⊢
    rw [if_neg (by omega), List.length_nil]
    split at hroom
    · rename_i hneg
      rw [hrest] at hneg
      have htwo := two_le_of_atoi_neg hneg
      omega
    · omega

/-- Trimming goes on in front of what is trimmed off. -/
theorem rdropWhile_append {p : UInt8 → Bool} {r s : Bytes} (hs : ∀ b ∈ s, p b) : (r ++ s).rdropWhile p = r.rdropWhile p := by
  induction s using List.reverseRecOn with
  | nil => rw [List.append_nil]
  | append_singleton s b ih =>
    rw [← List.append_assoc, List.rdropWhile_concat_pos _ _ _ (hs b (by simp))]
    exact ih fun b' hb' => hs b' (by simp [hb'])

/-- The name of the header is a piece of it that is there, and the rest. -/
theorem trimStr_append_drop {z : Bytes} (h : Utils.trimStr (t ++ z) = contentLength) :
    Utils.trimStr (t ++ contentLength.drop (t.dropWhile (· == 32)).length) = contentLength ∧
      contentLength.length - (t.dropWhile (· == 32)).length ≤ z.length := by
  have hself : contentLength.rdropWhile (· == 32) = contentLength := by decide
  unfold Utils.trimStr at h ⊢
  rw [List.dropWhile_append] at h ⊢
  by_cases hd : t.dropWhile (· == 32) = []
  · have hempty : (t.dropWhile (· == 32)).isEmpty = true := by rw [hd]; rfl
    rw [if_pos hempty] at h ⊢
    rw [hd]
    refine ⟨by decide, ?_⟩
    rw [← h]
    exact length_trimStr_le z
  · have hempty : ¬(t.dropWhile (· == 32)).isEmpty = true := by rwa [List.isEmpty_iff]
    rw [if_neg hempty] at h ⊢
    generalize t.dropWhile (· == 32) = d at h ⊢
    have hpre : contentLength <+: d ++ z := h ▸ List.rdropWhile_prefix _ _
    have hlen := hpre.length_le
    rw [List.length_append] at hlen
    refine ⟨?_, by omega⟩
    rcases List.prefix_or_prefix_of_prefix (List.prefix_append d z) hpre with hd | ⟨s, rfl⟩
    · rw [List.prefix_iff_eq_append.mp hd, hself]
    · -- the name is there, and only blanks can be behind it
      have hspaces : ∀ b ∈ s, (b == 32) = true := by
        have heq := List.rdropWhile_append_rtakeWhile (p := (· == 32)) (l := contentLength ++ s ++ z)
        rw [h, List.append_assoc, List.append_cancel_left_eq] at heq
        intro b hb
        have hmem : b ∈ s ++ z := List.mem_append_left z hb
        rw [← heq] at hmem
        exact List.mem_rtakeWhile_imp (p := (· == 32)) hmem
      rw [List.drop_eq_nil_of_le (by rw [List.length_append]; omega), List.append_nil, rdropWhile_append hspaces, hself]

/-- The reader can be brought to the end of the head with no more bytes than it took. -/
theorem blankBytes_le (ls : List Bytes) {y : Bytes} {k : Nat} (hl : lineField contentLength (t ++ y).dropLast = none)
    (h : (t ++ y).getLast? = some CR ∨ 2 ≤ k) : blankBytes ls t ≤ y.length + 3 + k := by
  unfold blankBytes
  split
  · omega
  split
  · omega
  split
  · omega
  rename_i hthree
  rcases h with hcr | hk
  · rcases List.eq_nil_or_concat' y with rfl | ⟨y, c, rfl⟩
    · rw [List.append_nil] at hl hcr
      exact absurd ⟨hcr, hl⟩ hthree
    · rw [← List.append_assoc, List.dropLast_concat] at hl
      rw [List.length_append, List.length_singleton]
      split
      · omega
      · rename_i hfour
        have hy : y ≠ [] := by
          rintro rfl
          rw [List.append_nil] at hl
          exact hfour hl
        have := List.length_pos_of_ne_nil hy
        omega
  · split
    · omega
    · omega

/-- A line that came to declare a length had a piece of it, or of its name. -/
theorem Unfinished.of_lineField {y value : Bytes} (h : lineField contentLength (t ++ y) = some value)
    (hroom : LeavesRoom n (y.length + 2) (y.length + 4) (atoi (cStr value))) : Unfinished n ls t := by
  by_cases hc : colon ∈ t
  · exact Unfinished.of_lineField_of_mem hc h hroom
  · obtain ⟨z, v, rfl, hname, rfl⟩ := lineField_append_of_not_mem hc h
    obtain ⟨htrim, hlen⟩ := trimStr_append_drop hname
    refine Unfinished.named hc htrim ?_
    have hv := length_trimStr_le v
    unfold LeavesRoom at hroom
    rw [List.length_append, List.length_cons] at hroom
    split at hroom
    · rename_i hneg
      have htwo := two_le_of_atoi_neg hneg
      omega
    · omega

/-- A head that lines were added to, and that leaves room for a message, was unfinished before. -/
theorem Unfinished.of_lines {y value : Bytes} {m : List Bytes} (hn : n = (joinLines LF ls).length + t.length)
    (hpass : Passes [] (ls ++ (t ++ y) :: m)) (hf : fieldOf contentLength (ls ++ (t ++ y) :: m) = some value)
    (hroom : LeavesRoom (joinLines LF (ls ++ (t ++ y) :: m)).length 0 2 (atoi (cStr value)))
    (hstop : 0 ≤ atoi (cStr value) → ∃ b, StopsAt (joinLines LF (ls ++ (t ++ y) :: m)) b) : Unfinished n ls t := by
  have hlen : (joinLines LF (ls ++ (t ++ y) :: m)).length = n + y.length + 1 + (joinLines LF m).length := by
    simp only [joinLines_append, joinLines_cons, List.length_append, List.length_cons]
    omega
  rw [hlen] at hroom
  obtain ⟨-, hline, hstops, hm⟩ := passes_append.mp hpass
  -- behind a line that does not end in CR there are more lines
  have hcr : 0 ≤ atoi (cStr value) → (t ++ y).getLast? = some CR ∨ 2 ≤ (joinLines LF m).length := by
    intro hpos
    obtain ⟨b, hb⟩ := hstop hpos
    by_cases hnil : m = []
    · subst hnil
      exact Or.inl ((stopsAt_concat hline).mp hb).2.1
    · exact Or.inr (two_le_of_passes hm hnil)
  rw [fieldOf_append, fieldOf_cons] at hf
  cases hfm : fieldOf contentLength m with
  | some v =>
    -- a line that came later declares the length
    rw [hfm, Option.some_or, Option.some_or] at hf
    cases hf
    have hm₂ := length_lt_of_fieldOf hfm
    have hname : contentLength.length = 14 := rfl
    have htwenty : n + y.length + 20 ≤ readBufSize := by
      unfold LeavesRoom at hroom
      split at hroom
      · rename_i hneg
        have htwo := two_le_of_atoi_neg hneg
        omega
      · omega
    by_cases ht : t = []
    · subst ht
      exact Unfinished.named List.not_mem_nil (by decide) (by rw [List.dropWhile_nil, List.length_nil]; omega)
    · refine Unfinished.further ht ?_
      split
      · rename_i hs
        have hy : y ≠ [] := by
          rintro rfl
          rw [List.append_nil] at hstops
          exact hstops hs
        have := List.length_pos_of_ne_nil hy
        omega
      · omega
  | none =>
    rw [hfm, Option.none_or] at hf
    cases hl : lineField contentLength (t ++ y).dropLast with
    | some v =>
      -- the line that was unfinished does
      rw [hl, Option.some_or] at hf
      cases hf
      rcases List.eq_nil_or_concat' y with rfl | ⟨y, c, rfl⟩
      · rw [List.append_nil] at hl hcr
        rw [List.length_nil] at hroom
        refine Unfinished.ended hl (hroom.mono (by omega) fun hpos => ?_)
        rcases hcr hpos with hc | hmore
        · rw [if_pos hc]
          omega
        · split
          · omega
          · omega
      · rw [← List.append_assoc, List.dropLast_concat] at hl
        rw [List.length_append, List.length_singleton] at hroom
        exact Unfinished.of_lineField hl (hroom.mono (by omega) fun _ => by omega)
    | none =>
      -- a line that was there does
      rw [hl, Option.none_or] at hf
      refine Unfinished.declared hf (hroom.mono (by omega) fun hpos => ?_)
      have hblank := blankBytes_le ls hl (hcr hpos)
      omega

/-! ## An unfinished head can be made one -/

/-- With more bytes behind it, no more than the array takes, a text begins with a message of at least one byte. -/
def Completes (p : Bytes) : Prop :=
  ∃ x k, p.length + x.length ≤ max p.length readBufSize ∧ 1 ≤ k ∧ BeginsWithDeclared (p ++ x) k

/-- A text completes when it does with more bytes behind it that the array takes. -/
theorem Completes.of_append {p x : Bytes} (h : Completes (p ++ x)) (hlen : p.length + x.length ≤ readBufSize) : Completes p := by
  obtain ⟨x', k, hx', hk, hbegins⟩ := h
  rw [List.append_assoc] at hbegins
  rw [List.length_append] at hx'
  refine ⟨x ++ x', k, ?_, hk, hbegins⟩
  rw [List.length_append]
  omega

/-- The bytes read, with more bytes behind those buffered. -/
theorem take_append_front (q y : Bytes) :
    (q ++ y).take readBufSize = q.take readBufSize ++ y.take (readBufSize - q.length) := List.take_append

/-- A text completes when it has the end of a head, or all of a message, of a length that fits the array. -/
theorem Completes.of_headEnds {p value : Bytes} {e : Nat} (h : HeadEnds (p.take readBufSize) ls e)
    (hf : fieldOf contentLength ls = some value) (hone : 1 ≤ atoi (cStr value) + e) (hmax : atoi (cStr value) + e ≤ readBufSize)
    (hthere : e ≤ (p.take readBufSize).length ∨ atoi (cStr value) + e ≤ p.length) : Completes p := by
  obtain ⟨k, hk⟩ := Int.eq_ofNat_of_zero_le (show 0 ≤ atoi (cStr value) + e by omega)
  have hends : HeadEnds ((p ++ List.replicate (k - p.length) 0).take readBufSize) ls e := by
    rcases hthere with hstop | hle
    · rw [take_append_front]
      exact h.append hstop _
    · rw [Nat.sub_eq_zero_of_le (by omega), List.replicate_zero, List.append_nil]
      exact h
  refine ⟨List.replicate (k - p.length) 0, k, ?_, by omega, ls, e, value, hends, hf, hk, ?_, by omega⟩
  · rw [List.length_replicate]
    omega
  · rw [List.length_append, List.length_replicate]
    omega

variable {q : Bytes}

/-- With a length below zero the head ends behind as many bytes as the array takes. -/
theorem Completes.of_negative {x t' value : Bytes} {new : List Bytes} (hq : Lines LF q ls t) (hx : Lines LF (t ++ x) new t')
    (hpass : Passes [] (ls ++ new)) (hf : fieldOf contentLength (ls ++ new) = some value) (hneg : atoi (cStr value) < 0)
    (hlow : -(readBufSize : Int) ≤ atoi (cStr value)) (hlen : q.length + x.length ≤ readBufSize) : Completes q := by
  generalize hfill : List.replicate (readBufSize - (q.length + x.length)) (32 : UInt8) = fill
  have hfillLen : fill.length = readBufSize - (q.length + x.length) := by rw [← hfill, List.length_replicate]
  have htail : LF ∉ t' ++ fill := by
    rw [List.mem_append, not_or]
    refine ⟨hx.tail, fun hm => ?_⟩
    rw [← hfill] at hm
    exact absurd (List.eq_of_mem_replicate hm) (by decide)
  have hlines := (hq.append hx).append (Lines.of_tail htail)
  rw [List.append_nil, List.append_assoc] at hlines
  have hlenp : (q ++ (x ++ fill)).length = readBufSize := by
    rw [List.length_append, List.length_append]
    omega
  have hends : HeadEnds ((q ++ (x ++ fill)).take readBufSize) (ls ++ new) (readBufSize + 1) := by
    rw [List.take_of_length_le hlenp.le, ← hlenp]
    exact .whole hlines hpass
  refine Completes.of_append (x := x ++ fill) (Completes.of_headEnds hends hf ?_ ?_ (Or.inr ?_)) ?_
  · omega
  · omega
  · omega
  · rw [List.length_append]
    omega

/-- With any other the head ends at a line that the reader stops at. -/
theorem Completes.of_stopsAt {x b value : Bytes} {new : List Bytes} (hq : Lines LF q ls t) (hx : Lines LF (t ++ x) (new ++ [b]) [])
    (hpass : Passes [] (ls ++ new)) (hstop : StopsAt (joinLines LF (ls ++ new)) b)
    (hf : fieldOf contentLength (ls ++ new) = some value) (hpos : 0 ≤ atoi (cStr value))
    (hlen : atoi (cStr value) + (q.length + x.length : Nat) ≤ readBufSize) : Completes q := by
  have hlines := hq.append hx
  rw [← List.append_assoc] at hlines
  have hjoin : (joinLines LF (ls ++ new)).length + 2 = q.length + x.length := by
    have htotal := congrArg List.length hlines.eq
    have hone := hstop.1
    simp only [joinLines_append, joinLines_cons, joinLines_nil, List.length_append, List.length_cons, List.length_nil] at htotal ⊢
    omega
  have hlenp : (q ++ x).length ≤ readBufSize := by
    rw [List.length_append]
    omega
  have hends : HeadEnds ((q ++ x).take readBufSize) (ls ++ new) ((joinLines LF (ls ++ new)).length + 2) := by
    rw [List.take_of_length_le hlenp]
    exact .blank hlines hpass hstop
  refine Completes.of_append (x := x) (Completes.of_headEnds hends hf ?_ ?_ (Or.inl ?_)) ?_
  · omega
  · omega
  · rw [List.take_of_length_le hlenp, List.length_append]
    omega
  · omega

/-- The unfinished line, ended. -/
theorem lines_concat {y : Bytes} (hq : Lines LF q ls t) (hy : LF ∉ y) : Lines LF (q ++ (y ++ [LF])) (ls ++ [t ++ y]) [] := by
  refine hq.append ⟨by simp, List.forall_mem_singleton.mpr ?_, List.not_mem_nil⟩
  rw [List.mem_append, not_or]
  exact ⟨hq.tail, hy⟩

/-- The reader runs through a line more that it does not stop at. -/
theorem passes_concat {l : Bytes} (hpass : Passes [] ls) (hl : l ≠ []) (hs : ¬StopsAt (joinLines LF ls) l) : Passes [] (ls ++ [l]) :=
  passes_append.mpr ⟨hpass, hl, hs, trivial⟩

/-- It does through a line of two bytes and more. -/
theorem passes_concat_of_two_le {l : Bytes} (hpass : Passes [] ls) (hl : 2 ≤ l.length) : Passes [] (ls ++ [l]) :=
  passes_append.mpr ⟨hpass, passes_of_two_le (List.forall_mem_singleton.mpr hl) _⟩

/-- The unfinished line, ended with CR, and a blank line behind it. -/
theorem Completes.of_line {y value : Bytes} (hq : Lines LF q ls t) (hy : LF ∉ y) (hpass : Passes [] (ls ++ [t ++ y]))
    (hcr : (t ++ y).getLast? = some CR) (hf : fieldOf contentLength (ls ++ [t ++ y]) = some value) (hpos : 0 ≤ atoi (cStr value))
    (hlen : atoi (cStr value) + (q.length + (y.length + 3) : Nat) ≤ readBufSize) : Completes q := by
  have hline : LF ∉ t ++ y := by
    rw [List.mem_append, not_or]
    exact ⟨hq.tail, hy⟩
  have hne : t ++ y ≠ [] := by
    intro hnil
    rw [hnil] at hcr
    cases hcr
  have hx : Lines LF (t ++ (y ++ [LF, CR, LF])) ([t ++ y] ++ [[CR]]) [] :=
    ⟨by simp, List.forall_mem_cons.mpr ⟨hline, List.forall_mem_singleton.mpr (by decide)⟩, List.not_mem_nil⟩
  have hlong := length_lt_of_fieldOf hf
  refine Completes.of_stopsAt hq hx hpass ((stopsAt_concat hne).mpr ⟨rfl, hcr, by omega⟩) hf hpos ?_
  simp only [List.length_append, List.length_cons, List.length_nil]
  omega

/-- The unfinished line, written on to one that declares a length. -/
theorem Completes.of_lineField {y value : Bytes} (hq : Lines LF q ls t) (hpass : Passes [] ls) (hy : LF ∉ y)
    (h : lineField contentLength (t ++ y) = some value)
    (hroom : LeavesRoom q.length (y.length + 2) (y.length + 4) (atoi (cStr value))) : Completes q := by
  have hy' : LF ∉ y ++ [CR] := by
    rw [List.mem_append, not_or]
    exact ⟨hy, by decide⟩
  have hlong := length_lt_of_lineField h
  have htwo : 2 ≤ (t ++ (y ++ [CR])).length := by
    rw [← List.append_assoc, List.length_append, List.length_singleton]
    omega
  have hpass' := passes_concat_of_two_le hpass htwo
  have hf : fieldOf contentLength (ls ++ [t ++ (y ++ [CR])]) = some value := by
    rw [fieldOf_concat, ← List.append_assoc, List.dropLast_concat, h]
    rfl
  unfold LeavesRoom at hroom
  split at hroom
  · rename_i hneg
    have hx : Lines LF (t ++ (y ++ [CR, LF])) [t ++ (y ++ [CR])] [] := by
      simpa using lines_concat (.of_tail hq.tail) hy'
    refine Completes.of_negative hq hx hpass' hf hneg hroom.1 ?_
    simp only [List.length_append, List.length_cons, List.length_nil]
    omega
  · refine Completes.of_line hq hy' hpass' ?_ hf (by omega) ?_
    · rw [← List.append_assoc, List.getLast?_concat]
    · rw [List.length_append, List.length_singleton]
      omega

/-- An unfinished head whose lines declare a length. -/
theorem Completes.of_declared {value : Bytes} (hq : Lines LF q ls t) (hpass : Passes [] ls)
    (hf : fieldOf contentLength ls = some value) (hroom : LeavesRoom q.length 0 (blankBytes ls t) (atoi (cStr value)))
    (hlen : q.length ≤ readBufSize) : Completes q := by
  have hf₀ : fieldOf contentLength (ls ++ []) = some value := by rwa [List.append_nil]
  have hpass₀ : Passes [] (ls ++ []) := by rwa [List.append_nil]
  unfold LeavesRoom at hroom
  split at hroom
  · rename_i hneg
    have hx : Lines LF (t ++ []) [] t := by
      rw [List.append_nil]
      exact .of_tail hq.tail
    exact Completes.of_negative hq hx hpass₀ hf₀ hneg hroom.1 (by simpa using hlen)
  · rename_i hpos
    unfold blankBytes at hroom
    split at hroom
    · -- the line feed
      rename_i hs
      have hx : Lines LF (t ++ [LF]) ([] ++ [t]) [] := by simpa using lines_concat (y := []) (.of_tail hq.tail) List.not_mem_nil
      exact Completes.of_stopsAt hq hx hpass₀ (by rwa [List.append_nil]) hf₀ (by omega) (by simpa using hroom)
    rename_i hpasses
    split at hroom
    · -- the blank line
      rename_i hs
      obtain ⟨rfl, hs⟩ := hs
      have hx : Lines LF ([] ++ [CR, LF]) ([] ++ [[CR]]) [] := ⟨rfl, by decide, List.not_mem_nil⟩
      exact Completes.of_stopsAt hq hx hpass₀ (by rwa [List.append_nil]) hf₀ (by omega) (by simpa using hroom)
    rename_i hblank
    have hdeclares : ∀ y, lineField contentLength (t ++ y).dropLast = none → fieldOf contentLength (ls ++ [t ++ y]) = some value := by
      intro y hnone
      rw [fieldOf_concat, hnone, hf]
      rfl
    split at hroom
    · -- the line feed and the blank line
      rename_i hs
      obtain ⟨hcr, hnone⟩ := hs
      rw [← List.append_nil t] at hcr hnone hpasses
      have hne : t ++ [] ≠ [] := by
        intro hnil
        rw [hnil] at hcr
        cases hcr
      exact Completes.of_line hq List.not_mem_nil (passes_concat hpass hne hpasses) hcr (hdeclares _ hnone) (by omega)
        (by simpa using hroom)
    split at hroom
    · -- the rest of the line and the blank line
      rename_i hnone
      have hstop : ¬StopsAt (joinLines LF ls) (t ++ [CR]) := by
        intro hs
        have hone := hs.1
        rw [List.length_append, List.length_singleton] at hone
        have ht : t = [] := List.length_eq_zero_iff.mp (by omega)
        subst ht
        exact hblank ⟨rfl, hs⟩
      refine Completes.of_line (y := [CR]) hq (by decide) (passes_concat hpass (by simp) hstop) (by simp) (hdeclares _ ?_) (by omega)
        (by simpa using hroom)
      rwa [List.dropLast_concat]
    · -- a second colon before it, so that the line does not declare a length
      rename_i hsome
      obtain ⟨v, hv⟩ := Option.ne_none_iff_exists'.mp hsome
      obtain ⟨name, u, rfl, -⟩ := lineField_eq_some.mp hv
      have hcount : lineField contentLength (name ++ colon :: u ++ [colon]) = none := by
        refine lineField_of_count ?_ _
        rw [List.count_append, List.count_append, List.count_cons_self, List.count_singleton_self]
        omega
      have hsplit : name ++ colon :: u ++ [colon, CR] = (name ++ colon :: u ++ [colon]) ++ [CR] := by simp
      refine Completes.of_line (y := [colon, CR]) hq (by decide) (passes_concat_of_two_le hpass ?_)
        (by rw [hsplit, List.getLast?_concat]) (hdeclares _ (by rw [hsplit, List.dropLast_concat, hcount])) (by omega)
        (by simpa using hroom)
      simp only [List.length_append, List.length_cons]
      omega

/-- An unfinished line that declares a length when it ends. -/
theorem Completes.of_ended {value : Bytes} (hq : Lines LF q ls t) (hpass : Passes [] ls)
    (h : lineField contentLength t.dropLast = some value)
    (hroom : LeavesRoom q.length 1 (if t.getLast? = some CR then 3 else 5) (atoi (cStr value))) : Completes q := by
  have hlong := length_lt_of_lineField h
  rw [List.length_dropLast] at hlong
  have hpass' : Passes [] (ls ++ [t]) := passes_concat_of_two_le hpass (by omega)
  have hf : fieldOf contentLength (ls ++ [t]) = some value := by
    rw [fieldOf_concat, h]
    rfl
  unfold LeavesRoom at hroom
  split at hroom
  · rename_i hneg
    have hx : Lines LF (t ++ [LF]) [t] [] := by simpa using lines_concat (y := []) (.of_tail hq.tail) List.not_mem_nil
    exact Completes.of_negative hq hx hpass' hf hneg hroom.1 hroom.2
  · split at hroom
    · rename_i hcr
      rw [← List.append_nil t] at hpass' hf hcr
      exact Completes.of_line hq List.not_mem_nil hpass' hcr hf (by omega) (by simpa using hroom)
    · -- a line of one byte in front of the blank line
      rename_i hcr
      have hq' := lines_concat (y := []) hq List.not_mem_nil
      rw [List.append_nil, List.nil_append] at hq'
      have ht : t ≠ [] := List.ne_nil_of_length_pos (by omega)
      have hpass'' : Passes [] (ls ++ [t] ++ [[] ++ [CR]]) :=
        passes_concat hpass' (by simp) fun hs => hcr ((stopsAt_concat ht).mp hs).2.1
      have hf' : fieldOf contentLength (ls ++ [t] ++ [[] ++ [CR]]) = some value := by
        rw [fieldOf_concat, hf]
        rfl
      refine Completes.of_append (x := [LF]) (Completes.of_line hq' (by decide) hpass'' rfl hf' (by omega) ?_) ?_
      · simp only [List.length_append, List.length_cons, List.length_nil]
        omega
      · simp only [List.length_cons, List.length_nil]
        omega

/-- A length of minus one, behind a name. -/
theorem Completes.of_name {z : Bytes} (hq : Lines LF q ls t) (hpass : Passes [] ls) (hz : LF ∉ z) (hc : colon ∉ t ++ z)
    (hname : Utils.trimStr (t ++ z) = contentLength) (hlen : q.length + z.length + 5 ≤ readBufSize) : Completes q := by
  have hy : LF ∉ z ++ colon :: ascii "-1" := by
    rw [List.mem_append, not_or]
    exact ⟨hz, by decide⟩
  have h : lineField contentLength (t ++ (z ++ colon :: ascii "-1")) = some (ascii "-1") := by
    rw [← List.append_assoc, lineField_field hc (by decide), if_pos hname]
    decide
  have hminus : atoi (cStr (ascii "-1")) = -1 := by decide
  have hthree : (z ++ colon :: ascii "-1").length = z.length + 3 := by
    rw [List.length_append, List.length_cons]
    rfl
  have hroom : LeavesRoom q.length (z.length + 3 + 2) (z.length + 3 + 4) (-1) := by
    unfold LeavesRoom
    rw [if_pos (by decide)]
    exact ⟨by decide, by omega⟩
  refine Completes.of_lineField hq hpass hy h ?_
  rw [hminus, hthree]
  exact hroom

/-- An unfinished head completes. -/
theorem Completes.of_unfinished (hq : Lines LF q ls t) (hpass : Passes [] ls) (h : Unfinished q.length ls t)
    (hlen : q.length ≤ readBufSize) : Completes q := by
  cases h with
  | declared hf hroom => exact Completes.of_declared hq hpass hf hroom hlen
  | ended hl hroom => exact Completes.of_ended hq hpass hl hroom
  | counted hd hl hroom => exact Completes.of_lineField hq hpass (fun hm => absurd (hd LF hm) (by decide)) hl hroom
  | named hc hname hroom =>
    have hdrop : ∀ b ∈ contentLength.drop (t.dropWhile (· == 32)).length, b ∈ contentLength := fun b hb => List.mem_of_mem_drop hb
    refine Completes.of_name hq hpass (fun hm => absurd (hdrop LF hm) (by decide)) ?_ hname (by rw [List.length_drop]; exact hroom)
    rw [List.mem_append, not_or]
    exact ⟨hc, fun hm => absurd (hdrop colon hm) (by decide)⟩
  | further ht hroom =>
    -- behind the end of the line, which takes a byte when the reader would stop at it
    have hnext : ∀ y, LF ∉ y → Passes [] (ls ++ [t ++ y]) → q.length + y.length + 20 ≤ readBufSize → Completes q := by
      intro y hy hpass' hroom
      refine Completes.of_append (x := y ++ [LF])
        (Completes.of_name (z := contentLength) (lines_concat hq hy) hpass' (by decide) (by decide) (by decide) ?_) ?_
      · have hname : contentLength.length = 14 := rfl
        simp only [List.length_append, List.length_singleton]
        omega
      · rw [List.length_append, List.length_singleton]
        omega
    have hpos := List.length_pos_of_ne_nil ht
    split at hroom
    · refine hnext [CR] (by decide) (passes_concat_of_two_le hpass ?_) ?_
      · rw [List.length_append, List.length_singleton]
        omega
      · rw [List.length_singleton]
        omega
    · rename_i hs
      rw [← List.append_nil t] at ht hs
      exact hnext [] List.not_mem_nil (passes_concat hpass ht hs) hroom

end HttpBuf

end FrontServer
