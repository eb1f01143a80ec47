import Mathlib

/-!
# Lines, and the first place a pattern ends

A separator cuts a text into lines. `joinLines` writes lines with the separator behind each, and `Lines sep d ls t` says that the
text `d` is the lines `ls` and an unfinished line `t` behind them. A text has exactly one such reading (`exists_lines`,
`Lines.unique`), and a text cut short inside of its lines has the first of them (`prefix_joinLines`). `endOfFirst` is where the
first occurrence of a pattern in a text ends.
-/

namespace FrontServer

variable {α : Type*} {sep : α}

/-- The lines, each with the separator behind it. -/
def joinLines (sep : α) (ls : List (List α)) : List α := (ls.map (· ++ [sep])).flatten

@[simp] theorem joinLines_nil : joinLines sep [] = [] := rfl

@[simp] theorem joinLines_cons (l : List α) (ls : List (List α)) :
    joinLines sep (l :: ls) = l ++ sep :: joinLines sep ls := by
  simp [joinLines]

@[simp] theorem joinLines_append (ls ls' : List (List α)) :
    joinLines sep (ls ++ ls') = joinLines sep ls ++ joinLines sep ls' := by
  simp [joinLines]

/-- A text is these complete lines, with this unfinished line behind them. -/
structure Lines (sep : α) (d : List α) (ls : List (List α)) (t : List α) : Prop where
  eq : d = joinLines sep ls ++ t
  line : ∀ l ∈ ls, sep ∉ l
  tail : sep ∉ t

/-- A text without the separator is an unfinished line. -/
theorem Lines.of_tail {t : List α} (h : sep ∉ t) : Lines sep t [] t := ⟨rfl, by simp, h⟩

/-- Complete lines in front of a text are its first lines. -/
theorem Lines.append_left {d t : List α} {ls ls' : List (List α)} (hl : ∀ l ∈ ls, sep ∉ l) (h : Lines sep d ls' t) :
    Lines sep (joinLines sep ls ++ d) (ls ++ ls') t := by
  refine ⟨?_, ?_, h.tail⟩
  · rw [h.eq, joinLines_append, List.append_assoc]
  · intro l hm
    rcases List.mem_append.mp hm with hm | hm
    · exact hl l hm
    · exact h.line l hm

/-- Lines behind an unfinished line go on from it. -/
theorem Lines.append {d t r t' : List α} {ls ls' : List (List α)} (h : Lines sep d ls t) (h' : Lines sep (t ++ r) ls' t') :
    Lines sep (d ++ r) (ls ++ ls') t' := by
  have hl := h'.append_left h.line
  rwa [← List.append_assoc, ← h.eq] at hl

/-- The first line behind an unfinished line begins with it. -/
theorem Lines.prefix_head {t r t' l : List α} {ls : List (List α)} (ht : sep ∉ t) (h : Lines sep (t ++ r) (l :: ls) t') :
    ∃ y, l = t ++ y := by
  have heq := h.eq
  rw [joinLines_cons, List.append_assoc, List.cons_append] at heq
  rcases List.append_eq_append_iff.mp heq with ⟨y, hy, -⟩ | ⟨c, rfl, hc⟩
  · exact ⟨y, hy⟩
  · cases c with
    | nil => exact ⟨[], by simp⟩
    | cons a c =>
      rw [List.cons_append, List.cons.injEq] at hc
      rw [hc.1] at ht
      simp at ht

/-- A beginning of a text, shorter than the complete lines the text begins with, is the first of these lines and a piece of the
next one. -/
theorem prefix_joinLines {p r : List α} {ls : List (List α)} (hl : ∀ l ∈ ls, sep ∉ l) (hp : p <+: joinLines sep ls ++ r)
    (hlt : p.length < (joinLines sep ls).length) :
    ∃ ls₁ l ls₂ t, ls = ls₁ ++ l :: ls₂ ∧ t <+: l ∧ Lines sep p ls₁ t := by
  induction ls generalizing p with
  | nil => simp at hlt
  | cons l ls ih =>
    have hsep := hl l (by simp)
    by_cases hle : p.length ≤ l.length
    · have hpl : p <+: l := by
        refine List.prefix_of_prefix_length_le hp ?_ hle
        rw [joinLines_cons, List.append_assoc]
        exact List.prefix_append _ _
      exact ⟨[], l, ls, p, rfl, hpl, Lines.of_tail (fun hm => hsep (hpl.subset hm))⟩
    · obtain ⟨q, rfl⟩ : l ++ [sep] <+: p := by
        refine List.prefix_of_prefix_length_le ?_ hp (by simp; omega)
        rw [joinLines_cons]
        exact ⟨joinLines sep ls ++ r, by simp⟩
      have hq : q <+: joinLines sep ls ++ r := by
        have he : joinLines sep (l :: ls) ++ r = (l ++ [sep]) ++ (joinLines sep ls ++ r) := by simp
        exact (List.prefix_append_right_inj _).mp (he ▸ hp)
      have hlt' : q.length < (joinLines sep ls).length := by
        simp only [joinLines_cons, List.length_append, List.length_cons, List.length_nil] at hlt
        omega
      obtain ⟨ls₁, l', ls₂, t, rfl, ht, h⟩ := ih (fun l' hl' => hl l' (by simp [hl'])) hq hlt'
      refine ⟨l :: ls₁, l', ls₂, t, rfl, ht, ?_⟩
      have hl' : ∀ l' ∈ [l], sep ∉ l' := by simpa using hsep
      have h' := h.append_left hl'
      simpa using h'

variable [DecidableEq α]

/-- Every text has a reading as lines. -/
theorem exists_lines (sep : α) (d : List α) : ∃ ls t, Lines sep d ls t := by
  induction d with
  | nil => exact ⟨[], [], Lines.of_tail (by simp)⟩
  | cons a d ih =>
    obtain ⟨ls, t, h⟩ := ih
    by_cases ha : a = sep
    · subst ha
      exact ⟨[] :: ls, t, by rw [h.eq]; simp, by simpa using h.line, h.tail⟩
    · cases ls with
      | nil =>
        refine ⟨[], a :: t, by rw [h.eq]; simp, by simp, ?_⟩
        simp only [List.mem_cons, not_or]
        exact ⟨fun e => ha e.symm, h.tail⟩
      | cons l ls =>
        refine ⟨(a :: l) :: ls, t, by rw [h.eq]; simp, ?_, h.tail⟩
        intro l' hl'
        rcases List.mem_cons.mp hl' with rfl | hl'
        · simp only [List.mem_cons, not_or]
          exact ⟨fun e => ha e.symm, h.line l (by simp)⟩
        · exact h.line l' (by simp [hl'])

/-- Splitting at the separator gives the lines and the unfinished line. -/
theorem Lines.splitOn_eq {d t : List α} {ls : List (List α)} (h : Lines sep d ls t) : d.splitOn sep = ls ++ [t] := by
  obtain ⟨rfl, hl, ht⟩ := h
  induction ls with
  | nil => exact List.splitOn_eq_singleton ht
  | cons l ls ih =>
    rw [joinLines_cons, List.append_assoc, List.cons_append,
      List.splitOn_append_cons_self_of_not_mem (hl l (by simp)), ih (fun l' hl' => hl l' (by simp [hl'])), List.cons_append]

/-- A text has one reading as lines only. -/
theorem Lines.unique {d t t' : List α} {ls ls' : List (List α)} (h : Lines sep d ls t) (h' : Lines sep d ls' t') :
    ls = ls' ∧ t = t' := by
  have he : ls ++ [t] = ls' ++ [t'] := by rw [← h.splitOn_eq, ← h'.splitOn_eq]
  exact List.append_inj' he rfl |>.imp_right (fun e => by simpa using e)

/-! ## The first occurrence of a pattern -/

/-- The number of items up to the end of the first occurrence of a pattern. -/
def endOfFirst (pat d : List α) : Option Nat := (List.range (d.length + 1)).find? (fun e => pat.isSuffixOf (d.take e))

theorem endOfFirst_eq_some {pat d : List α} {e : Nat} :
    endOfFirst pat d = some e ↔ e ≤ d.length ∧ pat <:+ d.take e ∧ ∀ e' < e, ¬pat <:+ d.take e' := by
  unfold endOfFirst
  rw [List.find?_range_eq_some]
  simp only [List.isSuffixOf_iff_suffix, List.mem_range, Bool.not_eq_true', Bool.eq_false_iff, ne_eq]
  constructor
  · rintro ⟨hs, he, hm⟩
    exact ⟨by omega, hs, hm⟩
  · rintro ⟨he, hs, hm⟩
    exact ⟨hs, by omega, hm⟩

theorem endOfFirst_eq_none {pat d : List α} : endOfFirst pat d = none ↔ ∀ e ≤ d.length, ¬pat <:+ d.take e := by
  unfold endOfFirst
  rw [List.find?_eq_none]
  simp only [List.isSuffixOf_iff_suffix, List.mem_range]
  constructor
  · intro h e he
    exact h e (by omega)
  · intro h e he
    exact h e (by omega)

/-- A pattern that occurs in a text occurs there a first time. -/
theorem infix_iff_endOfFirst {pat d : List α} : pat <:+: d ↔ ∃ e, endOfFirst pat d = some e := by
  constructor
  · rintro ⟨b, r, rfl⟩
    cases h : endOfFirst pat (b ++ pat ++ r) with
    | some e => exact ⟨e, rfl⟩
    | none =>
      refine absurd ?_ (endOfFirst_eq_none.mp h (b ++ pat).length (List.prefix_append _ r).length_le)
      rw [List.take_left]
      exact List.suffix_append b pat
  · rintro ⟨e, h⟩
    exact (endOfFirst_eq_some.mp h).2.1.isInfix.trans (List.take_prefix e d).isInfix

end FrontServer
