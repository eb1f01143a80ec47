import FrontServer.Lib.CMemory

/-!
# Numbers in C strings

What `strtol` and `atoi` read: blanks, a sign and digits at the start of a string. Of what is put behind a string only the digits it
begins with matter to the number (`atoi_append_cases`).
-/

namespace FrontServer

/-! ## Numerals -/

/-- A non-empty string of decimal digits. -/
def IsNumeral (v : Bytes) : Prop := v ≠ [] ∧ ∀ d ∈ v, isDigit d

instance (v : Bytes) : Decidable (IsNumeral v) := by unfold IsNumeral; infer_instance

theorem isSpace_of_isDigit {d : UInt8} (h : isDigit d) : isSpace d = false := by
  simp only [isDigit, Bool.and_eq_true, decide_eq_true_eq, UInt8.le_iff_toNat_le] at h
  simp only [isSpace, Bool.or_eq_false_iff, beq_eq_false_iff_ne, ne_eq, Bool.and_eq_false_iff, decide_eq_false_iff_not,
    UInt8.le_iff_toNat_le, ← UInt8.toNat_inj]
  have h₁ : (48 : UInt8).toNat = 48 := rfl
  have h₂ : (32 : UInt8).toNat = 32 := rfl
  have h₃ : (13 : UInt8).toNat = 13 := rfl
  omega

/-- A digit is not a byte that is no digit. -/
theorem ne_of_isDigit {d b : UInt8} (h : isDigit d) (hb : isDigit b = false) : d ≠ b := by
  rintro rfl
  rw [h] at hb
  cases hb

theorem takeWhile_isDigit {v : Bytes} (h : ∀ d ∈ v, isDigit d) : v.takeWhile isDigit = v :=
  List.takeWhile_eq_self_iff.mpr h

/-- A numeral is its own C string. -/
theorem cStr_of_digits {v : Bytes} (h : ∀ d ∈ v, isDigit d) : cStr v = v := by
  refine List.takeWhile_eq_self_iff.mpr fun d hd => ?_
  simpa using ne_of_isDigit (h d hd) (show isDigit 0 = false by decide)

/-- `atoi` of a numeral below `2 ^ 31` is its value. -/
theorem atoi_of_digits {v : Bytes} (h : ∀ d ∈ v, isDigit d) (hlt : digitsValue v < 2 ^ 31) : atoi v = digitsValue v := by
  have hstrtol : strtol v = digitsValue v := by
    unfold strtol
    cases v with
    | nil => rfl
    | cons d ds =>
      have hd := h d (by simp)
      have hdrop : (d :: ds).dropWhile isSpace = d :: ds := by
        rw [List.dropWhile_cons_of_neg]
        rw [isSpace_of_isDigit hd]
        exact Bool.false_ne_true
      dsimp only
      rw [hdrop]
      split
      · rename_i heq
        cases heq
        exact absurd hd (by decide)
      · rename_i heq
        cases heq
        exact absurd hd (by decide)
      · rw [takeWhile_isDigit h]
        omega
  rw [atoi, hstrtol]
  exact Int.bmod_eq_of_le (by omega) (by omega)

/-! ## The number at the start of a value -/

/-- The number in a string of blanks is zero. -/
theorem strtol_of_spaces {s : Bytes} (h : s.dropWhile isSpace = []) : strtol s = 0 := by
  unfold strtol
  rw [h]
  rfl

/-- The digits in front of a text that goes on with none. -/
theorem takeWhile_isDigit_append {r : Bytes} (hr : ∀ c ∈ r.head?, isDigit c = false) (ds : Bytes) :
    (ds ++ r).takeWhile isDigit = ds.takeWhile isDigit := by
  have hnil : r.takeWhile isDigit = [] := by
    cases r with
    | nil => rfl
    | cons c r => rw [List.takeWhile_cons_of_neg (by simp [hr c rfl])]
  rw [List.takeWhile_append, hnil, List.append_nil]
  split
  · rename_i hall
    exact ((List.takeWhile_prefix isDigit).eq_of_length hall).symm
  · rfl

/-- A number without a sign. -/
theorem strtol_of_unsigned {s ds : Bytes} {c : UInt8} (hd : s.dropWhile isSpace = c :: ds) (hminus : c ≠ 45) (hplus : c ≠ 43) :
    strtol s = min (2 ^ 63 - 1) (digitsValue ((c :: ds).takeWhile isDigit)) := by
  unfold strtol
  rw [hd]
  dsimp only
  split
  · rename_i heq
    cases heq
    exact absurd rfl hminus
  · rename_i heq
    cases heq
    exact absurd rfl hplus
  · omega

/-- Behind the start of a number, what does not go on with a digit changes nothing. -/
theorem strtol_append {s r : Bytes} (hs : s.dropWhile isSpace ≠ []) (hr : ∀ c ∈ r.head?, isDigit c = false) :
    strtol (s ++ r) = strtol s := by
  have hdrop : (s ++ r).dropWhile isSpace = s.dropWhile isSpace ++ r := by
    rw [List.dropWhile_append, if_neg]
    rwa [List.isEmpty_iff]
  cases hd : s.dropWhile isSpace with
  | nil => exact absurd hd hs
  | cons c ds =>
    rw [hd, List.cons_append] at hdrop
    by_cases hminus : c = 45
    · subst hminus
      simp only [strtol, hdrop, hd, takeWhile_isDigit_append hr]
    · by_cases hplus : c = 43
      · subst hplus
        simp only [strtol, hdrop, hd, takeWhile_isDigit_append hr]
      · rw [strtol_of_unsigned hdrop hminus hplus, strtol_of_unsigned hd hminus hplus, ← List.cons_append,
          takeWhile_isDigit_append hr]

/-- Blanks behind a value change nothing. -/
theorem strtol_append_spaces {s r : Bytes} (hr : ∀ c ∈ r, isSpace c) : strtol (s ++ r) = strtol s := by
  by_cases hs : s.dropWhile isSpace = []
  · rw [strtol_of_spaces hs, strtol_of_spaces]
    rw [List.dropWhile_append, if_pos (by rw [hs]; rfl), List.dropWhile_eq_nil_iff]
    exact hr
  · refine strtol_append hs fun c hc => ?_
    have hspace := hr c (List.mem_of_mem_head? hc)
    cases hd : isDigit c with
    | false => rfl
    | true =>
      rw [isSpace_of_isDigit hd] at hspace
      cases hspace

/-- Neither do blanks in front of it. -/
theorem strtol_spaces_append {s r : Bytes} (hs : s.dropWhile isSpace = []) : strtol (s ++ r) = strtol r := by
  unfold strtol
  rw [List.dropWhile_append, if_pos (by rw [hs]; rfl)]

/-- A blank behind a value changes no number. -/
theorem atoi_append_space (s : Bytes) : atoi (cStr (s ++ [32])) = atoi (cStr s) := by
  by_cases hz : 0 ∈ s
  · rw [cStr_append_of_mem hz]
  · have hspaces : ∀ c ∈ cStr [32], isSpace c := by
      intro c hc
      rw [List.mem_singleton.mp ((List.takeWhile_prefix _).subset hc)]
      rfl
    rw [cStr_append hz, cStr_of_not_mem hz, atoi, atoi, strtol_append_spaces hspaces]

/-- A negative number takes two bytes. -/
theorem two_le_of_atoi_neg {s : Bytes} (h : atoi (cStr s) < 0) : 2 ≤ s.length := by
  by_contra hlt
  rcases s with _ | ⟨c, _ | ⟨d, s⟩⟩
  · exact absurd h (by decide)
  · have hone : ∀ n < 256, 0 ≤ atoi (cStr [UInt8.ofNat n]) := by decide +kernel
    have hc := hone c.toNat c.toNat_lt
    rw [UInt8.ofNat_toNat] at hc
    omega
  · simp at hlt

/-- What comes behind the start of a value matters as far as it is digits, unless there are only blanks in front of it. -/
theorem atoi_append_cases (u y : Bytes) :
    atoi (cStr (u ++ y)) = atoi (cStr (u ++ y.takeWhile isDigit)) ∨ atoi (cStr u) = 0 ∧ atoi (cStr (u ++ y)) = atoi (cStr y) := by
  by_cases hz : 0 ∈ u
  · left
    rw [cStr_append_of_mem hz, cStr_append_of_mem hz]
  · by_cases hs : (u ++ y.takeWhile isDigit).dropWhile isSpace = []
    · have hu : u.dropWhile isSpace = [] := by
        rw [List.dropWhile_eq_nil_iff] at hs ⊢
        exact fun c hc => hs c (List.mem_append_left _ hc)
      right
      rw [cStr_append hz, cStr_of_not_mem hz, atoi, atoi, atoi, strtol_of_spaces hu, strtol_spaces_append hu]
      exact ⟨rfl, rfl⟩
    · left
      have hz' : 0 ∉ u ++ y.takeWhile isDigit := by
        rw [List.mem_append, not_or]
        exact ⟨hz, fun hm => absurd (List.mem_takeWhile_imp hm) (by decide)⟩
      have hhead : ∀ c ∈ (cStr (y.dropWhile isDigit)).head?, isDigit c = false := by
        intro c hc
        have hlast := List.head?_dropWhile_not isDigit y
        cases hd : y.dropWhile isDigit with
        | nil =>
          rw [hd] at hc
          cases hc
        | cons d r =>
          rw [hd] at hc hlast
          unfold cStr at hc
          rw [List.takeWhile_cons] at hc
          split at hc
          · cases hc
            simpa using hlast
          · cases hc
      calc atoi (cStr (u ++ y)) = atoi (cStr ((u ++ y.takeWhile isDigit) ++ y.dropWhile isDigit)) := by
            rw [List.append_assoc, List.takeWhile_append_dropWhile]
        _ = atoi ((u ++ y.takeWhile isDigit) ++ cStr (y.dropWhile isDigit)) := by rw [cStr_append hz']
        _ = atoi (cStr (u ++ y.takeWhile isDigit)) := by rw [cStr_of_not_mem hz', atoi, atoi, strtol_append hs hhead]

end FrontServer
