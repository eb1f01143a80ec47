import FrontServer.Lib.CMemory

/-!
# String literals of SQL

A string literal as MySQL reads it in its default mode: between single quotes, a doubled quote stands for one, and a backslash escapes
the byte behind it. `literal` reads one off the front of a statement. `literal_eq_some_iff` says which texts stand for themselves
between quotes.
-/

namespace FrontServer

/-- `'`. -/
def quote : UInt8 := 39

/-- `\`. -/
def backslash : UInt8 := 92

/-- What a backslash and the byte behind it stand for. In front of `%` and `_` the backslash stays, for patterns. -/
def unescape (b : UInt8) : Bytes :=
  if b = 48 then [0]
  else if b = 98 then [8]
  else if b = 110 then [10]
  else if b = 114 then [13]
  else if b = 116 then [9]
  else if b = 90 then [26]
  else if b = 37 ∨ b = 95 then [backslash, b]
  else [b]

/-- Read a literal behind its opening quote: its value and what follows its closing quote, nothing where it is not closed. -/
def literalBody : Bytes → Option (Bytes × Bytes)
  | [] => none
  | b :: r =>
    if b = quote then
      match r with
      | [] => some ([], [])
      | c :: r' => if c = quote then (literalBody r').map (fun p => (quote :: p.1, p.2)) else some ([], c :: r')
    else if b = backslash then
      match r with
      | [] => none
      | c :: r' => (literalBody r').map (fun p => (unescape c ++ p.1, p.2))
    else (literalBody r).map (fun p => (b :: p.1, p.2))

/-- Read a literal off the front of a statement. -/
def literal : Bytes → Option (Bytes × Bytes)
  | [] => none
  | b :: r => if b = quote then literalBody r else none

/-- Nothing in a text means another thing between quotes: there is no quote in it, and every backslash stands in front of `%` or
`_`. -/
def Verbatim (s : Bytes) : Prop := quote ∉ s ∧ ∀ i, s[i]? = some backslash → s[i + 1]? = some 37 ∨ s[i + 1]? = some 95

theorem length_unescape_le (b : UInt8) : (unescape b).length ≤ 2 := by
  unfold unescape
  split_ifs <;> simp

/-- A backslash stays only in front of `%` and `_`. -/
theorem unescape_eq_iff (b : UInt8) : 2 ≤ (unescape b).length ↔ b = 37 ∨ b = 95 := by
  unfold unescape
  split_ifs with h₁ h₂ h₃ h₄ h₅ h₆ h₇
  all_goals first
    | subst b; decide
    | simp [h₇]

theorem unescape_of_pattern {b : UInt8} (h : b = 37 ∨ b = 95) : unescape b = [backslash, b] := by
  rcases h with rfl | rfl <;> decide

/-- Every other byte stands for itself. -/
theorem literalBody_cons {b : UInt8} (hq : b ≠ quote) (hb : b ≠ backslash) (t : Bytes) :
    literalBody (b :: t) = (literalBody t).map (fun p => (b :: p.1, p.2)) := by
  rw [literalBody.eq_def]
  dsimp only
  rw [if_neg hq, if_neg hb]

/-- The value of a literal and what follows are shorter than its text. -/
theorem length_of_literalBody {t v r : Bytes} (h : literalBody t = some (v, r)) : v.length + r.length < t.length := by
  fun_induction literalBody t generalizing v r with
  | case1 => cases h
  | case2 =>
    cases h
    simp
  | case3 t ih =>
    obtain ⟨⟨v', r'⟩, h', he⟩ := Option.map_eq_some_iff.mp h
    cases he
    have hlt := ih h'
    simp only [List.length_cons]
    omega
  | case4 c t hc =>
    cases h
    simp
  | case5 => cases h
  | case6 c t hq ih =>
    obtain ⟨⟨v', r'⟩, h', he⟩ := Option.map_eq_some_iff.mp h
    cases he
    have hlt := ih h'
    have hle := length_unescape_le c
    simp only [List.length_cons, List.length_append]
    omega
  | case7 b t hq hb ih =>
    obtain ⟨⟨v', r'⟩, h', he⟩ := Option.map_eq_some_iff.mp h
    cases he
    have hlt := ih h'
    simp only [List.length_cons]
    omega

theorem verbatim_nil : Verbatim [] := ⟨by simp, by simp⟩

/-- A byte that is neither quote nor backslash stands for itself. -/
theorem verbatim_cons_iff {b : UInt8} (hq : b ≠ quote) (hb : b ≠ backslash) {s : Bytes} : Verbatim (b :: s) ↔ Verbatim s := by
  constructor
  · rintro ⟨hquote, hback⟩
    exact ⟨fun hmem => hquote (List.mem_cons_of_mem b hmem), fun i hi => hback (i + 1) hi⟩
  · rintro ⟨hquote, hback⟩
    refine ⟨fun hmem => ?_, fun i hi => ?_⟩
    · rcases List.mem_cons.mp hmem with hb' | hmem
      · exact hq hb'.symm
      · exact hquote hmem
    · cases i with
      | zero => exact absurd (Option.some.inj hi) hb
      | succ i => exact hback i hi

/-- So do a backslash and the byte behind it where that is `%` or `_`. -/
theorem verbatim_backslash_iff {c : UInt8} {s : Bytes} : Verbatim (backslash :: c :: s) ↔ (c = 37 ∨ c = 95) ∧ Verbatim s := by
  constructor
  · rintro ⟨hquote, hback⟩
    have hc : c = 37 ∨ c = 95 := (hback 0 rfl).imp Option.some.inj Option.some.inj
    exact ⟨hc, fun hmem => hquote (List.mem_cons_of_mem _ (List.mem_cons_of_mem _ hmem)), fun i hi => hback (i + 2) hi⟩
  · rintro ⟨hc, hs⟩
    have hcq : c ≠ quote := by rcases hc with rfl | rfl <;> decide
    have hcb : c ≠ backslash := by rcases hc with rfl | rfl <;> decide
    obtain ⟨hquote, hback⟩ := (verbatim_cons_iff hcq hcb).mpr hs
    refine ⟨fun hmem => ?_, fun i hi => ?_⟩
    · rcases List.mem_cons.mp hmem with heq | hmem
      · exact absurd heq (by decide)
      · exact hquote hmem
    · cases i with
      | zero => exact hc.imp (congrArg some) (congrArg some)
      | succ i => exact hback i hi

/-- A backslash at the end would escape the closing quote. -/
theorem not_verbatim_backslash : ¬Verbatim [backslash] := by
  intro h
  rcases h.2 0 rfl with hnext | hnext <;> cases hnext

/-- A quote in front of a text does not: it closes the literal, or it takes the quote behind it along and the value is too short. -/
theorem literalBody_quote_ne (s : Bytes) : literalBody (quote :: (s ++ [quote])) ≠ some (quote :: s, []) := by
  intro h
  cases s with
  | nil => simp [literalBody] at h
  | cons c s =>
    rw [List.cons_append, literalBody, if_pos rfl] at h
    by_cases hc : c = quote
    · rw [if_pos hc] at h
      obtain ⟨⟨v, r⟩, hbody, hp⟩ := Option.map_eq_some_iff.mp h
      cases hp
      have hlt := length_of_literalBody hbody
      simp at hlt
    · rw [if_neg hc] at h
      cases h

/-- A backslash and the byte behind it have a value of two bytes only where they are themselves, and the rest is too short to make up
for one. -/
theorem literalBody_backslash_iff (c : UInt8) (s : Bytes) :
    literalBody (backslash :: c :: (s ++ [quote])) = some (backslash :: c :: s, []) ↔
      (c = 37 ∨ c = 95) ∧ literalBody (s ++ [quote]) = some (s, []) := by
  rw [literalBody, if_neg (by decide), if_pos rfl]
  constructor
  · intro h
    obtain ⟨⟨v, r⟩, hbody, hp⟩ := Option.map_eq_some_iff.mp h
    obtain ⟨hvalue, rfl⟩ := Prod.mk.inj hp
    have hlt := length_of_literalBody hbody
    have hlen := congrArg List.length hvalue
    simp only [List.length_append, List.length_cons, List.length_nil] at hlt hlen
    have hc : c = 37 ∨ c = 95 := (unescape_eq_iff c).mp (by omega)
    refine ⟨hc, ?_⟩
    rw [unescape_of_pattern hc] at hvalue
    have hv : v = s := List.append_cancel_left hvalue
    rw [hbody, hv]
  · rintro ⟨hc, hbody⟩
    rw [hbody, unescape_of_pattern hc]
    rfl

/-- A text stands for itself between quotes when nothing in it means another thing there. -/
theorem literalBody_eq_some_iff : ∀ s : Bytes, literalBody (s ++ [quote]) = some (s, []) ↔ Verbatim s
  | [] => iff_of_true rfl verbatim_nil
  | b :: s => by
    rw [List.cons_append]
    by_cases hq : b = quote
    · rw [hq]
      exact iff_of_false (literalBody_quote_ne s) (fun h => h.1 List.mem_cons_self)
    · by_cases hb : b = backslash
      · rw [hb]
        match s with
        | [] => exact iff_of_false nofun not_verbatim_backslash
        | c :: s => rw [List.cons_append, literalBody_backslash_iff, verbatim_backslash_iff, literalBody_eq_some_iff s]
      · rw [literalBody_cons hq hb, verbatim_cons_iff hq hb, ← literalBody_eq_some_iff s]
        constructor
        · intro h
          obtain ⟨⟨v, r⟩, hbody, hp⟩ := Option.map_eq_some_iff.mp h
          cases hp
          exact hbody
        · intro h
          rw [h]
          rfl

/-- The same for a whole literal. -/
theorem literal_eq_some_iff (s : Bytes) : literal (quote :: s ++ [quote]) = some (s, []) ↔ Verbatim s := by
  rw [List.cons_append, literal, if_pos rfl]
  exact literalBody_eq_some_iff s

end FrontServer
