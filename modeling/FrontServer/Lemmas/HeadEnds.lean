import FrontServer.Lemmas.HttpFlow

/-!
# The head in front of a text

The header reader reads the complete lines of a text up to the one it breaks at, and the head ends behind that line, or one byte behind
a text without one. `HeadEnds` says which lines these are and where the end is, and `BeginsWithDeclared` what `ParseHttpPkg` takes out.
-/

namespace FrontServer

namespace HttpBuf

open HttpFlow

/-- The lines of the head in a text, and where the head ends: behind a blank line, or one byte behind the text. -/
inductive HeadEnds (p : Bytes) : List Bytes → Nat → Prop where
  | whole {ls : List Bytes} {t : Bytes} (h : Lines LF p ls t) (hpass : Passes [] ls) : HeadEnds p ls (p.length + 1)
  | blank {ls ls' : List Bytes} {l t : Bytes} (h : Lines LF p (ls ++ l :: ls') t) (hpass : Passes [] ls)
      (hstop : StopsAt (joinLines LF ls) l) : HeadEnds p ls ((joinLines LF ls).length + 2)

/-- The head ends at most one byte behind the text. -/
theorem HeadEnds.le {p : Bytes} {ls : List Bytes} {e : Nat} (h : HeadEnds p ls e) : e ≤ p.length + 1 := by
  cases h with
  | whole h hpass => exact le_rfl
  | @blank ls' l t h hpass hstop =>
    have hlen := congrArg List.length h.eq
    rw [joinLines_append, joinLines_cons, List.length_append, List.length_append, List.length_append, List.length_cons] at hlen
    omega

/-- The lines of the head are in the text. -/
theorem HeadEnds.length_le {p : Bytes} {ls : List Bytes} {e : Nat} (h : HeadEnds p ls e) : (joinLines LF ls).length ≤ p.length := by
  cases h with
  | whole h hpass =>
    rw [h.eq, List.length_append]
    exact Nat.le_add_right _ _
  | blank h hpass hstop =>
    rw [h.eq, joinLines_append, List.append_assoc, List.length_append]
    exact Nat.le_add_right _ _

/-- The header reader gives the lines of the head and its end. -/
theorem getHttpHeaders_eq_ok {p : Bytes} (hp : p ≠ []) {ret : Bool} {head : HttpHead} {remainPos : Int} :
    getHttpHeaders p p.length HttpHead.empty 0 = .ok (ret, head, remainPos) ↔
      ∃ ls e, HeadEnds p ls e ∧ ret = true ∧ head = readLines ls HttpHead.empty ∧ remainPos = (e : Nat) := by
  constructor
  · intro h
    rcases getHttpHeaders_cases hp h with ⟨ls, t, hl, hpass, he⟩ | ⟨ls, l, ls', t, hl, hpass, hstop, he⟩
    · cases he
      exact ⟨ls, _, .whole hl hpass, rfl, rfl, rfl⟩
    · cases he
      exact ⟨ls, _, .blank hl hpass hstop, rfl, rfl, rfl⟩
  · rintro ⟨ls, e, hends, rfl, rfl, rfl⟩
    cases hends with
    | whole h hpass => exact getHttpHeaders_of_passes hp h hpass
    | blank h hpass hstop => exact getHttpHeaders_of_stopsAt h hpass hstop

/-- A text with a field in its head is not empty. -/
theorem HeadEnds.ne_nil {p value : Bytes} {ls : List Bytes} {e : Nat} (h : HeadEnds p ls e)
    (hf : fieldOf contentLength ls = some value) : p ≠ [] := by
  rintro rfl
  cases h with
  | whole h hpass =>
    have hnil : joinLines LF ls = [] := (List.append_eq_nil_iff.mp h.eq.symm).1
    cases ls with
    | nil => cases hf
    | cons l ls => simp at hnil
  | @blank ls' l t h hpass hstop =>
    have hnil := (List.append_eq_nil_iff.mp h.eq.symm).1
    simp at hnil

/-- The head that a text has once its end is there stays the same. -/
theorem HeadEnds.append {p : Bytes} {ls : List Bytes} {e : Nat} (h : HeadEnds p ls e) (he : e ≤ p.length) (r : Bytes) :
    HeadEnds (p ++ r) ls e := by
  cases h with
  | whole h hpass => omega
  | @blank ls' l t h hpass hstop =>
    obtain ⟨ls'', t', h'⟩ := exists_lines LF (t ++ r)
    have hlines := h.append h'
    rw [List.append_assoc, List.cons_append] at hlines
    exact .blank hlines hpass hstop

/-- Where the head ends: one byte behind the text, or behind the line that the reader stops at. -/
theorem HeadEnds.cases {p : Bytes} {ls : List Bytes} {e : Nat} (h : HeadEnds p ls e) :
    Passes [] ls ∧ (e = p.length + 1 ∨ e = (joinLines LF ls).length + 2 ∧ ∃ l, StopsAt (joinLines LF ls) l) := by
  cases h with
  | whole h hpass => exact ⟨hpass, Or.inl rfl⟩
  | blank h hpass hstop => exact ⟨hpass, Or.inr ⟨rfl, _, hstop⟩⟩

/-- The head of a text that goes on is the one that was there when its end was. Otherwise its lines are those that were there, with the
unfinished one left out, or more lines behind them, the unfinished one first. -/
theorem HeadEnds.of_append {p r t : Bytes} {ls ls' : List Bytes} {e : Nat} (h : HeadEnds (p ++ r) ls e) (hl : Lines LF p ls' t) :
    HeadEnds p ls e ∧ e ≤ p.length ∨
      Passes [] ls' ∧ (ls = ls' ∧ (e = (p ++ r).length + 1 ∨ ∃ y, StopsAt (joinLines LF ls') (t ++ y)) ∨
        ∃ y m, ls = ls' ++ (t ++ y) :: m) := by
  obtain ⟨new, t', hnew⟩ := exists_lines LF (t ++ r)
  have hall := hl.append hnew
  cases h with
  | whole h hpass =>
    obtain ⟨rfl, -⟩ := h.unique hall
    right
    refine ⟨(passes_append.mp hpass).1, ?_⟩
    cases new with
    | nil => exact Or.inl ⟨List.append_nil _, Or.inl rfl⟩
    | cons l m =>
      obtain ⟨y, rfl⟩ := hnew.prefix_head hl.tail
      exact Or.inr ⟨y, m, rfl⟩
  | @blank rest l t'' h hpass hstop =>
    obtain ⟨heq, -⟩ := h.unique hall
    rcases List.append_eq_append_iff.mp heq with ⟨k, hls', hk⟩ | ⟨k, hls, hk⟩
    · cases k with
      | nil =>
        -- the reader stops at the line that was unfinished
        rw [List.append_nil] at hls'
        rw [List.nil_append] at hk
        subst hls' hk
        obtain ⟨y, rfl⟩ := hnew.prefix_head hl.tail
        exact Or.inr ⟨hpass, Or.inl ⟨rfl, Or.inr ⟨y, hstop⟩⟩⟩
      | cons l' k =>
        -- the reader stops at a line that was there
        rw [List.cons_append, List.cons.injEq] at hk
        obtain ⟨rfl, -⟩ := hk
        subst hls'
        have hends : HeadEnds p ls ((joinLines LF ls).length + 2) := .blank hl hpass hstop
        refine Or.inl ⟨hends, ?_⟩
        have hlen := congrArg List.length hl.eq
        have hone := hstop.1
        simp only [joinLines_append, joinLines_cons, List.length_append, List.length_cons] at hlen
        omega
    · subst hls
      refine Or.inr ⟨(passes_append.mp hpass).1, ?_⟩
      cases k with
      | nil =>
        rw [List.nil_append] at hk
        subst hk
        obtain ⟨y, rfl⟩ := hnew.prefix_head hl.tail
        rw [List.append_nil] at hstop ⊢
        exact Or.inl ⟨rfl, Or.inr ⟨y, hstop⟩⟩
      | cons l' k =>
        rw [List.cons_append] at hk
        subst hk
        obtain ⟨y, rfl⟩ := hnew.prefix_head hl.tail
        exact Or.inr ⟨y, k, rfl⟩

/-- What reading a queue with such a head in front leads to. -/
theorem HeadEnds.parseOutcome_eq {q : Bytes} {ls : List Bytes} {e : Nat} (h : HeadEnds (q.take readBufSize) ls e) (hq : q ≠ []) :
    parseOutcome q = linesOutcome ls e q.length := by
  cases h with
  | whole h hpass => exact parseOutcome_of_passes hq h hpass
  | blank h hpass hstop => exact parseOutcome_of_stopsAt h hpass hstop

end HttpBuf

namespace HttpFlow

open HttpBuf

/-- A text begins with a head and as many bytes behind it as its `Content-Length` declares, `n` bytes in all, which fit the array they
are taken out to. -/
def BeginsWithDeclared (d : Bytes) (n : Nat) : Prop :=
  ∃ ls e value, HeadEnds (d.take readBufSize) ls e ∧ fieldOf contentLength ls = some value ∧ atoi (cStr value) + (e : Nat) = n ∧
    n ≤ d.length ∧ n ≤ readBufSize

/-- What is taken off the front is a head with what it declares. -/
theorem parseOutcome_eq_extract {d : Bytes} {n : Nat} : parseOutcome d = .extract n ↔ BeginsWithDeclared d n := by
  constructor
  · intro h
    have hd : d ≠ [] := by
      rintro rfl
      cases h
    have hf : parseOutcome d ≠ .fault := by
      rw [h]
      simp
    obtain ⟨head, remainPos, hread⟩ := exists_reading hd hf
    obtain ⟨ls, e, hends, -, -, -⟩ := (getHttpHeaders_eq_ok (front_ne_nil hd)).mp hread
    rw [hends.parseOutcome_eq hd, linesOutcome_eq_extract] at h
    obtain ⟨value, hvalue, hn, hle, hmax⟩ := h
    exact ⟨ls, e, value, hends, hvalue, hn, hle, hmax⟩
  · rintro ⟨ls, e, value, hends, hvalue, hn, hle, hmax⟩
    have hd : d ≠ [] := by
      rintro rfl
      exact hends.ne_nil hvalue rfl
    rw [hends.parseOutcome_eq hd, linesOutcome_eq_extract]
    exact ⟨value, hvalue, hn, hle, hmax⟩

end HttpFlow

end FrontServer
