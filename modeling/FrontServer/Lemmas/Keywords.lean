import FrontServer.HttpBuf

/-!
# The keyword comparison

`HttpBuf::IsHttpHeader` compares up to four bytes, whatever the length of the segment. What it gives depends on the memory from the
segment's address on: whether that begins with a keyword, or ends inside of one.
-/

namespace FrontServer

/-- The keywords `HttpBuf::IsHttpHeader` looks for. -/
def keywords : List Bytes := [ascii "POST", ascii "GET", ascii "HTTP"]

/-- A text begins with a keyword. -/
def HasKeyword (d : Bytes) : Prop := ∃ k ∈ keywords, k <+: d

/-- A text ends inside of a keyword it has the front of. -/
def EndsInKeyword (d : Bytes) : Prop := ∃ k ∈ keywords, d <+: k ∧ d ≠ k

instance (d : Bytes) : Decidable (HasKeyword d) := inferInstanceAs (Decidable (∃ k ∈ keywords, k <+: d))

instance (d : Bytes) : Decidable (EndsInKeyword d) := inferInstanceAs (Decidable (∃ k ∈ keywords, d <+: k ∧ d ≠ k))

/-- No keyword is the front of another one. -/
theorem keyword_eq_of_prefix : ∀ k ∈ keywords, ∀ k' ∈ keywords, k <+: k' → k = k' := by decide

/-- A text with a whole keyword does not end inside of one. -/
theorem not_endsInKeyword {d : Bytes} (h : HasKeyword d) : ¬EndsInKeyword d := by
  rintro ⟨k', hk', hd, hne⟩
  obtain ⟨k, hk, hkd⟩ := h
  obtain rfl := keyword_eq_of_prefix k hk k' hk' (hkd.trans hd)
  exact hne (hd.eq_of_length_le hkd.length_le)

theorem length_keyword_le : ∀ k ∈ keywords, k.length ≤ 4 := by decide

theorem EndsInKeyword.length_lt {d : Bytes} (h : EndsInKeyword d) : d.length < 4 := by
  obtain ⟨k, hk, hd, hne⟩ := h
  have hlen := length_keyword_le k hk
  have hlt : d.length < k.length := lt_of_le_of_ne hd.length_le fun he => hne (hd.eq_of_length he)
  omega

/-- Keywords differ in their first letter, so a text that ends inside of one is known by that and its length. -/
theorem EndsInKeyword.eq_of_length {d d' : Bytes} (h : EndsInKeyword d) (h' : EndsInKeyword d') (hne : d ≠ [])
    (hhead : d.head? = d'.head?) (hlen : d.length = d'.length) : d = d' := by
  obtain ⟨k, hk, ⟨r, rfl⟩, -⟩ := h
  obtain ⟨k', hk', ⟨r', rfl⟩, -⟩ := h'
  have hletter : ∀ k ∈ keywords, ∀ k' ∈ keywords, k.head? = k'.head? → k = k' := by decide
  have hne' : d' ≠ [] := fun he => hne (List.length_eq_zero_iff.mp (by rw [hlen, he]; rfl))
  have heq := hletter _ hk _ hk' (by rw [List.head?_append_of_ne_nil _ hne, List.head?_append_of_ne_nil _ hne', hhead])
  exact (List.append_inj heq hlen).1

namespace HttpBuf

/-- `IsHttpHeader` of a text that is not empty finds a keyword, reads behind the text inside of one, or finds none. -/
theorem isHttpHeader_cases (d : Bytes) {len : Int} (hlen : len ≠ 0) :
    HasKeyword d ∧ isHttpHeader d len = .ok true ∨
      EndsInKeyword d ∧ isHttpHeader d len = .error (.outOfRange d.length) ∨
      (¬HasKeyword d ∧ ¬EndsInKeyword d) ∧ isHttpHeader d len = .ok false := by
  unfold isHttpHeader
  rw [if_neg (Ne.symm hlen)]
  rcases strncmp_cases (t := ascii "POST") (by decide) d with ⟨h, e⟩ | ⟨h, e⟩ | ⟨hpost, c, e, hc⟩
  · exact Or.inl ⟨⟨_, by decide, h⟩, by rw [show 4 = (ascii "POST").length by rfl, e]; rfl⟩
  · exact Or.inr (Or.inl ⟨⟨_, by decide, h⟩, by rw [show 4 = (ascii "POST").length by rfl, e]; rfl⟩)
  rw [show strncmp d (ascii "POST") 4 = .ok c from e, ok_bind, if_neg (Ne.symm hc)]
  rcases strncmp_cases (t := ascii "GET") (by decide) d with ⟨h, e⟩ | ⟨h, e⟩ | ⟨hget, c, e, hc⟩
  · exact Or.inl ⟨⟨_, by decide, h⟩, by rw [show strncmp d (ascii "GET") 3 = _ from e]; rfl⟩
  · exact Or.inr (Or.inl ⟨⟨_, by decide, h⟩, by rw [show strncmp d (ascii "GET") 3 = _ from e]; rfl⟩)
  rw [show strncmp d (ascii "GET") 3 = .ok c from e, ok_bind, if_neg (Ne.symm hc)]
  rcases strncmp_cases (t := ascii "HTTP") (by decide) d with ⟨h, e⟩ | ⟨h, e⟩ | ⟨hhttp, c, e, hc⟩
  · exact Or.inl ⟨⟨_, by decide, h⟩, by rw [show strncmp d (ascii "HTTP") 4 = _ from e]; rfl⟩
  · exact Or.inr (Or.inl ⟨⟨_, by decide, h⟩, by rw [show strncmp d (ascii "HTTP") 4 = _ from e]; rfl⟩)
  refine Or.inr (Or.inr ⟨⟨?_, ?_⟩, ?_⟩)
  · simp [HasKeyword, keywords, hpost, hget, hhttp]
  · simp [EndsInKeyword, keywords, hpost, hget, hhttp]
  · rw [show strncmp d (ascii "HTTP") 4 = .ok c from e, ok_bind, beq_false_of_ne (Ne.symm hc)]
    rfl

theorem isHttpHeader_eq_ok {d : Bytes} {len : Int} (hlen : len ≠ 0) {isHttp : Bool} :
    isHttpHeader d len = .ok isHttp ↔ ¬EndsInKeyword d ∧ (isHttp = true ↔ HasKeyword d) := by
  rcases isHttpHeader_cases d hlen with ⟨h, e⟩ | ⟨h, e⟩ | ⟨⟨h, hcut⟩, e⟩
  · rw [e]
    simp [h, not_endsInKeyword h, eq_comm]
  · rw [e]
    simp [h]
  · rw [e]
    simp [h, hcut, eq_comm]

theorem isHttpHeader_of_not_cut {d : Bytes} {len : Int} (hlen : len ≠ 0) (hcut : ¬EndsInKeyword d) :
    isHttpHeader d len = .ok (decide (HasKeyword d)) :=
  (isHttpHeader_eq_ok hlen).mpr ⟨hcut, decide_eq_true_iff⟩

/-- A payload that begins with none of the first letters of the keywords is no HTTP header. -/
theorem isHttpHeader_of_ne {b : UInt8} (hp : b ≠ 80) (hg : b ≠ 71) (hh : b ≠ 72) (bs : Bytes) (len : Int) :
    isHttpHeader (b :: bs) len = .ok false := by
  by_cases hlen : len = 0
  · subst hlen
    rfl
  have hletters : keywords = [80 :: ascii "OST", 71 :: ascii "ET", 72 :: ascii "TTP"] := by rfl
  refine (isHttpHeader_eq_ok hlen).mpr ⟨?_, ?_⟩
  · simp [EndsInKeyword, hletters, List.cons_prefix_cons, hp, hg, hh]
  · simp [HasKeyword, hletters, List.cons_prefix_cons, Ne.symm hp, Ne.symm hg, Ne.symm hh]

/-- The keyword comparison stays inside of four bytes. -/
theorem exists_isHttpHeader {d : Bytes} (h : 4 ≤ d.length) (len : Int) : ∃ isHttp, isHttpHeader d len = .ok isHttp := by
  by_cases hlen : len = 0
  · exact ⟨false, by rw [hlen]; rfl⟩
  · have hcut : ¬EndsInKeyword d := by
      rintro ⟨k, hk, hd, hne⟩
      have hk₄ := length_keyword_le k hk
      exact hne (hd.eq_of_length_le (by omega))
    exact ⟨_, isHttpHeader_of_not_cut hlen hcut⟩

end HttpBuf

end FrontServer
