import FrontServer.Lemmas.HttpFlow
import FrontServer.Lemmas.HttpMessage

/-!
# Complete messages at the front of a queue

A message that is complete at the front of the queue is what reading the front takes out (`parseOutcome_complete`), whatever comes
behind it.
-/

namespace FrontServer

namespace CompleteMessage

/-- The lines of the head of a message. -/
def texts (m : CompleteMessage) : List Bytes := m.startLine :: m.fields.map (fun f => f.1 ++ colon :: f.2)

variable (m : CompleteMessage)

/-- The message is its head and its body. -/
theorem bytes_eq : m.bytes = headBytes m.texts ++ m.body := rfl

/-- None of the lines is empty, so the first empty one ends the head. -/
theorem texts_ne_nil : ∀ x ∈ m.texts, x ≠ [] := by
  intro x hx
  rcases List.mem_cons.mp hx with rfl | hx
  · exact m.start_ne
  · obtain ⟨f, -, rfl⟩ := List.mem_map.mp hx
    simp

/-- Each of them is one line. -/
theorem not_mem_texts : ∀ x ∈ m.texts, LF ∉ x := by
  intro x hx
  rcases List.mem_cons.mp hx with rfl | hx
  · exact m.start_line.1
  · obtain ⟨f, hf, rfl⟩ := List.mem_map.mp hx
    obtain ⟨h₁, -, h₂, -⟩ := m.field_line f hf
    simp only [List.mem_append, List.mem_cons, not_or]
    exact ⟨h₁, by decide, h₂⟩

/-- The lengths the lines of the head give: the one of the body. -/
theorem filterMap_texts : m.texts.filterMap (HttpBuf.lineField HttpFlow.contentLength) = [m.length] := by
  rw [texts, List.filterMap_cons_none (HttpBuf.lineField_of_not_mem m.start_line.2 _), ← m.one_length, contentLengths,
    List.filterMap_map, ← List.filterMap_eq_map, List.filterMap_filter]
  refine List.filterMap_congr fun f hf => ?_
  obtain ⟨-, h₁, -, h₂⟩ := m.field_line f hf
  simp only [Function.comp_apply, HttpBuf.lineField_field h₁ h₂, beq_iff_eq]

/-- The length of the body is an `int`. -/
theorem length_body_lt : m.body.length < 2 ^ 31 := by
  have h := m.size_le
  change m.bytes.length ≤ HttpBuf.readBufSize at h
  rw [m.bytes_eq, List.length_append, HttpBuf.readBufSize] at h
  omega

/-- `atoi` reads the declared length, which is the length of the body. -/
theorem atoi_length : atoi (cStr m.length) = m.body.length := by
  have hlt := m.length_body_lt
  rw [← m.length_value] at hlt ⊢
  rw [cStr_of_digits m.length_digits.2, atoi_of_digits m.length_digits.2 hlt]

end CompleteMessage

namespace HttpFlow

open HttpBuf

/-- A message at the front is taken out, whatever comes behind it. -/
theorem parseOutcome_complete (m : CompleteMessage) (r : Bytes) : parseOutcome (m.bytes ++ r) = .extract m.bytes.length := by
  have hsize := m.size_le
  change m.bytes.length ≤ readBufSize at hsize
  obtain ⟨ls, t, hlines⟩ := lines_headBytes m.not_mem_texts ((m.body ++ r).take (readBufSize - (headBytes m.texts).length))
  have hlen : m.bytes.length = (headBytes m.texts).length + m.body.length := by
    rw [m.bytes_eq, List.length_append]
  have htake : (m.bytes ++ r).take readBufSize =
      headBytes m.texts ++ (m.body ++ r).take (readBufSize - (headBytes m.texts).length) := by
    rw [m.bytes_eq, List.append_assoc, List.take_append, List.take_of_length_le (by omega)]
  rw [← htake] at hlines
  rw [parseOutcome_of_stopsAt hlines (passes_texts m.texts_ne_nil []) (stopsAt_texts (List.cons_ne_nil _ _) m.texts_ne_nil),
    linesOutcome_eq_extract]
  refine ⟨m.length, ?_, ?_, ?_, hsize⟩
  · rw [fieldOf_texts, m.filterMap_texts]
    rfl
  · rw [m.atoi_length, hlen, headBytes_eq]
    simp only [List.length_append, List.length_cons, List.length_nil]
    omega
  · rw [List.length_append]
    omega

end HttpFlow

end FrontServer
