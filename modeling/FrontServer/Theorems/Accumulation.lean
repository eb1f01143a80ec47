import FrontServer.CurlOp

/-!
# The response is put together from its chunks

Every chunk but the first goes to a new array, behind the text so far. There the terminator is written at the place it would have in an
array for the chunk alone, so it is overwritten, and what ends the text is what the array happened to hold.
-/

namespace FrontServer

namespace CurlOp

/-- The text of some chunks. -/
def concat (chunks : List Chunk) : Bytes := (chunks.map Chunk.ptr).flatten

/-- A buffer that holds a text, with one byte behind it. -/
def holding (text : Bytes) (last : UInt8) : Buffer := { data := some (text ++ [last]), len := text.length }

/-- The byte behind the text, after a chunk that comes behind `text`. -/
def endByte (text : Bytes) (c : Chunk) : UInt8 := if text = [] then 0 else c.fresh (text ++ c.ptr).length

/-- The byte behind the text after some more chunks. -/
def lastByte : Bytes → UInt8 → List Chunk → UInt8
  | _, last, [] => last
  | text, _, c :: cs => lastByte (text ++ c.ptr) (endByte text c) cs

theorem length_newChars (fresh : Nat → UInt8) (n : Nat) : (newChars fresh n).length = n := by
  rw [newChars, List.length_map, List.length_range]

/-- A new array with one byte written: its last byte is that one, or what the array held there. -/
theorem drop_set_newChars (fresh : Nat → UInt8) (m k : Nat) (b : UInt8) :
    ((newChars fresh (m + 1)).set k b).drop m = [if k = m then b else fresh m] := by
  have hm : m < ((newChars fresh (m + 1)).set k b).length := by
    rw [List.length_set, length_newChars]
    omega
  have hnil : ((newChars fresh (m + 1)).set k b).drop (m + 1) = [] := by
    refine List.drop_eq_nil_of_le ?_
    rw [List.length_set, length_newChars]
  rw [List.drop_eq_getElem_cons hm, hnil, List.getElem_set]
  simp [newChars]

/-- The first chunk. -/
theorem onHttpData_first (c : Chunk) (hnul : 0 ∉ c.ptr) (hlen : c.ptr.length < 2 ^ 31) :
    onHttpData (some c.ptr) c.size c.nmemb (some { data := none, len := 0 }) c.fresh =
      .ok (c.size * c.nmemb, some (holding c.ptr 0)) := by
  have hcopy : strncpy ((newChars c.fresh (c.ptr.length + 1)).set c.ptr.length 0) 0 c.ptr c.ptr.length = .ok (c.ptr ++ [0]) := by
    rw [strncpy_of_not_mem (Nat.le_refl _) (by rwa [List.take_length]) (by simp [length_newChars]), Nat.zero_add, drop_set_newChars,
      if_pos rfl, List.take_zero, List.take_length, List.nil_append]
  have hstore : storeAt (newChars c.fresh (c.ptr.length + 1)) c.ptr.length 0 =
      .ok ((newChars c.fresh (c.ptr.length + 1)).set c.ptr.length 0) :=
    if_pos (by rw [length_newChars]; omega)
  have hint : checkedInt (c.ptr.length : Nat) = .ok (c.ptr.length : Nat) := if_pos (by omega)
  rw [onHttpData]
  dsimp only
  rw [← c.length_eq, hstore, ok_bind, hint, ok_bind, hcopy]
  rfl

/-- A chunk behind a text. -/
theorem onHttpData_next (c : Chunk) {text : Bytes} (last : UInt8) (htext : 0 ∉ text) (hnul : 0 ∉ c.ptr)
    (hlen : (text ++ c.ptr).length < 2 ^ 31) :
    onHttpData (some c.ptr) c.size c.nmemb (some (holding text last)) c.fresh =
      .ok (c.size * c.nmemb, some (holding (text ++ c.ptr) (endByte text c))) := by
  rw [List.length_append] at hlen
  -- the new array, with the zero at the length of the chunk
  generalize hnew : (newChars c.fresh (text.length + c.ptr.length + 1)).set c.ptr.length 0 = new
  have hlength : new.length = text.length + c.ptr.length + 1 := by rw [← hnew, List.length_set, length_newChars]
  have hend : new.drop (text.length + c.ptr.length) = [endByte text c] := by
    rw [← hnew, drop_set_newChars, endByte, List.length_append]
    have hiff : c.ptr.length = text.length + c.ptr.length ↔ text = [] := by
      rw [← List.length_eq_zero_iff]
      omega
    simp only [hiff]
  have hstore : storeAt (newChars c.fresh (text.length + c.ptr.length + 1)) c.ptr.length 0 = .ok new := by
    rw [← hnew]
    exact if_pos (by rw [length_newChars]; omega)
  have hold : strncpy new 0 (text ++ [last]) text.length = .ok (text ++ new.drop text.length) := by
    rw [strncpy_of_not_mem (by simp) (by rwa [List.take_left]) (by omega), Nat.zero_add, List.take_zero, List.take_left,
      List.nil_append]
  have hrecv : strncpy (text ++ new.drop text.length) text.length c.ptr c.ptr.length = .ok (text ++ c.ptr ++ [endByte text c]) := by
    rw [strncpy_of_not_mem (Nat.le_refl _) (by rwa [List.take_length]) (by simp; omega), List.take_left, List.take_length,
      List.drop_length_add_append, List.drop_drop, hend]
  have hint : checkedInt ((text.length : Int) + (c.ptr.length : Nat)) = .ok ((text.length : Int) + (c.ptr.length : Nat)) :=
    if_pos (by omega)
  rw [onHttpData, holding]
  dsimp only
  rw [← c.length_eq, Int.toNat_natCast, hstore, ok_bind, hold, ok_bind, hrecv, ok_bind, hint, ok_bind, holding, List.length_append]
  rfl

/-! ## A run of chunks -/

theorem concat_append (cs cs' : List Chunk) : concat (cs ++ cs') = concat cs ++ concat cs' := by
  rw [concat, List.map_append, List.flatten_append]
  rfl

theorem concat_cons (c : Chunk) (cs : List Chunk) : concat (c :: cs) = c.ptr ++ concat cs := rfl

theorem not_mem_concat {chunks : List Chunk} (hnul : ∀ c ∈ chunks, 0 ∉ c.ptr) : 0 ∉ concat chunks := by
  intro h
  obtain ⟨_, hl, h⟩ := List.mem_flatten.mp h
  obtain ⟨c, hc, rfl⟩ := List.mem_map.mp hl
  exact hnul c hc h

/-- Chunks behind a text. -/
theorem deliver_holding {cs : List Chunk} (hnul : ∀ c ∈ cs, 0 ∉ c.ptr) {text : Bytes} (htext : 0 ∉ text)
    (hlen : (text ++ concat cs).length < 2 ^ 31) (last : UInt8) :
    deliver cs (some (holding text last)) = .ok (some (holding (text ++ concat cs) (lastByte text last cs))) := by
  induction cs generalizing text last with
  | nil =>
    rw [deliver, concat, List.map_nil, List.flatten_nil, List.append_nil]
    rfl
  | cons c cs ih =>
    have hc := hnul c List.mem_cons_self
    rw [concat_cons, ← List.append_assoc] at hlen ⊢
    have hcut : (text ++ c.ptr).length < 2 ^ 31 := by
      rw [List.length_append] at hlen
      omega
    have htext' : 0 ∉ text ++ c.ptr := by
      intro h
      exact (List.mem_append.mp h).elim htext hc
    rw [deliver, onHttpData_next c last htext hc hcut, ok_bind]
    dsimp only
    rw [if_pos rfl, ih (fun c' hc' => hnul c' (List.mem_cons_of_mem _ hc')) htext' hlen, lastByte]

/-- The last chunk decides about the byte behind the text. -/
theorem lastByte_append_singleton (cs : List Chunk) (c : Chunk) (text : Bytes) (last : UInt8) :
    lastByte text last (cs ++ [c]) = endByte (text ++ concat cs) c := by
  induction cs generalizing text last with
  | nil =>
    rw [concat, List.map_nil, List.flatten_nil, List.append_nil]
    rfl
  | cons c' cs ih => rw [List.cons_append, lastByte, ih, concat_cons, List.append_assoc]

/-- What the buffer holds after a chunk, whatever the chunks before it. -/
theorem deliver_append_singleton {before : List Chunk} {c : Chunk} (hnul : ∀ c' ∈ before ++ [c], 0 ∉ c'.ptr)
    (hlen : (concat (before ++ [c])).length < 2 ^ 31) :
    deliver (before ++ [c]) (some { data := none, len := 0 }) =
      .ok (some (holding (concat (before ++ [c])) (endByte (concat before) c))) := by
  cases before with
  | nil =>
    have hfirst := onHttpData_first c (hnul c (by simp)) (by simpa [concat] using hlen)
    rw [List.nil_append, deliver, hfirst, ok_bind]
    dsimp only
    rw [if_pos rfl, deliver, concat_cons, concat, List.map_nil, List.flatten_nil, List.append_nil]
    rfl
  | cons c₀ before =>
    have h₀ := hnul c₀ List.mem_cons_self
    rw [List.cons_append] at hnul
    rw [List.cons_append, concat_cons] at hlen ⊢
    have hfirst := onHttpData_first c₀ h₀ (by rw [List.length_append] at hlen; omega)
    rw [deliver, hfirst, ok_bind]
    dsimp only
    rw [if_pos rfl, deliver_holding (fun c' hc' => hnul c' (List.mem_cons_of_mem _ hc')) h₀ hlen, lastByte_append_singleton, concat_cons]

/-- After each chunk the buffer holds the text of the chunks so far with a zero behind it, and their total length, and `GetHttpReturn`
stores the whole text, exactly when each chunk that comes behind a text finds a zero at the end of the new array. -/
theorem response_concat_iff (chunks : List Chunk) (hnul : ∀ c ∈ chunks, 0 ∉ c.ptr) (hlen : (concat chunks).length < 2 ^ 31) :
    ((∀ before c after, chunks = before ++ c :: after →
        deliver (before ++ [c]) (some { data := none, len := 0 }) =
          .ok (some { data := some (concat (before ++ [c]) ++ [0]), len := (concat (before ++ [c])).length })) ∧
      (chunks ≠ [] → ∀ curlOk old, getHttpReturn true chunks curlOk (some old) = .ok (curlOk, some (concat chunks)))) ↔
      ∀ before c after, chunks = before ++ c :: after →
        concat before = [] ∨ c.fresh (concat (before ++ [c])).length = 0 := by
  have hcut : ∀ before c after, chunks = before ++ c :: after →
      deliver (before ++ [c]) (some { data := none, len := 0 }) =
        .ok (some (holding (concat (before ++ [c])) (endByte (concat before) c))) := by
    rintro before c after rfl
    have hsplit : before ++ c :: after = before ++ [c] ++ after := by simp
    rw [hsplit] at hnul hlen
    rw [concat_append, List.length_append] at hlen
    exact deliver_append_singleton (fun c' hc' => hnul c' (List.mem_append_left _ hc')) (by omega)
  have hend : ∀ before c, endByte (concat before) c = 0 ↔ concat before = [] ∨ c.fresh (concat (before ++ [c])).length = 0 := by
    intro before c
    have htext : concat (before ++ [c]) = concat before ++ c.ptr := by
      rw [concat_append, concat_cons, concat, concat, List.map_nil, List.flatten_nil, List.append_nil]
    rw [endByte, htext]
    by_cases hempty : concat before = []
    · rw [if_pos hempty]
      exact iff_of_true rfl (Or.inl hempty)
    · rw [if_neg hempty]
      exact (or_iff_right hempty).symm
  constructor
  · rintro ⟨hbuffer, -⟩ before c after hsplit
    have hsame := (hcut before c after hsplit).symm.trans (hbuffer before c after hsplit)
    rw [← hend]
    simpa [holding] using hsame
  · intro hzero
    refine ⟨fun before c after hsplit => ?_, fun hne curlOk old => ?_⟩
    · rw [hcut before c after hsplit, (hend before c).mpr (hzero before c after hsplit)]
      rfl
    · obtain ⟨before, c, hlast⟩ : ∃ before c, chunks = before ++ [c] := ⟨_, _, (List.dropLast_append_getLast hne).symm⟩
      have hdeliver := hcut before c [] hlast
      rw [← hlast, (hend before c).mpr (hzero before c [] hlast)] at hdeliver
      have htext : stringOf (concat chunks ++ [0]) = .ok (concat chunks) := (stringOf_eq_iff (not_mem_concat hnul) 0 []).mpr rfl
      rw [getHttpReturn]
      simp only [Bool.not_true, Bool.false_eq_true, if_false, hdeliver, ok_bind, holding, Option.bind_some, htext]
      rfl

/-- A chunk of one byte, for which the array allocated is full of ones. -/
def oneByte (b : UInt8) : Chunk := ⟨[b], 1, 1, rfl, fun _ => 1⟩

/-- The second of two chunks leaves the text without its end. -/
theorem response_unterminated :
    ¬∀ chunks : List Chunk, (∀ c ∈ chunks, 0 ∉ c.ptr) → (concat chunks).length < 2 ^ 31 →
        (∀ before c after, chunks = before ++ c :: after →
          deliver (before ++ [c]) (some { data := none, len := 0 }) =
            .ok (some { data := some (concat (before ++ [c]) ++ [0]), len := (concat (before ++ [c])).length })) ∧
        (chunks ≠ [] → ∀ curlOk old, getHttpReturn true chunks curlOk (some old) = .ok (curlOk, some (concat chunks))) := by
  intro h
  have hbuffer := (h [oneByte 97, oneByte 98] (by decide) (by decide)).1 [oneByte 97] (oneByte 98) [] rfl
  exact absurd hbuffer (by decide)

/-- Two chunks. -/
def twoChunks : List Chunk := [oneByte 97, oneByte 98]

theorem response_concat_iff_twoChunks :
    ((∀ before c after, twoChunks = before ++ c :: after →
        deliver (before ++ [c]) (some { data := none, len := 0 }) =
          .ok (some { data := some (concat (before ++ [c]) ++ [0]), len := (concat (before ++ [c])).length })) ∧
      (twoChunks ≠ [] → ∀ curlOk old, getHttpReturn true twoChunks curlOk (some old) = .ok (curlOk, some (concat twoChunks)))) ↔
      ∀ before c after, twoChunks = before ++ c :: after →
        concat before = [] ∨ c.fresh (concat (before ++ [c])).length = 0 :=
  response_concat_iff twoChunks (by decide) (by decide)

end CurlOp

end FrontServer
