import FrontServer.HttpMessage
import FrontServer.Lemmas.HttpHead

/-!
# How the header reader cuts what is written

Splitting a line at its colons, trimming its pieces, and the lines of a written head with anything behind it.
-/

namespace FrontServer

/-! ## Pieces between colons -/

/-- Splitting at the delimiter string of one colon is splitting at colons. -/
theorem splitByDelimiter_colon (line : Bytes) : Utils.splitByDelimiter line (ascii ":") = line.splitOn colon := by
  have hp : (fun b => (ascii ":").contains b) = (fun b : UInt8 => b == colon) := by
    funext b
    simp [ascii, colon, beq_eq_decide]
  rw [Utils.splitByDelimiter, hp, List.splitOn_eq_splitOnP]

/-- A line has one piece more than colons. -/
theorem length_splitByDelimiter (line : Bytes) :
    (Utils.splitByDelimiter line (ascii ":")).length = line.count colon + 1 := by
  rw [splitByDelimiter_colon]
  induction line with
  | nil => rfl
  | cons b line ih =>
    rw [List.splitOn_cons_eq_if_modifyHead, List.count_cons]
    by_cases hb : b == colon
    · rw [if_pos hb, if_pos hb, List.length_cons, ih]
    · rw [if_neg hb, if_neg hb, List.length_modifyHead, ih]

/-- No piece has a colon in it. -/
theorem colon_not_mem_splitByDelimiter (line : Bytes) : ∀ piece ∈ Utils.splitByDelimiter line (ascii ":"), colon ∉ piece := by
  rw [splitByDelimiter_colon]
  induction line with
  | nil => simp
  | cons b line ih =>
    rw [List.splitOn_cons_eq_if_modifyHead]
    by_cases hb : b == colon
    · rw [if_pos hb]
      intro piece hm
      rcases List.mem_cons.mp hm with rfl | hm
      · simp
      · exact ih piece hm
    · rw [if_neg hb]
      have hbc : colon ≠ b := by
        rintro rfl
        exact hb (by decide)
      cases hs : line.splitOn colon with
      | nil => simp
      | cons p ps =>
        rw [hs] at ih
        intro piece hm
        rw [List.modifyHead_cons] at hm
        rcases List.mem_cons.mp hm with rfl | hm
        · simp only [List.mem_cons, not_or]
          exact ⟨hbc, ih p (by simp)⟩
        · exact ih piece (by simp [hm])

/-- A line without a colon is one piece. -/
theorem splitByDelimiter_of_not_mem {line : Bytes} (h : colon ∉ line) :
    Utils.splitByDelimiter line (ascii ":") = [line] := by
  rw [splitByDelimiter_colon, List.splitOn_eq_singleton h]

/-- A name and a value without colons are the pieces of the line that joins them with one. -/
theorem splitByDelimiter_field {name value : Bytes} (hn : colon ∉ name) (hv : colon ∉ value) :
    Utils.splitByDelimiter (name ++ colon :: value) (ascii ":") = [name, value] := by
  rw [splitByDelimiter_colon, List.splitOn_append_cons_self_of_not_mem hn, List.splitOn_eq_singleton hv]

/-! ## Trimming -/

theorem trimStr_of_trimmed {s : Bytes} (h : Trimmed s) : Utils.trimStr s = s := by
  obtain ⟨hh, hl⟩ := h
  unfold Utils.trimStr
  have hd : s.dropWhile (· == 32) = s := by
    cases s with
    | nil => rfl
    | cons b s =>
      rw [List.dropWhile_cons_of_neg]
      simpa using hh
  rw [hd]
  rcases List.eq_nil_or_concat' s with rfl | ⟨s, b, rfl⟩
  · rfl
  · rw [List.rdropWhile_concat_neg]
    simpa using hl

/-- The space behind the colon goes. -/
theorem trimStr_space_cons (s : Bytes) : Utils.trimStr (32 :: s) = Utils.trimStr s := by
  unfold Utils.trimStr
  rw [List.dropWhile_cons_of_pos (by decide)]

/-- Trimming adds no byte. -/
theorem mem_of_mem_trimStr {s : Bytes} {b : UInt8} (h : b ∈ Utils.trimStr s) : b ∈ s :=
  (List.dropWhile_suffix _).subset ((List.rdropWhile_prefix _ _).subset h)

/-- Trimming makes no text longer. -/
theorem length_trimStr_le (s : Bytes) : (Utils.trimStr s).length ≤ s.length :=
  ((List.rdropWhile_prefix _ _).length_le).trans (List.dropWhile_suffix _).length_le

/-! ## A line of a head -/

namespace HttpBuf

theorem lineField_field {name value : Bytes} (hn : colon ∉ name) (hv : colon ∉ value) (key : Bytes) :
    lineField key (name ++ colon :: value) = if Utils.trimStr name = key then some (Utils.trimStr value) else none := by
  unfold lineField
  rw [splitByDelimiter_field hn hv]

/-- A line that one colon does not cut in two is no header. -/
theorem onLine_of_count {line : Bytes} (h : line.count colon ≠ 1) (head : HttpHead) :
    onLine head line = if head.headers = ∅ then { head with firstLine := Utils.trimStr line } else head := by
  have hlen := length_splitByDelimiter line
  unfold onLine
  split
  · rename_i heq
    rw [heq] at hlen
    simp only [List.length_cons, List.length_nil] at hlen
    omega
  · rfl

/-- A line that one colon cuts in two is a header. -/
theorem onLine_of_count_one {line : Bytes} (h : line.count colon = 1) (head : HttpHead) :
    (onLine head line).headers ≠ ∅ ∧ (onLine head line).firstLine = head.firstLine := by
  have hlen := length_splitByDelimiter line
  unfold onLine
  rcases hs : Utils.splitByDelimiter line (ascii ":") with _ | ⟨k, _ | ⟨v, _ | ⟨w, ps⟩⟩⟩
  · simp [hs, h] at hlen
  · simp [hs, h] at hlen
  · refine ⟨fun he => ?_, rfl⟩
    have hlook := congrArg (Finmap.lookup (Utils.trimStr k)) he
    simp at hlook
  · simp [hs, h] at hlen

/-- The value a line gives has no colon in it. -/
theorem colon_not_mem_lineField {key line value : Bytes} (h : lineField key line = some value) : colon ∉ value := by
  have hpieces := colon_not_mem_splitByDelimiter line
  unfold lineField at h
  split at h
  · rename_i k v heq
    rw [heq] at hpieces
    split at h
    · cases h
      exact fun hm => hpieces v (by simp) (mem_of_mem_trimStr hm)
    · cases h
  · cases h

theorem lineField_of_not_mem {line : Bytes} (h : colon ∉ line) (key : Bytes) : lineField key line = none := by
  unfold lineField
  rw [splitByDelimiter_of_not_mem h]

theorem lineField_of_count {line : Bytes} (h : line.count colon ≠ 1) (key : Bytes) : lineField key line = none := by
  have hlen := length_splitByDelimiter line
  unfold lineField
  split
  · rename_i heq
    rw [heq] at hlen
    simp only [List.length_cons, List.length_nil] at hlen
    omega
  · rfl

/-- A header of a name: one colon, with the name and the value around it. -/
theorem lineField_eq_some {key line value : Bytes} :
    lineField key line = some value ↔ ∃ name v, line = name ++ colon :: v ∧ colon ∉ name ∧ colon ∉ v ∧
      Utils.trimStr name = key ∧ Utils.trimStr v = value := by
  constructor
  · intro h
    have hmem : colon ∈ line := by
      by_contra hn
      rw [lineField_of_not_mem hn] at h
      cases h
    obtain ⟨name, v, rfl, hn⟩ := List.eq_append_cons_of_mem hmem
    have hv : colon ∉ v := by
      intro hm
      rw [lineField_of_count] at h
      · cases h
      · rw [List.count_append, List.count_cons_self]
        have := List.count_pos_iff.mpr hm
        omega
    rw [lineField_field hn hv] at h
    split at h
    · rename_i hk
      cases h
      exact ⟨name, v, rfl, hn, hv, hk, rfl⟩
    · cases h
  · rintro ⟨name, v, rfl, hn, hv, hk, rfl⟩
    rw [lineField_field hn hv, if_pos hk]

/-- A header is longer than its name and its value. -/
theorem length_lt_of_lineField {key line value : Bytes} (h : lineField key line = some value) :
    key.length + value.length < line.length := by
  obtain ⟨name, v, rfl, -, -, rfl, rfl⟩ := lineField_eq_some.mp h
  have hn := length_trimStr_le name
  have hv := length_trimStr_le v
  rw [List.length_append, List.length_cons]
  omega

/-- A line with a colon goes on as a header when it is one: what comes goes to the value. -/
theorem lineField_append_of_mem {key t y value : Bytes} (hc : colon ∈ t) (h : lineField key (t ++ y) = some value) :
    ∃ name u, t = name ++ colon :: u ∧ colon ∉ name ∧ colon ∉ u ∧ colon ∉ y ∧ Utils.trimStr name = key ∧
      Utils.trimStr (u ++ y) = value := by
  obtain ⟨name, u, rfl, hn⟩ := List.eq_append_cons_of_mem hc
  obtain ⟨name', v, heq, hn', hv, hk, hval⟩ := lineField_eq_some.mp h
  rw [List.append_assoc, List.cons_append] at heq
  obtain ⟨rfl, -, rfl⟩ := (List.append_cons_inj_of_notMem hn' hv).mp heq.symm
  rw [List.mem_append, not_or] at hv
  exact ⟨_, u, rfl, hn, hv.1, hv.2, hk, hval⟩

/-- A line without one becomes a header when its name is finished and a colon and a value come. -/
theorem lineField_append_of_not_mem {key t y value : Bytes} (hc : colon ∉ t) (h : lineField key (t ++ y) = some value) :
    ∃ z v, y = z ++ colon :: v ∧ Utils.trimStr (t ++ z) = key ∧ Utils.trimStr v = value := by
  obtain ⟨name, v, heq, hn, -, hk, hval⟩ := lineField_eq_some.mp h
  rcases List.append_eq_append_iff.mp heq with ⟨z, rfl, rfl⟩ | ⟨z, rfl, hz⟩
  · exact ⟨z, v, rfl, hk, hval⟩
  · cases z with
    | nil =>
      rw [List.append_nil] at hc ⊢
      exact ⟨[], v, hz.symm, by rwa [List.append_nil], hval⟩
    | cons c z =>
      rw [List.cons_append, List.cons.injEq] at hz
      rw [hz.1] at hc
      simp at hc

/-- A header once read, no line changes the first line. -/
theorem firstLine_readLines {head : HttpHead} (h : head.headers ≠ ∅) (ls : List Bytes) :
    (readLines ls head).firstLine = head.firstLine := by
  induction ls generalizing head with
  | nil => rfl
  | cons l ls ih =>
    have hread : readLines (l :: ls) head = readLines ls (onLine head l.dropLast) := rfl
    rw [hread]
    by_cases hc : l.dropLast.count colon = 1
    · obtain ⟨hne, hf⟩ := onLine_of_count_one hc head
      rw [ih hne, hf]
    · rw [onLine_of_count hc, if_neg h]
      exact ih h

/-! ## The lines of a written head -/

/-- What the reader makes of written lines: their texts one after the other. -/
theorem readLines_texts (texts : List Bytes) (head : HttpHead) :
    readLines (texts.map (· ++ [CR])) head = texts.foldl onLine head := by
  induction texts generalizing head with
  | nil => rfl
  | cons x texts ih =>
    have hread : readLines ((x :: texts).map (· ++ [CR])) head = readLines (texts.map (· ++ [CR])) (onLine head x) := by
      simp [readLines]
    rw [hread, ih]
    rfl

theorem fieldOf_texts (key : Bytes) (texts : List Bytes) :
    fieldOf key (texts.map (· ++ [CR])) = (texts.filterMap (lineField key)).getLast? := by
  unfold fieldOf
  rw [List.filterMap_map]
  congr 2
  funext x
  simp

end HttpBuf

theorem not_mem_map_cr {texts : List Bytes} (h : ∀ x ∈ texts, LF ∉ x) : ∀ l ∈ texts.map (· ++ [CR]), LF ∉ l := by
  intro l hl
  obtain ⟨x, hx, rfl⟩ := List.mem_map.mp hl
  simp only [List.mem_append, List.mem_singleton, not_or]
  exact ⟨h x hx, by decide⟩

/-- A written head and anything behind it: the lines of the head, the empty line, and more. -/
theorem lines_headBytes {texts : List Bytes} (h : ∀ x ∈ texts, LF ∉ x) (r : Bytes) :
    ∃ ls t, Lines LF (headBytes texts ++ r) (texts.map (· ++ [CR]) ++ [CR] :: ls) t := by
  obtain ⟨ls, t, hr⟩ := exists_lines LF r
  have hl : ∀ l ∈ texts.map (· ++ [CR]) ++ [[CR]], LF ∉ l := by
    intro l hm
    rcases List.mem_append.mp hm with hm | hm
    · exact not_mem_map_cr h l hm
    · rw [List.mem_singleton.mp hm]
      decide
  refine ⟨ls, t, ?_⟩
  have hlines := hr.append_left hl
  rwa [List.append_assoc, List.singleton_append] at hlines

/-- The scan runs through the lines of a written head. -/
theorem passes_texts {texts : List Bytes} (h : ∀ x ∈ texts, x ≠ []) (pre : Bytes) : Passes pre (texts.map (· ++ [CR])) := by
  refine passes_of_two_le (fun l hl => ?_) pre
  obtain ⟨x, hx, rfl⟩ := List.mem_map.mp hl
  have := List.length_pos_of_ne_nil (h x hx)
  rw [List.length_append, List.length_singleton]
  omega

/-- The scan breaks at the empty line of a written head. -/
theorem stopsAt_texts {texts : List Bytes} (hne : texts ≠ []) (h : ∀ x ∈ texts, x ≠ []) :
    StopsAt (joinLines LF (texts.map (· ++ [CR]))) [CR] := by
  obtain ⟨texts, x, rfl⟩ := List.eq_nil_or_concat' texts |>.resolve_left hne
  have hx := List.length_pos_of_ne_nil (h x (by simp))
  have he : joinLines LF ((texts ++ [x]).map (· ++ [CR])) = (joinLines LF (texts.map (· ++ [CR])) ++ x) ++ [CR, LF] := by
    simp
  refine ⟨rfl, ?_, ?_⟩
  · rw [he]
    exact List.suffix_append _ _
  · rw [he, List.length_append, List.length_append]
    simp only [List.length_cons, List.length_nil]
    omega

theorem headBytes_eq (texts : List Bytes) : headBytes texts = joinLines LF (texts.map (· ++ [CR])) ++ [CR, LF] := by
  simp [headBytes]

end FrontServer
