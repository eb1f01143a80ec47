import FrontServer.Lemmas.HttpMessage

/-!
# Reading a rendered head back

`GetHttpHeaders` inverts rendering exactly when no colon is in the way: the start line is not one that a single colon cuts in two,
and no value has a colon in it (`getHttpHeaders_render_iff`).
-/

namespace FrontServer

namespace HttpBuf

/-- The reader takes the lines of a written head one after the other, and ends behind the empty line. -/
theorem getHttpHeaders_texts {texts : List Bytes} (hne : texts ≠ []) (hx : ∀ x ∈ texts, x ≠ []) (hl : ∀ x ∈ texts, LF ∉ x)
    (body : Bytes) (remainPos : Int) :
    getHttpHeaders (headBytes texts ++ body) (headBytes texts ++ body).length HttpHead.empty remainPos =
      .ok (true, texts.foldl onLine HttpHead.empty, ((headBytes texts).length : Int)) := by
  obtain ⟨ls, t, hlines⟩ := lines_headBytes hl body
  have hpos : (0 : Int) < (headBytes texts ++ body).length := by
    rw [headBytes_eq]
    simp only [List.length_append, List.length_cons]
    omega
  have htake : (headBytes texts ++ body).take ((headBytes texts ++ body).length : Int).toNat = headBytes texts ++ body := by
    rw [Int.toNat_natCast, List.take_length]
  have hstop : StopsAt ([] ++ joinLines LF (texts.map (· ++ [CR]))) [CR] := stopsAt_texts hne hx
  unfold getHttpHeaders
  rw [scanHeaders_lines onLine hpos le_rfl (by rw [htake]; exact hlines),
    scanLines_of_stopsAt (passes_texts hx []) hstop, foldLines_eq_readLines, readLines_texts, headBytes_eq]
  simp only [Except.map, List.nil_append, Option.getD_some, List.length_append, List.length_cons, List.length_nil]
  rfl

/-- The last value of a name that stands once is its value. -/
theorem getLast?_filterMap_eq_some {fields : List (Bytes × Bytes)} (hnd : (fields.map Prod.fst).Nodup) (k v : Bytes) :
    (fields.filterMap (fun f => if f.1 = k then some f.2 else none)).getLast? = some v ↔ (k, v) ∈ fields := by
  induction fields with
  | nil => simp
  | cons f fields ih =>
    rw [List.map_cons, List.nodup_cons] at hnd
    obtain ⟨hf, hnd⟩ := hnd
    rw [List.mem_cons]
    by_cases hk : f.1 = k
    · have hrest : fields.filterMap (fun f => if f.1 = k then some f.2 else none) = [] := by
        refine List.filterMap_eq_nil_iff.mpr fun g hg => if_neg ?_
        rintro hgk
        exact hf (hk ▸ hgk ▸ List.mem_map_of_mem hg)
      have hnot : (k, v) ∉ fields := fun hm => hf (hk ▸ List.mem_map_of_mem hm)
      simp only [List.filterMap_cons, if_pos hk, hrest, List.getLast?_singleton, Option.some.injEq]
      constructor
      · rintro rfl
        exact Or.inl (by rw [← hk])
      · rintro (he | hm)
        · rw [← he]
        · exact absurd hm hnot
    · simp only [List.filterMap_cons, if_neg hk]
      rw [ih hnd]
      constructor
      · exact Or.inr
      · rintro (he | hm)
        · exact absurd (by rw [← he]) hk
        · exact hm

/-- A value that stands after some lines is one that a line gave. -/
theorem exists_of_fieldOf {key v : Bytes} {texts : List Bytes} (h : (texts.filterMap (lineField key)).getLast? = some v) :
    ∃ x ∈ texts, lineField key x = some v :=
  List.mem_filterMap.mp (List.mem_of_getLast? h)

variable (h : HttpHeadText)

/-- The text of a field is a header of the field's name and value. -/
theorem lineField_fieldText {f : Bytes × Bytes} (hf : f ∈ h.fields) (hv : colon ∉ f.2) (key : Bytes) :
    lineField key (fieldText f) = if f.1 = key then some f.2 else none := by
  obtain ⟨hn, ht⟩ := h.field_trimmed f hf
  have hsp : colon ∉ 32 :: f.2 := by
    simp only [List.mem_cons, not_or]
    exact ⟨by decide, hv⟩
  rw [fieldText, lineField_field (h.name_colon f hf) hsp, trimStr_space_cons, trimStr_of_trimmed hn, trimStr_of_trimmed ht]

theorem count_fieldText {f : Bytes × Bytes} (hf : f ∈ h.fields) (hv : colon ∉ f.2) : (fieldText f).count colon = 1 := by
  rw [fieldText, List.count_append, List.count_eq_zero_of_not_mem (h.name_colon f hf), List.count_cons_self,
    List.count_cons_of_ne (by decide), List.count_eq_zero_of_not_mem hv]

/-- Lines that are fields leave the first line as it is. -/
theorem firstLine_foldl_of_count {texts : List Bytes} (hc : ∀ x ∈ texts, x.count colon = 1) (head : HttpHead) :
    (texts.foldl onLine head).firstLine = head.firstLine := by
  induction texts generalizing head with
  | nil => rfl
  | cons x texts ih =>
    rw [List.foldl_cons, ih (fun y hy => hc y (by simp [hy])), (onLine_of_count_one (hc x (by simp)) head).2]

/-- The header map the reader ends with. -/
theorem lookup_render (k : Bytes) :
    ((h.startLine :: h.fields.map fieldText).foldl onLine HttpHead.empty).headers.lookup k =
      ((h.startLine :: h.fields.map fieldText).filterMap (lineField k)).getLast? := by
  rw [← readLines_texts, lookup_readLines_empty, fieldOf_texts]

/-- The reader gives back the start line and the fields exactly when no colon is in the way. -/
theorem readBack_iff :
    (((h.startLine :: h.fields.map fieldText).foldl onLine HttpHead.empty).firstLine = h.startLine ∧
        ∀ k v, ((h.startLine :: h.fields.map fieldText).foldl onLine HttpHead.empty).headers.lookup k = some v ↔
          (k, v) ∈ h.fields) ↔
      h.startLine.count colon ≠ 1 ∧ ∀ f ∈ h.fields, colon ∉ f.2 := by
  constructor
  · rintro ⟨hfirst, hmap⟩
    refine ⟨fun hone => ?_, fun f hf hcol => ?_⟩
    · -- the start line is taken for a header, and the first line stays empty
      obtain ⟨hne, he⟩ := onLine_of_count_one hone HttpHead.empty
      rw [List.foldl_cons, ← readLines_texts, firstLine_readLines hne, he] at hfirst
      exact h.start_ne hfirst.symm
    · -- no value the reader gives has a colon in it
      have hv := (hmap f.1 f.2).mpr hf
      rw [lookup_render] at hv
      obtain ⟨x, -, hx⟩ := exists_of_fieldOf hv
      exact colon_not_mem_lineField hx hcol
  · rintro ⟨hone, hcol⟩
    have hstart : onLine HttpHead.empty h.startLine = { headers := ∅, firstLine := h.startLine } := by
      rw [onLine_of_count hone, trimStr_of_trimmed h.start_trimmed]
      exact if_pos rfl
    refine ⟨?_, fun k v => ?_⟩
    · rw [List.foldl_cons, hstart, firstLine_foldl_of_count]
      intro x hx
      obtain ⟨f, hf, rfl⟩ := List.mem_map.mp hx
      exact count_fieldText h hf (hcol f hf)
    · have hfields : (h.startLine :: h.fields.map fieldText).filterMap (lineField k) =
          h.fields.filterMap (fun f => if f.1 = k then some f.2 else none) := by
        rw [List.filterMap_cons_none (lineField_of_count hone k), List.filterMap_map]
        refine List.filterMap_congr fun f hf => ?_
        exact lineField_fieldText h hf (hcol f hf) k
      rw [lookup_render, hfields, getLast?_filterMap_eq_some h.names_nodup]

/-- For every rendered head and every body behind it the reader succeeds and ends in front of the body. It gives back the start line
and just the fields exactly when the start line does not have exactly one colon and no value has a colon. -/
theorem getHttpHeaders_render_iff (body : Bytes) (remainPos : Int) :
    ∃ head, getHttpHeaders (h.bytes ++ body) (h.bytes ++ body).length HttpHead.empty remainPos =
        .ok (true, head, (h.bytes.length : Int)) ∧
      ((head.firstLine = h.startLine ∧ ∀ k v, head.headers.lookup k = some v ↔ (k, v) ∈ h.fields) ↔
        h.startLine.count colon ≠ 1 ∧ ∀ f ∈ h.fields, colon ∉ f.2) := by
  have hx : ∀ x ∈ h.startLine :: h.fields.map fieldText, x ≠ [] := by
    intro x hm
    rcases List.mem_cons.mp hm with rfl | hm
    · exact h.start_ne
    · obtain ⟨f, -, rfl⟩ := List.mem_map.mp hm
      simp [fieldText]
  have hl : ∀ x ∈ h.startLine :: h.fields.map fieldText, LF ∉ x := by
    intro x hm
    rcases List.mem_cons.mp hm with rfl | hm
    · exact h.start_line.2
    · obtain ⟨f, hf, rfl⟩ := List.mem_map.mp hm
      obtain ⟨-, h₁, -, h₂⟩ := h.field_line f hf
      simp only [fieldText, List.mem_append, List.mem_cons, not_or]
      exact ⟨h₁, by decide, by decide, h₂⟩
  exact ⟨_, getHttpHeaders_texts (List.cons_ne_nil _ _) hx hl body remainPos, readBack_iff h⟩

/-- `GET /` with the field `Host: a:80`. -/
def hostWithPort : HttpHeadText where
  startLine := ascii "GET / HTTP/1.1"
  fields := [(ascii "Host", ascii "a:80")]
  start_ne := by decide
  start_trimmed := by unfold Trimmed; decide
  start_line := by decide
  fields_ne := by decide
  names_nodup := by decide
  name_ne := by decide
  name_colon := by decide
  field_trimmed := by unfold Trimmed; decide
  field_line := by decide

/-- A value with a colon is lost: the reader gives no `Host`. -/
theorem host_with_port_is_lost :
    ∃ head, getHttpHeaders hostWithPort.bytes hostWithPort.bytes.length HttpHead.empty 0 =
        .ok (true, head, (hostWithPort.bytes.length : Int)) ∧
      head.headers.lookup (ascii "Host") = none ∧ (ascii "Host", ascii "a:80") ∈ hostWithPort.fields := by
  have hread := getHttpHeaders_texts (show hostWithPort.startLine :: hostWithPort.fields.map fieldText ≠ [] by decide)
    (by decide) (by decide) [] 0
  rw [List.append_nil] at hread
  exact ⟨_, hread, by decide, by decide⟩

end HttpBuf

end FrontServer
