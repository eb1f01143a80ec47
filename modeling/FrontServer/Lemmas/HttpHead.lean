import FrontServer.HttpBuf
import FrontServer.Lemmas.HeaderScan
import FrontServer.Lib.Numerals

/-!
# What the lines of a head give

A line is a header when one colon cuts it in two. `lineField` is the value a line gives for a name and `fieldOf` the value that
stands after some lines, the last one given; `lookup_readLines` says that the map the code fills in holds just these.
-/

namespace FrontServer

/-- Trimming takes nothing but blanks off a value. -/
theorem atoi_trimStr (s : Bytes) : atoi (cStr (Utils.trimStr s)) = atoi (cStr s) := by
  have hrear : ∀ s : Bytes, atoi (cStr (s.rdropWhile (· == 32))) = atoi (cStr s) := by
    intro s
    induction s using List.reverseRecOn with
    | nil => rfl
    | append_singleton s b ih =>
      by_cases hb : b = 32
      · subst hb
        rw [List.rdropWhile_concat_pos _ _ _ (by decide), ih, atoi_append_space]
      · rw [List.rdropWhile_concat_neg _ _ _ (by simpa using hb)]
  have hfront : ∀ c ∈ s.takeWhile (· == 32), c = 32 := fun c hc => by simpa using List.mem_takeWhile_imp hc
  have hz : 0 ∉ s.takeWhile (· == 32) := fun hm => absurd (hfront 0 hm) (by decide)
  have hspaces : (s.takeWhile (· == 32)).dropWhile isSpace = [] := by
    rw [List.dropWhile_eq_nil_iff]
    intro c hc
    rw [hfront c hc]
    rfl
  calc atoi (cStr (Utils.trimStr s)) = atoi (cStr (s.dropWhile (· == 32))) := hrear _
    _ = atoi (s.takeWhile (· == 32) ++ cStr (s.dropWhile (· == 32))) := by rw [atoi, atoi, strtol_spaces_append hspaces]
    _ = atoi (cStr s) := by rw [← cStr_append hz, List.takeWhile_append_dropWhile]

namespace HttpBuf

/-! ## Header fields -/

/-- The value a line gives for a header name, if it is a header of that name. -/
def lineField (name line : Bytes) : Option Bytes :=
  match Utils.splitByDelimiter line (ascii ":") with
  | [k, v] => if Utils.trimStr k = name then some (Utils.trimStr v) else none
  | _ => none

/-- What the header reader makes of complete lines, their last byte left off. -/
def readLines (ls : List Bytes) (h : HttpHead) : HttpHead := ls.foldl (fun h l => onLine h l.dropLast) h

/-- The value complete lines give for a header name: the last one. -/
def fieldOf (name : Bytes) (ls : List Bytes) : Option Bytes := (ls.filterMap (fun l => lineField name l.dropLast)).getLast?

theorem lookup_onLine (h : HttpHead) (line name : Bytes) :
    (onLine h line).headers.lookup name = (lineField name line).or (h.headers.lookup name) := by
  unfold onLine lineField
  have hother : (if h.headers = ∅ then { h with firstLine := Utils.trimStr line } else h).headers = h.headers := by
    split
    · rfl
    · rfl
  generalize Utils.splitByDelimiter line (ascii ":") = pieces
  rcases pieces with _ | ⟨k, _ | ⟨v, _ | ⟨w, pieces⟩⟩⟩
  · exact congrArg (Finmap.lookup name) hother
  · exact congrArg (Finmap.lookup name) hother
  · dsimp only
    by_cases hk : Utils.trimStr k = name
    · subst hk
      rw [if_pos rfl, Finmap.lookup_insert, Option.some_or]
    · rw [if_neg hk, Option.none_or, Finmap.lookup_insert_of_ne _ (fun e => hk e.symm)]
  · exact congrArg (Finmap.lookup name) hother

/-- The map the code fills in holds for each name the last value the lines gave. -/
theorem lookup_readLines (ls : List Bytes) (h : HttpHead) (name : Bytes) :
    (readLines ls h).headers.lookup name = (fieldOf name ls).or (h.headers.lookup name) := by
  induction ls using List.reverseRecOn with
  | nil => rfl
  | append_singleton ls l ih =>
    have hread : readLines (ls ++ [l]) h = onLine (readLines ls h) l.dropLast := by
      simp [readLines]
    have hfield : fieldOf name (ls ++ [l]) = (lineField name l.dropLast).or (fieldOf name ls) := by
      unfold fieldOf
      rw [List.filterMap_append, List.getLast?_append]
      congr 1
      cases hl : lineField name l.dropLast with
      | none => simp [hl]
      | some v => simp [hl]
    rw [hread, lookup_onLine, ih, hfield, Option.or_assoc]

theorem lookup_readLines_empty (ls : List Bytes) (name : Bytes) :
    (readLines ls HttpHead.empty).headers.lookup name = fieldOf name ls := by
  rw [lookup_readLines]
  simp [HttpHead.empty]

/-- The one-byte first line the scan leaves out would have changed nothing. -/
theorem takeLine_onLine_empty (pre l : Bytes) (h : HttpHead) (hh : pre = [] → h = HttpHead.empty) :
    takeLine onLine pre l h = onLine h l.dropLast := by
  unfold takeLine
  split
  · rename_i h₁
    obtain ⟨hl, hp⟩ := h₁
    obtain ⟨b, rfl⟩ := List.length_eq_one_iff.mp hl
    rw [hh hp]
    rfl
  · rfl

/-- What lines the scan runs through give, for a scan that starts with an empty head. -/
theorem foldLines_eq_readLines (ls : List Bytes) : foldLines onLine [] ls HttpHead.empty = readLines ls HttpHead.empty := by
  have hgen : ∀ (ls : List Bytes) (pre : Bytes) (h : HttpHead), (pre = [] → h = HttpHead.empty) →
      foldLines onLine pre ls h = readLines ls h := by
    intro ls
    induction ls with
    | nil =>
      intro pre h _
      rfl
    | cons l ls ih =>
      intro pre h hh
      rw [foldLines, takeLine_onLine_empty pre l h hh, ih _ _ (by simp)]
      rfl
  exact hgen ls [] HttpHead.empty (fun _ => rfl)

end HttpBuf

end FrontServer
