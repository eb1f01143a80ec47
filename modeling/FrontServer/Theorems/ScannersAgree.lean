import FrontServer.Lemmas.HeaderScan
import FrontServer.PcapHandler

/-!
# The copies of the header scan agree

What a copy does with a line has no part in where the scan looks next, so the copies differ in what the lines give and in nothing else
(`scanHeaders_map`). The two that fill in a map fill in the same one.
-/

namespace FrontServer

/-- Both header readers do the same with the map. -/
theorem headers_onLine (h : HttpHead) (head : Bytes) : (HttpBuf.onLine h head).headers = ParsePkg.onLine h.headers head := by
  have hfirst : (if h.headers = ∅ then { h with firstLine := Utils.trimStr head } else h).headers = h.headers := by
    split
    · rfl
    · rfl
  unfold HttpBuf.onLine ParsePkg.onLine
  rcases Utils.splitByDelimiter head (ascii ":") with _ | ⟨k, _ | ⟨v, _ | ⟨w, pieces⟩⟩⟩
  · exact hfirst
  · exact hfirst
  · rfl
  · exact hfirst

/-- The three header scans agree on every buffer: started with empty maps the two readers fault at the same index, or return the same
value with the same map and the same `*remain_pos`, and `ParseHttp` faults at that index or returns that value and that
`*remain_pos`. -/
theorem scanners_agree (data : Bytes) (len : Int) (firstLine : Bytes) (remainPos : Int) :
    ParsePkg.getHttpHeaders data len ∅ remainPos =
        (HttpBuf.getHttpHeaders data len { headers := ∅, firstLine := firstLine } remainPos).map (fun r => (r.1, r.2.1.headers, r.2.2)) ∧
      (parseHttp data len remainPos).map (fun r => (r.1, r.2.2)) =
        (HttpBuf.getHttpHeaders data len { headers := ∅, firstLine := firstLine } remainPos).map (fun r => (r.1, r.2.2)) := by
  refine ⟨scanHeaders_map headers_onLine data len { headers := ∅, firstLine := firstLine } remainPos, ?_⟩
  -- both are pictures of the scan that makes nothing of its lines
  have hnothing : ∀ {ρ : Type} (onLine : ρ → Bytes → ρ) (acc : ρ),
      (scanHeaders onLine data len acc remainPos).map (fun r => (r.1, r.2.2)) =
        (scanHeaders (fun u _ => u) data len () remainPos).map (fun r => (r.1, r.2.2)) := by
    intro ρ onLine acc
    have hscan := @scanHeaders_map ρ Unit onLine (fun u _ => u) (fun _ => ()) (fun _ _ => rfl) data len acc remainPos
    rw [hscan]
    cases scanHeaders onLine data len acc remainPos with
    | error e => rfl
    | ok r => rfl
  exact (hnothing _ _).trans (hnothing _ _).symm

end FrontServer
