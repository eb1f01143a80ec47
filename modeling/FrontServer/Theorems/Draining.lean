import FrontServer.Theorems.OutputLength
import FrontServer.Theorems.Segmentation

/-!
# What a call leaves at the front

A call reads the front of its buffer once. It leaves no complete message there that it could have seen, but one that stands behind
the message it took out stays where it is, until a later call.
-/

namespace FrontServer

namespace HttpFlow

open HttpBuf

/-- A text that nothing is taken off does not begin with a complete message. -/
theorem not_beginsWithMessage_of_keep {d : Bytes} (h : parseOutcome d = .keep) : ¬BeginsWithMessage d := by
  rintro ⟨m, r, rfl⟩
  rw [parseOutcome_complete] at h
  cases h

end HttpFlow

namespace HttpBuf

open HttpFlow

/-- A call that returns false leaves what is buffered, and one that returns true leaves a complete message at the front exactly when it
took one off that stood in front of it. -/
theorem message_left_of_step {h h' : HttpBuf} {q : Queue} (hq : h.Holds q) {s : Segment} {r : HttpReply}
    (hstep : machine.step h s = some (r, h')) :
    r.ret = false ∧ h'.contents = h.contents ∨
      r.ret = true ∧ (r.extracted = none → ¬BeginsWithMessage h'.contents) ∧
        (BeginsWithMessage h'.contents ↔
          ∃ n, BeginsWithDeclared (h.contents ++ s.bytes) n ∧ BeginsWithMessage ((h.contents ++ s.bytes).drop n)) := by
  obtain ⟨q', hs, hq'⟩ := simulates_flow.step_some hq hstep
  rw [hq.contents_eq, hq'.contents_eq]
  rcases step_cases hs with ⟨-, -, rfl, rfl⟩ | ⟨-, rfl, rfl⟩ | ⟨-, -, -, ⟨hkeep, rfl, hitems⟩ | ⟨n, hn, rfl, hitems⟩⟩
  · exact Or.inl ⟨rfl, rfl⟩
  · exact Or.inl ⟨rfl, rfl⟩
  · rw [hitems]
    have hnone := not_beginsWithMessage_of_keep hkeep
    refine Or.inr ⟨rfl, fun _ => hnone, iff_of_false hnone ?_⟩
    rintro ⟨n, hn, -⟩
    rw [parseOutcome_eq_extract.mpr hn] at hkeep
    cases hkeep
  · rw [hitems]
    refine Or.inr ⟨rfl, nofun, fun hbegins => ⟨n, parseOutcome_eq_extract.mp hn, hbegins⟩, ?_⟩
    rintro ⟨n', hn', hbegins⟩
    rw [parseOutcome_eq_extract.mpr hn'] at hn
    cases hn
    exact hbegins

/-- After every call that returns true, in every run, the buffer begins with a complete message exactly when the call took a message
off the front of the buffered bytes and the segment, and the bytes behind it begin with a complete message. A call that takes nothing
out leaves none at the front. -/
theorem message_left_iff (client : Bytes) (input : Bool) (segs : List Segment) (replies : List HttpReply) (h h' : HttpBuf) (s : Segment)
    (r : HttpReply) (hrun : machine.run (new client input) segs = some (replies, h)) (hstep : machine.step h s = some (r, h'))
    (hret : r.ret = true) :
    (BeginsWithMessage h'.contents ↔
        ∃ n, BeginsWithDeclared (h.contents ++ s.bytes) n ∧ BeginsWithMessage ((h.contents ++ s.bytes).drop n)) ∧
      (r.extracted = none → ¬BeginsWithMessage h'.contents) := by
  obtain ⟨q, -, hq⟩ := run_holds hrun
  rcases message_left_of_step hq hstep with ⟨hfalse, -⟩ | ⟨-, hnone, hiff⟩
  · rw [hret] at hfalse
    cases hfalse
  · exact ⟨hiff, hnone⟩

/-- The two messages of a segment. -/
def twoMessages : Segment := Segment.ofBytes (emptyGet.bytes ++ emptyGet.bytes)

/-- A fresh buffer takes the first one out and holds the second. -/
theorem step_twoMessages :
    ∃ h', machine.step (new [] true) twoMessages = some ({ ret := true, extracted := some emptyGet.bytes }, h') ∧
      h'.contents = emptyGet.bytes := by
  have hs : HttpFlow.machine.step BoundedFifo.empty twoMessages =
      some ({ ret := true, extracted := some emptyGet.bytes }, ⟨emptyGet.bytes, by decide⟩) := by rfl
  obtain ⟨h', hstep, hh⟩ := simulates_flow.some_step (new_holds_empty [] true) hs
  exact ⟨h', hstep, hh.contents_eq⟩

/-- The second of two messages in a segment stays at the front. -/
theorem second_message_stays :
    ¬∀ (client : Bytes) (input : Bool) (segs : List Segment) (replies : List HttpReply) (h h' : HttpBuf) (s : Segment) (r : HttpReply),
      machine.run (new client input) segs = some (replies, h) → machine.step h s = some (r, h') → r.ret = true →
        ¬BeginsWithMessage h'.contents := by
  intro hall
  obtain ⟨h', hstep, hcontents⟩ := step_twoMessages
  refine hall [] true [] [] (new [] true) h' twoMessages _ rfl hstep rfl ⟨emptyGet.complete, ?_⟩
  rw [hcontents]
  exact List.prefix_refl _

theorem message_left_iff_twoMessages :
    ∃ h', machine.step (new [] true) twoMessages = some ({ ret := true, extracted := some emptyGet.bytes }, h') ∧
      (BeginsWithMessage h'.contents ↔
        ∃ n, BeginsWithDeclared ((new [] true).contents ++ twoMessages.bytes) n ∧
          BeginsWithMessage (((new [] true).contents ++ twoMessages.bytes).drop n)) := by
  obtain ⟨h', hstep, -⟩ := step_twoMessages
  exact ⟨h', hstep, (message_left_iff [] true [] [] (new [] true) h' twoMessages _ rfl hstep rfl).1⟩

/-! ## Runs -/

/-- A call does not take a message out from in front of another complete one. -/
def TakesLast (h : HttpBuf) (s : Segment) : Prop :=
  ¬∃ n, BeginsWithDeclared (h.contents ++ s.bytes) n ∧ BeginsWithMessage ((h.contents ++ s.bytes).drop n)

/-- As long as no call takes a message out from in front of another complete one, no complete message is at the front. -/
theorem no_message_left (client : Bytes) (input : Bool) (segs : List Segment) (replies : List HttpReply) (h : HttpBuf)
    (hlast : machine.Meets TakesLast (new client input) segs) (hrun : machine.run (new client input) segs = some (replies, h)) :
    ¬BeginsWithMessage h.contents := by
  have hempty := new_holds_empty client input
  have hnone : ¬BeginsWithMessage (new client input).contents := by
    rw [hempty.contents_eq]
    exact not_beginsWithMessage_of_keep rfl
  have hinv : (∃ q : Queue, h.Holds q) ∧ ¬BeginsWithMessage h.contents := by
    refine hlast.run_invariant (P := fun h => (∃ q : Queue, h.Holds q) ∧ ¬BeginsWithMessage h.contents) ?_ ⟨⟨_, hempty⟩, hnone⟩ hrun
    rintro h s r h' ⟨⟨q, hq⟩, hnone⟩ hG hstep
    obtain ⟨q', -, hq'⟩ := simulates_flow.step_some hq hstep
    refine ⟨⟨q', hq'⟩, ?_⟩
    rcases message_left_of_step hq hstep with ⟨-, hsame⟩ | ⟨-, -, hiff⟩
    · rwa [hsame]
    · exact fun hbegins => hG (hiff.mp hbegins)
  exact hinv.2

end HttpBuf

end FrontServer
