import FrontServer.Lemmas.DingMsgSender

/-!
# What becomes of the messages

The messages are handed to `SendDingMsg` in the order in which they came into the list. The loop of the sending thread ends when
`m_stop` is set, whatever is in the list: of what is there at that moment, the thread takes at most one message more, and only when it
is behind the loop's condition. The `join` of the destructor is never blocked for good (`join_returns`).
-/

namespace FrontServer

/-- The message that a step puts into the list. -/
def DingReply.takes : DingReply → List DingMsg
  | .pushed msg => [msg]
  | _ => []

/-- The message that a step hands to `SendDingMsg`. -/
def DingReply.gives : DingReply → List DingMsg
  | .handed msg => [msg]
  | _ => []

namespace DingState

variable {Tid : Type}

/-- The messages put into the list over a run, in the order of the critical sections. -/
def pushed (replies : List DingReply) : List DingMsg := replies.flatMap DingReply.takes

/-- The messages handed to `SendDingMsg` over a run. -/
def handed (replies : List DingReply) : List DingMsg := replies.flatMap DingReply.gives

/-- The messages that are still in the list when the destructor's `join` returns, if no thread puts in more. -/
def left (s : DingState Tid) : List DingMsg := if s.isTaking then s.sender.mMsgs.tail else s.sender.mMsgs

/-- Nothing is left exactly when the list is empty, or has one message that the sending thread is about to take. -/
theorem left_eq_nil (s : DingState Tid) :
    s.left = [] ↔ s.sender.mMsgs = [] ∨ s.isTaking = true ∧ s.sender.mMsgs.length = 1 := by
  unfold left
  rcases hmsgs : s.sender.mMsgs with _ | ⟨msg, msgs⟩
  · simp
  · split <;> simp [*]

variable [DecidableEq Tid]

/-- One step keeps the messages in order: what comes goes to the end of the list, and what is handed over is the first. -/
theorem pending_of_step {s s' : DingState Tid} {a : DingAction Tid} {r : DingReply} (hs : machine.step s a = some (r, s')) :
    r.gives ++ (s'.inHand ++ s'.sender.mMsgs) = s.inHand ++ s.sender.mMsgs ++ r.takes := by
  cases step_moves hs with
  | push t msg hlock hmsgs hthread =>
    have hhand : s'.inHand = s.inHand := by rw [inHand, inHand, hthread]
    rw [hmsgs, hhand]
    exact (List.append_assoc s.inHand s.sender.mMsgs [msg]).symm
  | take msg hmsgs hhand htaking hthread =>
    have hhand' : s'.inHand = [msg] := by rw [inHand, hthread]
    rw [hmsgs, hhand, hhand']
    exact (List.append_nil _).symm
  | hand msg hmsgs hthread hthread' =>
    have hhand : s.inHand = [msg] := by rw [inHand, hthread]
    have hhand' : s'.inHand = [] := by rw [inHand, hthread']
    rw [hmsgs, hhand, hhand']
    exact (List.append_nil _).symm
  | other a r hr hmsgs hhand =>
    rw [hmsgs, hhand]
    rcases hr with rfl | rfl
    · exact (List.append_nil _).symm
    · exact (List.append_nil _).symm

/-- A run keeps the messages in order. -/
theorem pending_of_run {acts : List (DingAction Tid)} {replies : List DingReply} {s : DingState Tid}
    (h : machine.run new acts = some (replies, s)) : handed replies ++ (s.inHand ++ s.sender.mMsgs) = pushed replies :=
  Machine.run_conserves pending_of_step h

/-- In every state reached, the messages handed over, then the one in the sending thread's hand, then the list, are the messages put
into the list, in order. -/
theorem handed_in_order (acts : List (DingAction Tid)) (replies : List DingReply) (s : DingState Tid)
    (h : machine.run new acts = some (replies, s)) : handed replies ++ s.inHand ++ s.sender.mMsgs = pushed replies := by
  rw [List.append_assoc]
  exact pending_of_run h

/-- Two threads push a message each while the sending thread waits; the one that called last comes to the list first. -/
def twoWaitedFor : List (DingAction Nat) :=
  [.check, .sendLock, .block, .callPush 0 ⟨[], [1]⟩, .callPush 1 ⟨[], [2]⟩, .pushLock 1, .pushLock 0, .pushNotify 1, .pushNotify 0,
    .sendLock, .handOver, .sendReturn, .check, .sendLock, .handOver]

theorem handed_in_order_twoWaitedFor :
    ∃ replies s, machine.run new twoWaitedFor = some (replies, s) ∧ pushed replies = [⟨[], [2]⟩, ⟨[], [1]⟩] ∧
      handed replies ++ s.inHand ++ s.sender.mMsgs = pushed replies := by
  have hpushed : (machine.run new twoWaitedFor).map (fun r => pushed r.1) = some [⟨[], [2]⟩, ⟨[], [1]⟩] := by decide +kernel
  obtain ⟨⟨replies, s⟩, hrun, hmsgs⟩ := Option.map_eq_some_iff.mp hpushed
  exact ⟨replies, s, hrun, hmsgs, handed_in_order twoWaitedFor replies s hrun⟩

/-! ## The destructor -/

/-- Once the destructor has started and all calls have returned, no step changes what will be left. -/
theorem left_of_step {s s' : DingState Tid} {a : DingAction Tid} {r : DingReply} (hs : machine.step s a = some (r, s'))
    (hquiet : s.Quiet) (hcall : ∀ t msg, a ≠ .callPush t msg) : s'.left = s.left ∧ s'.Quiet := by
  cases step_moves hs with
  | push t msg hlock =>
    rw [hquiet.2, Finmap.lookup_empty] at hlock
    cases hlock
  | take msg hmsgs hhand htaking hthread hkeep =>
    have htaking' : s'.isTaking = false := by rw [isTaking, hthread]
    refine ⟨?_, hkeep hquiet⟩
    rw [left, left, htaking, htaking', hmsgs]
    rfl
  | hand msg hmsgs hthread hthread' hkeep =>
    have htaking : s.isTaking = false := by rw [isTaking, hthread]
    have htaking' : s'.isTaking = false := by rw [isTaking, hthread']
    refine ⟨?_, hkeep hquiet⟩
    rw [left, left, htaking, htaking', hmsgs]
  | other a r hr hmsgs hhand htaking hkeep =>
    constructor
    · rcases htaking with htaking | hnil | hstop
      · rw [left, left, htaking, hmsgs]
      · rw [left, left, hmsgs, hnil]
        split <;> split <;> rfl
      · rw [hquiet.1] at hstop
        cases hstop
    · rcases hkeep hquiet with hquiet' | ⟨t, msg, he⟩
      · exact hquiet'
      · exact absurd he (hcall t msg)

/-- Over a run without a new call, too. -/
theorem left_of_run {s s' : DingState Tid} {acts : List (DingAction Tid)} {replies : List DingReply} (hquiet : s.Quiet)
    (hcalls : ∀ t msg, .callPush t msg ∉ acts) (h : machine.run s acts = some (replies, s')) : s'.left = s.left := by
  have hleft : (∀ t msg, .callPush t msg ∉ acts) → s'.left = s.left ∧ s'.Quiet := by
    refine Machine.run_history
      (P := fun acts _ (s' : DingState Tid) => (∀ t msg, .callPush t msg ∉ acts) → s'.left = s.left ∧ s'.Quiet)
      (fun _ => ⟨rfl, hquiet⟩) (fun {acts replies u a r u'} _ ih hs hcalls => ?_) h
    obtain ⟨hleft, hquiet⟩ := ih (fun t msg hmem => hcalls t msg (List.mem_append_left _ hmem))
    have hcall : ∀ t msg, a ≠ .callPush t msg := by
      rintro t msg rfl
      exact hcalls t msg (List.mem_append_right _ (List.mem_singleton_self _))
    obtain ⟨hleft', hquiet'⟩ := left_of_step hs hquiet hcall
    exact ⟨hleft'.trans hleft, hquiet'⟩
  exact (hleft hcalls).1

/-- The destructor sets `m_stop` and leaves the threads and the list as they are. -/
theorem quiet_of_stop {s s' : DingState Tid} {r : DingReply} (hs : machine.step s .stop = some (r, s')) (hreturned : s.calls = ∅) :
    s'.left = s.left ∧ s'.Quiet := by
  simp only [machine, step] at hs
  split at hs
  · cases hs
    exact ⟨rfl, rfl, hreturned⟩
  · cases hs

/-- The `join` returns when the thread has, and then nothing is in its hand. -/
theorem returned_of_join {s s' : DingState Tid} {r : DingReply} (hs : machine.step s .join = some (r, s')) :
    s'.inHand = [] ∧ s'.sender.mMsgs = s.left := by
  simp only [machine, step] at hs
  split at hs
  · rename_i hreturned
    cases hs
    exact ⟨by simp [inHand, hreturned], by simp [left, isTaking, hreturned]⟩
  · cases hs

/-- When every call of `PushMsg` has returned before the destructor starts and none comes after, the messages handed over when the
`join` returns are all but those that `left` names in the state in which `m_stop` is set. These are none exactly when the list is
empty there, or has one message and the sending thread is behind the loop's condition and in front of taking it. -/
theorem handed_at_join (acts₁ acts₂ : List (DingAction Tid)) (replies₁ replies₂ : List DingReply) (s s' : DingState Tid)
    (h₁ : machine.run new acts₁ = some (replies₁, s)) (hreturned : s.calls = ∅) (hcalls : ∀ t msg, .callPush t msg ∉ acts₂)
    (h₂ : machine.run s (.stop :: acts₂ ++ [.join]) = some (replies₂, s')) :
    handed (replies₁ ++ replies₂) ++ s.left = pushed (replies₁ ++ replies₂) ∧
      (handed (replies₁ ++ replies₂) = pushed (replies₁ ++ replies₂) ↔
        s.sender.mMsgs = [] ∨ s.isTaking = true ∧ s.sender.mMsgs.length = 1) := by
  have horder := pending_of_run (Machine.run_append_eq_some.mpr ⟨s, replies₁, replies₂, h₁, h₂, rfl⟩)
  obtain ⟨u, os, o, hrun, hjoin, -⟩ := Machine.run_concat_eq_some.mp h₂
  obtain ⟨r, s₀, os', hstop, hrun', -⟩ := Machine.run_cons_eq_some.mp hrun
  obtain ⟨hleft, hquiet⟩ := quiet_of_stop hstop hreturned
  obtain ⟨hhand, hmsgs⟩ := returned_of_join hjoin
  rw [hhand, List.nil_append, hmsgs, left_of_run hquiet hcalls hrun', hleft] at horder
  refine ⟨horder, ?_⟩
  rw [← left_eq_nil, ← horder]
  exact List.self_eq_append_right

/-- Two messages are in the list when `m_stop` is set, with the sending thread in front of the mutex. -/
def twoLeft : List (DingAction Nat) :=
  [.check, .callPush 0 ⟨[], [1]⟩, .pushLock 0, .pushNotify 0, .callPush 1 ⟨[], [2]⟩, .pushLock 1, .pushNotify 1]

/-- The sending thread takes one, and returns. -/
def oneSent : List (DingAction Nat) := [.stopNotify, .sendLock, .handOver, .sendReturn, .check]

/-- The second message is in the list for good. -/
theorem second_message_left :
    ¬∀ (acts₁ acts₂ : List (DingAction Nat)) (replies₁ replies₂ : List DingReply) (s s' : DingState Nat),
      machine.run new acts₁ = some (replies₁, s) → s.calls = ∅ → (∀ t msg, .callPush t msg ∉ acts₂) →
        machine.run s (.stop :: acts₂ ++ [.join]) = some (replies₂, s') →
          ∀ msg ∈ pushed (replies₁ ++ replies₂), msg ∈ handed (replies₁ ++ replies₂) := by
  intro h
  have hboth : ((machine.run new twoLeft).bind (fun r => (machine.run r.2 (.stop :: oneSent ++ [.join])).map (fun r' =>
      (r.2.calls.keys, pushed (r.1 ++ r'.1), handed (r.1 ++ r'.1))))) =
        some (∅, [⟨[], [1]⟩, ⟨[], [2]⟩], [⟨[], [1]⟩]) := by decide +kernel
  obtain ⟨⟨replies₁, s⟩, h₁, hrest⟩ := Option.bind_eq_some_iff.mp hboth
  obtain ⟨⟨replies₂, s'⟩, h₂, he⟩ := Option.map_eq_some_iff.mp hrest
  simp only [Prod.mk.injEq] at he
  obtain ⟨hkeys, hpushed, hhanded⟩ := he
  have hall := h twoLeft oneSent replies₁ replies₂ s s' h₁ (Threads.eq_empty_of_keys hkeys) (fun _ _ => by simp [oneSent]) h₂
  rw [hpushed, hhanded] at hall
  exact absurd (hall ⟨[], [2]⟩) (by decide)

theorem handed_at_join_twoLeft :
    ∃ replies₁ s replies₂ s', machine.run new twoLeft = some (replies₁, s) ∧
      machine.run s (.stop :: oneSent ++ [.join]) = some (replies₂, s') ∧
        handed (replies₁ ++ replies₂) ++ s.left = pushed (replies₁ ++ replies₂) := by
  have hkeys : ((machine.run new twoLeft).bind (fun r => (machine.run r.2 (.stop :: oneSent ++ [.join])).map (fun _ =>
      r.2.calls.keys))) = some ∅ := by decide +kernel
  obtain ⟨⟨replies₁, s⟩, h₁, hrest⟩ := Option.bind_eq_some_iff.mp hkeys
  obtain ⟨⟨replies₂, s'⟩, h₂, he⟩ := Option.map_eq_some_iff.mp hrest
  exact ⟨replies₁, s, replies₂, s', h₁, h₂, (handed_at_join twoLeft oneSent replies₁ replies₂ s s' h₁ (Threads.eq_empty_of_keys he)
    (fun _ _ => by simp [oneSent]) h₂).1⟩

/-- How many steps the sending thread is from its end, at most, once `m_stop` is set. -/
def stepsLeft (s : DingState Tid) : Nat :=
  match s.sendThread with
  | .returned => 0
  | .check => 1
  | .sending => 2
  | .send _ => 3
  | .lock => 4
  | .woken => 4
  | .timedOut => 4
  | .wait => 5
  | .block => 6

omit [DecidableEq Tid] in
/-- Behind `wait_for` it has three steps left at most, and the destructor is where it was. -/
theorem stepsLeft_popFront (s : DingState Tid) :
    s.popFront.stepsLeft < 4 ∧ s.popFront.sender.mStop = s.sender.mStop ∧ s.popFront.destructor = s.destructor := by
  rcases popFront_moves s with ⟨msg, msgs, -, he⟩ | ⟨-, he⟩
  · rw [he]
    exact ⟨(by decide : 3 < 4), rfl, rfl⟩
  · rw [he]
    exact ⟨(by decide : 1 < 4), rfl, rfl⟩

/-- Once `m_stop` is set the sending thread has a step that leads on, wherever it is: a wait runs out of time, and the condition holds. -/
theorem progress {s : DingState Tid} (hstop : s.sender.mStop = true) (hne : s.sendThread ≠ .returned) :
    ∃ a r s', machine.step s a = some (r, s') ∧ s'.stepsLeft < s.stepsLeft ∧ s'.sender.mStop = true ∧
      s'.destructor = s.destructor := by
  have hready : s.sender.isReady = true := by rw [DingMsgSender.isReady, hstop, Bool.or_true]
  obtain ⟨hleft, hstop', hdestructor⟩ := stepsLeft_popFront s
  have htakes : s.lockSend = some s.popFront → s.stepsLeft = 4 →
      ∃ a r s', machine.step s a = some (r, s') ∧ s'.stepsLeft < s.stepsLeft ∧ s'.sender.mStop = true ∧
        s'.destructor = s.destructor := by
    intro hlock hsteps
    refine ⟨.sendLock, .running, s.popFront, ?_, by omega, hstop'.trans hstop, hdestructor⟩
    simp only [machine, step, hlock, Option.map_some]
  cases hthread : s.sendThread with
  | returned => exact absurd hthread hne
  | check =>
    exact ⟨.check, .running, { s with sendThread := .returned }, by simp [machine, step, hthread, hstop],
      by simp [stepsLeft, hthread], hstop, rfl⟩
  | sending =>
    exact ⟨.sendReturn, .running, { s with sendThread := .check }, by simp [machine, step, hthread],
      by simp [stepsLeft, hthread], hstop, rfl⟩
  | send msg =>
    exact ⟨.handOver, .handed msg, { s with sendThread := .sending }, by simp [machine, step, hthread],
      by simp [stepsLeft, hthread], hstop, rfl⟩
  | lock => exact htakes (by simp [lockSend, hthread, hready]) (by rw [stepsLeft, hthread])
  | woken => exact htakes (by simp [lockSend, hthread, hready]) (by rw [stepsLeft, hthread])
  | timedOut => exact htakes (by simp [lockSend, hthread]) (by rw [stepsLeft, hthread])
  | wait =>
    exact ⟨.timeOut, .running, { s with sendThread := .timedOut }, by simp [machine, step, hthread],
      by simp [stepsLeft, hthread], hstop, rfl⟩
  | block =>
    exact ⟨.block, .running, { s with sendThread := .wait }, by simp [machine, step, hthread],
      by simp [stepsLeft, hthread], hstop, rfl⟩

/-- From every state in which the destructor is at its `join`, the steps of the sending thread alone lead to its return. -/
theorem join_returns (s : DingState Tid) (hstop : s.sender.mStop = true) (hjoin : s.destructor = .join) :
    ∃ s', machine.Reaches s s' ∧ s'.destructor = .joined := by
  have hprogress : ∀ {s : DingState Tid}, s.sender.mStop = true ∧ s.destructor = .join → s.sendThread ≠ .returned →
      ∃ a r s', machine.step s a = some (r, s') ∧ (s'.sender.mStop = true ∧ s'.destructor = .join) ∧ s'.stepsLeft < s.stepsLeft := by
    rintro s ⟨hstop, hjoin⟩ hne
    obtain ⟨a, r, s', hs, hless, hstop', hdestructor⟩ := progress hstop hne
    exact ⟨a, r, s', hs, ⟨hstop', hdestructor.trans hjoin⟩, hless⟩
  obtain ⟨t, ⟨is, os, hrun⟩, ⟨-, hjoin'⟩, hreturned⟩ := Machine.reaches_of_measure stepsLeft hprogress ⟨hstop, hjoin⟩
  have hlast : machine.step t .join = some (.joined, { t with destructor := .joined }) := by
    simp [machine, step, hjoin', hreturned]
  exact ⟨_, ⟨is ++ [.join], os ++ [.joined], Machine.run_concat_eq_some.mpr ⟨t, os, .joined, hrun, hlast, rfl⟩⟩, rfl⟩

end DingState

end FrontServer
