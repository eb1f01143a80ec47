import FrontServer.DingMsgSender

/-!
# What the steps of the sender do with the messages

`Step` lists the steps of the threads, with what each needs and where it leads. A message is put at the end of the list, taken off its
front by the sending thread, and handed over: `step_moves` says which of these a step does.
-/

namespace FrontServer

namespace DingState

variable {Tid : Type}

/-- The message that the sending thread has taken off the list and not handed over yet. -/
def inHand (s : DingState Tid) : List DingMsg :=
  match s.sendThread with
  | .send msg => [msg]
  | _ => []

/-- The sending thread is behind the loop's condition, and in front of taking a message. -/
def isTaking (s : DingState Tid) : Bool :=
  match s.sendThread with
  | .lock => true
  | .block => true
  | .wait => true
  | .woken => true
  | .timedOut => true
  | _ => false

/-- The destructor has started, and no thread is in `PushMsg`. -/
def Quiet (s : DingState Tid) : Prop := s.sender.mStop = true ∧ s.calls = ∅

/-- A notification changes nothing but that the sending thread is no longer blocked. -/
theorem notifyOne_moves (s : DingState Tid) :
    s.notifyOne.sender = s.sender ∧ s.notifyOne.calls = s.calls ∧ s.notifyOne.inHand = s.inHand ∧ s.notifyOne.isTaking = s.isTaking := by
  unfold notifyOne
  split
  · rename_i hwait
    simp [inHand, isTaking, hwait]
  · exact ⟨rfl, rfl, rfl, rfl⟩

/-- Behind `wait_for` the sending thread takes the first message, or finds none and goes back to the loop's condition. -/
theorem popFront_moves (s : DingState Tid) :
    (∃ msg msgs, s.sender.mMsgs = msg :: msgs ∧
        s.popFront = { s with sender := { s.sender with mMsgs := msgs }, sendThread := .send msg }) ∨
      s.sender.mMsgs = [] ∧ s.popFront = { s with sendThread := .check } := by
  unfold popFront
  split
  · rename_i hnil
    exact Or.inr ⟨hnil, rfl⟩
  · rename_i msg msgs hmsgs
    exact Or.inl ⟨msg, msgs, hmsgs, rfl⟩

/-- The sending thread is in front of the mutex, for the first time or after a wait. -/
def AtLock (s : DingState Tid) : Prop := s.sendThread = .lock ∨ s.sendThread = .woken ∨ s.sendThread = .timedOut

/-- In front of the mutex it is about to take a message, and has none in its hand. -/
theorem AtLock.isTaking {s : DingState Tid} (h : s.AtLock) : s.isTaking = true ∧ s.inHand = [] := by
  rcases h with h | h | h
  · exact ⟨by rw [DingState.isTaking, h], by rw [inHand, h]⟩
  · exact ⟨by rw [DingState.isTaking, h], by rw [inHand, h]⟩
  · exact ⟨by rw [DingState.isTaking, h], by rw [inHand, h]⟩

/-- With the mutex the sending thread takes what is there, or goes on to block because the condition does not hold. -/
theorem lockSend_moves {s s' : DingState Tid} (h : s.lockSend = some s') :
    s.AtLock ∧ (s' = s.popFront ∨ s.sender.isReady = false ∧ s' = { s with sendThread := .block }) := by
  unfold lockSend at h
  split at h
  · rename_i hlock
    refine ⟨Or.inl hlock, ?_⟩
    split at h
    · exact Or.inl (Option.some.inj h).symm
    · rename_i hready
      exact Or.inr ⟨Bool.eq_false_of_not_eq_true hready, (Option.some.inj h).symm⟩
  · rename_i hwoken
    refine ⟨Or.inr (Or.inl hwoken), ?_⟩
    split at h
    · exact Or.inl (Option.some.inj h).symm
    · rename_i hready
      exact Or.inr ⟨Bool.eq_false_of_not_eq_true hready, (Option.some.inj h).symm⟩
  · rename_i htime
    exact ⟨Or.inr (Or.inr htime), Or.inl (Option.some.inj h).symm⟩
  · cases h

variable [DecidableEq Tid]

/-- The steps of the threads, with what each needs. -/
inductive Step (s : DingState Tid) : DingAction Tid → DingReply → DingState Tid → Prop
  | callPush (t : Tid) (msg : DingMsg) : s.calls.lookup t = none →
    Step s (.callPush t msg) .running { s with calls := s.calls.insert t (.lock msg) }
  | pushLock (t : Tid) (msg : DingMsg) (queueSize : Int) (sender : DingMsgSender) : s.calls.lookup t = some (.lock msg) →
    s.sendThread ≠ .block → s.sender.pushBack msg = (queueSize, sender) →
    Step s (.pushLock t) (.pushed msg) { s with sender := sender, calls := s.calls.insert t (.notify queueSize) }
  | notify (t : Tid) : s.calls.lookup t = some (.notify 1) →
    Step s (.pushNotify t) .running (notifyOne { s with calls := s.calls.erase t })
  | noNotify (t : Tid) (queueSize : Int) : s.calls.lookup t = some (.notify queueSize) → 1 ≠ queueSize →
    Step s (.pushNotify t) .running { s with calls := s.calls.erase t }
  | check : s.sendThread = .check → s.sender.mStop = false → Step s .check .running { s with sendThread := .lock }
  | returns : s.sendThread = .check → s.sender.mStop = true → Step s .check .running { s with sendThread := .returned }
  | take (msg : DingMsg) (msgs : List DingMsg) : s.AtLock → s.sender.mMsgs = msg :: msgs →
    Step s .sendLock .running { s with sender := { s.sender with mMsgs := msgs }, sendThread := .send msg }
  | takeNone : s.AtLock → s.sender.mMsgs = [] → Step s .sendLock .running { s with sendThread := .check }
  | goBlock : s.AtLock → s.sender.isReady = false → Step s .sendLock .running { s with sendThread := .block }
  | block : s.sendThread = .block → Step s .block .running { s with sendThread := .wait }
  | wakeUp : s.sendThread = .wait → Step s .wakeUp .running { s with sendThread := .woken }
  | timeOut : s.sendThread = .wait ∨ s.sendThread = .woken → Step s .timeOut .running { s with sendThread := .timedOut }
  | handOver (msg : DingMsg) : s.sendThread = .send msg → Step s .handOver (.handed msg) { s with sendThread := .sending }
  | sendReturn : s.sendThread = .sending → Step s .sendReturn .running { s with sendThread := .check }
  | stop : s.destructor = .alive →
    Step s .stop .running { s with sender := { s.sender with mStop := true }, destructor := .notify }
  | stopNotify : s.destructor = .notify → Step s .stopNotify .running { s.notifyOne with destructor := .join }
  | join : s.destructor = .join → s.sendThread = .returned → Step s .join .joined { s with destructor := .joined }

/-- The model takes these steps and no others. -/
theorem step_cases {s s' : DingState Tid} {a : DingAction Tid} {r : DingReply} (hs : s.step a = some (r, s')) : Step s a r s' := by
  cases a with
  | callPush t msg =>
    simp only [step] at hs
    split at hs
    · rename_i hnone
      cases hs
      exact .callPush t msg hnone
    · cases hs
  | pushLock t =>
    simp only [step] at hs
    split at hs
    · rename_i msg hlock
      split at hs
      · cases hs
      · rename_i hblock
        cases hpush : s.sender.pushBack msg with
        | mk queueSize sender =>
          rw [hpush] at hs
          cases hs
          exact .pushLock t msg queueSize sender hlock hblock hpush
    · cases hs
  | pushNotify t =>
    simp only [step] at hs
    split at hs
    · rename_i queueSize hnotify
      split at hs
      · rename_i hone
        cases hs
        rw [← hone] at hnotify
        exact .notify t hnotify
      · rename_i hone
        cases hs
        exact .noNotify t queueSize hnotify hone
    · cases hs
  | check =>
    simp only [step] at hs
    split at hs
    · rename_i hcheck
      cases hs
      cases hstop : s.sender.mStop with
      | true => exact .returns hcheck hstop
      | false => exact .check hcheck hstop
    · cases hs
  | sendLock =>
    simp only [step] at hs
    obtain ⟨s₁, hlock, he⟩ := Option.map_eq_some_iff.mp hs
    cases he
    obtain ⟨hat, rfl | ⟨hready, rfl⟩⟩ := lockSend_moves hlock
    · rcases popFront_moves s with ⟨msg, msgs, hmsgs, he⟩ | ⟨hnil, he⟩
      · rw [he]
        exact .take msg msgs hat hmsgs
      · rw [he]
        exact .takeNone hat hnil
    · exact .goBlock hat hready
  | block =>
    simp only [step] at hs
    split at hs
    · rename_i hblock
      cases hs
      exact .block hblock
    · cases hs
  | wakeUp =>
    simp only [step] at hs
    split at hs
    · rename_i hwait
      cases hs
      exact .wakeUp hwait
    · cases hs
  | timeOut =>
    simp only [step] at hs
    split at hs
    · rename_i hwait
      cases hs
      exact .timeOut (Or.inl hwait)
    · rename_i hwoken
      cases hs
      exact .timeOut (Or.inr hwoken)
    · cases hs
  | handOver =>
    simp only [step] at hs
    split at hs
    · rename_i msg hsend
      cases hs
      exact .handOver msg hsend
    · cases hs
  | sendReturn =>
    simp only [step] at hs
    split at hs
    · rename_i hsending
      cases hs
      exact .sendReturn hsending
    · cases hs
  | stop =>
    simp only [step] at hs
    split at hs
    · rename_i halive
      cases hs
      exact .stop halive
    · cases hs
  | stopNotify =>
    simp only [step] at hs
    split at hs
    · rename_i hnotify
      cases hs
      exact .stopNotify hnotify
    · cases hs
  | join =>
    simp only [step] at hs
    split at hs
    · rename_i hjoin hreturned
      cases hs
      exact .join hjoin hreturned
    · cases hs

/-- What a step does with the messages. -/
inductive Moves (s s' : DingState Tid) : DingAction Tid → DingReply → Prop where
  | push (t : Tid) (msg : DingMsg) (hlock : s.calls.lookup t = some (.lock msg))
      (hmsgs : s'.sender.mMsgs = s.sender.mMsgs ++ [msg]) (hthread : s'.sendThread = s.sendThread) : Moves s s' (.pushLock t) (.pushed msg)
  | take (msg : DingMsg) (hmsgs : s.sender.mMsgs = msg :: s'.sender.mMsgs) (hhand : s.inHand = []) (htaking : s.isTaking = true)
      (hthread : s'.sendThread = .send msg) (hquiet : s.Quiet → s'.Quiet) : Moves s s' .sendLock .running
  | hand (msg : DingMsg) (hmsgs : s'.sender.mMsgs = s.sender.mMsgs) (hthread : s.sendThread = .send msg)
      (hthread' : s'.sendThread = .sending) (hquiet : s.Quiet → s'.Quiet) : Moves s s' .handOver (.handed msg)
  | other (a : DingAction Tid) (r : DingReply) (hr : r = .running ∨ r = .joined) (hmsgs : s'.sender.mMsgs = s.sender.mMsgs)
      (hhand : s'.inHand = s.inHand)
      (htaking : s'.isTaking = s.isTaking ∨ s.sender.mMsgs = [] ∨ s.sender.mStop = false)
      (hquiet : s.Quiet → s'.Quiet ∨ ∃ t msg, a = .callPush t msg) : Moves s s' a r

/-- The sending thread moves on with nothing in its hand that it did not have there. -/
theorem moves_sendThread {s : DingState Tid} {a : DingAction Tid} (thread : SendThread)
    (hhand : { s with sendThread := thread }.inHand = s.inHand)
    (htaking : { s with sendThread := thread }.isTaking = s.isTaking ∨ s.sender.mMsgs = [] ∨ s.sender.mStop = false) :
    Moves s { s with sendThread := thread } a .running :=
  .other a .running (Or.inl rfl) rfl hhand htaking Or.inl

/-- A step does one of these, and shows it. -/
theorem step_moves {s s' : DingState Tid} {a : DingAction Tid} {r : DingReply} (hs : machine.step s a = some (r, s')) :
    Moves s s' a r := by
  have hbusy : ∀ {t : Tid} {k : PushCall}, s.calls.lookup t = some k → ¬s.Quiet := by
    rintro t k hk ⟨-, hcalls⟩
    rw [hcalls, Finmap.lookup_empty] at hk
    cases hk
  cases step_cases hs with
  | callPush t msg => exact .other _ _ (Or.inl rfl) rfl rfl (Or.inl rfl) (fun _ => Or.inr ⟨t, msg, rfl⟩)
  | pushLock t msg queueSize sender hlock _ hpush =>
    refine .push t msg hlock ?_ rfl
    rw [← show (s.sender.pushBack msg).2 = sender by rw [hpush]]
    rfl
  | notify t hnotify =>
    obtain ⟨hsender, -, hhand, htaking⟩ := notifyOne_moves { s with calls := s.calls.erase t }
    exact .other _ _ (Or.inl rfl) (by rw [hsender]) hhand (Or.inl htaking) (fun h => absurd h (hbusy hnotify))
  | noNotify t queueSize hnotify _ => exact .other _ _ (Or.inl rfl) rfl rfl (Or.inl rfl) (fun h => absurd h (hbusy hnotify))
  | check hcheck hstop => exact moves_sendThread _ (by simp [inHand, hcheck]) (Or.inr (Or.inr hstop))
  | returns hcheck _ => exact moves_sendThread _ (by simp [inHand, hcheck]) (Or.inl (by simp [isTaking, hcheck]))
  | take msg msgs hat hmsgs => exact .take msg hmsgs hat.isTaking.2 hat.isTaking.1 rfl id
  | takeNone hat hnil => exact .other _ _ (Or.inl rfl) rfl hat.isTaking.2.symm (Or.inr (Or.inl hnil)) Or.inl
  | goBlock hat _ => exact .other _ _ (Or.inl rfl) rfl hat.isTaking.2.symm (Or.inl hat.isTaking.1.symm) Or.inl
  | block hblock => exact moves_sendThread _ (by simp [inHand, hblock]) (Or.inl (by simp [isTaking, hblock]))
  | wakeUp hwait => exact moves_sendThread _ (by simp [inHand, hwait]) (Or.inl (by simp [isTaking, hwait]))
  | timeOut hthread =>
    rcases hthread with hwait | hwoken
    · exact moves_sendThread _ (by simp [inHand, hwait]) (Or.inl (by simp [isTaking, hwait]))
    · exact moves_sendThread _ (by simp [inHand, hwoken]) (Or.inl (by simp [isTaking, hwoken]))
  | handOver msg hsend => exact .hand msg rfl hsend rfl id
  | sendReturn hsending => exact moves_sendThread _ (by simp [inHand, hsending]) (Or.inl (by simp [isTaking, hsending]))
  | stop => exact .other _ _ (Or.inl rfl) rfl rfl (Or.inl rfl) (fun h => Or.inl ⟨rfl, h.2⟩)
  | stopNotify =>
    obtain ⟨hsender, hcalls, hhand, htaking⟩ := notifyOne_moves s
    refine .other _ _ (Or.inl rfl) (by rw [hsender]) hhand (Or.inl htaking) (fun h => Or.inl ⟨?_, ?_⟩)
    · rw [hsender]
      exact h.1
    · exact hcalls.trans h.2
  | join => exact .other _ _ (Or.inr rfl) rfl rfl (Or.inl rfl) Or.inl

end DingState

end FrontServer
