import FrontServer.Theorems.DingQueue

/-!
# The notifications of the sending thread

`PushMsg` notifies only for the first message of the list, and without the mutex. Still the sending thread is never blocked with a
message in the list and nobody about to notify it, so no message waits for the second after which `wait_for` ends by itself. It is the
destructor that needs it: a `notify_one` between the test of the condition and the wait is lost.
-/

namespace FrontServer

namespace DingMsgSender

/-- A message that comes into an empty list is the first. -/
theorem pushBack_first {d : DingMsgSender} (hnil : d.mMsgs = []) (msg : DingMsg) : (d.pushBack msg).1 = 1 := by
  have hone : (1 : Int).bmod (2 ^ 32) = 1 := by decide
  unfold pushBack
  dsimp only
  rw [hnil]
  exact hone

theorem pushBack_mStop (d : DingMsgSender) (msg : DingMsg) : (d.pushBack msg).2.mStop = d.mStop := by
  unfold pushBack
  dsimp only

end DingMsgSender

namespace DingState

variable {Tid : Type} [DecidableEq Tid]

/-- The destructor has called its `notify_one` while the sending thread was about to block. -/
def StopLost (acts : List (DingAction Tid)) : Prop :=
  ∃ acts₁ acts₂ replies s,
    acts = acts₁ ++ .stopNotify :: acts₂ ∧ machine.run new acts₁ = some (replies, s) ∧ s.sendThread = .block

theorem StopLost.append {acts : List (DingAction Tid)} (h : StopLost acts) (acts' : List (DingAction Tid)) :
    StopLost (acts ++ acts') := by
  obtain ⟨acts₁, acts₂, replies, s, rfl, hrun, hblock⟩ := h
  exact ⟨acts₁, acts₂ ++ acts', replies, s, List.append_assoc _ _ _, hrun, hblock⟩

/-- The sending thread blocks with an empty list and without `m_stop`. For what has come since, a thread is about to notify it, or the
notification of the destructor was lost. It returns because of `m_stop`. -/
structure Heard (lost : Prop) (s : DingState Tid) : Prop where
  empty : s.sendThread = .block → s.sender.mMsgs = []
  pushed : s.sendThread = .wait → s.sender.mMsgs ≠ [] → ∃ t, s.calls.lookup t = some (.notify 1)
  stopped : s.sendThread = .block ∨ s.sendThread = .wait → s.sender.mStop = true → s.destructor = .notify ∨ lost
  returned : s.sendThread = .returned → s.sender.mStop = true

theorem heard_new (lost : Prop) : Heard lost (new : DingState Tid) := by
  refine ⟨?_, ?_, ?_, ?_⟩
  · intro h
    cases h
  · intro h
    cases h
  · rintro (h | h)
    · cases h
    · cases h
  · intro h
    cases h

/-- A sending thread that is somewhere else. -/
theorem Heard.of_awake {lost : Prop} {s : DingState Tid} (hblock : s.sendThread ≠ .block) (hwait : s.sendThread ≠ .wait)
    (hreturned : s.sendThread = .returned → s.sender.mStop = true) : Heard lost s :=
  ⟨fun h => absurd h hblock, fun h => absurd h hwait, fun h => h.elim (fun h => absurd h hblock) (fun h => absurd h hwait), hreturned⟩

/-- A message is put into the list, by a thread that is then about to notify if it is the first. -/
theorem Heard.pushLock {lost : Prop} {s : DingState Tid} (h : Heard lost s) {t : Tid} {msg : DingMsg}
    (hlock : s.calls.lookup t = some (.lock msg)) (hblock : s.sendThread ≠ .block) {queueSize : Int} {sender : DingMsgSender}
    (hsize : s.sender.mMsgs = [] → queueSize = 1) (hstop : sender.mStop = s.sender.mStop) :
    Heard lost { s with sender := sender, calls := s.calls.insert t (.notify queueSize) } := by
  refine ⟨fun h => absurd h hblock, fun hwait _ => ?_, ?_, ?_⟩
  · by_cases hnil : s.sender.mMsgs = []
    · exact ⟨t, by rw [Finmap.lookup_insert, hsize hnil]⟩
    · obtain ⟨t', ht'⟩ := h.pushed hwait hnil
      have hne : t' ≠ t := by
        rintro rfl
        rw [hlock] at ht'
        cases ht'
      exact ⟨t', by rw [Finmap.lookup_insert_of_ne _ hne, ht']⟩
  · rw [hstop]
    exact h.stopped
  · rw [hstop]
    exact h.returned

/-- A notification, after which the sending thread does not wait. -/
theorem Heard.notifyOne {lost : Prop} {s : DingState Tid} (hempty : s.sendThread = .block → s.sender.mMsgs = [])
    (hstopped : s.sendThread = .block → s.sender.mStop = true → s.destructor = .notify ∨ lost)
    (hreturned : s.sendThread = .returned → s.sender.mStop = true) : Heard lost s.notifyOne := by
  unfold DingState.notifyOne
  split
  · refine .of_awake ?_ ?_ ?_
    · intro h
      cases h
    · intro h
      cases h
    · intro h
      cases h
  · rename_i hwait
    exact ⟨hempty, fun h => absurd h hwait, fun h => h.elim hstopped (fun h => absurd h hwait), hreturned⟩

/-- One step; the notification of the destructor may be lost by it. -/
theorem heard_of_step {lost : Prop} {s s' : DingState Tid} {a : DingAction Tid} {r : DingReply} (h : Heard lost s)
    (hs : machine.step s a = some (r, s')) (hlost : a = .stopNotify → s.sendThread = .block → lost) : Heard lost s' := by
  have hawake : ∀ {s : DingState Tid} {thread : SendThread}, thread ≠ .block → thread ≠ .wait → thread ≠ .returned →
      Heard lost { s with sendThread := thread } :=
    fun hblock hwait hreturned => .of_awake hblock hwait (fun h => absurd h hreturned)
  -- A notification that is on its way stays so where its thread is another one.
  have hother : ∀ {t : Tid} {k : Option PushCall}, s.calls.lookup t = k → k ≠ some (.notify 1) →
      ∀ t', s.calls.lookup t' = some (.notify 1) → t' ≠ t := by
    rintro t k hk hne t' ht' rfl
    exact hne (hk.symm.trans ht')
  cases step_cases hs with
  | callPush t msg hnone =>
    refine ⟨h.empty, fun hwait hne => ?_, h.stopped, h.returned⟩
    obtain ⟨t', ht'⟩ := h.pushed hwait hne
    exact ⟨t', by rw [Finmap.lookup_insert_of_ne _ (hother hnone (by simp) t' ht'), ht']⟩
  | pushLock t msg queueSize sender hlock hblock hpush =>
    have hfirst : s.sender.mMsgs = [] → queueSize = 1 := by
      intro hnil
      have hone := DingMsgSender.pushBack_first hnil msg
      rwa [hpush] at hone
    have hkeeps : sender.mStop = s.sender.mStop := by
      have hsame := DingMsgSender.pushBack_mStop s.sender msg
      rwa [hpush] at hsame
    exact h.pushLock hlock hblock hfirst hkeeps
  | notify t hnotify => exact .notifyOne h.empty (fun hblock => h.stopped (Or.inl hblock)) h.returned
  | noNotify t queueSize hnotify hsize =>
    refine ⟨h.empty, fun hwait hne => ?_, h.stopped, h.returned⟩
    obtain ⟨t', ht'⟩ := h.pushed hwait hne
    have hne' : some (PushCall.notify queueSize) ≠ some (.notify 1) := by
      intro he
      cases he
      exact hsize rfl
    exact ⟨t', by rw [Finmap.lookup_erase_ne (hother hnotify hne' t' ht'), ht']⟩
  | check => exact hawake (by simp) (by simp) (by simp)
  | returns _ hstop => exact .of_awake (by simp) (by simp) (fun _ => hstop)
  | take => exact .of_awake (by simp) (by simp) (by simp)
  | takeNone => exact hawake (by simp) (by simp) (by simp)
  | goBlock _ hready =>
    have hnone : s.sender.mMsgs = [] ∧ s.sender.mStop = false := by simpa [DingMsgSender.isReady] using hready
    refine ⟨fun _ => hnone.1, ?_, fun _ hstop => ?_, ?_⟩
    · intro hwait
      cases hwait
    · rw [hnone.2] at hstop
      cases hstop
    · intro hreturned
      cases hreturned
  | block hblock =>
    refine ⟨?_, fun _ hne => absurd (h.empty hblock) hne, fun _ => h.stopped (Or.inl hblock), ?_⟩
    · intro h
      cases h
    · intro h
      cases h
  | wakeUp => exact hawake (by simp) (by simp) (by simp)
  | timeOut => exact hawake (by simp) (by simp) (by simp)
  | handOver => exact hawake (by simp) (by simp) (by simp)
  | sendReturn => exact hawake (by simp) (by simp) (by simp)
  | stop => exact ⟨h.empty, h.pushed, fun _ _ => Or.inl rfl, fun _ => rfl⟩
  | stopNotify =>
    have hnotified : Heard lost s.notifyOne := .notifyOne h.empty (fun hblock => h.stopped (Or.inl hblock)) h.returned
    refine ⟨hnotified.empty, hnotified.pushed, fun hasleep _ => Or.inr ?_, hnotified.returned⟩
    -- Only a sending thread in front of its wait is still asleep.
    have hblock : s.sendThread = .block := by
      revert hasleep
      unfold DingState.notifyOne
      split
      · simp
      · rename_i hwait
        exact fun hasleep => hasleep.resolve_right hwait
    exact hlost rfl hblock
  | join _ hreturned => exact .of_awake (by simp [hreturned]) (by simp [hreturned]) h.returned

/-- Whenever the sending thread is blocked although its condition holds, a thread is about to notify it, or the destructor is; unless the
notification of the destructor came while the sending thread was in front of its wait. -/
theorem wait_heard (acts : List (DingAction Tid)) (replies : List DingReply) (s : DingState Tid)
    (h : machine.run new acts = some (replies, s)) (hwait : s.sendThread = .wait) (hready : s.sender.isReady = true) :
    (∃ t, s.calls.lookup t = some (.notify 1)) ∨ s.sender.mMsgs = [] ∧ (s.destructor = .notify ∨ StopLost acts) := by
  have hheard : Heard (StopLost acts) s := by
    refine Machine.run_history (P := fun acts _ (s : DingState Tid) => Heard (StopLost acts) s) (heard_new _)
      (fun {acts _ s a _ _} hrun h hs => ?_) h
    have hmore : Heard (StopLost (acts ++ [a])) s :=
      ⟨h.empty, h.pushed, fun hasleep hstop => (h.stopped hasleep hstop).imp_right fun hlost => hlost.append [a], h.returned⟩
    refine heard_of_step hmore hs fun hnotify hblock => ?_
    subst hnotify
    exact ⟨acts, [], _, s, rfl, hrun, hblock⟩
  by_cases hnil : s.sender.mMsgs = []
  · have hstop : s.sender.mStop = true := by simpa [DingMsgSender.isReady, hnil] using hready
    exact Or.inr ⟨hnil, hheard.stopped (Or.inr hwait) hstop⟩
  · exact Or.inl (hheard.pushed hwait hnil)

/-- Two threads put a message each into the list while the sending thread is blocked, and have not come to their notifications. -/
def twoUnnotified : List (DingAction Nat) :=
  [.check, .sendLock, .block, .callPush 0 ⟨[], [1]⟩, .callPush 1 ⟨[], [2]⟩, .pushLock 1, .pushLock 0]

theorem wait_heard_twoUnnotified :
    ∃ replies s, machine.run new twoUnnotified = some (replies, s) ∧
      ((∃ t, s.calls.lookup t = some (.notify 1)) ∨ s.sender.mMsgs = [] ∧ (s.destructor = .notify ∨ StopLost twoUnnotified)) := by
  have hboth : (machine.run new twoUnnotified).map (fun r => (r.2.sendThread, r.2.sender.isReady)) = some (.wait, true) := by
    decide +kernel
  obtain ⟨⟨replies, s⟩, hrun, he⟩ := Option.map_eq_some_iff.mp hboth
  obtain ⟨hwait, hready⟩ := Prod.mk.inj he
  exact ⟨replies, s, hrun, wait_heard twoUnnotified replies s hrun hwait hready⟩

/-- A notification of the destructor that is lost: the sending thread is blocked, and only the time ends its wait. -/
example : (machine.run new ([.check, .sendLock, .stop, .stopNotify, .block] : List (DingAction Nat))).map
    (fun r => (r.2.sendThread, r.2.sender.isReady, r.2.destructor)) = some (.wait, true, .join) := by
  decide +kernel

/-! ## Delivery without the time -/

/-- A step of a call of `PushMsg` that is behind the critical section, or one of the sending thread other than waking up by itself. -/
def Delivers : DingAction Tid → Prop
  | .pushNotify _ => True
  | .check => True
  | .sendLock => True
  | .block => True
  | .handOver => True
  | .sendReturn => True
  | _ => False

/-- None of these steps puts a message into the list. -/
theorem pushed_of_delivers {s s' : DingState Tid} {acts : List (DingAction Tid)} {replies : List DingReply}
    (hacts : ∀ a ∈ acts, Delivers a) (h : machine.run s acts = some (replies, s')) : pushed replies = [] := by
  induction acts generalizing s replies with
  | nil =>
    cases h
    rfl
  | cons a acts ih =>
    obtain ⟨ha, hacts⟩ := List.forall_mem_cons.mp hacts
    obtain ⟨r, t, replies', hs, hrun, rfl⟩ := Machine.run_cons_eq_some.mp h
    have hnone : r.takes = [] := by
      cases step_moves hs with
      | push t msg => exact ha.elim
      | take msg => rfl
      | hand msg => rfl
      | other a r hr =>
        rcases hr with rfl | rfl
        · rfl
        · rfl
    rw [pushed, List.flatMap_cons, hnone, List.nil_append]
    exact ih hacts hrun

/-- How many of these steps the sending thread is away from taking the next message off the list, at most; more with one in its hand. -/
def stepsToTake (s : DingState Tid) : Nat :=
  match s.sendThread with
  | .lock => 0
  | .woken => 0
  | .timedOut => 0
  | .wait => 1
  | .block => 2
  | .check => 3
  | .sending => 4
  | .send _ => 5
  | .returned => 0

/-- How many of these steps are left, at most. -/
def stepsToDeliver (s : DingState Tid) : Nat := 6 * s.sender.mMsgs.length + s.stepsToTake

omit [DecidableEq Tid] in
theorem stepsToDeliver_popFront {s : DingState Tid} (hne : s.sender.mMsgs ≠ []) :
    s.popFront.stepsToDeliver < 6 * s.sender.mMsgs.length ∧ s.popFront.sender.mStop = s.sender.mStop := by
  rcases popFront_moves s with ⟨msg, msgs, hmsgs, he⟩ | ⟨hnil, -⟩
  · have hlt : 6 * msgs.length + 5 < 6 * s.sender.mMsgs.length := by
      rw [hmsgs, List.length_cons]
      omega
    rw [he]
    exact ⟨hlt, rfl⟩
  · exact absurd hnil hne

/-- Nothing is in the list or in the hand of the sending thread. -/
def Delivered (s : DingState Tid) : Prop := s.inHand = [] ∧ s.sender.mMsgs = []

/-- Without `m_stop`, and as long as something is to deliver, one of these steps leads on. -/
theorem delivers_progress {s : DingState Tid} (h : Heard True s ∧ s.sender.mStop = false) (hdone : ¬s.Delivered) :
    ∃ a r s', Delivers a ∧ machine.step s a = some (r, s') ∧ (Heard True s' ∧ s'.sender.mStop = false) ∧
      s'.stepsToDeliver < s.stepsToDeliver := by
  obtain ⟨hheard, hstop⟩ := h
  have htakes : ∀ a r s', Delivers a → machine.step s a = some (r, s') → s'.sender.mStop = s.sender.mStop →
      s'.stepsToDeliver < s.stepsToDeliver →
      ∃ a r s', Delivers a ∧ machine.step s a = some (r, s') ∧ (Heard True s' ∧ s'.sender.mStop = false) ∧
        s'.stepsToDeliver < s.stepsToDeliver :=
    fun a r s' hdelivers hs hkeeps hlt =>
      ⟨a, r, s', hdelivers, hs, ⟨heard_of_step hheard hs (fun _ _ => trivial), hkeeps.trans hstop⟩, hlt⟩
  have hne : (∀ msg, s.sendThread ≠ .send msg) → s.sender.mMsgs ≠ [] := by
    intro hthread hnil
    refine hdone ⟨?_, hnil⟩
    unfold inHand
    split
    · rename_i msg hsend
      exact absurd hsend (hthread msg)
    · rfl
  have hlock : (∀ msg, s.sendThread ≠ .send msg) → s.lockSend = some s.popFront → s.stepsToTake = 0 →
      ∃ a r s', Delivers a ∧ machine.step s a = some (r, s') ∧ (Heard True s' ∧ s'.sender.mStop = false) ∧
        s'.stepsToDeliver < s.stepsToDeliver := by
    intro hthread hlock hsteps
    obtain ⟨hlt, hkeeps⟩ := stepsToDeliver_popFront (hne hthread)
    have hs : machine.step s .sendLock = some (.running, s.popFront) := by simp only [machine, step, hlock, Option.map_some]
    have hmeasure : s.stepsToDeliver = 6 * s.sender.mMsgs.length := by rw [stepsToDeliver, hsteps, Nat.add_zero]
    exact htakes .sendLock .running s.popFront trivial hs hkeeps (by rw [hmeasure]; exact hlt)
  have hready : (∀ msg, s.sendThread ≠ .send msg) → s.sender.isReady = true := by
    intro hthread
    simp [DingMsgSender.isReady, hne hthread]
  cases hthread : s.sendThread with
  | returned =>
    have hstopped := hheard.returned hthread
    rw [hstop] at hstopped
    cases hstopped
  | check =>
    refine htakes .check .running { s with sendThread := .lock } trivial ?_ rfl ?_
    · simp [machine, step, hthread, hstop]
    · simp [stepsToDeliver, stepsToTake, hthread]
  | sending =>
    refine htakes .sendReturn .running { s with sendThread := .check } trivial ?_ rfl ?_
    · simp [machine, step, hthread]
    · simp [stepsToDeliver, stepsToTake, hthread]
  | send msg =>
    refine htakes .handOver (.handed msg) { s with sendThread := .sending } trivial ?_ rfl ?_
    · simp [machine, step, hthread]
    · simp [stepsToDeliver, stepsToTake, hthread]
  | lock =>
    have hother : ∀ msg, s.sendThread ≠ .send msg := by simp [hthread]
    exact hlock hother (by simp [lockSend, hthread, hready hother]) (by rw [stepsToTake, hthread])
  | woken =>
    have hother : ∀ msg, s.sendThread ≠ .send msg := by simp [hthread]
    exact hlock hother (by simp [lockSend, hthread, hready hother]) (by rw [stepsToTake, hthread])
  | timedOut =>
    have hother : ∀ msg, s.sendThread ≠ .send msg := by simp [hthread]
    exact hlock hother (by simp [lockSend, hthread]) (by rw [stepsToTake, hthread])
  | wait =>
    -- The thread that put the first message into the list wakes it.
    obtain ⟨t, ht⟩ := hheard.pushed hthread (hne (by simp [hthread]))
    refine htakes (.pushNotify t) .running { s with calls := s.calls.erase t, sendThread := .woken } trivial ?_ rfl ?_
    · simp [machine, step, ht, notifyOne, hthread]
    · simp [stepsToDeliver, stepsToTake, hthread]
  | block => exact absurd (hheard.empty hthread) (hne (by simp [hthread]))

/-- As long as the destructor is not called, the notifications that are on the way and the steps of the sending thread deliver every
message that has been put into the list, whatever has happened before. The sending thread need not wake up for no reason or because of
the time for it. -/
theorem delivered_without_time (acts : List (DingAction Tid)) (replies : List DingReply) (s : DingState Tid)
    (h : machine.run new acts = some (replies, s)) (halive : s.sender.mStop = false) :
    ∃ acts' replies' s', (∀ a ∈ acts', Delivers a) ∧ machine.run s acts' = some (replies', s') ∧
      handed (replies ++ replies') = pushed replies := by
  have hheard : Heard True s := Machine.run_invariant (fun h hs => heard_of_step h hs (fun _ _ => trivial)) (heard_new True) h
  obtain ⟨acts', replies', s', hacts, hrun, -, hhand, hmsgs⟩ :=
    Machine.exists_run_of_measure (P := fun s => Heard True s ∧ s.sender.mStop = false) (D := Delivered) stepsToDeliver
      delivers_progress ⟨hheard, halive⟩
  refine ⟨acts', replies', s', hacts, hrun, ?_⟩
  have horder := pending_of_run (Machine.run_append_eq_some.mpr ⟨s, replies, replies', h, hrun, rfl⟩)
  have hpushed : pushed (replies ++ replies') = pushed replies := by
    rw [pushed, List.flatMap_append]
    exact (congrArg _ (pushed_of_delivers hacts hrun)).trans (List.append_nil _)
  rwa [hhand, hmsgs, hpushed, List.append_nil, List.append_nil] at horder

theorem delivered_without_time_twoUnnotified :
    ∃ replies s acts' replies' s', machine.run new twoUnnotified = some (replies, s) ∧ (∀ a ∈ acts', Delivers a) ∧
      machine.run s acts' = some (replies', s') ∧ handed (replies ++ replies') = pushed replies := by
  have hboth : (machine.run new twoUnnotified).map (fun r => r.2.sender.mStop) = some false := by decide +kernel
  obtain ⟨⟨replies, s⟩, hrun, halive⟩ := Option.map_eq_some_iff.mp hboth
  obtain ⟨acts', replies', s', h⟩ := delivered_without_time twoUnnotified replies s hrun halive
  exact ⟨replies, s, acts', replies', s', hrun, h⟩

end DingState

end FrontServer
