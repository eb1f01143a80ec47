import FrontServer.Lib.CMemory
import FrontServer.Lib.Machine
import FrontServer.Lib.Threads

/-!
# `DingMsgSender`: a queue of messages and the thread that sends them

`utils/ding_talk/src/ding_common.cc`. Threads put messages into a list, and one thread takes them off and hands them to
`SendDingMsg`. A thread runs through a critical section in one step; the sending thread gives the mutex up in between, where
`wait_for` blocks it. The wait ends by a notification, for no reason, or by its time, and the last is all that the thread learns of
it: what the test of the condition after that gives is not used.
-/

namespace FrontServer

/-- `class DingMsg`. -/
structure DingMsg where
  token : Bytes
  msg : Bytes
  deriving DecidableEq

/-- `class DingMsgSender`, without the mutex, the condition variable and the thread, which the steps below are about. -/
structure DingMsgSender where
  mMsgs : List DingMsg
  mStop : Bool

namespace DingMsgSender

/-- `DingMsgSender::DingMsgSender`, before it starts the thread. -/
def new : DingMsgSender := { mMsgs := [], mStop := false }

/-- The critical section of `DingMsgSender::PushMsg`, with the `int` that it leaves in `queue_size`. -/
def pushBack (d : DingMsgSender) (msg : DingMsg) : Int × DingMsgSender :=
  let msgs := d.mMsgs ++ [msg]
  ((msgs.length : Int).bmod (2 ^ 32), { d with mMsgs := msgs })

/-- The condition that `wait_for` waits for. -/
def isReady (d : DingMsgSender) : Bool := !d.mMsgs.isEmpty || d.mStop

/-- `DingMsgSender::SendDingMsg`: the url and the body that it posts, nothing without a token. The names of the host and of the process
are those that `GetHostName` and `GetProcessName` get from the system. -/
def sendDingMsg (hostName processName : Bytes) (msg : DingMsg) : Option (Bytes × Bytes) :=
  let msgStr := if msg.msg ≠ [] ∧ msg.msg.getLast? = some 10 then msg.msg.take (msg.msg.length - 1) else msg.msg
  if msg.token = [] then none
  else
    let oss := ascii "\x7b\"msgtype\": \"text\", \"text\": \x7b\"content\":\"" ++ ascii "[" ++ hostName ++ ascii "] [" ++ processName ++
      ascii "] " ++ msgStr ++ ascii "\"\x7d, \"at\": \x7b\"atMobiles\": [], \"isAtAll\": false\x7d\x7d"
    some (ascii "https://oapi.dingtalk.com/robot/send?access_token=" ++ msg.token, oss)

end DingMsgSender

/-- How far a thread is in `PushMsg`: in front of the mutex, or behind the critical section. -/
inductive PushCall where
  | lock (msg : DingMsg)
  | notify (queueSize : Int)

/-- How far `SendDingMsgThread` is: in front of the loop's condition, of the mutex; with the mutex and about to block; blocked, woken,
woken by the time; with a message taken off the list; inside of `SendDingMsg`; returned. -/
inductive SendThread where
  | check
  | lock
  | block
  | wait
  | woken
  | timedOut
  | send (msg : DingMsg)
  | sending
  | returned
  deriving DecidableEq

/-- How far `~DingMsgSender` is: not called, in front of its `notify_one`, of its `join`, and behind it. -/
inductive Destructor where
  | alive
  | notify
  | join
  | joined
  deriving DecidableEq

/-- The steps of the threads in `PushMsg`, of the sending thread, and of the destructor. -/
inductive DingAction (Tid : Type) where
  | callPush (t : Tid) (msg : DingMsg)
  | pushLock (t : Tid)
  | pushNotify (t : Tid)
  | check
  | sendLock
  | block
  | wakeUp
  | timeOut
  | handOver
  | sendReturn
  | stop
  | stopNotify
  | join
  deriving DecidableEq

/-- What a step shows: a message goes into the list, a message is handed to `SendDingMsg`, the `join` returns, or none of these. -/
inductive DingReply where
  | running
  | pushed (msg : DingMsg)
  | handed (msg : DingMsg)
  | joined
  deriving DecidableEq

/-- The object, the threads in `PushMsg`, the sending thread, and the destructor. -/
structure DingState (Tid : Type) where
  sender : DingMsgSender
  calls : Threads Tid PushCall
  sendThread : SendThread
  destructor : Destructor

namespace DingState

variable {Tid : Type}

/-- The object with its thread started. -/
def new : DingState Tid := { sender := DingMsgSender.new, calls := ∅, sendThread := .check, destructor := .alive }

/-- `notify_one`: the sending thread is the only one that waits. -/
def notifyOne (s : DingState Tid) : DingState Tid :=
  match s.sendThread with
  | .wait => { s with sendThread := .woken }
  | _ => s

/-- The rest of the sending thread's critical section after `wait_for`. -/
def popFront (s : DingState Tid) : DingState Tid :=
  match s.sender.mMsgs with
  | [] => { s with sendThread := .check }
  | msg :: msgs => { s with sender := { s.sender with mMsgs := msgs }, sendThread := .send msg }

/-- The sending thread takes the mutex, for the first time or after a wait, and tests the condition; after the time of the wait it goes
on whatever the condition is. -/
def lockSend (s : DingState Tid) : Option (DingState Tid) :=
  match s.sendThread with
  | .lock => some (if s.sender.isReady then s.popFront else { s with sendThread := .block })
  | .woken => some (if s.sender.isReady then s.popFront else { s with sendThread := .block })
  | .timedOut => some s.popFront
  | _ => none

variable [DecidableEq Tid]

/-- One step; `none` for one that the thread is not in the place to take. Nobody enters the critical section of `PushMsg` while the
sending thread has the mutex. A wait that has been notified may still report its time. -/
def step (s : DingState Tid) : DingAction Tid → Option (DingReply × DingState Tid)
  | .callPush t msg =>
    match s.calls.lookup t with
    | none => some (.running, { s with calls := s.calls.insert t (.lock msg) })
    | _ => none
  | .pushLock t =>
    match s.calls.lookup t with
    | some (.lock msg) =>
      if s.sendThread = .block then none
      else
        let (queueSize, sender) := s.sender.pushBack msg
        some (.pushed msg, { s with sender := sender, calls := s.calls.insert t (.notify queueSize) })
    | _ => none
  | .pushNotify t =>
    match s.calls.lookup t with
    | some (.notify queueSize) =>
      let s := { s with calls := s.calls.erase t }
      some (.running, if 1 = queueSize then s.notifyOne else s)
    | _ => none
  | .check =>
    match s.sendThread with
    | .check => some (.running, { s with sendThread := if s.sender.mStop then .returned else .lock })
    | _ => none
  | .sendLock => s.lockSend.map (fun s => (.running, s))
  | .block =>
    match s.sendThread with
    | .block => some (.running, { s with sendThread := .wait })
    | _ => none
  | .wakeUp =>
    match s.sendThread with
    | .wait => some (.running, { s with sendThread := .woken })
    | _ => none
  | .timeOut =>
    match s.sendThread with
    | .wait => some (.running, { s with sendThread := .timedOut })
    | .woken => some (.running, { s with sendThread := .timedOut })
    | _ => none
  | .handOver =>
    match s.sendThread with
    | .send msg => some (.handed msg, { s with sendThread := .sending })
    | _ => none
  | .sendReturn =>
    match s.sendThread with
    | .sending => some (.running, { s with sendThread := .check })
    | _ => none
  | .stop =>
    match s.destructor with
    | .alive => some (.running, { s with sender := { s.sender with mStop := true }, destructor := .notify })
    | _ => none
  | .stopNotify =>
    match s.destructor with
    | .notify => some (.running, { s.notifyOne with destructor := .join })
    | _ => none
  | .join =>
    match s.destructor, s.sendThread with
    | .join, .returned => some (.joined, { s with destructor := .joined })
    | _, _ => none

/-- The object and its threads. -/
def machine : Machine (DingState Tid) (DingAction Tid) DingReply where
  step := step

end DingState

end FrontServer
