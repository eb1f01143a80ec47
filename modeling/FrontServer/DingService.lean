import FrontServer.CurlOp
import FrontServer.DingTalk

/-!
# The way of a message: streams, the queue and the request

`utils/ding_talk` as a whole. Threads write to streams, the destructor of a stream puts its message into the queue, and the sending thread
makes a request of each message that it takes. The names of the host and of the process are kept in two static strings, which only the
sending thread uses. What the system and curl give is a parameter.
-/

namespace FrontServer

namespace CurlOp

/-- `enum CONTENT_TYPE`. -/
inductive ContentType where
  | jsonType
  | textType
  deriving DecidableEq

/-- What curl is told of a request. -/
structure Request where
  url : Bytes
  connTm : Option Int
  execTm : Option Int
  postFields : Option Bytes
  headers : List Bytes
  deriving DecidableEq

/-- The options that `GetHttpReturn` sets. Curl reads the url and the data as C strings. -/
def request (url postData : Bytes) (contentType : ContentType) (connTm execTm : Int) : Request :=
  { url := cStr url
    connTm := if 0 < connTm then some connTm else none
    execTm := if 0 < execTm then some execTm else none
    postFields := if postData = [] then none else some (cStr postData)
    headers := if contentType = .jsonType then [ascii "Content-Type: application/json"] else [] }

end CurlOp

/-- `strrchr(s, c)`, as an index. -/
def strrchr (s : Bytes) (c : UInt8) : Option Nat := (s.reverse.findIdx? (· == c)).map fun i => s.length - 1 - i

/-- What the system and curl give to a call of `SendDingMsg`: the array that `gethostname` leaves if it succeeds, the path that `readlink`
gives if it does, whether there is a client, and the response. -/
structure SendEnv where
  gethostname : Option (CArray 256)
  readlink : Option Bytes
  readlink_le : ∀ path ∈ readlink, path.length ≤ 1024
  client : Bool
  chunks : List CurlOp.Chunk
  curlOk : Bool

/-- What becomes of a message in `SendDingMsg`: it has no token, curl gives no client, or a request is performed. -/
inductive Sending where
  | noToken
  | noClient
  | performed (request : CurlOp.Request)
  deriving DecidableEq

/-- The static strings of `GetHostName` and `GetProcessName`. -/
structure SenderNames where
  hostName : Bytes
  processName : Bytes
  deriving DecidableEq

namespace DingMsgSender

/-- `DingMsgSender::GetHostName`: what its static string is then, which it returns. -/
def getHostName (result : Bytes) (gethostname : Option (CArray 256)) : Except Fault Bytes :=
  if result = [] then
    match gethostname with
    | none => return ascii "UNKOWN"
    | some hostname => stringOf hostname.bytes
  else return result

/-- `DingMsgSender::GetProcessName`: what its static string is then, which it returns. -/
def getProcessName (result : Bytes) (readlink : Option Bytes) : Except Fault Bytes :=
  if result = [] then
    match readlink with
    | none => return ascii "UNKOWN"
    | some [] => return ascii "UNKOWN"
    | some path => do
      let processPath ← (CArray.zeros 1024).write 0 path
      let s ← stringOf processPath.bytes
      match strrchr s 47 with
      | some i => return s.drop (i + 1)
      | none => return ascii "UNKOWN"
  else return result

/-- `DingMsgSender::SendDingMsg` with all that it calls. The response is read and not used. -/
def sendDingMsgWith (names : SenderNames) (env : SendEnv) (msg : DingMsg) : Except Fault (Sending × SenderNames) :=
  if msg.token = [] then return (.noToken, names)
  else do
    let hostName ← getHostName names.hostName env.gethostname
    let processName ← getProcessName names.processName env.readlink
    let names := { hostName := hostName, processName := processName }
    match sendDingMsg hostName processName msg with
    | none => return (.noToken, names)
    | some (url, postData) =>
      let _ ← CurlOp.getHttpReturn env.client env.chunks env.curlOk (some [])
      return (if env.client then .performed (CurlOp.request url postData .jsonType 0 0) else .noClient, names)

end DingMsgSender

/-- The streams that are alive, the queue with its threads, and the static strings. -/
structure DingService (Tid Sid : Type) where
  streams : Finmap (fun _ : Sid => DingTalk)
  queue : DingState Tid
  names : SenderNames

/-- What can happen: a stream is constructed, with what its new array happens to hold; something is written to one; a thread runs its
destructor, up to the mutex of the queue; the sending thread runs through `SendDingMsg`; or another step of the queue. -/
inductive DingServiceAction (Tid Sid : Type) where
  | construct (k : Sid) (dingTalkToken : Bytes) (mBuff : CArray dingTalkBuffLength)
  | output (k : Sid) (out : Output)
  | destruct (t : Tid) (k : Sid)
  | send (env : SendEnv)
  | queue (a : DingAction Tid)

/-- What a step shows. -/
inductive DingServiceReply where
  | stream
  | sent (msg : DingMsg) (sending : Sending)
  | queue (r : DingReply)
  deriving DecidableEq

/-- The steps of the queue that are not part of another step. -/
def DingAction.isOwn {Tid : Type} : DingAction Tid → Bool
  | .callPush _ _ => false
  | .handOver => false
  | _ => true

namespace DingService

variable {Tid Sid : Type}

/-- In front of the first stream. -/
def new : DingService Tid Sid := { streams := ∅, queue := DingState.new, names := { hostName := [], processName := [] } }

variable [DecidableEq Tid] [DecidableEq Sid]

/-- One step; `none` for one that cannot be taken, and for a fault. -/
def step (s : DingService Tid Sid) : DingServiceAction Tid Sid → Option (DingServiceReply × DingService Tid Sid)
  | .construct k dingTalkToken mBuff =>
    match s.streams.lookup k with
    | none => some (.stream, { s with streams := s.streams.insert k (DingTalk.new dingTalkToken mBuff) })
    | some _ => none
  | .output k out =>
    match s.streams.lookup k with
    | some d =>
      match d.output out with
      | .ok d => some (.stream, { s with streams := s.streams.insert k d })
      | .error _ => none
    | none => none
  | .destruct t k =>
    match s.streams.lookup k with
    | some d =>
      match d.mStreambuf.destruct with
      | .ok (msg, _) =>
        (s.queue.step (.callPush t msg)).map fun (r, queue) => (.queue r, { s with streams := s.streams.erase k, queue := queue })
      | .error _ => none
    | none => none
  | .send env =>
    match s.queue.step .handOver with
    | some (.handed msg, queue) =>
      match DingMsgSender.sendDingMsgWith s.names env msg with
      | .ok (sending, names) => some (.sent msg sending, { s with queue := queue, names := names })
      | .error _ => none
    | _ => none
  | .queue a => if a.isOwn then (s.queue.step a).map fun (r, queue) => (.queue r, { s with queue := queue }) else none

/-- The streams and the sender. -/
def machine : Machine (DingService Tid Sid) (DingServiceAction Tid Sid) DingServiceReply where
  step := step

end DingService

end FrontServer
