import FrontServer.HttpBuf
import FrontServer.Lemmas.TcpBuf

/-!
# One direction of a flow as a queue of bytes

What an `HttpBuf` is for, without the ring: segments are offered to a queue of at most 8190 bytes, and after each one that is
taken the front of the queue is read once (`parseOutcome`), which may take one message off it.
-/

namespace FrontServer

/-- The arguments of one `InputTcpPkg` call: the memory from the payload on, and the length of the payload. -/
structure Segment where
  data : Bytes
  len : Int
  deriving DecidableEq

/-- The payload itself. -/
def Segment.bytes (s : Segment) : Bytes := s.data.take s.len.toNat

/-- A payload with nothing behind it in memory. -/
def Segment.ofBytes (bs : Bytes) : Segment := { data := bs, len := bs.length }

/-- The calls of `class HttpBuf`. -/
def HttpBuf.machine : Machine HttpBuf Segment HttpReply where
  step h s := (h.inputTcpPkg s.data s.len).toOption

/-- What reading the front of the buffered bytes leads to. -/
inductive Outcome where
  | fault
  | keep
  | extract (n : Nat)
  deriving DecidableEq

namespace HttpFlow

/-- The bytes a flow holds at most. -/
abbrev Queue := BoundedFifo UInt8 TcpBuf.capacity

/-- A message of `length` bytes in front of `dataLen` buffered ones: more than is there is waited for, and less than none or more
than the caller's array takes is an access outside of it. -/
def release (length : Int) (dataLen : Nat) : Outcome :=
  if length < -2 ^ 31 ∨ 2 ^ 31 ≤ length then .fault
  else if dataLen < length then .keep
  else if length < 0 ∨ HttpBuf.readBufSize < length then .fault
  else .extract length.toNat

/-- What a head that ends in front of `remainPos` leads to. -/
def headOutcome (head : HttpHead) (remainPos : Int) (dataLen : Nat) : Outcome :=
  match head.headers.lookup (ascii "Content-Length") with
  | none => .keep
  | some value => release (atoi (cStr value) + remainPos) dataLen

/-- What reading the front of the queue leads to: the header reader sees the first 4096 bytes. -/
def parseOutcome (q : Bytes) : Outcome :=
  if q = [] then .keep
  else
    match HttpBuf.getHttpHeaders (q.take HttpBuf.readBufSize) (q.take HttpBuf.readBufSize).length HttpHead.empty 0 with
    | .error _ => .fault
    | .ok (_, head, remainPos) => headOutcome head remainPos q.length

/-- Take off the queue what reading its front leads to. -/
def parse (q : Queue) : Option (HttpReply × Queue) :=
  match parseOutcome q.items with
  | .fault => none
  | .keep => some ({ ret := true, extracted := none }, q)
  | .extract n => some ({ ret := true, extracted := some (q.take n).1 }, (q.take n).2)

/-- One segment. -/
def step (q : Queue) (s : Segment) : Option (HttpReply × Queue) :=
  match HttpBuf.isHttpHeader s.data s.len with
  | .error _ => none
  | .ok isHttp =>
    if isHttp = false ∧ q.items = [] then some ({ ret := false, extracted := none }, q)
    else if TcpBuf.capacity < q.items.length + s.len then some ({ ret := false, extracted := none }, q)
    else if s.len < 0 ∨ s.data.length < s.len then none
    else parse (q.offer s.bytes).2

/-- The queue driven by segments. -/
def machine : Machine Queue Segment HttpReply where
  step := step

end HttpFlow

end FrontServer
