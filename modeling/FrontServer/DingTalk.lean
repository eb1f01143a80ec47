import FrontServer.DingMsgSender

/-!
# `DingTalk`: a stream that becomes a message

`utils/ding_talk/src/ding_talk.cc`, and `DingStreamBuf` in `ding_common.cc`. What is written goes into an array, and the destructor makes
the message of it. The array is newly allocated, and what it holds then is a parameter. `std::streambuf` copies what it has room for
and fails after that, and a stream that failed once takes nothing more. The lines the functions log are left out.
-/

namespace FrontServer

/-- `DING_TALK_BUFF_LENGTH`. -/
def dingTalkBuffLength : Nat := 4096

/-- `class DingStreamBuf`, with its array: what is put next goes to the index `pptr`, and there is room up to `epptr`. -/
structure DingStreamBuf where
  mDingTalkToken : Bytes
  buf : CArray dingTalkBuffLength
  pptr : Nat
  epptr : Nat

namespace DingStreamBuf

/-- `DingStreamBuf::DingStreamBuf`. -/
def new (dingTalkToken : Bytes) (buf : CArray dingTalkBuffLength) (len : Nat) : DingStreamBuf :=
  { mDingTalkToken := dingTalkToken, buf := buf, pptr := 0, epptr := len - 2 }

/-- `sputn`: how many bytes were put. `overflow` fails. -/
def sputn (b : DingStreamBuf) (s : Bytes) : Except Fault (Nat × DingStreamBuf) := do
  let n := min s.length (b.epptr - b.pptr)
  let buf ← b.buf.write b.pptr (s.take n)
  return (n, { b with buf := buf, pptr := b.pptr + n })

/-- `DingStreamBuf::sync`. -/
def sync (b : DingStreamBuf) : Int × DingStreamBuf := (0, b)

/-- `DingStreamBuf::~DingStreamBuf`: the message that it pushes, and the array it leaves. -/
def destruct (b : DingStreamBuf) : Except Fault (DingMsg × CArray dingTalkBuffLength) := do
  let bufLen := b.epptr
  let msgStr ← stringOf b.buf.bytes
  let buf ← b.buf.write 0 (List.replicate (bufLen + 2) 0)
  return ({ token := b.mDingTalkToken, msg := msgStr }, buf)

end DingStreamBuf

/-- `class DingTalk`: its buffer, and whether nothing failed so far. -/
structure DingTalk where
  mStreambuf : DingStreamBuf
  good : Bool

/-- What is written to the stream: a string, `std::flush`, or `std::endl`. -/
inductive Output where
  | write (s : Bytes)
  | flush
  | endl

namespace DingTalk

/-- `DingTalk::DingTalk`. -/
def new (dingTalkToken : Bytes) (mBuff : CArray dingTalkBuffLength) : DingTalk :=
  { mStreambuf := DingStreamBuf.new dingTalkToken mBuff dingTalkBuffLength, good := true }

/-- Write characters: the stream fails where not all of them are put. -/
def put (d : DingTalk) (s : Bytes) : Except Fault DingTalk :=
  if d.good then do
    let (n, mStreambuf) ← d.mStreambuf.sputn s
    return { mStreambuf := mStreambuf, good := n = s.length }
  else return d

/-- `flush`: the stream fails where `sync` does. -/
def flush (d : DingTalk) : DingTalk :=
  let (result, mStreambuf) := d.mStreambuf.sync
  { mStreambuf := mStreambuf, good := d.good && result != -1 }

/-- `operator<<`. -/
def output (d : DingTalk) : Output → Except Fault DingTalk
  | .write s => d.put s
  | .flush => return d.flush
  | .endl => do
    let d ← d.put [10]
    return d.flush

/-- The life of a stream, up to the message that its destructor pushes. -/
def run (dingTalkToken : Bytes) (mBuff : CArray dingTalkBuffLength) (outs : List Output) : Except Fault DingMsg := do
  let d ← outs.foldlM output (new dingTalkToken mBuff)
  let (msg, _) ← d.mStreambuf.destruct
  return msg

end DingTalk

end FrontServer
