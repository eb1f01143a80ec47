import FrontServer.HeaderScan
import FrontServer.TcpBuf
import FrontServer.Utils

/-!
# `HttpBuf`: HTTP messages out of one direction of a flow

`tools/cgidump/http_buf.cpp`. A pointer argument is the memory from that address to the end of the captured frame, of which the
first `len` bytes are the segment. Next to its result `ParseHttpPkg` gives the bytes `OutputTcpPkg` put into `read_buf`. The lines
the functions log are left out.
-/

namespace FrontServer

/-- What the header reader of `HttpBuf` fills in: `*headers` and `*first_line`. -/
structure HttpHead where
  headers : StrMap Bytes
  firstLine : Bytes

/-- The head before any line: no header, an empty first line. -/
def HttpHead.empty : HttpHead := { headers := ∅, firstLine := [] }

/-- The result of a call, and the message extracted by it, if any. -/
structure HttpReply where
  ret : Bool
  extracted : Option Bytes
  deriving DecidableEq

/-- `class HttpBuf`. -/
structure HttpBuf where
  mTcpBuf : TcpBuf
  mInput : Bool

namespace HttpBuf

/-- `HttpBuf::HttpBuf`. -/
def new (client : Bytes) (input : Bool) : HttpBuf := { mTcpBuf := TcpBuf.new client, mInput := input }

/-- `HttpBuf::IsHttpHeader`: four bytes, three, four, whatever the length. -/
def isHttpHeader (data : Bytes) (len : Int) : Except Fault Bool :=
  if 0 = len then pure false
  else do
    let c ← strncmp data (ascii "POST") 4
    if 0 = c then pure true
    else do
      let c ← strncmp data (ascii "GET") 3
      if 0 = c then pure true
      else do
        let c ← strncmp data (ascii "HTTP") 4
        pure (0 == c)

/-- What `HttpBuf::GetHttpHeaders` does with a line: two pieces around the colons are a header, anything else is the first line
while there is no header, and an illegal line after that. -/
def onLine (h : HttpHead) (head : Bytes) : HttpHead :=
  match Utils.splitByDelimiter head (ascii ":") with
  | [k, v] => { h with headers := h.headers.insert (Utils.trimStr k) (Utils.trimStr v) }
  | _ => if h.headers = ∅ then { h with firstLine := Utils.trimStr head } else h

/-- `HttpBuf::GetHttpHeaders`. -/
def getHttpHeaders (data : Bytes) (len : Int) (h : HttpHead) (remainPos : Int) : Except Fault (Bool × HttpHead × Int) :=
  scanHeaders onLine data len h remainPos

/-- The size of `read_buf`. -/
def readBufSize : Nat := 4096

/-- `HttpBuf::ParseHttpPkg` after the header has been read: take the message out when all of it is there. -/
def extractMessage (h : HttpBuf) (contentLength : Bytes) (remainPos : Int) : Except Fault (HttpReply × HttpBuf) := do
  let length ← checkedInt (atoi contentLength + remainPos)
  if h.mTcpBuf.getDataLen ≥ length then do
    let (len, readBuf, tcpBuf) ← h.mTcpBuf.outputTcpPkg (CArray.zeros readBufSize) length
    pure ({ ret := decide (len = length), extracted := some (readBuf.bytes.take len.toNat) }, { h with mTcpBuf := tcpBuf })
  else pure ({ ret := true, extracted := none }, h)

/-- `HttpBuf::ParseHttpPkg`. -/
def parseHttpPkg (h : HttpBuf) : Except Fault (HttpReply × HttpBuf) := do
  let (len, readBuf) ← h.mTcpBuf.preOutputTcpPkg (CArray.zeros readBufSize) readBufSize
  if len ≤ 0 then pure ({ ret := false, extracted := none }, h)
  else do
    let (ret, head, remainPos) ← getHttpHeaders readBuf.bytes len HttpHead.empty 0
    if ret then
      match head.headers.lookup (ascii "Content-Length") with
      | none => pure ({ ret := false, extracted := none }, h)
      | some value => h.extractMessage (cStr value) remainPos
    else pure ({ ret := false, extracted := none }, h)

/-- `HttpBuf::InputTcpPkg`. -/
def inputTcpPkg (h : HttpBuf) (data : Bytes) (len : Int) : Except Fault (HttpReply × HttpBuf) := do
  let isHttp ← isHttpHeader data len
  if !isHttp ∧ 0 = h.mTcpBuf.getDataLen then pure ({ ret := false, extracted := none }, h)
  else do
    let (ret, tcpBuf) ← h.mTcpBuf.inputTcpPkg data len
    if ret then do
      let (reply, h) ← parseHttpPkg { h with mTcpBuf := tcpBuf }
      pure ({ reply with ret := true }, h)
    else pure ({ ret := false, extracted := none }, { h with mTcpBuf := tcpBuf })

end HttpBuf

end FrontServer
