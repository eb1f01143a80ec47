import FrontServer.Console
import FrontServer.Lib.Logging
import FrontServer.ParsePkg

/-!
# The functions of `cgidump` with what they write

`tools/cgidump/tcp_buf.cpp`, `http_buf.cpp`, `session.cpp` and `parse_pkg.cpp` once more, statement by statement with the lines that go
to `std::cout` and `std::cerr`. What they compute is said once and for all in the modules named after these files; without its lines
each function below is the one there.
-/

namespace FrontServer

/-- A function of `cgidump`: it may fault, and it writes. -/
abbrev Writes (α : Type) := Logged Line Fault α

/-- `TcpBuf::InputTcpPkg`. -/
def TcpBuf.inputTcpPkgLogged (b : TcpBuf) (data : Bytes) (len : Int) : Writes (Bool × TcpBuf) :=
  if len > b.remainSize then do
    tell [.bufferNotEnough b.mClient b.remainSize len]
    pure (false, b)
  else do
    let b ← b.copyIn data len
    let buf ← b.mBuf.write b.mEnd [0]
    pure (true, { b with mBuf := buf })

namespace HttpBuf

/-- What `HttpBuf::GetHttpHeaders` does with a line, and the illegal heads so far. -/
def onLineLogged (h : HttpHead × List Line) (head : Bytes) : HttpHead × List Line :=
  match Utils.splitByDelimiter head (ascii ":") with
  | [_, _] => (onLine h.1 head, h.2)
  | _ => if h.1.headers = ∅ then (onLine h.1 head, h.2) else (onLine h.1 head, h.2 ++ [.illegalHead head])

/-- `HttpBuf::GetHttpHeaders`, started with an empty map. -/
def getHttpHeadersLogged (data : Bytes) (len : Int) (remainPos : Int) : Writes (Bool × HttpHead × Int) := do
  let (ret, (head, illegal), remainPos) ← scanHeaders onLineLogged data len (HttpHead.empty, []) remainPos
  tell illegal
  pure (ret, head, remainPos)

/-- `HttpBuf::ParseHttpPkg` after the header has been read. -/
def extractMessageLogged (h : HttpBuf) (contentLength : Bytes) (remainPos : Int) : Writes (HttpReply × HttpBuf) := do
  let length ← checkedInt (atoi contentLength + remainPos)
  if h.mTcpBuf.getDataLen ≥ length then do
    let (len, readBuf, tcpBuf) ← h.mTcpBuf.outputTcpPkg (CArray.zeros readBufSize) length
    let extracted := some (readBuf.bytes.take len.toNat)
    if len ≠ length then do
      tell [.getTcpBufFaild]
      pure ({ ret := false, extracted := extracted }, { h with mTcpBuf := tcpBuf })
    else do
      tell [.contentLength contentLength remainPos]
      pure ({ ret := true, extracted := extracted }, { h with mTcpBuf := tcpBuf })
  else do
    tell [.segmented contentLength]
    pure ({ ret := true, extracted := none }, h)

/-- `HttpBuf::ParseHttpPkg`. -/
def parseHttpPkgLogged (h : HttpBuf) : Writes (HttpReply × HttpBuf) := do
  let (len, readBuf) ← h.mTcpBuf.preOutputTcpPkg (CArray.zeros readBufSize) readBufSize
  if len ≤ 0 then pure ({ ret := false, extracted := none }, h)
  else do
    let (ret, head, remainPos) ← getHttpHeadersLogged readBuf.bytes len 0
    if ret then do
      tell [.firstLine head.firstLine]
      match head.headers.lookup (ascii "Content-Length") with
      | none => do
        tell [.noContentLength h.mTcpBuf.getClientStr]
        pure ({ ret := false, extracted := none }, h)
      | some value => h.extractMessageLogged (cStr value) remainPos
    else do
      tell [.getHttpHeadersFailed h.mTcpBuf.getClientStr]
      pure ({ ret := false, extracted := none }, h)

/-- `HttpBuf::InputTcpPkg`. -/
def inputTcpPkgLogged (h : HttpBuf) (data : Bytes) (len : Int) : Writes (HttpReply × HttpBuf) := do
  let isHttp ← isHttpHeader data len
  if !isHttp ∧ 0 = h.mTcpBuf.getDataLen then do
    tell [.drop h.mTcpBuf.getClientStr len]
    pure ({ ret := false, extracted := none }, h)
  else do
    let (ret, tcpBuf) ← h.mTcpBuf.inputTcpPkgLogged data len
    if ret then do
      let (reply, h) ← parseHttpPkgLogged { h with mTcpBuf := tcpBuf }
      pure ({ reply with ret := true }, h)
    else do
      tell [.inputToTcpFailed tcpBuf.getClientStr len]
      pure ({ ret := false, extracted := none }, { h with mTcpBuf := tcpBuf })

end HttpBuf

/-- `Session::InputTcpPkg`. -/
def Session.inputTcpPkgLogged (s : Session) (data : Bytes) (len : Int) (input : Bool) : Writes (HttpReply × Session) :=
  if input then do
    let (reply, h) ← s.mInput.inputTcpPkgLogged data len
    pure (reply, { s with mInput := h })
  else do
    let (reply, h) ← s.mOutput.inputTcpPkgLogged data len
    pure (reply, { s with mOutput := h })

namespace ParsePkg

/-- The checks of `InputPkg` on the type of a frame. -/
def ipHeaderLogged (data : Bytes) : Writes (Option Nat) := do
  let lengthType ← EtherHeader.etherLengthType data 0
  if etherType8021Q = lengthType then do
    let lengthType ← VlanHeader.lengthType data etherHdrLen
    if ipv4Type ≠ lengthType then do
      tell [.unsupportLengthType lengthType]
      pure none
    else pure (some (etherHdrLen + vlanLen))
  else if ipv4Type ≠ lengthType then do
    tell [.unsupportLengthType lengthType]
    pure none
  else pure (some etherHdrLen)

/-- The checks of `InputPkg` on the IP header. -/
def decodeAtLogged (data : Bytes) (ih : Nat) : Writes (Option Decoded) := do
  let vhl ← IpHeader.ipVhl data ih
  let p ← IpHeader.ipP data ih
  if IpHeader.isTcp vhl p then do
    let th := ih + ipHdrLen
    let hl := TcpHeader.tcpHl (← TcpHeader.hlenFlags data th)
    let ipLen ← IpHeader.ipLen data ih
    pure (some { ih := ih, th := th, payload := th + hl, dataLen := (ipLen.toNat : Int) - ipHdrLen - hl })
  else do
    tell [.unsupprotVersion vhl p]
    pure none

/-- `ParsePkg::PrintPkgInfo`. The two hardware addresses become texts that are not used. -/
def printPkgInfo (data : Bytes) (d : Decoded) : Writes PUnit := do
  let _ ← readBytes data 0 12
  let srcIp := Utils.long2IP (← IpHeader.ipSrc data d.ih)
  let dstIp := Utils.long2IP (← IpHeader.ipDst data d.ih)
  let srcPort : Int := (← TcpHeader.portSrc data d.th).toNat
  let dstPort : Int := (← TcpHeader.portDst data d.th).toNat
  let flags := Utils.tcpFlags2String (TcpHeader.tcpFlags (← TcpHeader.hlenFlags data d.th))
  tell [.pkgInfo srcIp srcPort dstIp dstPort flags d.dataLen]

/-- `ParsePkg::InputPkg2Session`. -/
def inputPkg2SessionLogged (m : ParsePkg) (c : SessionCall) : Writes (HttpReply × ParsePkg) := do
  let (reply, session) ← (m.session c.client).inputTcpPkgLogged c.data c.len c.input
  let m := { m with mSessions := m.mSessions.insert c.client session }
  if !reply.ret then do
    tell [.inputToSessionFailed c.client c.len c.input]
    pure (reply, m)
  else pure (reply, m)

end ParsePkg

/-- What lives as long as the program: the one `ParsePkg`, and `static int i` of `InputPkg`. -/
structure CgiDump where
  parsePkg : ParsePkg
  i : Int

/-- What an `InputPkg` call leaves behind: its result, the call it made into a session with the reply to it, and its lines. -/
structure Report where
  ret : Bool
  call : Option (SessionCall × HttpReply)
  lines : List Line
  deriving DecidableEq

namespace CgiDump

/-- The program after `Init`. -/
def init (ip : Bytes) (port : Int) : CgiDump := { parsePkg := ParsePkg.new.init ip port, i := 0 }

/-- `ParsePkg::InputPkg` from its `static int i` on. -/
def inputDecoded (s : CgiDump) (data : Bytes) (d : Decoded) : Writes ((Bool × Option (SessionCall × HttpReply)) × CgiDump) := do
  let i ← checkedInt (s.i + 1)
  let s := { s with i := i }
  tell [.number i.toNat]
  ParsePkg.printPkgInfo data d
  let addr ← s.parsePkg.getClientAddr data d.ih d.th
  match addr with
  | none => do
    tell [.getClientAddressFailed]
    pure ((false, none), s)
  | some (clientIp, clientPort, input) =>
    if 0 = d.dataLen then pure ((true, none), s)
    else do
      let c : SessionCall :=
        { cIp := clientIp, cPort := clientPort, input := input, data := data.drop d.payload, len := d.dataLen }
      let (reply, m) ← s.parsePkg.inputPkg2SessionLogged c
      pure ((true, some (c, reply)), { s with parsePkg := m })

/-- `ParsePkg::InputPkg`. -/
def inputPkg (s : CgiDump) (data : Bytes) (_len : Int) : Writes ((Bool × Option (SessionCall × HttpReply)) × CgiDump) :=
  if !s.parsePkg.mInited then do
    tell [.notInitilized]
    pure ((false, none), s)
  else do
    let found ← ParsePkg.ipHeaderLogged data
    match found with
    | none => pure ((false, none), s)
    | some ih => do
      let decoded ← ParsePkg.decodeAtLogged data ih
      match decoded with
      | none => pure ((false, none), s)
      | some d => s.inputDecoded data d

/-- The calls of `InputPkg`, a frame with as many bytes as were captured of it. -/
def machine : Machine CgiDump Bytes Report where
  step s frame :=
    (s.inputPkg frame frame.length).run.toOption.map fun r => ({ ret := r.1.1.1, call := r.1.1.2, lines := r.2 }, r.1.2)

end CgiDump

end FrontServer
