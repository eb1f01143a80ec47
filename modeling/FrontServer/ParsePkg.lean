import FrontServer.Packet
import FrontServer.Session
import FrontServer.Lib.Machine

/-!
# `ParsePkg`: from captured frames to sessions

`tools/cgidump/parse_pkg.cpp`. A frame is the list of its captured bytes, and reading behind them is a fault. `InputPkg` is cut at
its calls: `decode` is what comes before `GetClientAddr`, `sessionCall` what comes before `InputPkg2Session`. `PrintPkgInfo` is
left out with the other logs: it reads fields of headers whose end, the field `hlen_flags`, has been read before it is called.
-/

namespace FrontServer

/-- `class ParsePkg`. -/
structure ParsePkg where
  mIp : Bytes
  mPort : Int
  mInited : Bool
  mSessions : StrMap Session

/-- What `InputPkg` has of a frame that passes its checks: where the headers and the payload lie, and `data_len`. -/
structure Decoded where
  ih : Nat
  th : Nat
  payload : Nat
  dataLen : Int
  deriving DecidableEq

/-- The arguments of an `InputPkg2Session` call. -/
structure SessionCall where
  cIp : Bytes
  cPort : Int
  input : Bool
  data : Bytes
  len : Int
  deriving DecidableEq

/-- The key of a session: `oss << c_ip << ":" << c_port`. -/
def SessionCall.client (c : SessionCall) : Bytes := c.cIp ++ ascii ":" ++ decimalInt c.cPort

namespace ParsePkg

/-- `ParsePkg::ParsePkg`; `m_port` has no value before `Init`. -/
def new : ParsePkg := { mIp := [], mPort := 0, mInited := false, mSessions := ∅ }

/-- `ParsePkg::Init`. -/
def init (m : ParsePkg) (ip : Bytes) (port : Int) : ParsePkg := { m with mIp := ip, mPort := port, mInited := true }

/-- The checks of `InputPkg` on the type of a frame: where the IP header lies, nothing for an unsupported type. -/
def ipHeader (data : Bytes) : Except Fault (Option Nat) := do
  let lengthType ← EtherHeader.etherLengthType data 0
  if etherType8021Q = lengthType then do
    let lengthType ← VlanHeader.lengthType data etherHdrLen
    if ipv4Type ≠ lengthType then pure none
    else pure (some (etherHdrLen + vlanLen))
  else if ipv4Type ≠ lengthType then pure none
  else pure (some etherHdrLen)

/-- The checks of `InputPkg` on the IP header, and what follows from it. A frame that fails them has `ip_p` read all the same, for
the line that is logged. -/
def decodeAt (data : Bytes) (ih : Nat) : Except Fault (Option Decoded) := do
  let vhl ← IpHeader.ipVhl data ih
  let p ← IpHeader.ipP data ih
  if IpHeader.isTcp vhl p then do
    let th := ih + ipHdrLen
    let hl := TcpHeader.tcpHl (← TcpHeader.hlenFlags data th)
    let ipLen ← IpHeader.ipLen data ih
    pure (some { ih := ih, th := th, payload := th + hl, dataLen := (ipLen.toNat : Int) - ipHdrLen - hl })
  else pure none

/-- `InputPkg` up to its call of `GetClientAddr`, nothing for a frame that fails a check. -/
def decode (data : Bytes) : Except Fault (Option Decoded) := do
  let found ← ipHeader data
  match found with
  | none => pure none
  | some ih => decodeAt data ih

/-- `ParsePkg::GetClientAddr`: the client's address and port and the direction, nothing for a frame that is not of the server. -/
def getClientAddr (m : ParsePkg) (data : Bytes) (ih th : Nat) : Except Fault (Option (Bytes × Int × Bool)) := do
  let srcIp := Utils.long2IP (← IpHeader.ipSrc data ih)
  let dstIp := Utils.long2IP (← IpHeader.ipDst data ih)
  let srcPort : Int := (← TcpHeader.portSrc data th).toNat
  let dstPort : Int := (← TcpHeader.portDst data th).toNat
  if srcPort = m.mPort ∧ srcIp = m.mIp then pure (some (dstIp, dstPort, false))
  else if dstPort = m.mPort ∧ dstIp = m.mIp then pure (some (srcIp, srcPort, true))
  else pure none

/-- `ParsePkg::InputPkg` up to its call of `InputPkg2Session`: what it returns, and the arguments of the call if there is one. -/
def sessionCall (m : ParsePkg) (data : Bytes) : Except Fault (Bool × Option SessionCall) :=
  if !m.mInited then pure (false, none)
  else do
    let decoded ← decode data
    match decoded with
    | none => pure (false, none)
    | some d => do
      let addr ← m.getClientAddr data d.ih d.th
      match addr with
      | none => pure (false, none)
      | some (clientIp, clientPort, input) =>
        if 0 = d.dataLen then pure (true, none)
        else
          let data := data.drop d.payload
          pure (true, some { cIp := clientIp, cPort := clientPort, input := input, data := data, len := d.dataLen })

/-- What `ParsePkg::GetHttpHeaders` does with a line: two pieces around the colons are a header, anything else is logged. -/
def onLine (headers : StrMap Bytes) (head : Bytes) : StrMap Bytes :=
  match Utils.splitByDelimiter head (ascii ":") with
  | [k, v] => headers.insert (Utils.trimStr k) (Utils.trimStr v)
  | _ => headers

/-- `ParsePkg::GetHttpHeaders`. Only `ParsePkg::ParseHttpPkg` calls it, and the call of that is commented out. -/
def getHttpHeaders (data : Bytes) (len : Int) (headers : StrMap Bytes) (remainPos : Int) :
    Except Fault (Bool × StrMap Bytes × Int) :=
  scanHeaders onLine data len headers remainPos

/-- The session of a client, a new one where there is none. -/
def session (m : ParsePkg) (client : Bytes) : Session := (m.mSessions.lookup client).getD (Session.new client)

/-- `ParsePkg::InputPkg2Session`. -/
def inputPkg2Session (m : ParsePkg) (c : SessionCall) : Except Fault (Bool × ParsePkg) := do
  let (reply, session) ← (m.session c.client).inputTcpPkg c.data c.len c.input
  pure (reply.ret, { m with mSessions := m.mSessions.insert c.client session })

/-- `ParsePkg::InputPkg`, which does not look at `len`. -/
def inputPkg (m : ParsePkg) (data : Bytes) (_len : Int) : Except Fault (Bool × ParsePkg) := do
  let (ret, call) ← m.sessionCall data
  match call with
  | none => pure (ret, m)
  | some c => do
    let (_, m) ← m.inputPkg2Session c
    pure (ret, m)

/-- The calls of `class ParsePkg`, a frame with as many bytes as were captured of it. -/
def machine : Machine ParsePkg Bytes Bool where
  step m frame := (m.inputPkg frame frame.length).toOption

end ParsePkg

end FrontServer
