import FrontServer.HttpFlow
import FrontServer.ParsePkg

/-!
# Frames by their flow

What `ParsePkg` is for, without the printed keys: a frame between the server and a client belongs to that client, by its 32-bit
address and its 16-bit port, and to the direction it was sent in, and it carries a payload there.
-/

namespace FrontServer

/-- One end of a TCP connection. -/
structure Endpoint where
  addr : UInt32
  port : UInt16
  deriving DecidableEq

/-- How the code prints it, as the key of a session. -/
def Endpoint.key (e : Endpoint) : Bytes := Utils.long2IP e.addr ++ ascii ":" ++ decimal e.port.toNat

/-- What `Init` is given, before it is printed. -/
structure Server where
  addr : UInt32
  port : Int

/-- The end of a connection at the server. -/
def Endpoint.IsServer (e : Endpoint) (srv : Server) : Prop := (e.port.toNat : Int) = srv.port ∧ e.addr = srv.addr

instance (e : Endpoint) (srv : Server) : Decidable (e.IsServer srv) := by unfold Endpoint.IsServer; infer_instance

/-- One direction of a client's connection; `input` is towards the server. -/
structure Flow where
  client : Endpoint
  input : Bool
  deriving DecidableEq

/-- The flow of a frame from `src` to `dst`. -/
def flowBetween (srv : Server) (src dst : Endpoint) : Option Flow :=
  if src.IsServer srv then some ⟨dst, false⟩
  else if dst.IsServer srv then some ⟨src, true⟩
  else none

namespace ParsePkg

/-- The source of a decoded frame. -/
def source (f : Bytes) (d : Decoded) : Except Fault Endpoint := do
  let addr ← IpHeader.ipSrc f d.ih
  let port ← TcpHeader.portSrc f d.th
  pure ⟨addr, port⟩

/-- The destination of a decoded frame. -/
def destination (f : Bytes) (d : Decoded) : Except Fault Endpoint := do
  let addr ← IpHeader.ipDst f d.ih
  let port ← TcpHeader.portDst f d.th
  pure ⟨addr, port⟩

/-- The flow a frame belongs to and the payload it carries there; nothing for a frame that is not of the server. -/
def flowOf (srv : Server) (f : Bytes) : Option (Flow × Segment) := do
  let d ← (decode f).toOption.join
  let src ← (source f d).toOption
  let dst ← (destination f d).toOption
  let flow ← flowBetween srv src dst
  pure (flow, { data := f.drop d.payload, len := d.dataLen })

/-- The payload a frame carries to a flow, if any. -/
def payloadFor (srv : Server) (flow : Flow) (f : Bytes) : Option Segment :=
  match flowOf srv f with
  | none => none
  | some (flow', s) => if flow' = flow ∧ 0 < s.len then some s else none

/-- The non-empty payloads that frames carry to a flow, in their order. -/
def payloads (srv : Server) (flow : Flow) (frames : List Bytes) : List Segment := frames.filterMap (payloadFor srv flow)

/-- The client whose session a frame reaches, with a payload of any length but zero. -/
def clientOf (srv : Server) (f : Bytes) : Option Endpoint :=
  match flowOf srv f with
  | none => none
  | some (flow, s) => if s.len ≠ 0 then some flow.client else none

/-- The key with which `InputPkg` looks for the session of a frame. -/
def sessionKey (m : ParsePkg) (f : Bytes) : Option Bytes :=
  match m.sessionCall f with
  | .ok (_, some c) => some c.client
  | _ => none

/-- The direction in which `InputPkg` hands on the payload of a frame. -/
def direction (m : ParsePkg) (f : Bytes) : Option Bool :=
  match m.sessionCall f with
  | .ok (_, some c) => some c.input
  | _ => none

/-- A frame with the addresses and the ports of its IP header at `ih` exchanged. -/
def swapAt (f : Bytes) (ih : Nat) : Bytes :=
  f.take (ih + 12) ++ (f.drop (ih + 16)).take 4 ++ (f.drop (ih + 12)).take 4 ++
    (f.drop (ih + 22)).take 2 ++ (f.drop (ih + 20)).take 2 ++ f.drop (ih + 24)

/-- A frame sent the other way: source and destination exchanged, in the IP header and in the TCP header. -/
def swapEndpoints (f : Bytes) : Bytes :=
  match ipHeader f with
  | .ok (some ih) => swapAt f ih
  | _ => f

end ParsePkg

end FrontServer
