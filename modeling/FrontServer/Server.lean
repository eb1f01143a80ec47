import FrontServer.Lib.CMemory
import FrontServer.Lib.Machine

/-!
# `Server`: the event server and its connections

`server/src/server.cc`. Libevent accepts connections, puts what arrives on one into the input of its `bufferevent` and calls
`ConnReadCallBack` once for each arrival. The address in front of the line that the callback logs is left out.

Libevent is assumed to do what it documents: `bufferevent_read` takes the oldest bytes of the input, as many as are asked for or all that
are there, and leaves the others; `bufferevent_write` puts all bytes behind those written before. A read buffer or a write that libevent
cannot get memory for is left out.
-/

namespace FrontServer

/-- A `bufferevent`: the bytes that have arrived and not been read, and all bytes written to the connection. -/
structure Bufferevent where
  input : Bytes
  output : Bytes
  deriving DecidableEq

namespace Bufferevent

/-- `bufferevent_socket_new`. -/
def new : Bufferevent := { input := [], output := [] }

/-- `bufferevent_read`: at most `size` bytes are moved out of the input. -/
def read (bev : Bufferevent) (size : Nat) : Bytes × Bufferevent := (bev.input.take size, { bev with input := bev.input.drop size })

/-- `bufferevent_write`. -/
def write (bev : Bufferevent) (data : Bytes) : Bufferevent := { bev with output := bev.output ++ data }

/-- Bytes arrive. -/
def receive (bev : Bufferevent) (data : Bytes) : Bufferevent := { bev with input := bev.input ++ data }

end Bufferevent

namespace Server

/-- The size of the array `msg` of `ConnReadCallBack`. -/
def msgSize : Nat := 1024

/-- The text that `LOG(INFO) << msg` reads: up to the first zero, which has to be inside of the array. -/
def logText (msg : Bytes) : Except Fault Bytes := if 0 ∈ msg then .ok (cStr msg) else .error (.outOfRange msg.length)

/-- `Server::ConnReadCallBack`, with the line that it logs. The array is written to the connection as a whole. -/
def connReadCallBack (bev : Bufferevent) : Except Fault (Bytes × Bufferevent) := do
  let (data, bev) := bev.read msgSize
  let msg ← (CArray.zeros msgSize).write 0 data
  let text ← logText msg.bytes
  pure (ascii " ECHO: " ++ text, bev.write msg.bytes)

/-- What libevent calls the server for: a connection is accepted, and its `bufferevent` constructed or not; bytes arrive on one; any
other event on one. -/
inductive Event where
  | accept (fd : Int) (constructed : Bool)
  | arrive (fd : Int) (data : Bytes)
  | conn (fd : Int)

/-- The connections, by file descriptor. -/
abbrev Conns := Finmap (fun _ : Int => Bufferevent)

/-- `Server::ListenerCallBack`. -/
def listenerCallBack (conns : Conns) (fd : Int) (constructed : Bool) : Conns :=
  if constructed then conns.insert fd Bufferevent.new else conns

/-- `Server::ConnEventCallBack` frees the `bufferevent`, whatever the event is. -/
def connEventCallBack (conns : Conns) (fd : Int) : Conns := conns.erase fd

/-- One event, with the line that `ConnReadCallBack` logs; `none` for an event on a connection that is not there, or a callback that
faults. -/
def step (conns : Conns) : Event → Option (Option Bytes × Conns)
  | .accept fd constructed =>
    match conns.lookup fd with
    | none => some (none, listenerCallBack conns fd constructed)
    | some _ => none
  | .arrive fd data =>
    match conns.lookup fd with
    | some bev => (connReadCallBack (bev.receive data)).toOption.map (fun r => (some r.1, conns.insert fd r.2))
    | none => none
  | .conn fd =>
    match conns.lookup fd with
    | some _ => some (none, connEventCallBack conns fd)
    | none => none

/-- The server, from no connection on. -/
def machine : Machine Conns Event (Option Bytes) where
  step := step

end Server

end FrontServer
