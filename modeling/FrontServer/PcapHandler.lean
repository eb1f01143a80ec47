import FrontServer.ParsePkg

/-!
# `PcapHandler`: the second decoder of a frame

`tools/cgidump/main.cpp`. For each captured frame the handler calls `ParsePkg::InputPkg` and then decodes the frame once more, to
print its header lines and a dump. What it prints of a frame that passes its checks is kept, the other lines are left out.
Before that, `main` looks up the address of the interface; the devices that `pcap_findalldevs` gives are a parameter.
-/

namespace FrontServer

/-- `ParseHttp`: the lines it prints and `*remain_pos`. -/
def parseHttp (data : Bytes) (len remainPos : Int) : Except Fault (Bool × List Bytes × Int) :=
  scanHeaders (fun lines head => lines ++ [head]) data len [] remainPos

/-- `PrintHex`: the bytes it shows. -/
def printHex (ctx : Bytes) (pos size : Int) : Except Fault Bytes := (List.range size.toNat).mapM (fun i => readAt ctx (pos + i))

namespace PcapHandler

/-- The checks of `PcapHandler` on the type of a frame: where the IP header lies, nothing for an unsupported type. -/
def ipHeader (bytes : Bytes) : Except Fault (Option Nat) := do
  let lengthType ← EtherHeader.etherLengthType bytes 0
  if etherType8021Q = lengthType then do
    -- the tag is skipped before the overlay is laid over it
    let lengthType ← VlanHeader.lengthType bytes (etherHdrLen + vlanLen)
    if ipv4Type = lengthType then pure none
    else pure (some (etherHdrLen + vlanLen))
  else if ipv4Type = lengthType then pure (some etherHdrLen)
  else pure none

/-- The checks of `PcapHandler` on the IP header, and what follows from it: where the payload lies and `content_len`.
`PrintTcpHeader` reads the TCP header on to `win_size`. -/
def decodeAt (bytes : Bytes) (ih : Nat) : Except Fault (Option (Nat × Int)) := do
  let vhl ← IpHeader.ipVhl bytes ih
  let ipLen ← IpHeader.ipLen bytes ih
  let p ← IpHeader.ipP bytes ih
  if IpHeader.isTcp vhl p then do
    let th := ih + ipHdrLen
    let hl := TcpHeader.tcpHl (← TcpHeader.hlenFlags bytes th)
    let _ ← TcpHeader.winSize bytes th
    pure (some (th + hl, (ipLen.toNat : Int) - ipHdrLen - hl))
  else do
    let _ ← printHex bytes 0 40
    pure none

/-- `PcapHandler` up to its call of `ParseHttp`, nothing for a frame that fails a check. -/
def decode (bytes : Bytes) : Except Fault (Option (Nat × Int)) := do
  let found ← ipHeader bytes
  match found with
  | none => pure none
  | some ih => decodeAt bytes ih

end PcapHandler

/-- `PcapHandler`: the header lines and the dump it prints, and the sessions after the frame. `ParseHttp` is given the payload alone, so
the byte in front of it, at which it looks for a line feed at the start, is out of range here. -/
def pcapHandler (m : ParsePkg) (bytes : Bytes) (caplen : Int) : Except Fault (Option (List Bytes × Bytes) × ParsePkg) := do
  let (_, m) ← m.inputPkg bytes caplen
  let decoded ← PcapHandler.decode bytes
  match decoded with
  | none => pure (none, m)
  | some (p, contentLen) => do
    let (_, lines, nextPos) ← parseHttp (bytes.drop p) contentLen 0
    let dump ← printHex bytes (p + nextPos) contentLen
    pure (some (lines, dump), m)

/-! ## The address of an interface -/

/-- A `struct sockaddr`: its family, and what is behind it, fourteen bytes at least. -/
structure SockAddr where
  saFamily : UInt16
  saData : Bytes
  size : 14 ≤ saData.length

/-- `AF_INET`. -/
def afInet : UInt16 := 2

/-- `ntohl(address->sin_addr.s_addr)` of the record read as a `struct sockaddr_in`: behind the family and the port. -/
def SockAddr.sAddr (address : SockAddr) : Except Fault UInt32 := ntohlAt address.saData 2

/-- A `pcap_if_t`: the name of a device, as a C string, and its address records. -/
structure PcapIf where
  name : Bytes
  addresses : List SockAddr

namespace GetInterfaceIP

/-- The inner loop: `*ip` after the address records. -/
def addressLoop : List SockAddr → Bytes → Except Fault Bytes
  | [], ip => return ip
  | addr :: next, _ => do
    let sAddr ← addr.sAddr
    addressLoop next (Utils.long2IP sAddr)

/-- The outer loop, up to the `break`. -/
def deviceLoop (interface : Bytes) : List PcapIf → Bytes → Except Fault (Bool × Bytes)
  | [], ip => return (false, ip)
  | p :: next, ip =>
    if p.name = interface then do
      let ip ← addressLoop p.addresses ip
      return (true, ip)
    else deviceLoop interface next ip

end GetInterfaceIP

/-- `GetInterfaceIP`: its result and `*ip`, where `pcap_findalldevs` gives these devices or fails. -/
def getInterfaceIP (alldevs : Option (List PcapIf)) (interface ip : Bytes) : Except Fault (Bool × Bytes) :=
  match alldevs with
  | some devs => GetInterfaceIP.deviceLoop interface devs ip
  | none => return (false, ip)

end FrontServer
