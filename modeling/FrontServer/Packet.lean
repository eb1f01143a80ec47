import FrontServer.Lib.CMemory

/-!
# Frames as overlays of header structures

`tools/cgidump/defines.h`. A header is a pointer into the captured bytes, so a field is read at an offset from where the header
lies. Fields of more than one byte are in network order, and every reader below includes the `ntohs` or `ntohl` its users apply.
-/

namespace FrontServer

/-- `ETHER_HDRLEN`. -/
def etherHdrLen : Nat := 14

/-- `IP_HDRLEN`. -/
def ipHdrLen : Nat := 20

/-- `VLAN_LEN`. -/
def vlanLen : Nat := 4

/-- `IP_VERSION_4`. -/
def ipVersion4 : UInt8 := 4

/-- `IP_PROTOCAL_TCP`. -/
def ipProtocalTcp : UInt8 := 6

/-- `ETHERTYPE_8021Q`. -/
def etherType8021Q : UInt16 := 0x8100

/-- `IPV4TYPE`. -/
def ipv4Type : UInt16 := 0x0800

/-- `ntohs` (or `htons`, the same function) of the two bytes at an offset. -/
def ntohsAt (mem : Bytes) (off : Nat) : Except Fault UInt16 := do
  let b₀ ← readAt mem off
  let b₁ ← readAt mem (off + 1 : Nat)
  pure (b₀.toUInt16 <<< 8 ||| b₁.toUInt16)

/-- `ntohl` of the four bytes at an offset. -/
def ntohlAt (mem : Bytes) (off : Nat) : Except Fault UInt32 := do
  let w₀ ← ntohsAt mem off
  let w₁ ← ntohsAt mem (off + 2)
  pure (w₀.toUInt32 <<< 16 ||| w₁.toUInt32)

/-- `EtherHeader::ether_length_type`. -/
def EtherHeader.etherLengthType (mem : Bytes) (eh : Nat) : Except Fault UInt16 := ntohsAt mem (eh + 12)

/-- `VlanHeader::length_type`. -/
def VlanHeader.lengthType (mem : Bytes) (vh : Nat) : Except Fault UInt16 := ntohsAt mem (vh + 2)

namespace IpHeader

/-- `ip_vhl`. -/
def ipVhl (mem : Bytes) (ih : Nat) : Except Fault UInt8 := readAt mem ih

/-- `IP_V`, of the byte `ip_vhl`. -/
def ipV (vhl : UInt8) : UInt8 := (vhl &&& 0xf0) >>> 4

/-- `IP_HL`, of the byte `ip_vhl`. -/
def ipHl (vhl : UInt8) : UInt8 := vhl &&& 0x0f

/-- `ip_len`. -/
def ipLen (mem : Bytes) (ih : Nat) : Except Fault UInt16 := ntohsAt mem (ih + 2)

/-- `ip_p`. -/
def ipP (mem : Bytes) (ih : Nat) : Except Fault UInt8 := readAt mem (ih + 9 : Nat)

/-- `ip_src`. -/
def ipSrc (mem : Bytes) (ih : Nat) : Except Fault UInt32 := ntohlAt mem (ih + 12)

/-- `ip_dst`. -/
def ipDst (mem : Bytes) (ih : Nat) : Except Fault UInt32 := ntohlAt mem (ih + 16)

/-- `IP_VERSION_4 != IP_V(ih) || IP_HDRLEN != IP_HL(ih) * 4 || IP_PROTOCAL_TCP != ih->ip_p`, the other way round. -/
def isTcp (vhl p : UInt8) : Bool := ipVersion4 == ipV vhl && ipHdrLen == (ipHl vhl).toNat * 4 && ipProtocalTcp == p

end IpHeader

namespace TcpHeader

/-- `port_src`. -/
def portSrc (mem : Bytes) (th : Nat) : Except Fault UInt16 := ntohsAt mem th

/-- `port_dst`. -/
def portDst (mem : Bytes) (th : Nat) : Except Fault UInt16 := ntohsAt mem (th + 2)

/-- `hlen_flags`. -/
def hlenFlags (mem : Bytes) (th : Nat) : Except Fault UInt16 := ntohsAt mem (th + 12)

/-- `win_size`. -/
def winSize (mem : Bytes) (th : Nat) : Except Fault UInt16 := ntohsAt mem (th + 14)

/-- `TCP_HL`, of the field `hlen_flags`. -/
def tcpHl (hlenFlags : UInt16) : Nat := ((hlenFlags >>> 12) &&& 0x0f).toNat * 4

end TcpHeader

end FrontServer
