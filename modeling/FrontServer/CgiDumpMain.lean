import FrontServer.ParsePkgLog
import FrontServer.PcapHandler

/-!
# The programs `cgidump` and `mock`

`tools/cgidump/main.cpp` and `mock.cpp`. `main` checks its arguments and hands every frame that libpcap captures to `PcapHandler`, which
saves it, passes it to `ParsePkg::InputPkg`, and prints it once more on its own; `ParsePkg::Init` is not called. `mock` calls it, and
passes the first frames of a saved file to `InputPkg`. What is libpcap's (the devices and the frames, and what it does with a saved file)
is a parameter, and so is the local time of a second. A frame lies in libpcap's memory, and the program may read what is behind it.
-/

namespace FrontServer

/-! ## Frames -/

/-- `struct pcap_pkthdr`. -/
structure PcapPkthdr where
  tvSec : Int
  tvUsec : Int
  caplen : UInt32
  len : UInt32
  deriving DecidableEq

/-- `DEFAULT_SNAPLEN`. -/
def defaultSnaplen : Nat := 262144

/-- What libpcap hands over: a header, and the memory from `bytes` on as far as it can be read. The frame is in the first `caplen` bytes. -/
structure Packet where
  h : PcapPkthdr
  memory : Bytes
  captured : h.caplen.toNat ≤ memory.length
  snapped : h.caplen.toNat ≤ defaultSnaplen
  deriving DecidableEq

/-- The frame, as far as it was captured. -/
def Packet.bytes (pkt : Packet) : Bytes := pkt.memory.take pkt.h.caplen.toNat

/-! ## `ParseHttp` inside of a frame -/

section

variable {σ : Type}

/-- `scanStep` with the test for the end of a line as it is where the bytes lie. -/
def scanStepWith (endsLine : Nat → Except Fault Bool) (onLine : σ → Bytes → σ) (data : Bytes) (i : Nat) (s : Scan σ) :
    Except Fault (Option (Scan σ)) := do
  let b ← readAt data i
  if b = LF then do
    let ends ← endsLine i
    if ends then
      if i > 1 then do
        let blank ← scanBlankLine data i s.pos
        if blank then pure none
        else do
          let head ← stringAt data s.pos ((i : Int) - s.pos - 1)
          pure (some { pos := i + 1, acc := onLine s.acc head })
      else pure (some { s with pos := i + 1 })
    else pure (some s)
  else pure (some s)

/-- `scanLoop` with it. -/
def scanLoopWith (endsLine : Nat → Except Fault Bool) (onLine : σ → Bytes → σ) (data : Bytes) :
    Nat → Nat → Scan σ → Except Fault (Nat × Scan σ)
  | 0, i, s => pure (i, s)
  | n + 1, i, s => do
    let r ← scanStepWith endsLine onLine data i s
    match r with
    | none => pure (i, s)
    | some s => scanLoopWith endsLine onLine data n (i + 1) s

/-- `scanHeaders` with it. -/
def scanHeadersWith (endsLine : Nat → Except Fault Bool) (onLine : σ → Bytes → σ) (data : Bytes) (len : Int) (acc : σ)
    (remainPos : Int) : Except Fault (Bool × σ × Int) :=
  if 0 = len then pure (false, acc, remainPos)
  else do
    let r ← scanLoopWith endsLine onLine data len.toNat 0 { pos := 0, acc := acc }
    pure (true, r.2.acc, (r.1 : Int) + 1)

end

/-- `i > 0 || '\r' == data[i - 1]`, where `data` points to `p` in memory. -/
def endsLineAt (mem : Bytes) (p i : Nat) : Except Fault Bool :=
  if i > 0 then pure true
  else do
    let b ← readAt mem ((p : Int) + i - 1)
    pure (b == CR)

/-- `ParseHttp` with `data` at `p` in memory. For a line feed at the front it looks at the byte before `p`. -/
def parseHttpAt (mem : Bytes) (p : Nat) (len remainPos : Int) : Except Fault (Bool × List Bytes × Int) :=
  scanHeadersWith (endsLineAt mem p) (fun lines head => lines ++ [head]) (mem.drop p) len [] remainPos

/-! ## The lines of `PcapHandler` -/

/-- `PktPrint`. -/
def pktPrint (localTime : Int → Bytes) (h : PcapPkthdr) : Bytes :=
  ascii "ts[" ++ localTime h.tvSec ++ ascii "." ++ decimalInt (h.tvUsec.tdiv 1000) ++ ascii "] caplen[" ++ decimal h.caplen.toNat ++
    ascii "] len[" ++ decimal h.len.toNat ++ ascii "]"

/-- `ETHER_ADDR_LEN`. -/
def etherAddrLen : Nat := 6

/-- A loop of `PrintEtherHeader` over a hardware address. -/
def putEtherAddr (oss : OStringStream) (addr : Bytes) : OStringStream :=
  addr.zipIdx.foldl (fun oss (value, i) =>
    ((((oss.setfill 48).setHex).setw 2).putInt value.toNat).put (if i < etherAddrLen - 1 then ascii ":" else ascii "] ")) oss

/-- `PrintEtherHeader`: the text it writes. -/
def printEtherHeader (mem : Bytes) : Except Fault Bytes := do
  let dhost ← readBytes mem 0 etherAddrLen
  let oss := putEtherAddr (OStringStream.new.put (ascii "DST[")) dhost
  let shost ← readBytes mem etherAddrLen etherAddrLen
  let oss := putEtherAddr (oss.put (ascii "SRC[")) shost
  let lengthType ← EtherHeader.etherLengthType mem 0
  let oss := (((((oss.put (ascii "TYPE[0x")).setw 4).setfill 48).setHex).putInt lengthType.toNat).put (ascii "]\n")
  return oss.str

/-- `PrintIpHeader`. -/
def printIpHeader (mem : Bytes) (ih : Nat) : Writes PUnit := do
  let vhl ← IpHeader.ipVhl mem ih
  let ipLen ← IpHeader.ipLen mem ih
  let p ← IpHeader.ipP mem ih
  let src := Utils.long2IP (← IpHeader.ipSrc mem ih)
  let dst := Utils.long2IP (← IpHeader.ipDst mem ih)
  tell [.ipHeader (IpHeader.ipV vhl).toNat ((IpHeader.ipHl vhl).toNat * 4) ipLen.toNat p.toNat src dst]

/-- `TcpHeader::sn`. -/
def TcpHeader.sn (mem : Bytes) (th : Nat) : Except Fault UInt32 := ntohlAt mem (th + 4)

/-- `TcpHeader::ack`. -/
def TcpHeader.ack (mem : Bytes) (th : Nat) : Except Fault UInt32 := ntohlAt mem (th + 8)

/-- `PrintTcpHeader`. -/
def printTcpHeader (mem : Bytes) (th : Nat) : Writes PUnit := do
  let portSrc ← TcpHeader.portSrc mem th
  let portDst ← TcpHeader.portDst mem th
  let sn ← TcpHeader.sn mem th
  let ack ← TcpHeader.ack mem th
  let hlenFlags ← TcpHeader.hlenFlags mem th
  let flags := Utils.tcpFlags2String (TcpHeader.tcpFlags hlenFlags)
  let winSize ← TcpHeader.winSize mem th
  tell [.tcpHeader portSrc.toNat portDst.toNat sn.toNat ack.toNat (TcpHeader.tcpHl hlenFlags) flags winSize.toNat]

/-- `PrintHex` of `main.cpp`, which is the one of `Utils` for `std::cout`: the text in front of its `std::endl`. -/
def printHexText (ctx : Bytes) (size : Int) : Except Fault Bytes := do
  let oss ← Utils.printLines ctx size 0 OStringStream.new
  return oss.str

namespace PcapHandler

/-- The checks of `PcapHandler` on the type of a frame. -/
def ipHeaderLogged (bytes : Bytes) : Writes (Option Nat) := do
  let lengthType ← EtherHeader.etherLengthType bytes 0
  if etherType8021Q = lengthType then do
    let lengthType ← VlanHeader.lengthType bytes (etherHdrLen + vlanLen)
    if ipv4Type = lengthType then do
      tell [.unsuportLengthType lengthType]
      pure none
    else pure (some (etherHdrLen + vlanLen))
  else if ipv4Type = lengthType then pure (some etherHdrLen)
  else do
    tell [.unsuportLengthType lengthType]
    pure none

/-- `PcapHandler` from the IP header on. -/
def printAt (localTime : Int → Bytes) (pkt : Packet) (ih : Nat) : Writes PUnit := do
  let bytes := pkt.memory
  let vhl ← IpHeader.ipVhl bytes ih
  let ipLen ← IpHeader.ipLen bytes ih
  let ipP ← IpHeader.ipP bytes ih
  if IpHeader.isTcp vhl ipP then do
    let th := ih + ipHdrLen
    let hl := TcpHeader.tcpHl (← TcpHeader.hlenFlags bytes th)
    let contentLen := (ipLen.toNat : Int) - ipHdrLen - hl
    tell [.pktPrint (pktPrint localTime pkt.h)]
    let text ← printEtherHeader bytes
    tell [.etherHeader text]
    printIpHeader bytes ih
    printTcpHeader bytes th
    let (_, lines, nextPos) ← parseHttpAt bytes (th + hl) contentLen 0
    tell (lines.map .parsedLine)
    let text ← printHexText (bytes.drop (th + hl + nextPos.toNat)) contentLen
    tell [.dump text]
  else do
    tell [.unsuportVersion (IpHeader.ipV vhl).toNat ((IpHeader.ipHl vhl).toNat * 4) ipP.toNat]
    let text ← printHexText bytes 40
    tell [.dump text]

end PcapHandler

/-- `PcapHandler` behind `pcap_dump`. -/
def pcapHandlerLogged (localTime : Int → Bytes) (s : CgiDump) (pkt : Packet) : Writes CgiDump := do
  let (_, s) ← s.inputPkg pkt.memory pkt.h.caplen.toNat
  let found ← PcapHandler.ipHeaderLogged pkt.memory
  match found with
  | none => pure s
  | some ih => do
    PcapHandler.printAt localTime pkt ih
    pure s

/-! ## Saved files -/

/-- What the programs use of libpcap for saved files: `pcap_dump_open` and `pcap_dump`, `pcap_open_offline` and `pcap_next`, where `none`
is `NULL`. A file is a `φ`, with what libpcap still has to write out, and one that is read a `ψ`. -/
structure Savefile (φ ψ : Type) where
  dumpOpen : Bytes → Option φ
  dump : φ → PcapPkthdr → Bytes → φ
  openOffline : φ → Option ψ
  next : ψ → Option (Packet × ψ)

/-- What libpcap's documentation says of them: a new file is empty, each call of `pcap_dump` adds the captured bytes, and they are read
in this order up to a `NULL` at the end. `contents` is what has been saved, `remaining` what is left to be read. -/
structure Savefile.Lawful {φ ψ : Type} (F : Savefile φ ψ) (contents : φ → List Bytes) (remaining : ψ → List Bytes) : Prop where
  dumpOpen : ∀ fname f, F.dumpOpen fname = some f → contents f = []
  dump : ∀ f (pkt : Packet), contents (F.dump f pkt.h pkt.memory) = contents f ++ [pkt.bytes]
  openOffline : ∀ f, ∃ pc, F.openOffline f = some pc ∧ remaining pc = contents f
  next_nil : ∀ pc, remaining pc = [] → F.next pc = none
  next_cons : ∀ pc bytes rest, remaining pc = bytes :: rest →
    ∃ pkt pc', F.next pc = some (pkt, pc') ∧ pkt.bytes = bytes ∧ remaining pc' = rest

/-! ## `cgidump` -/

/-- `CheckPort`. -/
def checkPort (portStr : Bytes) : Bool := atoi portStr > 0

/-- What libpcap gives to `main` in front of the capture: the devices, whether its calls succeed, and what is in `ebuf` when `main` prints
it. -/
structure SniffEnv where
  alldevs : Option (List PcapIf)
  lookupnet : Bool
  openLive : Bool
  compile : Bytes → Bool
  setfilter : Bool
  ebuf : Bytes

/-- What `cgidump` has while it captures: the one `ParsePkg`, and the file that it saves to, if it was given one. -/
structure Capturing (φ : Type) where
  cgiDump : CgiDump
  dumper : Option φ

section

variable {φ ψ : Type}

/-- `main` up to `pcap_loop`: the text it prints, and the state in which the capture starts, nothing where `main` returns. The name of the
cgi is not used. -/
def cgidumpMain (F : Savefile φ ψ) (env : SniffEnv) (argv : List Bytes) : Except Fault (Bytes × Option (Capturing φ)) :=
  match argv with
  | _ :: dev :: port :: _ :: rest => do
    let (found, _) ← getInterfaceIP env.alldevs dev []
    let text := if env.alldevs.isNone then ascii "pcap_findalldevs failed.\n" else []
    if !found then return (text ++ ascii "does not find interface [" ++ dev ++ ascii "]\n", none)
    if !checkPort port then return (text ++ ascii "port param [" ++ port ++ ascii "] illegal\n", none)
    let text := text ++ ascii "creating a sniffing session with dev[" ++ dev ++ ascii "]\n"
    let text := if env.lookupnet then text else text ++ ascii "can't get netmask for device " ++ dev ++ ascii "\n"
    if !env.openLive then return (text ++ ascii "couldn't open device " ++ dev ++ ascii ": " ++ env.ebuf ++ ascii "\n", none)
    -- `snprintf` into 512 bytes
    let filterExp := (ascii "port " ++ port).take 511
    if !env.compile filterExp then
      return (text ++ ascii "couldn't parse filter[" ++ filterExp ++ ascii "]: " ++ env.ebuf ++ ascii "\n", none)
    if !env.setfilter then
      return (text ++ ascii "couldn't install filter[" ++ filterExp ++ ascii "]: " ++ env.ebuf ++ ascii "\n", none)
    let s : Capturing φ := { cgiDump := { parsePkg := ParsePkg.new, i := 0 }, dumper := none }
    match rest with
    | [] => return (text, some s)
    | dumpfile :: _ =>
      if dumpfile = [] then return (text, some s)
      match F.dumpOpen dumpfile with
      | none => return (text ++ ascii "error open dumpfile[" ++ dumpfile ++ ascii "]\n", none)
      | some f => return (text, some { s with dumper := some f })
  | _ => return (ascii "cgidump eth0 port cgi-name [dumpfile]\n", none)

namespace Capturing

/-- `PcapHandler`. -/
def pcapHandler (F : Savefile φ ψ) (localTime : Int → Bytes) (s : Capturing φ) (pkt : Packet) : Writes (Capturing φ) := do
  let dumper := s.dumper.map fun f => F.dump f pkt.h pkt.memory
  let cgiDump ← pcapHandlerLogged localTime s.cgiDump pkt
  pure { cgiDump := cgiDump, dumper := dumper }

/-- `pcap_loop`, with the lines about each frame. -/
def machine (F : Savefile φ ψ) (localTime : Int → Bytes) : Machine (Capturing φ) Packet (List Line) where
  step s pkt := (s.pcapHandler F localTime pkt).run.toOption.map fun r => (r.2, r.1)

end Capturing

/-! ## `mock` -/

namespace Mock

/-- The loop of `mock`. `InputPkg` is given the captured bytes alone, so a read behind them is a fault. -/
def loop (F : Savefile φ ψ) (s : CgiDump) (count : Int) (pc : ψ) : Option (List Report × CgiDump) :=
  match F.next pc with
  | none => some ([], s)
  | some (pkt, pc) =>
    match CgiDump.machine.step s pkt.bytes with
    | none => none
    | some (rep, s) =>
      if 20 < count then some ([rep], s)
      else (loop F s (count + 1) pc).map fun r => (rep :: r.1, r.2)
termination_by (21 - count).toNat
decreasing_by omega

/-- `main`, where `files` are the saved files by their names: the reports of its `InputPkg` calls and what it has in the end, and nothing
of both where it returns before. Without a file it reads from `NULL`, which ends it. -/
def main (F : Savefile φ ψ) (files : Bytes → Option φ) (argv : List Bytes) : Option (Option (List Report × CgiDump)) :=
  match argv with
  | [_, fname] =>
    match (files fname).bind F.openOffline with
    | none => none
    | some pc => (loop F (CgiDump.init (ascii "10.197.136.192") 11135) 0 pc).map some
  | _ => some none

end Mock

end

end FrontServer
