import FrontServer.Packet
import FrontServer.Utils

/-!
# What `cgidump` writes

The statements of `tools/cgidump` that write to `std::cout` and `std::cerr`. A `Line` is one statement with the values it writes, and
`Line.insertions` is its chain of `<<`. Both streams live as long as the program, so that what a manipulator sets in one statement
holds in the next.
-/

namespace FrontServer

/-- What `<<` inserts into a stream. -/
inductive Insertion where
  | text (s : Bytes)
  | int (n : Int)
  | setfill (c : UInt8)
  | hex
  | setw (n : Nat)
  deriving DecidableEq

/-- Write an `int`; after `std::hex` it is written as an unsigned number of 32 bits. -/
def OStringStream.putSigned (os : OStringStream) (n : Int) : OStringStream :=
  os.put (if os.hex then hexadecimal (n % 2 ^ 32).toNat else decimalInt n)

/-- One `<<`. -/
def OStringStream.insert (os : OStringStream) : Insertion → OStringStream
  | .text s => os.put s
  | .int n => os.putSigned n
  | .setfill c => os.setfill c
  | .hex => os.setHex
  | .setw n => os.setw n

/-- `std::endl`. -/
def endl : Insertion := .text (ascii "\n")

/-- A piece of text in quotation marks. -/
def lit (s : String) : Insertion := .text (ascii s)

/-- A statement that writes, with what it writes. -/
inductive Line where
  /-- `ParsePkg::InputPkg` -/
  | notInitilized
  | unsupportLengthType (lengthType : UInt16)
  | unsupprotVersion (vhl p : UInt8)
  | number (i : Nat)
  | getClientAddressFailed
  /-- `ParsePkg::PrintPkgInfo` -/
  | pkgInfo (srcIp : Bytes) (srcPort : Int) (dstIp : Bytes) (dstPort : Int) (flags : Bytes) (dataLen : Int)
  /-- `ParsePkg::InputPkg2Session` -/
  | inputToSessionFailed (client : Bytes) (len : Int) (input : Bool)
  /-- `TcpBuf::InputTcpPkg` -/
  | bufferNotEnough (client : Bytes) (remain len : Int)
  /-- `HttpBuf::GetHttpHeaders` -/
  | illegalHead (head : Bytes)
  /-- `HttpBuf::ParseHttpPkg` -/
  | getHttpHeadersFailed (client : Bytes)
  | firstLine (line : Bytes)
  | noContentLength (client : Bytes)
  | getTcpBufFaild
  | contentLength (value : Bytes) (pos : Int)
  | segmented (value : Bytes)
  /-- `HttpBuf::InputTcpPkg` -/
  | drop (client : Bytes) (len : Int)
  | inputToTcpFailed (client : Bytes) (len : Int)
  /-- `PcapHandler` and what it calls -/
  | unsuportLengthType (lengthType : UInt16)
  | unsuportVersion (version headerLength p : Nat)
  | pktPrint (text : Bytes)
  | etherHeader (text : Bytes)
  | ipHeader (version headerLength ipLen p : Nat) (src dst : Bytes)
  | tcpHeader (portSrc portDst sn ack hlen : Nat) (flags : Bytes) (winSize : Nat)
  | parsedLine (line : Bytes)
  | dump (text : Bytes)
  deriving DecidableEq

namespace Line

/-- The statement writes to `std::cerr`. -/
def toCerr : Line → Bool
  | illegalHead _ | noContentLength _ | getTcpBufFaild | drop _ _ | inputToTcpFailed _ _ => true
  | _ => false

/-- The chain of `<<` of a statement. -/
def insertions : Line → List Insertion
  | notInitilized => [lit "ParsePkg has not initilized", endl]
  | unsupportLengthType lengthType =>
    [lit "unsupport length_type[0x", .setfill 48, .hex, .setw 2, .int lengthType.toNat, lit "]", endl]
  | unsupprotVersion vhl p =>
    -- `ip_p` is a `uint8_t`, which is written as a character
    [lit "unsupprot version[", .int (IpHeader.ipV vhl).toNat, lit "] length[", .int (IpHeader.ipHl vhl).toNat, lit "] protocol[",
      .text [p], lit "]", endl]
  | number i => [lit "[", .int i, lit "]", endl]
  | getClientAddressFailed => [lit "get client address failed", endl]
  | pkgInfo srcIp srcPort dstIp dstPort flags dataLen =>
    [.text srcIp, lit ":", .int srcPort, lit " -> ", .text dstIp, lit ":", .int dstPort, lit " [", .text flags, lit "] "] ++
      (if dataLen > 0 then [.int dataLen] else []) ++ [endl]
  | inputToSessionFailed client len input =>
    [lit "input tcp pkg to session failed. client[", .text client, lit "] len[", .int len, lit "] [",
      lit (if input then "input" else "output"), lit "]", endl]
  | bufferNotEnough client remain len =>
    [lit "client[", .text client, lit "]'s buffer not enough. remain[", .int remain, lit "] len[", .int len, lit "]", endl]
  | illegalHead head => [lit "illegal head[", .text head, lit "]", endl]
  | getHttpHeadersFailed client => [lit "get http headers failed. client[", .text client, lit "]", endl]
  | firstLine line => [.text line, endl]
  | noContentLength client => [lit "can not find Content-Length in http header. client[", .text client, lit "]", endl]
  | getTcpBufFaild => [lit "get tcp buf faild", endl]
  | contentLength value pos => [lit "Content-Length: ", .text value, lit " pos:", .int pos, endl]
  | segmented value => [lit "tcp has been segmented. Content-Length[", .text value, lit "]", endl]
  | drop client len => [lit "drop client[", .text client, lit "] pkg, len[", .int len, lit "]", endl]
  | inputToTcpFailed client len =>
    [lit "input tcp pkg to tcp failed. client[", .text client, lit "] len[", .int len, lit "]", endl]
  | unsuportLengthType lengthType => [lit "unsuport length type[", .int lengthType.toNat, lit "]", endl]
  | unsuportVersion version headerLength p =>
    [lit "unsuport version[", .int version, lit "] length[", .int headerLength, lit "] protocol[", .int p, lit "]", endl]
  | pktPrint text => [.text text, endl]
  | etherHeader text => [.text text]
  | ipHeader version headerLength ipLen p src dst =>
    [lit "version[", .int version, lit "] ip_header_length[", .int headerLength, lit "] total_length[", .int ipLen, lit "] protocal[",
      .int p, lit "] src[", .text src, lit "] dst[", .text dst, lit "]", endl]
  | tcpHeader portSrc portDst sn ack hlen flags winSize =>
    [lit "src_port[", .int portSrc, lit "] dst_port[", .int portDst, lit "] sn[", .int sn, lit "] ack[", .int ack, lit "] hlen[",
      .int hlen, lit "] flags[", .text flags, lit "] win_size[", .int winSize, lit "]", endl]
  | parsedLine line => [.text line, endl]
  | dump text => [.text text, endl]

/-- The statement leaves `std::cout` in hexadecimal. -/
def setsHex : Line → Bool
  | unsupportLengthType _ => true
  | _ => false

end Line

/-- Execute a statement on the stream it writes to. -/
def OStringStream.write (os : OStringStream) (l : Line) : OStringStream := l.insertions.foldl OStringStream.insert os

/-- The two streams of the program, with all that was written to them. -/
structure Console where
  cout : OStringStream
  cerr : OStringStream

namespace Console

/-- The streams when the program starts. -/
def new : Console := { cout := OStringStream.new, cerr := OStringStream.new }

/-- Execute a statement. -/
def write (c : Console) (l : Line) : Console :=
  if l.toCerr then { c with cerr := c.cerr.write l } else { c with cout := c.cout.write l }

/-- Execute some statements in a row. -/
def writeAll (c : Console) (ls : List Line) : Console := ls.foldl write c

end Console

namespace Utils

/-- `Utils::TcpFlags2String`: the names of the flags that are set, with a comma and a blank between them. -/
def tcpFlags2String (flags : UInt16) : Bytes :=
  let oss : Bytes := []
  let oss := if flags &&& 0x01 ≠ 0 then oss ++ ascii "FIN, " else oss
  let oss := if flags &&& 0x02 ≠ 0 then oss ++ ascii "SYN, " else oss
  let oss := if flags &&& 0x04 ≠ 0 then oss ++ ascii "RST, " else oss
  let oss := if flags &&& 0x08 ≠ 0 then oss ++ ascii "PUSH, " else oss
  let oss := if flags &&& 0x10 ≠ 0 then oss ++ ascii "ACK, " else oss
  let oss := if flags &&& 0x20 ≠ 0 then oss ++ ascii "URG, " else oss
  if oss = [] then [] else oss.take (oss.length - 2)

end Utils

/-- `TCP_FLAGS`, of the field `hlen_flags`. -/
def TcpHeader.tcpFlags (hlenFlags : UInt16) : UInt16 := hlenFlags &&& 0x3f

end FrontServer
