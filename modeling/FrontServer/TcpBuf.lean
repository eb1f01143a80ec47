import FrontServer.Lib.CMemory

/-!
# `TcpBuf`: the ring buffer of one direction of a flow

`tools/cgidump/tcp_buf.cpp`. The buffer is an array of `MAX_BUF_SIZE` bytes and two indices; the bytes not yet read lie from
`m_start` up to `m_end`, past the end of the array and on from its start when `m_end` is smaller. A call gives its result and
the buffer after it. The lines it logs are left out.
-/

namespace FrontServer

/-- `MAX_BUF_SIZE`. -/
def maxBufSize : Nat := 8192

/-- `class TcpBuf`. -/
structure TcpBuf where
  mClient : Bytes
  mBuf : CArray maxBufSize
  mStart : Int
  mEnd : Int

namespace TcpBuf

/-- `TcpBuf::TcpBuf`. -/
def new (client : Bytes) : TcpBuf := { mClient := client, mBuf := CArray.zeros maxBufSize, mStart := 0, mEnd := 0 }

/-- `TcpBuf::GetClientStr`. -/
def getClientStr (b : TcpBuf) : Bytes := b.mClient

/-- `TcpBuf::GetDataLen`. -/
def getDataLen (b : TcpBuf) : Int :=
  if b.mEnd = b.mStart then 0
  else if b.mEnd > b.mStart then b.mEnd - b.mStart
  else maxBufSize - b.mStart + b.mEnd

/-- `TcpBuf::RemainSize`. -/
def remainSize (b : TcpBuf) : Int := maxBufSize - b.getDataLen - 2

/-- The copy of `TcpBuf::InputTcpPkg`: the bytes and the new `m_end`, in two pieces when they reach the end of the array. -/
def copyIn (b : TcpBuf) (data : Bytes) (len : Int) : Except Fault TcpBuf :=
  if b.mEnd + len ≥ maxBufSize then do
    let firstLen := maxBufSize - b.mEnd
    let secondLen := len - firstLen
    let buf ← memcpy b.mBuf b.mEnd data 0 firstLen
    let buf ← (if 0 ≠ secondLen then memcpy buf 0 data firstLen secondLen else pure buf)
    pure { b with mBuf := buf, mEnd := secondLen }
  else do
    let buf ← memcpy b.mBuf b.mEnd data 0 len
    pure { b with mBuf := buf, mEnd := b.mEnd + len }

/-- `TcpBuf::InputTcpPkg`. -/
def inputTcpPkg (b : TcpBuf) (data : Bytes) (len : Int) : Except Fault (Bool × TcpBuf) :=
  if len > b.remainSize then pure (false, b)
  else do
    let b ← b.copyIn data len
    let buf ← b.mBuf.write b.mEnd [0]
    pure (true, { b with mBuf := buf })

/-- The copy of `TcpBuf::PreOutputTcpPkg` and of `TcpBuf::OutputTcpPkg`, for a length already cut to what is buffered: the
caller's array and the index of the first byte not copied. -/
def copyOut {n : Nat} (b : TcpBuf) (data : CArray n) (len : Int) : Except Fault (CArray n × Int) :=
  if len + b.mStart ≥ maxBufSize then do
    let firstLen := maxBufSize - b.mStart
    let secondLen := len - firstLen
    let data ← memcpy data 0 b.mBuf.bytes b.mStart firstLen
    let data ← (if 0 ≠ secondLen then memcpy data firstLen b.mBuf.bytes 0 secondLen else pure data)
    pure (data, secondLen)
  else do
    let data ← memcpy data 0 b.mBuf.bytes b.mStart len
    pure (data, b.mStart + len)

/-- `len > GetDataLen() ? GetDataLen() : len`. -/
def cutLen (b : TcpBuf) (len : Int) : Int := if len > b.getDataLen then b.getDataLen else len

/-- `TcpBuf::PreOutputTcpPkg`: the length returned and the caller's array. -/
def preOutputTcpPkg {n : Nat} (b : TcpBuf) (data : CArray n) (len : Int) : Except Fault (Int × CArray n) := do
  let (data, _) ← b.copyOut data (b.cutLen len)
  pure (b.cutLen len, data)

/-- `TcpBuf::OutputTcpPkg`: the length returned, the caller's array, and the buffer without those bytes. -/
def outputTcpPkg {n : Nat} (b : TcpBuf) (data : CArray n) (len : Int) : Except Fault (Int × CArray n × TcpBuf) := do
  let (data, next) ← b.copyOut data (b.cutLen len)
  pure (b.cutLen len, data, { b with mStart := next })

end TcpBuf

end FrontServer
