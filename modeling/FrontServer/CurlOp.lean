import FrontServer.Lib.CMemory

/-!
# `CurlOp`: the response of a request

`utils/curl_op/curl_op.cc`. Whether there is a client, which chunks curl delivers and what code it ends with is up to curl, and so is
all that is made of the url, the data to post and the timeouts: these are parameters. So is what each newly allocated array holds.
A `len` that would not fit an `int32_t` is a fault. The lines the functions log are left out.
-/

namespace FrontServer

namespace CurlOp

/-- `struct Buffer`. -/
structure Buffer where
  data : Option Bytes
  len : Int
  deriving DecidableEq

/-- What curl delivers at once, `size * nmemb` bytes at `ptr`, and what the array that is allocated for it holds. -/
structure Chunk where
  ptr : Bytes
  size : Nat
  nmemb : Nat
  length_eq : ptr.length = size * nmemb
  fresh : Nat → UInt8

/-- `OnHttpData`: the bytes taken, and the buffer. Both pointers may be `NULL`. -/
def onHttpData (ptr : Option Bytes) (size nmemb : Nat) (userData : Option Buffer) (fresh : Nat → UInt8) :
    Except Fault (Nat × Option Buffer) :=
  match ptr, userData with
  | some recvData, some buffer =>
    match buffer.data with
    | none => do
      let data ← storeAt (newChars fresh (size * nmemb + 1)) (size * nmemb) 0
      let len ← checkedInt (size * nmemb : Nat)
      let data ← strncpy data 0 recvData (size * nmemb)
      return (size * nmemb, some { data := some data, len := len })
    | some oldData => do
      let data ← storeAt (newChars fresh (buffer.len.toNat + size * nmemb + 1)) (size * nmemb) 0
      let data ← strncpy data 0 oldData buffer.len.toNat
      let data ← strncpy data buffer.len.toNat recvData (size * nmemb)
      let len ← checkedInt (buffer.len + (size * nmemb : Nat))
      return (size * nmemb, some { data := some data, len := len })
  | _, _ => return (0, userData)

/-- `curl_easy_perform`, as far as the buffer goes: curl stops where a chunk is not taken as a whole. -/
def deliver : List Chunk → Option Buffer → Except Fault (Option Buffer)
  | [], userData => return userData
  | c :: cs, userData => do
    let (taken, userData) ← onHttpData (some c.ptr) c.size c.nmemb userData c.fresh
    if taken = c.size * c.nmemb then deliver cs userData else return userData

/-- `GetHttpReturn`: its result and `*http_return`, which may be `NULL`. -/
def getHttpReturn (client : Bool) (chunks : List Chunk) (curlOk : Bool) (httpReturn : Option Bytes) :
    Except Fault (Bool × Option Bytes) := do
  if !client then return (false, httpReturn)
  let userData ← deliver chunks (some { data := none, len := 0 })
  match userData.bind Buffer.data, httpReturn with
  | some data, some _ => do
    let text ← stringOf data
    return (curlOk, some text)
  | _, _ => return (curlOk, httpReturn)

end CurlOp

end FrontServer
