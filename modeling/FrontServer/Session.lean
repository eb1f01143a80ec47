import FrontServer.HttpBuf

/-!
# `Session`: the two directions of one client

`tools/cgidump/session.cpp`. What a client sends goes to `m_input`, what the server sends to `m_output`.
-/

namespace FrontServer

/-- `class Session`. -/
structure Session where
  mInput : HttpBuf
  mOutput : HttpBuf

namespace Session

/-- `Session::Session`. -/
def new (client : Bytes) : Session := { mInput := HttpBuf.new client true, mOutput := HttpBuf.new client false }

/-- `Session::InputTcpPkg`. -/
def inputTcpPkg (s : Session) (data : Bytes) (len : Int) (input : Bool) : Except Fault (HttpReply × Session) :=
  if input then do
    let (reply, h) ← s.mInput.inputTcpPkg data len
    pure (reply, { s with mInput := h })
  else do
    let (reply, h) ← s.mOutput.inputTcpPkg data len
    pure (reply, { s with mOutput := h })

end Session

end FrontServer
