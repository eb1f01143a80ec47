import FrontServer.Lib.CMemory
import FrontServer.Lib.Machine

/-!
# `InitServer`: the loop over epoll

`server/src/server.cc`. The listening socket and the connections are registered edge-triggered: what happens on one makes epoll report
it once, and `epoll_wait` takes the reports. What the calls of the system give is up to the system, and a parameter. The lines that the
loop logs are left out, and with them what it reads.
-/

namespace FrontServer

/-- `MAX_EVENTS`. -/
def maxEvents : Nat := 1024

/-- What becomes of a report of the listening socket: `accept` fails, having taken a connection out of the backlog or not, or it gives a
connection, for which `SetNonblocking` and `epoll_ctl` succeed or not. -/
inductive AcceptOutcome where
  | failed (taken : Bool)
  | accepted (connFd : Int) (nonblocking added : Bool)

/-- Where the loop is: in `epoll_wait`, or in front of these of the events that it was given, by their file descriptors. -/
inductive LoopPosition where
  | wait
  | events (fds : List Int)
  deriving DecidableEq

/-- The completed connections that are not accepted, the registered ones with the bytes that have arrived and not been read, the file
descriptors with an unreported event, and the loop. -/
structure EpollLoop where
  backlog : Nat
  conns : Finmap (fun _ : Int => Bytes)
  ready : List Int
  position : LoopPosition

/-- What can happen: a connection completes, bytes arrive on one; `epoll_wait` returns some events, or `-1`; the loop handles an event of
the listening socket, or one of a connection, or goes back to `epoll_wait`. -/
inductive EpollAction where
  | connect
  | arrive (fd : Int) (data : Bytes)
  | report (n : Nat)
  | interrupt
  | accept (outcome : AcceptOutcome)
  | read
  | again

namespace EpollLoop

/-- The loop when it is first reached. -/
def new : EpollLoop := { backlog := 0, conns := ∅, ready := [], position := .wait }

/-- Something new on a file descriptor, which is on the list of unreported events once. -/
def raise (s : EpollLoop) (fd : Int) : EpollLoop := if fd ∈ s.ready then s else { s with ready := s.ready ++ [fd] }

/-- The branch for the listening socket; `none` where the system cannot give this. -/
def accept (listenSock : Int) (s : EpollLoop) : AcceptOutcome → Option EpollLoop
  | .failed false => some s
  | .failed true => if 0 < s.backlog then some { s with backlog := s.backlog - 1 } else none
  | .accepted connFd nonblocking added =>
    if 0 < s.backlog ∧ connFd ≠ listenSock ∧ s.conns.lookup connFd = none then
      if !nonblocking then some { s with backlog := s.backlog - 1 }
      else if !added then some { s with backlog := s.backlog - 1 }
      else some { s with backlog := s.backlog - 1, conns := s.conns.insert connFd [] }
    else none

/-- The branch for a connection: it is read until nothing is left. -/
def drain (s : EpollLoop) (fd : Int) : EpollLoop :=
  match s.conns.lookup fd with
  | some _ => { s with conns := s.conns.insert fd [] }
  | none => s

/-- One step; `none` for one that cannot be taken. -/
def step (listenSock : Int) (s : EpollLoop) : EpollAction → Option (Unit × EpollLoop)
  | .connect => some ((), raise { s with backlog := s.backlog + 1 } listenSock)
  | .arrive fd data =>
    match s.conns.lookup fd with
    | some unread => some ((), raise { s with conns := s.conns.insert fd (unread ++ data) } fd)
    | none => none
  | .report n =>
    match s.position with
    | .wait =>
      if 0 < n ∧ n ≤ s.ready.length ∧ n ≤ maxEvents then
        some ((), { s with ready := s.ready.drop n, position := .events (s.ready.take n) })
      else none
    | .events _ => none
  | .interrupt =>
    match s.position with
    | .wait => some ((), s)
    | .events _ => none
  | .accept outcome =>
    match s.position with
    | .events (fd :: fds) =>
      if fd = listenSock then (s.accept listenSock outcome).map (fun s => ((), { s with position := .events fds })) else none
    | _ => none
  | .read =>
    match s.position with
    | .events (fd :: fds) => if fd = listenSock then none else some ((), { s.drain fd with position := .events fds })
    | _ => none
  | .again =>
    match s.position with
    | .events [] => some ((), { s with position := .wait })
    | _ => none

/-- The loop, its clients and epoll. -/
def machine (listenSock : Int) : Machine EpollLoop EpollAction Unit where
  step := step listenSock

end EpollLoop

end FrontServer
