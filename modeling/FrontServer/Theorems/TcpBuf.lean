import FrontServer.Lemmas.TcpBuf

/-!
# The ring buffer is a bounded queue

A `TcpBuf` driven by any calls answers as `BoundedFifo UInt8 8190` does: the simulation is `simulates_fifo`, the statement about
runs from a fresh buffer `refines_fifo`.
-/

namespace FrontServer

/-- A call on a `TcpBuf`: a segment to store, or a number of bytes to copy into a caller's array with room for them. -/
inductive TcpCall where
  | input (data : Bytes)
  | preOutput {n : Nat} (data : CArray n) (len : Nat) (room : len ≤ n)
  | output {n : Nat} (data : CArray n) (len : Nat) (room : len ≤ n)
  | getDataLen

/-- What a call returns: for the two that copy out, the length and that many first bytes of the caller's array. -/
inductive TcpReply where
  | input (ret : Bool)
  | copied (ret : Int) (bytes : Bytes)
  | dataLen (ret : Int)
  deriving DecidableEq

namespace TcpBuf

/-- The calls of `class TcpBuf`. -/
def machine : Machine TcpBuf TcpCall TcpReply where
  step b
    | .input data => (b.inputTcpPkg data data.length).toOption.map fun r => (.input r.1, r.2)
    | .preOutput data len _ =>
      (b.preOutputTcpPkg data len).toOption.map fun r => (.copied r.1 (r.2.bytes.take r.1.toNat), b)
    | .output data len _ =>
      (b.outputTcpPkg data len).toOption.map fun r => (.copied r.1 (r.2.1.bytes.take r.1.toNat), r.2.2)
    | .getDataLen => some (.dataLen b.getDataLen, b)

/-- The same calls on a queue of at most 8190 bytes. -/
def fifoMachine : Machine (BoundedFifo UInt8 capacity) TcpCall TcpReply where
  step q
    | .input data => some (.input (q.offer data).1, (q.offer data).2)
    | .preOutput _ len _ => some (.copied (q.peek len).length (q.peek len), q)
    | .output _ len _ => some (.copied (q.take len).1.length (q.take len).1, (q.take len).2)
    | .getDataLen => some (.dataLen q.items.length, q)

/-- A well-formed buffer holds the bytes of a queue. -/
def Holds (b : TcpBuf) (q : BoundedFifo UInt8 capacity) : Prop := b.WellFormed ∧ b.contents = q.items

theorem new_holds_empty (client : Bytes) : (new client).Holds BoundedFifo.empty :=
  ⟨new_wellFormed client, contents_new client⟩

/-- `InputTcpPkg` is the offer of a queue. -/
theorem inputTcpPkg_offer {b : TcpBuf} {q : BoundedFifo UInt8 capacity} (h : b.Holds q) (data : Bytes) :
    ∃ b', b.inputTcpPkg data data.length = .ok ((q.offer data).1, b') ∧ b'.Holds (q.offer data).2 := by
  obtain ⟨hwf, hc⟩ := h
  by_cases hfit : q.items.length + data.length ≤ capacity
  · obtain ⟨b', e, hwf', -, hc'⟩ := inputTcpPkg_of_le hwf (Int.natCast_nonneg data.length) le_rfl (by rw [hc]; omega)
    rw [BoundedFifo.offer_of_le hfit]
    refine ⟨b', e, hwf', ?_⟩
    rw [hc', hc, Int.toNat_natCast, List.take_length]
  · rw [BoundedFifo.offer_of_gt (by omega)]
    exact ⟨b, inputTcpPkg_of_gt hwf (by rw [hc]; omega), hwf, hc⟩

/-- What the two copies out return. -/
theorem copied_eq {q : BoundedFifo UInt8 capacity} {len : Nat} {n : Nat} {a : CArray n}
    (h : a.bytes.take (min len q.items.length : Int).toNat = q.items.take len) :
    TcpReply.copied (min len q.items.length) (a.bytes.take (min len q.items.length : Int).toNat) =
      .copied (q.items.take len).length (q.items.take len) := by
  rw [h, List.length_take]
  simp

/-- Each call of the ring buffer is answered like the same call of the queue it holds. -/
theorem simulates_fifo : Machine.Simulation machine fifoMachine Holds where
  step := by
    intro b q call h
    cases call with
    | input data =>
      obtain ⟨b', e, h'⟩ := inputTcpPkg_offer h data
      simp only [machine, fifoMachine, e]
      exact Option.Rel.some ⟨rfl, h'⟩
    | preOutput data len room =>
      obtain ⟨a, e, ht⟩ := preOutputTcpPkg_spec h.1 data (Int.natCast_nonneg len) (by omega)
      rw [h.2] at e ht
      simp only [machine, fifoMachine, e]
      exact Option.Rel.some ⟨copied_eq ht, h⟩
    | output data len room =>
      obtain ⟨a, b', e, ht, hwf', -, hc'⟩ := outputTcpPkg_spec h.1 data (Int.natCast_nonneg len) (by omega)
      rw [h.2] at e ht hc'
      simp only [machine, fifoMachine, e]
      exact Option.Rel.some ⟨copied_eq ht, hwf', hc'⟩
    | getDataLen =>
      refine Option.Rel.some ⟨?_, h⟩
      rw [getDataLen_eq h.1, h.2]

/-- The queue never faults. -/
theorem fifoMachine_total (q : BoundedFifo UInt8 capacity) (calls : List TcpCall) :
    ∃ replies q', fifoMachine.run q calls = some (replies, q') := by
  induction calls generalizing q with
  | nil => exact ⟨[], q, rfl⟩
  | cons call calls ih =>
    obtain ⟨o, q', hs⟩ : ∃ o q', fifoMachine.step q call = some (o, q') := by
      cases call <;> exact ⟨_, _, rfl⟩
    obtain ⟨os, q'', hr⟩ := ih q'
    exact ⟨o :: os, q'', Machine.run_cons_eq_some.mpr ⟨o, q', os, hs, hr, rfl⟩⟩

/-- A fresh buffer, driven by any calls in any order, never faults and answers each of them as the queue does. It then holds the
bytes of the queue: a segment is taken exactly when the 8190 bytes have room for it, and one that is not taken leaves the
indices and the array as they are. -/
theorem refines_fifo (client : Bytes) (calls : List TcpCall) :
    ∃ replies b q, machine.run (new client) calls = some (replies, b) ∧
      fifoMachine.run BoundedFifo.empty calls = some (replies, q) ∧ b.Holds q ∧
      (∀ data : Bytes, q.items.length + data.length ≤ 8190 →
        ∃ b', b.inputTcpPkg data data.length = .ok (true, b') ∧ b'.WellFormed ∧ b'.contents = q.items ++ data) ∧
      (∀ data : Bytes, 8190 < q.items.length + data.length → b.inputTcpPkg data data.length = .ok (false, b)) := by
  obtain ⟨replies, q, hq⟩ := fifoMachine_total BoundedFifo.empty calls
  obtain ⟨b, hb, h⟩ := simulates_fifo.some_run (new_holds_empty client) hq
  refine ⟨replies, b, q, hb, hq, h, fun data hfit => ?_, fun data hfull => ?_⟩
  · obtain ⟨b', e, h'⟩ := inputTcpPkg_offer h data
    rw [BoundedFifo.offer_of_le hfit] at e h'
    exact ⟨b', e, h'⟩
  · exact inputTcpPkg_of_gt h.1 (by rw [h.2]; unfold capacity; omega)

end TcpBuf

end FrontServer
