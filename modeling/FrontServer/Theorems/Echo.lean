import FrontServer.Server

/-!
# What the echo server writes back

Each arrival makes the server read at most `msgSize` bytes and write exactly as many, zeros behind what it has read. So it writes back
what it has received as long as every callback finds `msgSize` bytes to read, and with nothing left over only if the arrivals are that
much on average.
-/

namespace FrontServer

namespace Server

/-- What has arrived on the connection that a file descriptor denotes at the end of the events. -/
def arrivals (fd : Int) (events : List Event) : List Bytes :=
  events.foldl (fun datas e =>
    match e with
    | .accept fd' _ => if fd' = fd then [] else datas
    | .arrive fd' data => if fd' = fd then datas ++ [data] else datas
    | .conn _ => datas) []

/-- At every callback so far there were `msgSize` bytes to read. -/
def Filled (datas : List Bytes) : Prop := ∀ j ≤ datas.length, msgSize * j ≤ (datas.take j).flatten.length

/-- The array that a callback writes: what it reads, with zeros behind. -/
def block (pending : Bytes) : Bytes := pending.take msgSize ++ List.replicate (msgSize - pending.length) 0

theorem length_block (pending : Bytes) : (block pending).length = msgSize := by
  rw [block, List.length_append, List.length_take, List.length_replicate]
  omega

/-- A full array is written as it was read. -/
theorem block_of_le {pending : Bytes} (h : msgSize ≤ pending.length) : block pending = pending.take msgSize := by
  rw [block, Nat.sub_eq_zero_of_le h, List.replicate_zero, List.append_nil]

/-- Only a full array can be without a zero. -/
theorem zero_mem_block {pending : Bytes} : 0 ∈ block pending ↔ pending.length < msgSize ∨ 0 ∈ pending.take msgSize := by
  rw [block, List.mem_append, List.mem_replicate, Or.comm]
  exact or_congr_left ⟨fun h => by omega, fun h => ⟨by omega, rfl⟩⟩

/-- A callback reads and writes a block, and its log line needs a zero in it. -/
theorem connReadCallBack_eq (bev : Bufferevent) :
    connReadCallBack bev =
      if 0 ∈ block bev.input then
        .ok (ascii " ECHO: " ++ cStr (block bev.input),
          { input := bev.input.drop msgSize, output := bev.output ++ block bev.input })
      else .error (.outOfRange msgSize) := by
  obtain ⟨msg, hmsg⟩ := (CArray.zeros msgSize).exists_write (bev.input.take msgSize) (Int.le_refl 0) (by simp)
  obtain ⟨-, -, hbytes⟩ := CArray.write_eq_ok hmsg
  have hpad : msgSize - min msgSize bev.input.length = msgSize - bev.input.length := by omega
  have hblock : msg.bytes = block bev.input := by
    rw [hbytes, block, CArray.zeros]
    simp [hpad]
  simp only [connReadCallBack, Bufferevent.read, hmsg, ok_bind, logText, hblock, length_block]
  split
  · rfl
  · rfl

/-- An open connection's callback on an arrival. -/
theorem step_arrive {conns : Conns} {fd : Int} {bev : Bufferevent} (hopen : conns.lookup fd = some bev) (data : Bytes) :
    machine.step conns (.arrive fd data) =
      if 0 ∈ block (bev.input ++ data) then
        some (some (ascii " ECHO: " ++ cStr (block (bev.input ++ data))), conns.insert fd
          { input := (bev.input ++ data).drop msgSize, output := bev.output ++ block (bev.input ++ data) })
      else none := by
  simp only [machine, step, hopen, connReadCallBack_eq, Bufferevent.receive]
  split
  · rfl
  · rfl

/-! ## One connection -/

theorem filled_nil : Filled [] := by
  intro j hj
  rw [Nat.le_zero.mp hj]
  exact Nat.zero_le _

/-- One arrival more, and whether it fills the next block. -/
theorem filled_concat {datas : List Bytes} {data : Bytes} :
    Filled (datas ++ [data]) ↔ Filled datas ∧ msgSize * (datas.length + 1) ≤ (datas ++ [data]).flatten.length := by
  constructor
  · intro h
    refine ⟨fun j hj => ?_, ?_⟩
    · have hprefix := h j (by rw [List.length_append]; omega)
      rwa [List.take_append_of_le_length hj] at hprefix
    · have hall := h (datas.length + 1) (by rw [List.length_append, List.length_singleton])
      rwa [List.take_of_length_le (by rw [List.length_append, List.length_singleton])] at hall
  · rintro ⟨h, hall⟩ j hj
    rw [List.length_append, List.length_singleton] at hj
    rcases Nat.lt_or_ge datas.length j with hlt | hle
    · have he : j = datas.length + 1 := by omega
      rw [he, List.take_of_length_le (by rw [List.length_append, List.length_singleton])]
      exact hall
    · rw [List.take_append_of_le_length hle]
      exact h j hle

/-- How the bytes written and the bytes pending go with what has arrived: a block is written for each arrival; as long as every block
has been filled, the two are what has arrived; and once one has not been, less has arrived than they have bytes. -/
structure Tracks (datas : List Bytes) (bev : Bufferevent) : Prop where
  written : bev.output.length = msgSize * datas.length
  filled : Filled datas → bev.output ++ bev.input = datas.flatten
  short : ¬Filled datas → datas.flatten.length < msgSize * datas.length + bev.input.length

theorem tracks_new : Tracks [] Bufferevent.new where
  written := rfl
  filled := fun _ => rfl
  short := fun h => absurd filled_nil h

/-- A callback keeps track of one arrival more. -/
theorem Tracks.receive {datas : List Bytes} {bev : Bufferevent} (h : Tracks datas bev) (data : Bytes) :
    Tracks (datas ++ [data])
      { input := (bev.input ++ data).drop msgSize, output := bev.output ++ block (bev.input ++ data) } := by
  have hlen : (datas ++ [data]).flatten.length = datas.flatten.length + data.length := by
    rw [List.flatten_append, List.flatten_singleton, List.length_append]
  have hpending : (bev.input ++ data).length = bev.input.length + data.length := List.length_append
  have hcount : msgSize * (datas ++ [data]).length = msgSize * datas.length + msgSize := by
    rw [List.length_append, List.length_singleton, Nat.mul_succ]
  refine ⟨?_, fun hfilled => ?_, fun hshort => ?_⟩
  · rw [List.length_append, length_block, h.written, hcount]
  · obtain ⟨hbefore, hall⟩ := filled_concat.mp hfilled
    have hkeep := h.filled hbefore
    have htotal : bev.output.length + bev.input.length = datas.flatten.length := by rw [← hkeep, List.length_append]
    have hfull : msgSize ≤ (bev.input ++ data).length := by
      rw [Nat.mul_succ, hlen, ← htotal, h.written] at hall
      omega
    calc bev.output ++ block (bev.input ++ data) ++ (bev.input ++ data).drop msgSize
        = bev.output ++ (bev.input ++ data) := by rw [block_of_le hfull, List.append_assoc, List.take_append_drop]
      _ = datas.flatten ++ data := by rw [← List.append_assoc, hkeep]
      _ = (datas ++ [data]).flatten := by rw [List.flatten_append, List.flatten_singleton]
  · rw [hlen, hcount, List.length_drop, hpending]
    by_cases hbefore : Filled datas
    · have htotal : bev.output.length + bev.input.length = datas.flatten.length := by rw [← h.filled hbefore, List.length_append]
      have hnot : ¬msgSize * (datas.length + 1) ≤ (datas ++ [data]).flatten.length := fun hall =>
        hshort (filled_concat.mpr ⟨hbefore, hall⟩)
      rw [Nat.mul_succ, hlen] at hnot
      omega
    · have := h.short hbefore
      omega

/-- Exactly what has arrived has been written, and nothing is pending, when every block was filled and the blocks are all that has
arrived. -/
theorem Tracks.echoed_iff {datas : List Bytes} {bev : Bufferevent} (h : Tracks datas bev) :
    (bev.output = datas.flatten ∧ bev.input = []) ↔ Filled datas ∧ datas.flatten.length = msgSize * datas.length := by
  constructor
  · rintro ⟨hout, hin⟩
    have hlen : datas.flatten.length = msgSize * datas.length := by rw [← hout, h.written]
    refine ⟨?_, hlen⟩
    by_contra hshort
    have hless := h.short hshort
    rw [hin, List.length_nil] at hless
    omega
  · rintro ⟨hfilled, hlen⟩
    have hkeep := h.filled hfilled
    have htotal : bev.output.length + bev.input.length = datas.flatten.length := by rw [← hkeep, List.length_append]
    have hin : bev.input = [] := by
      apply List.eq_nil_of_length_eq_zero
      rw [h.written] at htotal
      omega
    rw [hin, List.append_nil] at hkeep
    exact ⟨hkeep, hin⟩

/-! ## All connections -/

/-- What has arrived on a connection, with one event more. -/
theorem arrivals_concat (fd : Int) (events : List Event) (e : Event) :
    arrivals fd (events ++ [e]) =
      match e with
      | .accept fd' _ => if fd' = fd then [] else arrivals fd events
      | .arrive fd' data => if fd' = fd then arrivals fd events ++ [data] else arrivals fd events
      | .conn _ => arrivals fd events := by
  rw [arrivals, List.foldl_append]
  rfl

/-- A step keeps track on every connection: a new one is empty, and an event leaves the others as they are. -/
theorem tracks_of_step {events : List Event} {conns conns' : Conns} {e : Event} {log : Option Bytes}
    (h : ∀ fd bev, conns.lookup fd = some bev → Tracks (arrivals fd events) bev)
    (hs : machine.step conns e = some (log, conns')) :
    ∀ fd bev, conns'.lookup fd = some bev → Tracks (arrivals fd (events ++ [e])) bev := by
  intro fd bev hopen
  rw [arrivals_concat]
  cases e with
  | accept fd' constructed =>
    simp only [machine, step] at hs
    split at hs
    · rename_i hfree
      cases hs
      unfold listenerCallBack at hopen
      by_cases hfd : fd' = fd
      · subst hfd
        split at hopen
        · rw [Finmap.lookup_insert] at hopen
          cases hopen
          simp only [if_pos]
          exact tracks_new
        · rw [hfree] at hopen
          cases hopen
      · simp only [if_neg hfd]
        split at hopen
        · rw [Finmap.lookup_insert_of_ne _ (Ne.symm hfd)] at hopen
          exact h fd bev hopen
        · exact h fd bev hopen
    · cases hs
  | arrive fd' data =>
    cases hbefore : conns.lookup fd' with
    | none => simp [machine, step, hbefore] at hs
    | some bev' =>
      rw [step_arrive hbefore] at hs
      split at hs
      · cases hs
        by_cases hfd : fd' = fd
        · subst hfd
          rw [Finmap.lookup_insert] at hopen
          cases hopen
          simp only [if_pos]
          exact (h fd' bev' hbefore).receive data
        · simp only [if_neg hfd]
          rw [Finmap.lookup_insert_of_ne _ (Ne.symm hfd)] at hopen
          exact h fd bev hopen
      · cases hs
  | conn fd' =>
    simp only [machine, step, connEventCallBack] at hs
    split at hs
    · cases hs
      by_cases hfd : fd = fd'
      · subst hfd
        rw [Finmap.lookup_erase] at hopen
        cases hopen
      · rw [Finmap.lookup_erase_ne hfd] at hopen
        exact h fd bev hopen
    · cases hs

/-- In every state reached, a connection has had exactly what has arrived on it written back, and has nothing left to read, when the
`n`-th arrival, for every `n`, has brought at least `n` blocks in all and the last one no more than that. The callback of an arrival
faults when it reads a block without a zero. -/
theorem echoes_iff (events : List Event) (logs : List (Option Bytes)) (conns : Conns) (h : machine.run ∅ events = some (logs, conns))
    (fd : Int) (bev : Bufferevent) (hopen : conns.lookup fd = some bev) :
    ((bev.output = (arrivals fd events).flatten ∧ bev.input = []) ↔
        (∀ n ≤ (arrivals fd events).length, msgSize * n ≤ ((arrivals fd events).take n).flatten.length) ∧
          (arrivals fd events).flatten.length = msgSize * (arrivals fd events).length) ∧
      ∀ data, machine.step conns (.arrive fd data) = none ↔
        msgSize ≤ (bev.input ++ data).length ∧ 0 ∉ (bev.input ++ data).take msgSize := by
  have htracks : ∀ fd bev, conns.lookup fd = some bev → Tracks (arrivals fd events) bev := by
    refine Machine.run_history
      (P := fun events _ (conns : Conns) => ∀ fd bev, conns.lookup fd = some bev → Tracks (arrivals fd events) bev) ?_
      (fun {events logs conns e log conns'} _ ih hs => tracks_of_step ih hs) h
    intro fd bev hopen
    rw [Finmap.lookup_empty] at hopen
    cases hopen
  refine ⟨(htracks fd bev hopen).echoed_iff, fun data => ?_⟩
  rw [step_arrive hopen]
  split
  · rename_i hzero
    refine iff_of_false nofun ?_
    rintro ⟨hlen, hno⟩
    rcases zero_mem_block.mp hzero with hshort | hmem
    · omega
    · exact hno hmem
  · rename_i hno
    rw [zero_mem_block] at hno
    exact iff_of_true rfl ⟨by omega, fun hmem => hno (Or.inr hmem)⟩

/-- A connection on which two bytes arrive. -/
def twoBytes : List Event := [.accept 5 true, .arrive 5 [104, 105]]

/-- It gets a block back. -/
theorem two_bytes_padded :
    ¬∀ (events : List Event) (logs : List (Option Bytes)) (conns : Conns) (fd : Int) (bev : Bufferevent),
      machine.run ∅ events = some (logs, conns) → conns.lookup fd = some bev →
        bev.output = (arrivals fd events).flatten ∧ bev.input = [] := by
  intro h
  have hout : ((machine.run ∅ twoBytes).bind (fun r => (r.2.lookup 5).map (fun bev => bev.output.length))) = some 1024 := by
    decide +kernel
  obtain ⟨⟨logs, conns⟩, hrun, hrest⟩ := Option.bind_eq_some_iff.mp hout
  obtain ⟨bev, hopen, hlen⟩ := Option.map_eq_some_iff.mp hrest
  have hecho := (h twoBytes logs conns 5 bev hrun hopen).1
  rw [hecho] at hlen
  exact absurd hlen (by decide)

theorem echoes_iff_twoBytes :
    ∃ logs conns bev, machine.run ∅ twoBytes = some (logs, conns) ∧ conns.lookup 5 = some bev ∧
      ((bev.output = [104, 105] ∧ bev.input = []) ↔
        (∀ n ≤ 1, msgSize * n ≤ ((arrivals 5 twoBytes).take n).flatten.length) ∧ [104, 105].length = msgSize * 1) := by
  have hsome : ((machine.run ∅ twoBytes).bind (fun r => r.2.lookup 5)).isSome := by decide +kernel
  obtain ⟨bev, hbev⟩ := Option.isSome_iff_exists.mp hsome
  obtain ⟨⟨logs, conns⟩, hrun, hopen⟩ := Option.bind_eq_some_iff.mp hbev
  exact ⟨logs, conns, bev, hrun, hopen, (echoes_iff twoBytes logs conns hrun 5 bev hopen).1⟩

end Server

end FrontServer
