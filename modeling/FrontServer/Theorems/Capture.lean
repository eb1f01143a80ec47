import FrontServer.Lemmas.CgiDump
import FrontServer.Lib.Components
import FrontServer.Theorems.Isolation
import FrontServer.Theorems.Segmentation

/-!
# From a capture to the messages of every flow

The whole path of `cgidump`: frames of any number of clients and both directions, in any interleaving, and for every flow the messages
that were sent on it, whole and in order. A run is a run of each flow's buffer on that flow's payloads, with the replies meant for it.
-/

namespace FrontServer

namespace CgiDump

/-- The reply a flow's buffer gave in a call. -/
def replyOf (flow : Flow) (rep : Report) : Option HttpReply :=
  match rep.call with
  | none => none
  | some (c, reply) => if c.client = flow.client.key ∧ c.input = flow.input then some reply else none

/-- A call made for a payload of a flow is answered to that flow alone. -/
theorem replyOf_callOf {rep : Report} {flow' : Flow} {x : Segment} {reply : HttpReply}
    (h : rep.call = some (ParsePkg.callOf flow' x, reply)) (flow : Flow) :
    replyOf flow rep = if flow' = flow then some reply else none := by
  have hmeant : (ParsePkg.callOf flow' x).client = flow.client.key ∧ (ParsePkg.callOf flow' x).input = flow.input ↔ flow' = flow := by
    rw [ParsePkg.client_callOf, Endpoint.key_injective.eq_iff]
    obtain ⟨client, input⟩ := flow
    obtain ⟨client', input'⟩ := flow'
    exact (Flow.mk.injEq _ _ _ _).symm.to_iff
  rw [replyOf, h]
  exact if_congr hmeant rfl rfl

/-- The messages taken out of a flow's buffer, by the reports of a run. -/
def messagesOf (flow : Flow) (reps : List Report) : List Bytes := (reps.filterMap (replyOf flow)).filterMap HttpReply.extracted

/-- The buffer of a flow. -/
def bufOf (flow : Flow) (s : CgiDump) : HttpBuf := s.parsePkg.buf flow.client.key flow.input

/-- A frame is captured far enough to be checked, and its payload has no negative length. -/
structure Captured (srv : Server) (f : Bytes) : Prop where
  readable : ∃ d, ParsePkg.decode f = .ok d
  length : ∀ flow s, ParsePkg.flowOf srv f = some (flow, s) → 0 ≤ s.len

/-- What a run meets. -/
def Serving (srv : Server) (s : CgiDump) : Prop := s.Ready ∧ s.parsePkg.Serves srv

theorem Serving.step {srv : Server} {s s' : CgiDump} (hs : Serving srv s) {f : Bytes} {rep : Report}
    (h : machine.step s f = some (rep, s')) : Serving srv s' :=
  ⟨hs.1.step h, hs.2.step (step_parsePkg hs.1 h)⟩

/-- What a frame is to a flow: nothing, and then the flow's buffer stays as it is and replies to nothing, or a payload its buffer takes
and replies to. -/
theorem flow_of_step {srv : Server} {s s' : CgiDump} (hs : Serving srv s) {f : Bytes} (hf : Captured srv f) {rep : Report}
    (h : machine.step s f = some (rep, s')) (flow : Flow) :
    (ParsePkg.payloadFor srv flow f = none → bufOf flow s' = bufOf flow s ∧ replyOf flow rep = none) ∧
      ∀ x, ParsePkg.payloadFor srv flow f = some x →
        ∃ reply, HttpBuf.machine.step (bufOf flow s) x = some (reply, bufOf flow s') ∧ replyOf flow rep = some reply := by
  unfold bufOf
  rcases call_cases hs.1 h with ⟨hnone, he, hcall⟩ | ⟨c, reply, b, hsome, hcall, hb, he⟩
  · rw [ParsePkg.payloadFor_of_no_call hs.2 hcall, he, replyOf, hnone]
    refine ⟨fun _ => ⟨rfl, rfl⟩, fun x hx => ?_⟩
    cases hx
  · obtain ⟨-, flow', x, hflow, hne, rfl⟩ := (ParsePkg.sessionCall_iff hs.2).mp hcall
    have hpos : 0 < x.len := lt_of_le_of_ne (hf.length flow' x hflow) (fun he => hne he.symm)
    rw [ParsePkg.payloadFor, hflow, he, replyOf_callOf hsome]
    rw [ParsePkg.client_callOf] at hb ⊢
    dsimp only [ParsePkg.callOf] at hb ⊢
    by_cases hsame : flow' = flow
    · subst hsame
      rw [if_pos ⟨rfl, hpos⟩, if_pos rfl, ParsePkg.buf_setBuf]
      constructor
      · intro hno
        cases hno
      · intro y hy
        cases hy
        exact ⟨reply, toOption_eq_some.mpr hb, rfl⟩
    · rw [if_neg (fun hp => hsame hp.1), if_neg hsame]
      constructor
      · intro _
        refine ⟨ParsePkg.buf_setBuf_of_ne _ b ?_, rfl⟩
        by_contra hkey
        rw [not_or, not_not, not_not] at hkey
        obtain ⟨client, input⟩ := flow
        obtain ⟨client', input'⟩ := flow'
        cases Endpoint.key_injective hkey.1
        cases hkey.2
        exact hsame rfl
      · intro y hy
        cases hy

/-- The program is its flows' buffers, side by side. -/
theorem flows_are_components (srv : Server) :
    Machine.Components machine HttpBuf.machine bufOf (ParsePkg.payloadFor srv) replyOf (Serving srv) (Captured srv) where
  keeps := fun hs _ h => hs.step h
  stays := fun hs hf h => (flow_of_step hs hf h _).1
  moves := fun hs hf h => (flow_of_step hs hf h _).2 _

/-- A frame whose payload its flow's buffer takes is taken. -/
theorem parsePkg_takes {srv : Server} {m : ParsePkg} (hm : m.Serves srv) {f : Bytes} (hf : Captured srv f)
    (h : ∀ flow x, ParsePkg.payloadFor srv flow f = some x → (HttpBuf.machine.step (m.buf flow.client.key flow.input) x).isSome) :
    (ParsePkg.machine.step m f).isSome := by
  obtain ⟨decoded, hd⟩ := hf.readable
  cases decoded with
  | none =>
    have hcall : m.inputPkg f f.length = .ok (false, m) := by
      unfold ParsePkg.inputPkg ParsePkg.sessionCall
      rw [hm.inited]
      simp only [Bool.not_true, Bool.false_eq_true, if_false, hd, ok_bind]
      rfl
    rw [ParsePkg.machine_step_eq_some.mpr hcall]
    rfl
  | some d =>
    obtain ⟨-, src, dst, hf', hsrc, hdst, -⟩ := ParsePkg.exists_endpoints hd
    have haddr := (ParsePkg.getClientAddr_eq_ok hm).mpr ⟨src, dst, hsrc, hdst, rfl⟩
    obtain ⟨⟨ret, call⟩, hcall⟩ : ∃ r, m.sessionCall f = .ok r := ⟨_, sessionCall_of_decode hm.inited hd haddr⟩
    cases call with
    | none =>
      have hstep : m.inputPkg f f.length = .ok (ret, m) := by
        unfold ParsePkg.inputPkg
        rw [hcall]
        rfl
      rw [ParsePkg.machine_step_eq_some.mpr hstep]
      rfl
    | some c =>
      obtain ⟨-, flow, x, hflow, hne, -⟩ := (ParsePkg.sessionCall_iff hm).mp hcall
      have hpos : 0 < x.len := lt_of_le_of_ne (hf.length flow x hflow) (fun he => hne he.symm)
      have hpayload : ParsePkg.payloadFor srv flow f = some x := by
        rw [ParsePkg.payloadFor, hflow]
        exact if_pos ⟨rfl, hpos⟩
      obtain ⟨⟨reply, b⟩, hb⟩ := Option.isSome_iff_exists.mp (h flow x hpayload)
      rw [ParsePkg.step_of_flow hm hflow hne hb]
      rfl

/-- Where the buffer of every flow takes the flow's payloads, the program takes the capture. -/
theorem exists_run_of_flows {srv : Server} {frames : List Bytes} (hframes : ∀ f ∈ frames, Captured srv f)
    (hcount : frames.length < 2 ^ 31)
    (h : ∀ flow, (HttpBuf.machine.run (HttpBuf.new flow.client.key flow.input) (ParsePkg.payloads srv flow frames)).isSome) :
    ∃ reps s, machine.run (init (Utils.long2IP srv.addr) srv.port) frames = some (reps, s) := by
  have hbuf : ∀ flow : Flow, (ParsePkg.new.init (Utils.long2IP srv.addr) srv.port).buf flow.client.key flow.input =
      HttpBuf.new flow.client.key flow.input := by
    intro flow
    simp [ParsePkg.buf, ParsePkg.session, ParsePkg.init, ParsePkg.new]
  have hrun := Machine.exists_run_of_components (M := ParsePkg.machine) (C := HttpBuf.machine)
    (fun flow m => m.buf flow.client.key flow.input) (ParsePkg.payloadFor srv)
    (P := fun m => m.Serves srv ∧ m.RingsWellFormed) (G := Captured srv)
    (fun hm _ hs => ⟨hm.1.step hs, hm.2.step hs⟩)
    (fun hm _ hs hr => (ParsePkg.buf_of_step hm.1 hm.2 hs _).1 hr)
    (fun hm _ hs hr => (ParsePkg.buf_of_step hm.1 hm.2 hs _).2 _ hr)
    (fun {m f} hm hf htakes => parsePkg_takes (m := m) (f := f) hm.1 hf htakes)
    ⟨ParsePkg.init_serves ParsePkg.new srv, ParsePkg.ringsWellFormed_init _ _⟩ hframes
    (fun flow => by rw [hbuf flow]; exact h flow)
  obtain ⟨⟨rets, m⟩, hm⟩ := Option.isSome_iff_exists.mp hrun
  have hroom : (init (Utils.long2IP srv.addr) srv.port).i + frames.length < 2 ^ 31 := by
    change (0 : Int) + frames.length < 2 ^ 31
    omega
  obtain ⟨reps, s, hs, -⟩ := exists_run (init_ready _ _) hroom hm
  exact ⟨reps, s, hs⟩

/-- A capture of a server: every frame is captured, and on every flow a list of messages is delivered in segments. -/
structure Capture (srv : Server) (msgs : Flow → List Message) (frames : List Bytes) : Prop where
  captured : ∀ f ∈ frames, Captured srv f
  count : frames.length < 2 ^ 31
  delivers : ∀ flow, HttpBuf.Delivery flow.client.key flow.input (msgs flow) (ParsePkg.payloads srv flow frames)

/-- What the queue of a flow makes of its messages. -/
theorem Capture.flow_run {srv : Server} {msgs : Flow → List Message} {frames : List Bytes} (h : Capture srv msgs frames) (flow : Flow) :
    ∃ replies q k, HttpFlow.machine.run BoundedFifo.empty (ParsePkg.payloads srv flow frames) = some (replies, q) ∧
      k ≤ (msgs flow).length ∧ replies.filterMap HttpReply.extracted = ((msgs flow).take k).map Message.bytes ∧
      q.items = streamOf ((msgs flow).drop k) ∧
      (k = (msgs flow).length ↔ HttpFlow.KeepsUp 0 (ParsePkg.payloads srv flow frames) (msgs flow)) :=
  HttpFlow.run_messages (q := BoundedFifo.empty) (h.delivers flow).cut (h.delivers flow).admissible

/-- A capture is taken without a fault. -/
theorem Capture.exists_run {srv : Server} {msgs : Flow → List Message} {frames : List Bytes} (h : Capture srv msgs frames) :
    ∃ reps s, machine.run (init (Utils.long2IP srv.addr) srv.port) frames = some (reps, s) := by
  refine exists_run_of_flows h.captured h.count fun flow => ?_
  obtain ⟨replies, q, k, hq, -⟩ := h.flow_run flow
  obtain ⟨b, hb, -⟩ := HttpBuf.simulates_flow.some_run (HttpBuf.new_holds_empty flow.client.key flow.input) hq
  rw [hb]
  rfl

/-- However the frames of all flows are interleaved, the program takes a capture without a fault. From every flow it takes out the first
of the messages sent on it, whole, in order and each once, and keeps just the others. It takes out all of them exactly when, behind
every point of the flow, there are at least as many segments as messages not whole there. -/
theorem capture_delivers {srv : Server} {msgs : Flow → List Message} {frames : List Bytes} (h : Capture srv msgs frames) :
    ∃ reps s, machine.run (init (Utils.long2IP srv.addr) srv.port) frames = some (reps, s) ∧
      ∀ flow, ∃ k ≤ (msgs flow).length, messagesOf flow reps = ((msgs flow).take k).map Message.bytes ∧
        (bufOf flow s).contents = streamOf ((msgs flow).drop k) ∧
        (k = (msgs flow).length ↔ ∀ pre post, ParsePkg.payloads srv flow frames = pre ++ post →
          (msgs flow).length ≤ wholeMessages (msgs flow) (segmentBytes pre).length + post.length) := by
  obtain ⟨reps, s, hrun⟩ := h.exists_run
  refine ⟨reps, s, hrun, fun flow => ?_⟩
  obtain ⟨replies, q, k, hq, hk, hex, hitems, hiff⟩ := h.flow_run flow
  obtain ⟨b, hb, hholds⟩ := HttpBuf.simulates_flow.some_run (HttpBuf.new_holds_empty flow.client.key flow.input) hq
  have hnew : bufOf flow (init (Utils.long2IP srv.addr) srv.port) = HttpBuf.new flow.client.key flow.input := by
    simp [bufOf, init, ParsePkg.buf, ParsePkg.session, ParsePkg.init, ParsePkg.new]
  have hpart := (flows_are_components srv).run ⟨init_ready _ _, ParsePkg.init_serves ParsePkg.new srv⟩ h.captured hrun flow
  rw [hnew] at hpart
  obtain ⟨hreplies, hbuf⟩ := Prod.mk.inj (Option.some.inj (hpart.symm.trans hb))
  refine ⟨k, hk, ?_, ?_, hiff.trans HttpBuf.keepsUp_zero_iff⟩
  · rw [messagesOf, hreplies, hex]
  · rw [hbuf, hholds.contents_eq, hitems]

/-! ## A capture of two clients -/

/-- Nothing delivers no messages. -/
theorem delivery_nil (client : Bytes) (input : Bool) : HttpBuf.Delivery client input [] [] where
  cut := rfl
  nonempty := nofun
  readable := nofun
  fits := by
    intro pre s post he
    simp at he
  keyword := by
    intro pre s post he
    simp at he

/-- A whole message in one segment is delivered. -/
theorem delivery_whole (client : Bytes) (input : Bool) (m : Message) (hkeyword : HttpBuf.isHttpHeader m.bytes m.bytes.length = .ok true) :
    HttpBuf.Delivery client input [m] [Segment.ofBytes m.bytes] where
  cut := by
    rw [segmentBytes, streamOf, List.map_singleton, List.map_singleton, Segment.bytes_ofBytes]
  nonempty := by
    intro s hs
    rw [List.mem_singleton.mp hs]
    exact ⟨Int.natCast_pos.mpr m.bytes_pos, le_rfl⟩
  readable := by
    intro s hs
    rw [List.mem_singleton.mp hs]
    exact ⟨true, hkeyword⟩
  fits := by
    intro pre s post he replies h hrun
    rcases pre with _ | ⟨s₁, pre⟩
    · cases he
      cases hrun
      have hsize := m.size_le
      change m.bytes.length ≤ HttpBuf.readBufSize at hsize
      have hnew : (HttpBuf.new client input).contents = [] := TcpBuf.contents_new client
      unfold HttpBuf.HasRoom
      rw [hnew]
      change ((0 : Nat) : Int) + (m.bytes.length : Int) ≤ TcpBuf.capacity
      unfold HttpBuf.readBufSize at hsize
      unfold TcpBuf.capacity
      omega
    · simp at he
  keyword := by
    intro pre s post he replies h hrun hnil
    rcases pre with _ | ⟨s₁, pre⟩
    · cases he
      exact hkeyword
    · simp at he

/-- What 10.0.0.3:8081 sends to port 80 of 10.0.0.2. -/
def otherFlow : Flow := ⟨⟨0x0A000003, 8081⟩, true⟩

/-- A frame with a whole request of one of them. -/
def requestFrame : Bytes := frameOf [0x08, 0x00] 65 [10, 0, 0, 1, 10, 0, 0, 2] [0x1F, 0x90, 0, 80] 5 HttpBuf.emptyGet.bytes

/-- The same of the other. -/
def otherFrame : Bytes := frameOf [0x08, 0x00] 65 [10, 0, 0, 3, 10, 0, 0, 2] [0x1F, 0x91, 0, 80] 5 HttpBuf.emptyGet.bytes

/-- A frame of another type. -/
def arpFrame : Bytes := frameOf [0x08, 0x06] 0 [10, 0, 0, 1, 10, 0, 0, 2] [0, 0, 0, 0] 5 []

/-- The requests, and that frame between them. -/
def twoClients : List Bytes := [requestFrame, arpFrame, otherFrame]

/-- Each of them sends one message. -/
def twoMessages (flow : Flow) : List Message :=
  if flow = ParsePkg.getFlow ∨ flow = otherFlow then [HttpBuf.emptyGet] else []

theorem flowOf_twoClients : ParsePkg.flowOf ParsePkg.webServer requestFrame = some (ParsePkg.getFlow, Segment.ofBytes HttpBuf.emptyGet.bytes) ∧
    ParsePkg.flowOf ParsePkg.webServer arpFrame = none ∧
    ParsePkg.flowOf ParsePkg.webServer otherFrame = some (otherFlow, Segment.ofBytes HttpBuf.emptyGet.bytes) := by
  decide +kernel

theorem payloads_twoClients (flow : Flow) : ParsePkg.payloads ParsePkg.webServer flow twoClients =
    if flow = ParsePkg.getFlow ∨ flow = otherFlow then [Segment.ofBytes HttpBuf.emptyGet.bytes] else [] := by
  have hlen : 0 < (Segment.ofBytes HttpBuf.emptyGet.bytes).len := by decide
  have hne : otherFlow ≠ ParsePkg.getFlow := by decide
  obtain ⟨hget, harp, hother⟩ := flowOf_twoClients
  simp only [ParsePkg.payloads, twoClients, List.filterMap_cons, List.filterMap_nil, ParsePkg.payloadFor, hget, harp, hother, hlen, and_true]
  by_cases h₁ : flow = ParsePkg.getFlow
  · subst h₁
    simp [hne]
  · by_cases h₂ : flow = otherFlow
    · subst h₂
      simp [hne.symm]
    · simp [h₁, h₂, Ne.symm h₁, Ne.symm h₂]

theorem capture_of_twoClients : Capture ParsePkg.webServer twoMessages twoClients where
  captured := by
    obtain ⟨hget, harp, hother⟩ := flowOf_twoClients
    intro f hf
    simp only [twoClients, List.mem_cons, List.not_mem_nil, or_false] at hf
    rcases hf with rfl | rfl | rfl
    · refine ⟨⟨_, by rfl⟩, fun flow s hs => ?_⟩
      rw [hget] at hs
      cases hs
      exact Int.natCast_nonneg _
    · refine ⟨⟨_, by rfl⟩, fun flow s hs => ?_⟩
      rw [harp] at hs
      cases hs
    · refine ⟨⟨_, by rfl⟩, fun flow s hs => ?_⟩
      rw [hother] at hs
      cases hs
      exact Int.natCast_nonneg _
  count := by decide
  delivers := by
    intro flow
    rw [payloads_twoClients, twoMessages]
    split
    · exact delivery_whole _ _ _ (by rfl)
    · exact delivery_nil _ _

theorem capture_delivers_twoClients :
    ∃ reps s, machine.run (init (Utils.long2IP ParsePkg.webServer.addr) ParsePkg.webServer.port) twoClients = some (reps, s) ∧
      ∀ flow, ∃ k ≤ (twoMessages flow).length, messagesOf flow reps = ((twoMessages flow).take k).map Message.bytes ∧
        (bufOf flow s).contents = streamOf ((twoMessages flow).drop k) ∧
        (k = (twoMessages flow).length ↔ ∀ pre post, ParsePkg.payloads ParsePkg.webServer flow twoClients = pre ++ post →
          (twoMessages flow).length ≤ wholeMessages (twoMessages flow) (segmentBytes pre).length + post.length) :=
  capture_delivers capture_of_twoClients

end CgiDump

end FrontServer
