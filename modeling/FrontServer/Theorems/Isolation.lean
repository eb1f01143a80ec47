import FrontServer.Lemmas.Flows

/-!
# Flows do not disturb one another

Whatever clients there are and however their frames are interleaved, the buffer of a client and a direction is where that flow's own
payloads lead. Clients are told apart by their 32-bit address and 16-bit port, though the code tells them apart by a printed string.
-/

namespace FrontServer

namespace ParsePkg

/-- The buffers of a server's sessions move by the payloads of their flow alone. -/
theorem buf_of_step {m m' : ParsePkg} {srv : Server} (hm : m.Serves srv) (hwf : m.RingsWellFormed) {f : Bytes} {ret : Bool}
    (hs : machine.step m f = some (ret, m')) (flow : Flow) :
    (payloadFor srv flow f = none → m'.buf flow.client.key flow.input = m.buf flow.client.key flow.input) ∧
      ∀ s, payloadFor srv flow f = some s → ∃ reply,
        HttpBuf.machine.step (m.buf flow.client.key flow.input) s = some (reply, m'.buf flow.client.key flow.input) := by
  rcases inputPkg_cases (machine_step_eq_some.mp hs) with ⟨hcall, rfl⟩ | ⟨c, reply, b, hcall, hb, rfl⟩
  · rw [payloadFor_of_no_call hm hcall]
    exact ⟨fun _ => rfl, nofun⟩
  · obtain ⟨-, flow', s, hf, hne, rfl⟩ := (sessionCall_iff hm).mp hcall
    rw [client_callOf] at hb ⊢
    rw [payloadFor, hf]
    dsimp only
    by_cases hflow : flow' = flow
    · subst hflow
      have hself : (m.setBuf flow'.client.key flow'.input b).buf flow'.client.key flow'.input = b := buf_setBuf _ _ _ _
      have hb' : (m.buf flow'.client.key flow'.input).inputTcpPkg s.data s.len = .ok (reply, b) := hb
      by_cases hlen : 0 < s.len
      · rw [if_pos ⟨rfl, hlen⟩]
        refine ⟨nofun, fun t ht => ⟨reply, ?_⟩⟩
        cases ht
        rw [callOf, hself]
        exact toOption_eq_some.mpr hb'
      · -- a payload of negative length was dropped
        rw [if_neg (fun h => hlen h.2)]
        have hneg : s.len < 0 := lt_of_le_of_ne (not_lt.mp hlen) hne
        exact ⟨fun _ => hself.trans (HttpBuf.eq_of_neg (hwf _ _) hneg hb'), nofun⟩
    · rw [if_neg (fun h => hflow h.1)]
      refine ⟨fun _ => buf_setBuf_of_ne m b ?_, nofun⟩
      by_contra hsame
      rw [not_or, not_not, not_not] at hsame
      obtain ⟨hkey, hinput⟩ := hsame
      have hclient := Endpoint.key_injective hkey
      obtain ⟨client, input⟩ := flow
      obtain ⟨client', input'⟩ := flow'
      cases hclient
      cases hinput
      exact hflow rfl

/-- A session stays, and the first payload of a client makes it one. -/
theorem session_of_step {m m' : ParsePkg} {srv : Server} (hm : m.Serves srv) {f : Bytes} {ret : Bool}
    (hs : machine.step m f = some (ret, m')) (flow : Flow)
    (h : (m.mSessions.lookup flow.client.key).isSome ∨ payloadFor srv flow f ≠ none) :
    (m'.mSessions.lookup flow.client.key).isSome := by
  rcases inputPkg_cases (machine_step_eq_some.mp hs) with ⟨hcall, rfl⟩ | ⟨c, reply, b, hcall, -, rfl⟩
  · exact h.resolve_right (fun h => h (payloadFor_of_no_call hm hcall flow))
  · obtain ⟨-, flow', s, hf, -, rfl⟩ := (sessionCall_iff hm).mp hcall
    rw [client_callOf, setBuf]
    by_cases hkey : flow.client.key = flow'.client.key
    · rw [hkey, Finmap.lookup_insert]
      rfl
    · rw [Finmap.lookup_insert_of_ne _ hkey]
      refine h.resolve_right (fun h => h ?_)
      rw [payloadFor, hf]
      refine if_neg (fun hflow => hkey ?_)
      rw [hflow.1]

/-- What holds of the class over a whole run: it serves its server, and its rings are well formed. -/
theorem run_serves {srv : Server} {frames : List Bytes} {rets : List Bool} {m : ParsePkg}
    (h : machine.run (new.init (Utils.long2IP srv.addr) srv.port) frames = some (rets, m)) : m.Serves srv ∧ m.RingsWellFormed :=
  Machine.run_invariant (P := fun m => m.Serves srv ∧ m.RingsWellFormed) (fun hm hs => ⟨hm.1.step hs, hm.2.step hs⟩)
    ⟨init_serves new srv, ringsWellFormed_init _ _⟩ h

/-- A client that a frame brought a payload from or to has a session. -/
theorem session_of_payloads {srv : Server} {frames : List Bytes} {rets : List Bool} {m : ParsePkg}
    (h : machine.run (new.init (Utils.long2IP srv.addr) srv.port) frames = some (rets, m)) (flow : Flow)
    (hne : payloads srv flow frames ≠ []) : (m.mSessions.lookup flow.client.key).isSome := by
  refine Machine.run_history (P := fun frames _ m => payloads srv flow frames ≠ [] → (m.mSessions.lookup flow.client.key).isSome)
    (fun hne => absurd rfl hne) (fun {frames rets m f ret m'} hrun ih hs hne => ?_) h hne
  refine session_of_step (run_serves hrun).1 hs flow ?_
  by_cases hbefore : payloads srv flow frames = []
  · right
    intro hf
    refine hne ?_
    rw [payloads, List.filterMap_append, ← payloads, hbefore, List.filterMap_cons_none hf]
    rfl
  · exact Or.inl (ih hbefore)

/-- The buffer of a flow after a run is the one a new buffer becomes by the payloads of that flow. -/
theorem buf_of_run {srv : Server} {frames : List Bytes} {rets : List Bool} {m : ParsePkg}
    (h : machine.run (new.init (Utils.long2IP srv.addr) srv.port) frames = some (rets, m)) (flow : Flow) :
    ∃ replies, HttpBuf.machine.run (HttpBuf.new flow.client.key flow.input) (payloads srv flow frames) =
      some (replies, m.buf flow.client.key flow.input) := by
  have hnew : (new.init (Utils.long2IP srv.addr) srv.port).buf flow.client.key flow.input =
      HttpBuf.new flow.client.key flow.input := by
    simp [buf, session, init, new]
  rw [← hnew]
  exact Machine.run_component (C := HttpBuf.machine) (fun m : ParsePkg => m.buf flow.client.key flow.input) (payloadFor srv flow)
    (P := fun m => m.Serves srv ∧ m.RingsWellFormed) (fun hm hs => ⟨hm.1.step hs, hm.2.step hs⟩)
    (fun hm hs => (buf_of_step hm.1 hm.2 hs flow).1) (fun hm hs hr => (buf_of_step hm.1 hm.2 hs flow).2 _ hr)
    ⟨init_serves new srv, ringsWellFormed_init _ _⟩ h

/-! ## Frames sent the other way -/

theorem clientOf_eq_some {srv : Server} {f : Bytes} {e : Endpoint} :
    clientOf srv f = some e ↔ ∃ flow s, flowOf srv f = some (flow, s) ∧ s.len ≠ 0 ∧ flow.client = e := by
  unfold clientOf
  constructor
  · intro h
    split at h
    · cases h
    · rename_i flow s hflow
      split at h
      · rename_i hne
        exact ⟨flow, s, hflow, hne, Option.some.inj h⟩
      · cases h
  · rintro ⟨flow, s, hflow, hne, rfl⟩
    rw [hflow]
    exact if_pos hne

/-- Sent the other way, a frame has the same client, and the other direction unless the client is the server itself. -/
theorem client_swapEndpoints {m : ParsePkg} {srv : Server} (hm : m.Serves srv) {f : Bytes} {e : Endpoint}
    (h : clientOf srv f = some e) :
    clientOf srv (swapEndpoints f) = some e ∧
      m.direction (swapEndpoints f) = if e.IsServer srv then m.direction f else (m.direction f).map (!·) := by
  obtain ⟨flow, s, hflow, hne, rfl⟩ := clientOf_eq_some.mp h
  obtain ⟨s', hswap, hlen⟩ := flowOf_swapEndpoints hflow
  have hne' : s'.len ≠ 0 := by rwa [hlen]
  refine ⟨clientOf_eq_some.mpr ⟨_, s', hswap, hne', rfl⟩, ?_⟩
  rw [direction_eq hm hswap hne', direction_eq hm hflow hne]
  split
  · rfl
  · rfl

/-- After any run without a fault the buffer held for a client and a direction is the one a new buffer becomes by the non-empty
payloads of that flow alone, and a client with such a payload has a session. Two frames reach the same session exactly when their
clients have the same address and port; a frame sent the other way reaches the session of the frame, in the other direction unless
the client is the server itself, so that both ends are. -/
theorem flow_isolation (srv : Server) (frames : List Bytes) (rets : List Bool) (m : ParsePkg)
    (h : machine.run (new.init (Utils.long2IP srv.addr) srv.port) frames = some (rets, m)) :
    (∀ flow : Flow,
        (payloads srv flow frames ≠ [] → (m.mSessions.lookup flow.client.key).isSome) ∧
          ∀ s, m.mSessions.lookup flow.client.key = some s →
            ∃ replies, HttpBuf.machine.run (HttpBuf.new flow.client.key flow.input) (payloads srv flow frames) =
              some (replies, s.side flow.input)) ∧
      (∀ f g, (m.sessionKey f).isSome → (m.sessionKey g = m.sessionKey f ↔ clientOf srv g = clientOf srv f)) ∧
      ∀ f, (m.sessionKey f).isSome →
        m.sessionKey (swapEndpoints f) = m.sessionKey f ∧
          ∀ e, clientOf srv f = some e →
            m.direction (swapEndpoints f) = if e.IsServer srv then m.direction f else (m.direction f).map (!·) := by
  obtain ⟨hm, -⟩ := run_serves h
  refine ⟨fun flow => ⟨session_of_payloads h flow, fun s hs => ?_⟩, fun f g _ => ?_, fun f hf => ?_⟩
  · obtain ⟨replies, hrun⟩ := buf_of_run h flow
    rw [buf, session, hs, Option.getD_some] at hrun
    exact ⟨replies, hrun⟩
  · rw [sessionKey_eq hm, sessionKey_eq hm]
    exact (Option.map_injective Endpoint.key_injective).eq_iff
  · rw [sessionKey_eq hm, Option.isSome_map] at hf
    obtain ⟨e, he⟩ := Option.isSome_iff_exists.mp hf
    refine ⟨?_, fun e' he' => (client_swapEndpoints hm he').2⟩
    rw [sessionKey_eq hm, sessionKey_eq hm, (client_swapEndpoints hm he).1, he]

/-- Port 80 of 10.0.0.2. -/
def webServer : Server := ⟨0x0A000002, 80⟩

/-- What 10.0.0.1:8080 sends. -/
def getFlow : Flow := ⟨⟨0x0A000001, 8080⟩, true⟩

/-- The head of a request. -/
def getSegment : Segment := Segment.ofBytes (ascii "GET / HTTP/1.1\r\n\r\n")

/-- The frame with it. -/
def getFrame : Bytes := frameOf [0x08, 0x00] 58 [10, 0, 0, 1, 10, 0, 0, 2] [0x1F, 0x90, 0, 80] 5 getSegment.data

/-- What 10.0.0.3:8081 sends. -/
def postFlow : Flow := ⟨⟨0x0A000003, 8081⟩, true⟩

/-- The start of a request. -/
def postSegment : Segment := Segment.ofBytes (ascii "POST /login HTTP/1.1\r\n")

/-- The frame with it. -/
def postFrame : Bytes := frameOf [0x08, 0x00] 62 [10, 0, 0, 3, 10, 0, 0, 2] [0x1F, 0x91, 0, 80] 5 postSegment.data

theorem flow_isolation_twoFlows :
    ∃ m, machine.run (new.init (Utils.long2IP webServer.addr) webServer.port) [getFrame, postFrame, getFrame] =
        some ([true, true, true], m) ∧
      (∃ s replies, m.mSessions.lookup getFlow.client.key = some s ∧
        HttpBuf.machine.run (HttpBuf.new getFlow.client.key getFlow.input) [getSegment, getSegment] =
          some (replies, s.side getFlow.input)) ∧
      ∃ s replies, m.mSessions.lookup postFlow.client.key = some s ∧
        HttpBuf.machine.run (HttpBuf.new postFlow.client.key postFlow.input) [postSegment] = some (replies, s.side postFlow.input) := by
  have hrets : (machine.run (new.init (Utils.long2IP webServer.addr) webServer.port) [getFrame, postFrame, getFrame]).map Prod.fst =
      some [true, true, true] := by decide +kernel
  have hget : payloads webServer getFlow [getFrame, postFrame, getFrame] = [getSegment, getSegment] := by decide +kernel
  have hpost : payloads webServer postFlow [getFrame, postFrame, getFrame] = [postSegment] := by decide +kernel
  obtain ⟨⟨rets, m⟩, hrun, rfl⟩ := Option.map_eq_some_iff.mp hrets
  have hflows := (flow_isolation webServer [getFrame, postFrame, getFrame] [true, true, true] m hrun).1
  have hflow : ∀ {flow : Flow} {segs : List Segment}, payloads webServer flow [getFrame, postFrame, getFrame] = segs → segs ≠ [] →
      ∃ s replies, m.mSessions.lookup flow.client.key = some s ∧
        HttpBuf.machine.run (HttpBuf.new flow.client.key flow.input) segs = some (replies, s.side flow.input) := by
    rintro flow segs rfl hne
    obtain ⟨s, hs⟩ := Option.isSome_iff_exists.mp ((hflows flow).1 hne)
    obtain ⟨replies, halone⟩ := (hflows flow).2 s hs
    exact ⟨s, replies, hs, halone⟩
  exact ⟨m, hrun, hflow hget (by decide), hflow hpost (by decide)⟩

end ParsePkg

end FrontServer
