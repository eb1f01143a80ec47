import FrontServer.Lemmas.ParsePkgLog

/-!
# What one frame does, with its lines

`CgiDump.Step` lists what an `InputPkg` call after `Init` can do, and `CgiDump.step_cases` says that there is nothing else. Up to the
counter of the frames, which is a 32-bit `int`, the calls are those of `ParsePkg.machine` (`CgiDump.step_parsePkg`,
`CgiDump.exists_step`).
-/

namespace FrontServer

open Logged

namespace CgiDump

/-- What holds in every state after `Init`: every ring is well formed and named after its client. -/
structure Ready (s : CgiDump) : Prop where
  inited : s.parsePkg.mInited = true
  rings : s.parsePkg.RingsWellFormed
  named : ∀ client input, (s.parsePkg.buf client input).mTcpBuf.mClient = client
  count : 0 ≤ s.i

/-- The line `InputPkg2Session` writes about a payload that a buffer did not take. -/
def refusal (c : SessionCall) (reply : HttpReply) : List Line :=
  if reply.ret then [] else [.inputToSessionFailed c.client c.len c.input]

/-- What one frame does: it fails a check, or it is counted and shown, and then it is not of the server, or has no payload, or its
payload goes to the buffer of its client and direction. -/
inductive Step (s : CgiDump) (f : Bytes) : Report → CgiDump → Prop where
  | badType (t : UInt16) (h : ParsePkg.ipHeader f = .ok none) :
    Step s f { ret := false, call := none, lines := [.unsupportLengthType t] } s
  | badHeader (vhl p : UInt8) (h : ParsePkg.ipHeader f ≠ .ok none) (hd : ParsePkg.decode f = .ok none) :
    Step s f { ret := false, call := none, lines := [.unsupprotVersion vhl p] } s
  | foreign (info : ParsePkg.PkgInfo) (hinfo : ParsePkg.pkgInfoOf f = some info) (hcall : s.parsePkg.sessionCall f = .ok (false, none)) :
    Step s f { ret := false, call := none, lines := [.number (s.i + 1).toNat, info.line] ++ [.getClientAddressFailed] }
      { s with i := s.i + 1 }
  | empty (info : ParsePkg.PkgInfo) (hinfo : ParsePkg.pkgInfoOf f = some info) (hcall : s.parsePkg.sessionCall f = .ok (true, none)) :
    Step s f { ret := true, call := none, lines := [.number (s.i + 1).toNat, info.line] ++ [] } { s with i := s.i + 1 }
  | payload (info : ParsePkg.PkgInfo) (c : SessionCall) (reply : HttpReply) (b : HttpBuf) (ls : List Line)
    (hinfo : ParsePkg.pkgInfoOf f = some info) (hcall : s.parsePkg.sessionCall f = .ok (true, some c))
    (hb : (s.parsePkg.buf c.client c.input).inputTcpPkg c.data c.len = .ok (reply, b)) (hlogs : HttpBuf.Logs c.client c.len reply ls) :
    Step s f { ret := true, call := some (c, reply), lines := [.number (s.i + 1).toNat, info.line] ++ (ls ++ refusal c reply) }
      { parsePkg := s.parsePkg.setBuf c.client c.input b, i := s.i + 1 }

theorem machine_step_eq_some {s s' : CgiDump} {f : Bytes} {rep : Report} :
    machine.step s f = some (rep, s') ↔ (s.inputPkg f f.length).run = .ok (((rep.ret, rep.call), s'), rep.lines) := by
  change ((s.inputPkg f f.length).run.toOption.map _) = _ ↔ _
  rw [Option.map_eq_some_iff]
  constructor
  · rintro ⟨⟨⟨⟨ret, call⟩, t⟩, lines⟩, h, he⟩
    cases he
    exact toOption_eq_some.mp h
  · intro h
    exact ⟨_, toOption_eq_some.mpr h, rfl⟩

/-! ## A frame that has been decoded -/

/-- The call `InputPkg` makes for a frame that has been decoded. -/
theorem sessionCall_of_decode {m : ParsePkg} (hm : m.mInited = true) {f : Bytes} {d : Decoded} (hd : ParsePkg.decode f = .ok (some d))
    {addr : Option (Bytes × Int × Bool)} (haddr : m.getClientAddr f d.ih d.th = .ok addr) :
    m.sessionCall f = .ok
      (match addr with
      | none => (false, none)
      | some (cIp, cPort, input) =>
        if 0 = d.dataLen then (true, none)
        else (true, some { cIp := cIp, cPort := cPort, input := input, data := f.drop d.payload, len := d.dataLen })) := by
  unfold ParsePkg.sessionCall
  rw [hm]
  simp only [Bool.not_true, Bool.false_eq_true, if_false, hd, ok_bind, haddr]
  cases addr with
  | none => rfl
  | some a =>
    dsimp only
    split
    · rfl
    · rfl

/-- A payload goes to the buffer of its client and direction, and is reported. -/
theorem run_inputPkg2SessionLogged {m m' : ParsePkg} (hwf : m.RingsWellFormed)
    (hnamed : ∀ client input, (m.buf client input).mTcpBuf.mClient = client) {c : SessionCall} {reply : HttpReply} {ls : List Line}
    (h : (m.inputPkg2SessionLogged c).run = .ok ((reply, m'), ls)) :
    ∃ b ls', (m.buf c.client c.input).inputTcpPkg c.data c.len = .ok (reply, b) ∧ m' = m.setBuf c.client c.input b ∧
      HttpBuf.Logs c.client c.len reply ls' ∧ ls = ls' ++ refusal c reply := by
  obtain ⟨⟨reply', session⟩, v, w, hsession, hrest, rfl⟩ := run_bind_eq_ok.mp h
  have hbuf : ∃ b, ((m.buf c.client c.input).inputTcpPkgLogged c.data c.len).run = .ok ((reply', b), v) ∧
      session = (m.session c.client).setSide c.input b := by
    unfold Session.inputTcpPkgLogged at hsession
    unfold ParsePkg.buf Session.side Session.setSide
    split at hsession
    · rename_i hinput
      obtain ⟨⟨r, b⟩, u, u', hb, hpure, rfl⟩ := run_bind_eq_ok.mp hsession
      obtain ⟨he, rfl⟩ := run_pure_eq_ok.mp hpure
      cases he
      rw [if_pos hinput, List.append_nil]
      exact ⟨b, hb, (if_pos hinput).symm⟩
    · rename_i hinput
      obtain ⟨⟨r, b⟩, u, u', hb, hpure, rfl⟩ := run_bind_eq_ok.mp hsession
      obtain ⟨he, rfl⟩ := run_pure_eq_ok.mp hpure
      cases he
      rw [if_neg hinput, List.append_nil]
      exact ⟨b, hb, (if_neg hinput).symm⟩
  obtain ⟨b, hb, rfl⟩ := hbuf
  have hplain : (m.buf c.client c.input).inputTcpPkg c.data c.len = .ok (reply', b) := by
    rw [← HttpBuf.erase_inputTcpPkgLogged]
    exact erase_eq_ok.mpr ⟨v, hb⟩
  have hlogs := HttpBuf.logs_of_inputTcpPkgLogged (hwf _ _) hb
  rw [hnamed] at hlogs
  dsimp only at hrest
  split at hrest
  · rename_i hret
    obtain ⟨he, rfl⟩ := run_tell_pure_eq_ok.mp hrest
    cases he
    refine ⟨b, v, hplain, rfl, hlogs, ?_⟩
    rw [refusal, if_neg (by simpa using hret)]
  · rename_i hret
    obtain ⟨he, rfl⟩ := run_pure_eq_ok.mp hrest
    cases he
    refine ⟨b, v, hplain, rfl, hlogs, ?_⟩
    rw [refusal, if_pos (by simpa using hret)]

/-- The checks on the type of a frame write a line exactly for a frame that fails them. -/
theorem lines_of_ipHeaderLogged {f : Bytes} {found : Option Nat} {ls : List Line}
    (h : (ParsePkg.ipHeaderLogged f).run = .ok (found, ls)) :
    (found = none ∧ ∃ t, ls = [.unsupportLengthType t]) ∨ ∃ ih, found = some ih ∧ ls = [] := by
  obtain ⟨t, -, hrest⟩ := run_lift_bind_eq_ok.mp h
  split at hrest
  · obtain ⟨u, -, hinner⟩ := run_lift_bind_eq_ok.mp hrest
    split at hinner
    · exact Or.inl ⟨(run_tell_pure_eq_ok.mp hinner).1, u, (run_tell_pure_eq_ok.mp hinner).2⟩
    · exact Or.inr ⟨_, run_pure_eq_ok.mp hinner⟩
  · split at hrest
    · exact Or.inl ⟨(run_tell_pure_eq_ok.mp hrest).1, t, (run_tell_pure_eq_ok.mp hrest).2⟩
    · exact Or.inr ⟨_, run_pure_eq_ok.mp hrest⟩

/-- So do the checks on the IP header. -/
theorem lines_of_decodeAtLogged {f : Bytes} {ih : Nat} {decoded : Option Decoded} {ls : List Line}
    (h : (ParsePkg.decodeAtLogged f ih).run = .ok (decoded, ls)) :
    (decoded = none ∧ ∃ vhl p, ls = [.unsupprotVersion vhl p]) ∨ ∃ d, decoded = some d ∧ ls = [] := by
  obtain ⟨vhl, -, h₁⟩ := run_lift_bind_eq_ok.mp h
  obtain ⟨p, -, h₂⟩ := run_lift_bind_eq_ok.mp h₁
  split at h₂
  · obtain ⟨hf, -, h₃⟩ := run_lift_bind_eq_ok.mp h₂
    obtain ⟨l, -, h₄⟩ := run_lift_bind_eq_ok.mp h₃
    exact Or.inr ⟨_, run_pure_eq_ok.mp h₄⟩
  · exact Or.inl ⟨(run_tell_pure_eq_ok.mp h₂).1, vhl, p, (run_tell_pure_eq_ok.mp h₂).2⟩

/-- A frame that has been decoded is counted and shown before anything else. -/
theorem step_of_inputDecoded {s s' : CgiDump} (hs : s.Ready) {f : Bytes} {d : Decoded} (hd : ParsePkg.decode f = .ok (some d))
    {ret : Bool} {call : Option (SessionCall × HttpReply)} {ls : List Line}
    (h : (s.inputDecoded f d).run = .ok (((ret, call), s'), ls)) : Step s f { ret := ret, call := call, lines := ls } s' := by
  obtain ⟨info, hinfo, hprint⟩ := ParsePkg.run_printPkgInfo hd
  obtain ⟨i, hi, h₁⟩ := run_lift_bind_eq_ok.mp h
  obtain rfl : i = s.i + 1 := by
    unfold checkedInt at hi
    split at hi
    · exact (Except.ok.inj hi).symm
    · cases hi
  obtain ⟨v₁, h₂, rfl⟩ := run_tell_bind_eq_ok.mp h₁
  obtain ⟨u, v₂, v₃, hshown, h₃, rfl⟩ := run_bind_eq_ok.mp h₂
  rw [hprint] at hshown
  cases hshown
  obtain ⟨addr, haddr, h₄⟩ := run_lift_bind_eq_ok.mp h₃
  have hcall := sessionCall_of_decode hs.inited hd haddr
  rcases addr with _ | ⟨cIp, cPort, input⟩
  · obtain ⟨he, rfl⟩ := run_tell_pure_eq_ok.mp h₄
    cases he
    exact Step.foreign info hinfo hcall
  · dsimp only at hcall h₄
    split at h₄
    · rename_i hlen
      rw [if_pos hlen] at hcall
      obtain ⟨he, rfl⟩ := run_pure_eq_ok.mp h₄
      cases he
      exact Step.empty info hinfo hcall
    · rename_i hlen
      rw [if_neg hlen] at hcall
      obtain ⟨⟨reply, m⟩, v₄, v₅, hsession, hpure, rfl⟩ := run_bind_eq_ok.mp h₄
      obtain ⟨he, rfl⟩ := run_pure_eq_ok.mp hpure
      cases he
      obtain ⟨b, ls, hb, rfl, hlogs, rfl⟩ := run_inputPkg2SessionLogged hs.rings hs.named hsession
      rw [List.append_nil]
      exact Step.payload info _ reply b ls hinfo hcall hb hlogs

/-- What an `InputPkg` call after `Init` can do. -/
theorem step_cases {s s' : CgiDump} (hs : s.Ready) {f : Bytes} {rep : Report} (h : machine.step s f = some (rep, s')) :
    Step s f rep s' := by
  obtain ⟨ret, call, lines⟩ := rep
  have hrun := machine_step_eq_some.mp h
  unfold inputPkg at hrun
  rw [hs.inited, if_neg (by decide)] at hrun
  obtain ⟨found, v, v', hfound, hrest, hlines⟩ := run_bind_eq_ok.mp hrun
  dsimp only at hlines
  subst hlines
  have hih : ParsePkg.ipHeader f = .ok found := by
    rw [← ParsePkg.erase_ipHeaderLogged]
    exact erase_eq_ok.mpr ⟨v, hfound⟩
  rcases lines_of_ipHeaderLogged hfound with ⟨rfl, t, rfl⟩ | ⟨ih, rfl, rfl⟩
  · obtain ⟨he, rfl⟩ := run_pure_eq_ok.mp hrest
    cases he
    rw [List.append_nil]
    exact Step.badType t hih
  · obtain ⟨decoded, w, w', hdecoded, hinput, rfl⟩ := run_bind_eq_ok.mp hrest
    have hat : ParsePkg.decodeAt f ih = .ok decoded := by
      rw [← ParsePkg.erase_decodeAtLogged]
      exact erase_eq_ok.mpr ⟨w, hdecoded⟩
    rcases lines_of_decodeAtLogged hdecoded with ⟨rfl, vhl, p, rfl⟩ | ⟨d, rfl, rfl⟩
    · obtain ⟨he, rfl⟩ := run_pure_eq_ok.mp hinput
      cases he
      refine Step.badHeader vhl p (by rw [hih]; nofun) ?_
      unfold ParsePkg.decode
      rw [hih]
      exact hat
    · exact step_of_inputDecoded hs (ParsePkg.decode_eq_some.mpr ⟨ih, hih, hat⟩) hinput

/-! ## The calls without their lines -/

/-- A frame that has been decoded goes the way it goes without lines. -/
theorem erase_inputDecoded {s : CgiDump} (hi : 0 ≤ s.i ∧ s.i + 1 < 2 ^ 31) (hm : s.parsePkg.mInited = true) {f : Bytes} {d : Decoded}
    (hd : ParsePkg.decode f = .ok (some d)) (len : Int) :
    (s.inputDecoded f d).erase.map (fun r => (r.1.1, r.2.parsePkg)) = s.parsePkg.inputPkg f len := by
  obtain ⟨info, -, hprint⟩ := ParsePkg.run_printPkgInfo hd
  have hcount : checkedInt (s.i + 1) = .ok (s.i + 1) := if_pos (by omega)
  unfold inputDecoded
  simp only [erase_bind, erase_lift, erase_tell, hcount, ok_bind, erase_eq_ok.mpr ⟨_, hprint⟩]
  cases haddr : s.parsePkg.getClientAddr f d.ih d.th with
  | error e =>
    have hcall : s.parsePkg.sessionCall f = .error e := by
      unfold ParsePkg.sessionCall
      rw [hm]
      simp only [Bool.not_true, Bool.false_eq_true, if_false, hd, ok_bind, haddr]
      rfl
    unfold ParsePkg.inputPkg
    rw [hcall]
    rfl
  | ok addr =>
    have hcall := sessionCall_of_decode hm hd haddr
    unfold ParsePkg.inputPkg
    rw [hcall]
    rcases addr with _ | ⟨cIp, cPort, input⟩
    · rfl
    · rw [ok_bind]
      dsimp only
      by_cases hlen : 0 = d.dataLen
      · rw [if_pos hlen, if_pos hlen]
        rfl
      · rw [if_neg hlen, if_neg hlen]
        simp only [ok_bind, erase_bind, erase_pure]
        rw [← ParsePkg.erase_inputPkg2SessionLogged]
        cases (s.parsePkg.inputPkg2SessionLogged _).erase with
        | error e => rfl
        | ok r => rfl

/-- Up to the counter, `InputPkg` with its lines is `InputPkg`. -/
theorem erase_inputPkg {s : CgiDump} (hi : 0 ≤ s.i ∧ s.i + 1 < 2 ^ 31) (f : Bytes) (len : Int) :
    (s.inputPkg f len).erase.map (fun r => (r.1.1, r.2.parsePkg)) = s.parsePkg.inputPkg f len := by
  unfold inputPkg
  by_cases hm : s.parsePkg.mInited = true
  · have hcall : ∀ {e : Fault}, ParsePkg.decode f = .error e → s.parsePkg.inputPkg f len = .error e := by
      intro e he
      unfold ParsePkg.inputPkg ParsePkg.sessionCall
      rw [hm]
      simp only [Bool.not_true, Bool.false_eq_true, if_false, he, error_bind]
    have hnone : ParsePkg.decode f = .ok none → s.parsePkg.inputPkg f len = .ok (false, s.parsePkg) := by
      intro hd
      unfold ParsePkg.inputPkg ParsePkg.sessionCall
      rw [hm]
      simp only [Bool.not_true, Bool.false_eq_true, if_false, hd, ok_bind]
      rfl
    rw [hm, if_neg (by decide)]
    simp only [erase_bind, ParsePkg.erase_ipHeaderLogged]
    cases hih : ParsePkg.ipHeader f with
    | error e =>
      rw [hcall (e := e) (by unfold ParsePkg.decode; rw [hih]; rfl)]
      rfl
    | ok found =>
      cases found with
      | none =>
        rw [hnone (by unfold ParsePkg.decode; rw [hih]; rfl)]
        rfl
      | some ih =>
        simp only [ok_bind, erase_bind, ParsePkg.erase_decodeAtLogged]
        cases hat : ParsePkg.decodeAt f ih with
        | error e =>
          rw [hcall (e := e) (by unfold ParsePkg.decode; rw [hih]; exact hat)]
          rfl
        | ok decoded =>
          cases decoded with
          | none =>
            rw [hnone (by unfold ParsePkg.decode; rw [hih]; exact hat)]
            rfl
          | some d => exact erase_inputDecoded hi hm (ParsePkg.decode_eq_some.mpr ⟨ih, hih, hat⟩) len
  · have hm' : s.parsePkg.mInited = false := by simpa using hm
    unfold ParsePkg.inputPkg ParsePkg.sessionCall
    rw [hm']
    rfl

/-- While the counter has room, every `InputPkg` call that returns is a step. -/
theorem exists_step {s : CgiDump} (hi : 0 ≤ s.i ∧ s.i + 1 < 2 ^ 31) {m' : ParsePkg} {f : Bytes} {ret : Bool}
    (h : ParsePkg.machine.step s.parsePkg f = some (ret, m')) :
    ∃ rep s', machine.step s f = some (rep, s') ∧ rep.ret = ret ∧ s'.parsePkg = m' := by
  have hplain := ParsePkg.machine_step_eq_some.mp h
  rw [← erase_inputPkg hi] at hplain
  cases he : (s.inputPkg f f.length).erase with
  | error e =>
    rw [he] at hplain
    cases hplain
  | ok r =>
    obtain ⟨⟨ret', call⟩, s'⟩ := r
    rw [he] at hplain
    cases hplain
    obtain ⟨ls, hrun⟩ := erase_eq_ok.mp he
    exact ⟨⟨ret', call, ls⟩, s', machine_step_eq_some.mpr hrun, rfl, rfl⟩

/-- A frame makes no call and leaves the sessions as they are, or it makes one call into one buffer, and is answered by it. -/
theorem call_cases {s s' : CgiDump} (hs : s.Ready) {f : Bytes} {rep : Report} (h : machine.step s f = some (rep, s')) :
    (rep.call = none ∧ s'.parsePkg = s.parsePkg ∧ s.parsePkg.sessionCall f = .ok (rep.ret, none)) ∨
      ∃ c reply b, rep.call = some (c, reply) ∧ s.parsePkg.sessionCall f = .ok (rep.ret, some c) ∧
        (s.parsePkg.buf c.client c.input).inputTcpPkg c.data c.len = .ok (reply, b) ∧
        s'.parsePkg = s.parsePkg.setBuf c.client c.input b := by
  have hnone : ParsePkg.decode f = .ok none → s.parsePkg.sessionCall f = .ok (false, none) := by
    intro hd
    unfold ParsePkg.sessionCall
    rw [hs.inited]
    simp only [Bool.not_true, Bool.false_eq_true, if_false, hd, ok_bind]
    rfl
  cases step_cases hs h with
  | badType t hih =>
    refine Or.inl ⟨rfl, rfl, hnone ?_⟩
    unfold ParsePkg.decode
    rw [hih]
    rfl
  | badHeader vhl p _ hd => exact Or.inl ⟨rfl, rfl, hnone hd⟩
  | foreign info _ hcall => exact Or.inl ⟨rfl, rfl, hcall⟩
  | empty info _ hcall => exact Or.inl ⟨rfl, rfl, hcall⟩
  | payload info c reply b ls _ hcall hb _ => exact Or.inr ⟨c, reply, b, rfl, hcall, hb, rfl⟩

/-- A step does to the sessions what `InputPkg` does. -/
theorem step_parsePkg {s s' : CgiDump} (hs : s.Ready) {f : Bytes} {rep : Report} (h : machine.step s f = some (rep, s')) :
    ParsePkg.machine.step s.parsePkg f = some (rep.ret, s'.parsePkg) := by
  refine ParsePkg.machine_step_eq_some.mpr ?_
  rcases call_cases hs h with ⟨-, he, hcall⟩ | ⟨c, reply, b, -, hcall, hb, he⟩
  · unfold ParsePkg.inputPkg
    rw [hcall, he]
    rfl
  · rw [he]
    exact ParsePkg.inputPkg_of_call hcall hb

/-! ## Runs -/

theorem init_ready (ip : Bytes) (port : Int) : (init ip port).Ready := by
  refine ⟨rfl, ParsePkg.ringsWellFormed_init ip port, fun client input => ?_, le_rfl⟩
  have hbuf : (ParsePkg.new.init ip port).buf client input = HttpBuf.new client input := by
    simp [ParsePkg.buf, ParsePkg.session, ParsePkg.init, ParsePkg.new]
  change ((ParsePkg.new.init ip port).buf client input).mTcpBuf.mClient = client
  rw [hbuf]
  rfl

theorem Ready.step {s s' : CgiDump} (hs : s.Ready) {f : Bytes} {rep : Report} (h : machine.step s f = some (rep, s')) : s'.Ready := by
  have hplain := step_parsePkg hs h
  have hcount := hs.count
  refine ⟨(ParsePkg.config_of_step hplain).2.2.trans hs.inited, hs.rings.step hplain, fun client input => ?_, ?_⟩
  · cases step_cases hs h with
    | badType t _ => exact hs.named client input
    | badHeader vhl p _ _ => exact hs.named client input
    | foreign info _ _ => exact hs.named client input
    | empty info _ _ => exact hs.named client input
    | payload info c reply b ls _ _ hb _ =>
      by_cases hne : client ≠ c.client ∨ input ≠ c.input
      · rw [ParsePkg.buf_setBuf_of_ne _ b hne]
        exact hs.named client input
      · obtain ⟨rfl, rfl⟩ : client = c.client ∧ input = c.input := by
          simpa [not_or] using hne
        rw [ParsePkg.buf_setBuf]
        exact (HttpBuf.mClient_of_inputTcpPkg (hs.rings _ _) hb).trans (hs.named _ _)
  · cases step_cases hs h with
    | badType t _ => exact hcount
    | badHeader vhl p _ _ => exact hcount
    | foreign info _ _ =>
      dsimp only
      omega
    | empty info _ _ =>
      dsimp only
      omega
    | payload info c reply b ls _ _ hb _ =>
      dsimp only
      omega

/-- The counter grows by one at most. -/
theorem count_of_step {s s' : CgiDump} (hs : s.Ready) {f : Bytes} {rep : Report} (h : machine.step s f = some (rep, s')) :
    s'.i ≤ s.i + 1 := by
  cases step_cases hs h with
  | badType t _ => exact Int.le_add_one le_rfl
  | badHeader vhl p _ _ => exact Int.le_add_one le_rfl
  | foreign info _ _ => exact le_rfl
  | empty info _ _ => exact le_rfl
  | payload info c reply b ls _ _ _ _ => exact le_rfl

/-- A frame that is shown has been counted without an overflow. -/
theorem count_lt_of_step {s s' : CgiDump} (hs : s.Ready) {f : Bytes} {rep : Report} (h : machine.step s f = some (rep, s'))
    (hinfo : (ParsePkg.pkgInfoOf f).isSome) : s.i + 1 < 2 ^ 31 := by
  obtain ⟨d, hd⟩ := ParsePkg.isSome_pkgInfoOf.mp hinfo
  obtain ⟨ih, hih, hat⟩ := ParsePkg.decode_eq_some.mp hd
  have hrun := erase_eq_ok.mpr ⟨_, machine_step_eq_some.mp h⟩
  unfold inputPkg at hrun
  rw [hs.inited, if_neg (by decide)] at hrun
  simp only [erase_bind, ParsePkg.erase_ipHeaderLogged, hih, ok_bind, ParsePkg.erase_decodeAtLogged, hat] at hrun
  unfold inputDecoded at hrun
  simp only [erase_bind, erase_lift] at hrun
  obtain ⟨i, hi, -⟩ := bind_eq_ok.mp hrun
  unfold checkedInt at hi
  split at hi
  · rename_i hroom
    exact hroom.2
  · cases hi

/-- While the counter has room, every run of `InputPkg` calls that return is a run. -/
theorem exists_run {s : CgiDump} (hs : s.Ready) {frames : List Bytes} (hi : s.i + frames.length < 2 ^ 31) {rets : List Bool}
    {m : ParsePkg} (h : ParsePkg.machine.run s.parsePkg frames = some (rets, m)) :
    ∃ reps t, machine.run s frames = some (reps, t) ∧ t.parsePkg = m := by
  induction frames generalizing s rets with
  | nil =>
    cases h
    exact ⟨[], s, rfl, rfl⟩
  | cons f frames ih =>
    obtain ⟨ret, m', rets', hplain, hrun, rfl⟩ := Machine.run_cons_eq_some.mp h
    rw [List.length_cons] at hi
    obtain ⟨rep, s', hstep, -, rfl⟩ := exists_step ⟨hs.count, by omega⟩ hplain
    have hcount := count_of_step hs hstep
    obtain ⟨reps, t, htail, ht⟩ := ih (hs.step hstep) (by omega) hrun
    exact ⟨rep :: reps, t, Machine.run_cons_eq_some.mpr ⟨rep, s', reps, hstep, htail, rfl⟩, ht⟩

/-- Every state after `Init` is ready. -/
theorem run_ready {ip : Bytes} {port : Int} {frames : List Bytes} {reps : List Report} {s : CgiDump}
    (h : machine.run (init ip port) frames = some (reps, s)) : s.Ready :=
  Machine.run_invariant (fun hs hstep => hs.step hstep) (init_ready ip port) h

end CgiDump

end FrontServer
