import FrontServer.Theorems.Capture

/-!
# The log accounts for the capture

What `cgidump` writes about a run says exactly what happened in it (`CgiDump.log_ledger`): the frames that passed the checks, numbered
and in order, the payloads that were refused, one verdict on each payload that was taken, and one line for each message.
-/

namespace FrontServer

/-! ## Kinds of lines -/

namespace Line

/-- The number a frame was given. -/
def numberOf : Line → Option Nat
  | number i => some i
  | _ => none

/-- What `PrintPkgInfo` writes. -/
def isPkgInfo : Line → Bool
  | pkgInfo _ _ _ _ _ _ => true
  | _ => false

/-- What `InputPkg2Session` writes about a payload that was not taken. -/
def isRefusal : Line → Bool
  | inputToSessionFailed _ _ _ => true
  | _ => false

/-- Why a payload was not taken. -/
def isReason : Line → Bool
  | drop _ _ | inputToTcpFailed _ _ => true
  | _ => false

/-- The first line of what a buffer begins with. -/
def isFirstLine : Line → Bool
  | firstLine _ => true
  | _ => false

/-- What became of the front of a buffer: no length in its header, not all there, or taken out. -/
def isVerdict : Line → Bool
  | noContentLength _ | segmented _ | contentLength _ _ => true
  | _ => false

/-- A message has been taken out. -/
def isMessage : Line → Bool
  | contentLength _ _ => true
  | _ => false

/-- Statements that are never reached after `Init`. -/
def isUnreached : Line → Bool
  | notInitilized | getTcpBufFaild | getHttpHeadersFailed _ => true
  | _ => false

end Line

namespace CgiDump

/-- The lines of a run. -/
def linesOf (reps : List Report) : List Line := reps.flatMap Report.lines

/-- The calls of a run, with their replies. -/
def callsOf (reps : List Report) : List (SessionCall × HttpReply) := reps.filterMap Report.call

/-- The line about a payload that was not taken. -/
def refusalLine (c : SessionCall × HttpReply) : Line := .inputToSessionFailed c.1.client c.1.len c.1.input

/-- The lines of a run against what happened in it. -/
structure Ledger (frames : List Bytes) (reps : List Report) : Prop where
  numbers : (linesOf reps).filterMap Line.numberOf = (List.range (frames.filterMap ParsePkg.pkgInfoOf).length).map (· + 1)
  infos : (linesOf reps).filter Line.isPkgInfo = (frames.filterMap ParsePkg.pkgInfoOf).map ParsePkg.PkgInfo.line
  refusals : (linesOf reps).filter Line.isRefusal = ((callsOf reps).filter (fun c => !c.2.ret)).map refusalLine
  reasons : (linesOf reps).countP Line.isReason = (linesOf reps).countP Line.isRefusal
  firstLines : (linesOf reps).countP Line.isFirstLine = (callsOf reps).countP (fun c => c.2.ret)
  verdicts : (linesOf reps).countP Line.isVerdict = (callsOf reps).countP (fun c => c.2.ret)
  messages : (linesOf reps).countP Line.isMessage = (callsOf reps).countP (fun c => c.2.extracted.isSome)
  unreached : (linesOf reps).countP Line.isUnreached = 0

/-! ## One frame -/

/-- The lines of one call into a buffer. -/
structure CallLines (reply : HttpReply) (ls : List Line) : Prop where
  numbers : ls.filterMap Line.numberOf = []
  infos : ls.filter Line.isPkgInfo = []
  refusals : ls.filter Line.isRefusal = []
  reasons : ls.countP Line.isReason = if reply.ret then 0 else 1
  firstLines : ls.countP Line.isFirstLine = if reply.ret then 1 else 0
  verdicts : ls.countP Line.isVerdict = if reply.ret then 1 else 0
  messages : ls.countP Line.isMessage = if reply.extracted.isSome then 1 else 0
  unreached : ls.countP Line.isUnreached = 0

/-- Illegal heads count for nothing. -/
theorem CallLines.of_heads {reply : HttpReply} {ls : List Line} (h : CallLines reply ls) (illegal : List Bytes) :
    CallLines reply (illegal.map .illegalHead ++ ls) := by
  have hfilter : ∀ p : Line → Bool, (∀ x, p (.illegalHead x) = false) → (illegal.map Line.illegalHead).filter p = [] := by
    intro p hp
    rw [List.filter_map, List.map_eq_nil_iff, List.filter_eq_nil_iff]
    intro x _
    simp [hp x]
  have hcount : ∀ p : Line → Bool, (∀ x, p (.illegalHead x) = false) → (illegal.map Line.illegalHead ++ ls).countP p = ls.countP p := by
    intro p hp
    rw [List.countP_append, List.countP_eq_length_filter, hfilter p hp, List.length_nil, Nat.zero_add]
  constructor
  · rw [List.filterMap_append, h.numbers, List.append_nil, List.filterMap_map, List.filterMap_eq_nil_iff]
    exact fun x _ => rfl
  · rw [List.filter_append, h.infos, hfilter _ fun _ => rfl]
    rfl
  · rw [List.filter_append, h.refusals, hfilter _ fun _ => rfl]
    rfl
  · rw [hcount _ fun _ => rfl, h.reasons]
  · rw [hcount _ fun _ => rfl, h.firstLines]
  · rw [hcount _ fun _ => rfl, h.verdicts]
  · rw [hcount _ fun _ => rfl, h.messages]
  · rw [hcount _ fun _ => rfl, h.unreached]

/-- The lines of a call, by what becomes of the payload. -/
theorem callLines_of_logs {client : Bytes} {len : Int} {reply : HttpReply} {ls : List Line} (h : HttpBuf.Logs client len reply ls) :
    CallLines reply ls := by
  cases h with
  | dropped => exact ⟨rfl, rfl, rfl, rfl, rfl, rfl, rfl, rfl⟩
  | refused remain => exact ⟨rfl, rfl, rfl, rfl, rfl, rfl, rfl, rfl⟩
  | noContentLength illegal line => exact CallLines.of_heads ⟨rfl, rfl, rfl, rfl, rfl, rfl, rfl, rfl⟩ illegal
  | segmented illegal line value => exact CallLines.of_heads ⟨rfl, rfl, rfl, rfl, rfl, rfl, rfl, rfl⟩ illegal
  | taken illegal line value pos message => exact CallLines.of_heads ⟨rfl, rfl, rfl, rfl, rfl, rfl, rfl, rfl⟩ illegal

/-- A frame that fails a check has nothing to show. -/
theorem pkgInfoOf_eq_none {f : Bytes} (h : ∀ d, ParsePkg.decode f ≠ .ok (some d)) : ParsePkg.pkgInfoOf f = none := by
  cases hinfo : ParsePkg.pkgInfoOf f with
  | none => rfl
  | some info =>
    obtain ⟨d, -, -, -, hd, -⟩ := ParsePkg.pkgInfoOf_eq_some.mp hinfo
    exact absurd hd (h d)

/-- The lines of one frame against what happened to it. -/
structure FrameLines (s s' : CgiDump) (f : Bytes) (rep : Report) : Prop where
  numbers : rep.lines.filterMap Line.numberOf = (ParsePkg.pkgInfoOf f).toList.map (fun _ => (s.i + 1).toNat)
  count : s'.i = s.i + (ParsePkg.pkgInfoOf f).toList.length
  infos : rep.lines.filter Line.isPkgInfo = (ParsePkg.pkgInfoOf f).toList.map ParsePkg.PkgInfo.line
  refusals : rep.lines.filter Line.isRefusal = (rep.call.toList.filter (fun c => !c.2.ret)).map refusalLine
  reasons : rep.lines.countP Line.isReason = rep.lines.countP Line.isRefusal
  firstLines : rep.lines.countP Line.isFirstLine = rep.call.toList.countP (fun c => c.2.ret)
  verdicts : rep.lines.countP Line.isVerdict = rep.call.toList.countP (fun c => c.2.ret)
  messages : rep.lines.countP Line.isMessage = rep.call.toList.countP (fun c => c.2.extracted.isSome)
  unreached : rep.lines.countP Line.isUnreached = 0

/-- What a frame's payload adds to its lines. -/
theorem frameLines_of_payload {s : CgiDump} {f : Bytes} {info : ParsePkg.PkgInfo} (hinfo : ParsePkg.pkgInfoOf f = some info)
    {c : SessionCall} {reply : HttpReply} {ls : List Line} (h : CallLines reply ls) (m : ParsePkg) :
    FrameLines s { parsePkg := m, i := s.i + 1 } f
      { ret := true, call := some (c, reply), lines := [.number (s.i + 1).toNat, info.line] ++ (ls ++ refusal c reply) } := by
  obtain ⟨ret, extracted⟩ := reply
  have hcount : ∀ p : Line → Bool, ∀ us vs : List Line, (us ++ (ls ++ vs)).countP p = us.countP p + (ls.countP p + vs.countP p) := by
    intro p us vs
    rw [List.countP_append, List.countP_append]
  constructor
  · rw [hinfo, List.filterMap_append, List.filterMap_append, h.numbers]
    cases ret <;> rfl
  · rw [hinfo]
    rfl
  · rw [hinfo, List.filter_append, List.filter_append, h.infos]
    cases ret <;> rfl
  · rw [List.filter_append, List.filter_append, h.refusals]
    cases ret <;> rfl
  · rw [hcount, hcount, h.reasons, List.countP_eq_length_filter (l := ls), h.refusals]
    cases ret <;> rfl
  · rw [hcount, h.firstLines]
    cases ret <;> rfl
  · rw [hcount, h.verdicts]
    cases ret <;> rfl
  · rw [hcount, h.messages]
    cases ret <;> cases extracted <;> rfl
  · rw [hcount, h.unreached]
    cases ret <;> rfl

/-- What one frame adds to the lines. -/
theorem frameLines_of_step {s s' : CgiDump} {f : Bytes} {rep : Report} (h : Step s f rep s') : FrameLines s s' f rep := by
  cases h with
  | badType t hih =>
    have hnone : ParsePkg.pkgInfoOf f = none := pkgInfoOf_eq_none fun d hd => by
      obtain ⟨ih, hih', -⟩ := ParsePkg.decode_eq_some.mp hd
      rw [hih] at hih'
      cases hih'
    constructor <;> simp only [hnone] <;> first | rfl | exact (Int.add_zero _).symm
  | badHeader vhl p _ hd =>
    have hnone : ParsePkg.pkgInfoOf f = none := pkgInfoOf_eq_none fun d hd' => by
      rw [hd] at hd'
      cases hd'
    constructor <;> simp only [hnone] <;> first | rfl | exact (Int.add_zero _).symm
  | foreign info hinfo _ =>
    constructor <;> simp only [hinfo] <;> rfl
  | empty info hinfo _ =>
    constructor <;> simp only [hinfo] <;> rfl
  | payload info c reply b ls hinfo _ _ hlogs => exact frameLines_of_payload hinfo (callLines_of_logs hlogs) _

/-! ## A run -/

theorem filterMap_one {α β : Type} (g : α → Option β) (a : α) : [a].filterMap g = (g a).toList := by
  cases h : g a with
  | none => rw [List.filterMap_cons_none h]; rfl
  | some b => rw [List.filterMap_cons_some h]; rfl

/-- The ledger of no frames. -/
theorem ledger_nil : Ledger [] [] := ⟨rfl, rfl, rfl, rfl, rfl, rfl, rfl, rfl⟩

/-- One more frame is one more entry. -/
theorem Ledger.concat {frames : List Bytes} {reps : List Report} (h : Ledger frames reps) {s s' : CgiDump} {f : Bytes} {rep : Report}
    (hi : s.i = (frames.filterMap ParsePkg.pkgInfoOf).length) (hf : FrameLines s s' f rep) : Ledger (frames ++ [f]) (reps ++ [rep]) := by
  have hlines : linesOf (reps ++ [rep]) = linesOf reps ++ rep.lines := by
    rw [linesOf, List.flatMap_append, List.flatMap_singleton]
    rfl
  have hcalls : callsOf (reps ++ [rep]) = callsOf reps ++ rep.call.toList := by
    rw [callsOf, List.filterMap_append, filterMap_one]
    rfl
  have hinfos : (frames ++ [f]).filterMap ParsePkg.pkgInfoOf = frames.filterMap ParsePkg.pkgInfoOf ++ (ParsePkg.pkgInfoOf f).toList := by
    rw [List.filterMap_append, filterMap_one]
  constructor
  · rw [hlines, hinfos, List.filterMap_append, h.numbers, hf.numbers, List.length_append, hi]
    cases ParsePkg.pkgInfoOf f with
    | none => exact List.append_nil _
    | some info =>
      rw [show (some info).toList.length = 1 from rfl, List.range_succ, List.map_append]
      rfl
  · rw [hlines, hinfos, List.filter_append, h.infos, hf.infos, List.map_append]
  · rw [hlines, hcalls, List.filter_append, h.refusals, hf.refusals, List.filter_append, List.map_append]
  · rw [hlines, List.countP_append, List.countP_append, h.reasons, hf.reasons]
  · rw [hlines, hcalls, List.countP_append, List.countP_append, h.firstLines, hf.firstLines]
  · rw [hlines, hcalls, List.countP_append, List.countP_append, h.verdicts, hf.verdicts]
  · rw [hlines, hcalls, List.countP_append, List.countP_append, h.messages, hf.messages]
  · rw [hlines, List.countP_append, h.unreached, hf.unreached]

/-- After every run the log is the ledger of the run: the frames that passed the checks are numbered from one on without a gap and shown
in order, each refused payload is named once and with one reason, each payload that was taken has one first line and one verdict, each
message that was taken out has one line that says so, and nothing says that the program is not set up or has lost bytes. -/
theorem log_ledger {ip : Bytes} {port : Int} {frames : List Bytes} {reps : List Report} {s : CgiDump}
    (h : machine.run (init ip port) frames = some (reps, s)) : Ledger frames reps := by
  have hboth : Ledger frames reps ∧ s.i = (frames.filterMap ParsePkg.pkgInfoOf).length := by
    refine Machine.run_history
      (P := fun frames reps (s : CgiDump) => Ledger frames reps ∧ s.i = (frames.filterMap ParsePkg.pkgInfoOf).length) ⟨ledger_nil, rfl⟩ ?_ h
    intro frames reps s f rep s' hrun ⟨hledger, hi⟩ hstep
    have hf := frameLines_of_step (step_cases (run_ready hrun) hstep)
    refine ⟨hledger.concat hi hf, ?_⟩
    rw [hf.count, hi, List.filterMap_append, filterMap_one, List.length_append]
    push_cast
    rfl
  exact hboth.1

theorem log_ledger_twoClients :
    ∃ reps s, machine.run (init (Utils.long2IP ParsePkg.webServer.addr) ParsePkg.webServer.port) twoClients = some (reps, s) ∧
      Ledger twoClients reps := by
  obtain ⟨reps, s, h⟩ := capture_of_twoClients.exists_run
  exact ⟨reps, s, h, log_ledger h⟩

end CgiDump

end FrontServer
