import FrontServer.Lemmas.CgiDumpMain
import FrontServer.Theorems.ConsoleMode

/-!
# What the programs do with a capture

`cgidump` does not call `ParsePkg::Init`. So it never has a session, says so about every frame, and prints each frame as if it were the
only one (`cgidump_run`). It goes on for as long as no payload has an empty line in front of the first break (`cgidump_goes_on_iff`). Of
what it saved `mock` takes up to the first 22 frames, with the state and the lines that the frames themselves give (`mock_replays`).
-/

namespace FrontServer

namespace PcapHandler

open Logged

/-! ## The lines of `PcapHandler` -/

theorem erase_ipHeaderLogged (bytes : Bytes) : (ipHeaderLogged bytes).erase = ipHeader bytes := by
  unfold ipHeaderLogged ipHeader
  simp only [erase_bind, erase_lift]
  cases EtherHeader.etherLengthType bytes 0 with
  | error e => rfl
  | ok lengthType =>
    simp only [ok_bind, erase_ite, erase_bind, erase_lift, erase_tell, erase_pure]
    rfl

/-- A line that goes to `std::cout` and leaves the stream as it is. -/
def IsPlain (l : Line) : Prop := l.setsHex = false ∧ l.toCerr = false

/-- The lines about the Ethernet header are plain. -/
theorem only_ipHeaderLogged (bytes : Bytes) : Only IsPlain (ipHeaderLogged bytes) := by
  have hline : ∀ t, Only IsPlain (tell [Line.unsuportLengthType t] >>= fun _ => pure none : Writes (Option Nat)) := fun t =>
    (only_tell (List.forall_mem_singleton.mpr ⟨rfl, rfl⟩)).bind fun _ => only_pure _
  unfold ipHeaderLogged
  refine (only_lift _).bind fun lengthType => Only.ite ?_ (Only.ite (only_pure _) (hline _))
  exact (only_lift _).bind fun lengthType => Only.ite (hline _) (only_pure _)

/-- The lines about the packet are plain. -/
theorem only_printAt (localTime : Int → Bytes) (pkt : Packet) (ih : Nat) : Only IsPlain (printAt localTime pkt ih) := by
  have hone : ∀ {l : Line}, l.setsHex = false → l.toCerr = false → Only IsPlain (tell [l] : Writes PUnit) :=
    fun hhex hcerr => only_tell (List.forall_mem_singleton.mpr ⟨hhex, hcerr⟩)
  have hlines : ∀ ls : List Bytes, Only IsPlain (tell (ls.map Line.parsedLine) : Writes PUnit) := by
    intro ls
    refine only_tell fun l hl => ?_
    obtain ⟨head, -, rfl⟩ := List.mem_map.mp hl
    exact ⟨rfl, rfl⟩
  have hip : Only IsPlain (printIpHeader pkt.memory ih) := by
    unfold printIpHeader
    exact (only_lift _).bind fun _ => (only_lift _).bind fun _ => (only_lift _).bind fun _ => (only_lift _).bind fun _ =>
      (only_lift _).bind fun _ => hone rfl rfl
  have htcp : Only IsPlain (printTcpHeader pkt.memory (ih + ipHdrLen)) := by
    unfold printTcpHeader
    exact (only_lift _).bind fun _ => (only_lift _).bind fun _ => (only_lift _).bind fun _ => (only_lift _).bind fun _ =>
      (only_lift _).bind fun _ => (only_lift _).bind fun _ => hone rfl rfl
  unfold printAt
  refine (only_lift _).bind fun vhl => (only_lift _).bind fun ipLen => (only_lift _).bind fun ipP => Only.ite ?_ ?_
  · refine (only_lift _).bind fun hlenFlags => (hone rfl rfl).bind fun _ => (only_lift _).bind fun _ => (hone rfl rfl).bind fun _ => ?_
    refine hip.bind fun _ => htcp.bind fun _ => (only_lift _).bind fun r => (hlines _).bind fun _ => ?_
    exact (only_lift _).bind fun _ => hone rfl rfl
  · exact (hone rfl rfl).bind fun _ => (only_lift _).bind fun _ => hone rfl rfl

/-! ## Which frames are printed to the end -/

/-- The memory behind the start of a frame that `PcapHandler` may look at, for a datagram as long as there can be: the headers with a tag
and with options in the segment, a payload without a break, and the dump behind it. -/
def farthest : Nat := 131129

/-- The Ethernet header is printed when it is in the memory. -/
theorem exists_printEtherHeader {mem : Bytes} (h : 14 ≤ mem.length) : ∃ text, printEtherHeader mem = .ok text := by
  have hbytes : ∀ off : Nat, off + etherAddrLen ≤ mem.length →
      readBytes mem off etherAddrLen = .ok ((mem.drop off).take etherAddrLen) := fun off hoff =>
    readBytes_eq_ok.mpr ⟨by omega, by omega, by omega, rfl⟩
  have hdhost := hbytes 0 (by unfold etherAddrLen; omega)
  have hshost := hbytes etherAddrLen (by unfold etherAddrLen; omega)
  obtain ⟨t, ht⟩ := exists_ntohsAt mem 12 h
  have htype : EtherHeader.etherLengthType mem 0 = .ok t := ht
  rw [Nat.cast_zero] at hdhost
  unfold printEtherHeader
  rw [hdhost, ok_bind, hshost, ok_bind, htype]
  exact ⟨_, rfl⟩

/-- A 32-bit field is read when it is in the memory. -/
theorem exists_ntohlAt (mem : Bytes) (off : Nat) (h : off + 4 ≤ mem.length) : ∃ v, ntohlAt mem off = .ok v := by
  obtain ⟨high, hhigh⟩ := exists_ntohsAt mem off (by omega)
  obtain ⟨low, hlow⟩ := exists_ntohsAt mem (off + 2) (by omega)
  unfold ntohlAt
  rw [hhigh, ok_bind, hlow]
  exact ⟨_, rfl⟩

/-- The IP header is printed when it is. -/
theorem erase_printIpHeader {mem : Bytes} {ih : Nat} (h : ih + 20 ≤ mem.length) : (printIpHeader mem ih).erase = .ok ⟨⟩ := by
  obtain ⟨vhl, hvhl⟩ : ∃ b, readAt mem ih = .ok b := exists_readAt.mpr (by omega)
  obtain ⟨l, hl⟩ := exists_ntohsAt mem (ih + 2) (by omega)
  obtain ⟨p, hp⟩ : ∃ b, readAt mem (ih + 9 : Nat) = .ok b := exists_readAt.mpr (by omega)
  obtain ⟨src, hsrc⟩ := exists_ntohlAt mem (ih + 12) (by omega)
  obtain ⟨dst, hdst⟩ := exists_ntohlAt mem (ih + 16) (by omega)
  unfold printIpHeader IpHeader.ipVhl IpHeader.ipLen IpHeader.ipP IpHeader.ipSrc IpHeader.ipDst
  simp only [erase_bind, erase_lift, erase_tell, hvhl, hl, hp, hsrc, hdst, ok_bind]

/-- The TCP header is printed when it is. -/
theorem erase_printTcpHeader {mem : Bytes} {th : Nat} (h : th + 16 ≤ mem.length) : (printTcpHeader mem th).erase = .ok ⟨⟩ := by
  obtain ⟨portSrc, hportSrc⟩ := exists_ntohsAt mem th (by omega)
  obtain ⟨portDst, hportDst⟩ := exists_ntohsAt mem (th + 2) (by omega)
  obtain ⟨sn, hsn⟩ := exists_ntohlAt mem (th + 4) (by omega)
  obtain ⟨ack, hack⟩ := exists_ntohlAt mem (th + 8) (by omega)
  obtain ⟨hf, hhf⟩ := exists_ntohsAt mem (th + 12) (by omega)
  obtain ⟨w, hw⟩ := exists_ntohsAt mem (th + 14) (by omega)
  unfold printTcpHeader TcpHeader.portSrc TcpHeader.portDst TcpHeader.sn TcpHeader.ack TcpHeader.hlenFlags TcpHeader.winSize
  simp only [erase_bind, erase_lift, erase_tell, hportSrc, hportDst, hsn, hack, hhf, hw, ok_bind]

/-- The head and the dump go through where the scan of the payload does. -/
theorem printPayload_ok_iff (mem : Bytes) (p : Nat) (contentLen : Int) (hp : 0 < p) (hp' : p ≤ 98) (hlen : contentLen ≤ 65515)
    (hlong : farthest ≤ mem.length) :
    (parseHttpAt mem p contentLen 0 >>= fun r => printHexText (mem.drop (p + r.2.2.toNat)) contentLen >>= fun _ => .ok PUnit.unit) =
        .ok ⟨⟩ ↔
      (0 < contentLen → ¬EmptyLineBehind ((mem.drop p).take contentLen.toNat)) := by
  have hparse : (∃ r, parseHttpAt mem p contentLen 0 = .ok r) ↔
      (0 < contentLen → ¬EmptyLineBehind ((mem.drop p).take contentLen.toNat)) := by
    by_cases hpos : 0 < contentLen
    · rw [parseHttpAt_ok_iff hp hpos (by unfold farthest at hlong; omega)]
      exact ⟨fun h _ => h, fun h => h hpos⟩
    · refine iff_of_true ?_ fun h => absurd h hpos
      have hturns : contentLen.toNat = 0 := by omega
      unfold parseHttpAt scanHeadersWith
      rw [hturns]
      split
      · exact ⟨_, rfl⟩
      · exact ⟨_, rfl⟩
  rw [← hparse]
  constructor
  · intro h
    obtain ⟨r, hr, -⟩ := bind_eq_ok.mp h
    exact ⟨r, hr⟩
  · rintro ⟨⟨ret, lines, nextPos⟩, hr⟩
    obtain ⟨hnext, hnext'⟩ := remainPos_of_parseHttpAt hr
    have hroom : contentLen ≤ (mem.drop (p + nextPos.toNat)).length := by
      unfold farthest at hlong
      rw [List.length_drop]
      omega
    obtain ⟨text, htext⟩ := exists_printHexText hroom (by omega)
    rw [hr, ok_bind, htext]
    rfl

/-- A frame of a type that is taken is printed to the end unless its payload has an empty line in front of the first break. -/
theorem erase_printAt_iff (localTime : Int → Bytes) {pkt : Packet} {ih : Nat} (hih : ih ≤ 18) (hlong : farthest ≤ pkt.memory.length) :
    (printAt localTime pkt ih).erase = .ok ⟨⟩ ↔
      ∀ p contentLen, decodeAt pkt.memory ih = .ok (some (p, contentLen)) → 0 < contentLen →
        ¬EmptyLineBehind ((pkt.memory.drop p).take contentLen.toNat) := by
  have hlen : 131129 ≤ pkt.memory.length := hlong
  obtain ⟨vhl, hvhl⟩ : ∃ vhl, IpHeader.ipVhl pkt.memory ih = .ok vhl := exists_readAt.mpr (by omega)
  obtain ⟨l, hl⟩ : ∃ l, IpHeader.ipLen pkt.memory ih = .ok l := exists_ntohsAt _ _ (by omega)
  obtain ⟨ipP, hp⟩ : ∃ p, IpHeader.ipP pkt.memory ih = .ok p := exists_readAt.mpr (by omega)
  unfold printAt
  simp only [erase_bind, erase_lift, hvhl, hl, hp, ok_bind]
  by_cases htcp : IpHeader.isTcp vhl ipP = true
  · obtain ⟨hf, hhf⟩ : ∃ hf, TcpHeader.hlenFlags pkt.memory (ih + ipHdrLen) = .ok hf :=
      exists_ntohsAt _ _ (by unfold ipHdrLen; omega)
    obtain ⟨w, hw⟩ : ∃ w, TcpHeader.winSize pkt.memory (ih + ipHdrLen) = .ok w := exists_ntohsAt _ _ (by unfold ipHdrLen; omega)
    obtain ⟨text, htext⟩ : ∃ text, printEtherHeader pkt.memory = .ok text := exists_printEtherHeader (by omega)
    have hip : (printIpHeader pkt.memory ih).erase = .ok ⟨⟩ := erase_printIpHeader (by omega)
    have htcpHeader : (printTcpHeader pkt.memory (ih + ipHdrLen)).erase = .ok ⟨⟩ := erase_printTcpHeader (by unfold ipHdrLen; omega)
    have hheader : TcpHeader.tcpHl hf ≤ 60 := by
      unfold TcpHeader.tcpHl
      have hnibble : ((hf >>> 12) &&& 0x0f).toNat ≤ 15 := by
        rw [UInt16.toNat_and]
        exact Nat.and_le_right
      omega
    have hdecode : ∀ p contentLen, decodeAt pkt.memory ih = .ok (some (p, contentLen)) ↔
        p = ih + ipHdrLen + TcpHeader.tcpHl hf ∧ contentLen = payloadLen l hf := by
      intro p contentLen
      rw [decodeAt_eq_some]
      constructor
      · rintro ⟨-, hf', l', w', hhf', hl', -, he⟩
        cases hhf.symm.trans hhf'
        cases hl.symm.trans hl'
        exact Prod.mk.inj he
      · rintro ⟨rfl, rfl⟩
        exact ⟨⟨vhl, ipP, hvhl, hp, htcp⟩, hf, l, w, hhf, hl, hw, rfl⟩
    have hpayload := printPayload_ok_iff pkt.memory (ih + ipHdrLen + TcpHeader.tcpHl hf) (payloadLen l hf)
      (by unfold ipHdrLen; omega) (by unfold ipHdrLen; omega) (by have := l.toNat_lt; unfold payloadLen ipHdrLen; omega) hlong
    rw [if_pos htcp]
    simp only [erase_bind, erase_lift, erase_tell, hhf, htext, hip, htcpHeader, ok_bind]
    refine Iff.trans hpayload ?_
    constructor
    · intro h p contentLen hd
      obtain ⟨rfl, rfl⟩ := (hdecode p contentLen).mp hd
      exact h
    · intro h
      exact h _ _ ((hdecode _ _).mpr ⟨rfl, rfl⟩)
  · obtain ⟨text, htext⟩ : ∃ text, printHexText pkt.memory 40 = .ok text := exists_printHexText (by omega) (by decide)
    rw [if_neg htcp]
    simp only [erase_bind, erase_lift, erase_tell, htext, ok_bind]
    refine iff_of_true trivial fun p contentLen hd => ?_
    obtain ⟨⟨vhl', p', hvhl', hp', htcp'⟩, -⟩ := decodeAt_eq_some.mp hd
    cases hvhl.symm.trans hvhl'
    cases hp.symm.trans hp'
    exact absurd htcp' htcp

end PcapHandler

/-! ## `cgidump` -/

namespace Capturing

open Logged

/-- The `ParsePkg` of the program, which stays as it is constructed. -/
def notInited : CgiDump := { parsePkg := ParsePkg.new, i := 0 }

/-- The lines about a frame, by a program that has seen no other; nothing where it faults. -/
def linesAlone (localTime : Int → Bytes) (pkt : Packet) : Option (List Line) :=
  (pcapHandlerLogged localTime notInited pkt).run.toOption.map Prod.snd

/-- A call of the handler tells that nothing is initialised, decodes the frame and prints what it found. -/
theorem run_handler_eq_ok {localTime : Int → Bytes} {pkt : Packet} {s : CgiDump} {lines : List Line} :
    (pcapHandlerLogged localTime notInited pkt).run = .ok (s, lines) ↔
      s = notInited ∧ ∃ found rest, (PcapHandler.ipHeaderLogged pkt.memory).run = .ok (found, rest) ∧
        ((found = none ∧ lines = .notInitilized :: rest) ∨
          ∃ ih printed, found = some ih ∧ (PcapHandler.printAt localTime pkt ih).run = .ok (⟨⟩, printed) ∧
            lines = .notInitilized :: (rest ++ printed)) := by
  have hinput : notInited.inputPkg pkt.memory pkt.h.caplen.toNat = tell [.notInitilized] >>= fun _ => pure ((false, none), notInited) := rfl
  unfold pcapHandlerLogged
  rw [hinput]
  constructor
  · intro h
    obtain ⟨r, v, v', hr, hrest, rfl⟩ := run_bind_eq_ok.mp h
    obtain ⟨rfl, rfl⟩ := run_tell_pure_eq_ok.mp hr
    obtain ⟨found, rest, w, hfound, hrest, rfl⟩ := run_bind_eq_ok.mp hrest
    cases found with
    | none =>
      obtain ⟨rfl, rfl⟩ := run_pure_eq_ok.mp hrest
      exact ⟨rfl, none, rest, hfound, Or.inl ⟨rfl, by rw [List.append_nil]; rfl⟩⟩
    | some ih =>
      obtain ⟨_, printed, w', hprinted, hend, rfl⟩ := run_bind_eq_ok.mp hrest
      obtain ⟨rfl, rfl⟩ := run_pure_eq_ok.mp hend
      exact ⟨rfl, some ih, rest, hfound, Or.inr ⟨ih, printed, rfl, hprinted, by rw [List.append_nil]; rfl⟩⟩
  · rintro ⟨rfl, found, rest, hfound, ⟨rfl, rfl⟩ | ⟨ih, printed, rfl, hprinted, rfl⟩⟩
    · refine run_bind_eq_ok.mpr ⟨_, [.notInitilized], rest, run_tell_pure_eq_ok.mpr ⟨rfl, rfl⟩, ?_, rfl⟩
      exact run_bind_eq_ok.mpr ⟨none, rest, [], hfound, run_pure_eq_ok.mpr ⟨rfl, rfl⟩, (List.append_nil rest).symm⟩
    · refine run_bind_eq_ok.mpr ⟨_, [.notInitilized], rest ++ printed, run_tell_pure_eq_ok.mpr ⟨rfl, rfl⟩, ?_, rfl⟩
      refine run_bind_eq_ok.mpr ⟨some ih, rest, printed, hfound, ?_, rfl⟩
      exact run_bind_eq_ok.mpr ⟨⟨⟩, printed, [], hprinted, run_pure_eq_ok.mpr ⟨rfl, rfl⟩, (List.append_nil printed).symm⟩

variable {φ ψ : Type}

/-- A frame is saved, and gives the lines it gives alone. -/
theorem step_start {F : Savefile φ ψ} {localTime : Int → Bytes} (dumper : Option φ) (pkt : Packet) :
    (machine F localTime).step ⟨notInited, dumper⟩ pkt =
      (linesAlone localTime pkt).map fun lines => (lines, ⟨notInited, dumper.map fun f => F.dump f pkt.h pkt.memory⟩) := by
  have hrun : (pcapHandler F localTime ⟨notInited, dumper⟩ pkt).run = (pcapHandlerLogged localTime notInited pkt).run.map fun r =>
      (⟨r.1, dumper.map fun f => F.dump f pkt.h pkt.memory⟩, r.2) := run_bind_pure _ _
  change (pcapHandler F localTime ⟨notInited, dumper⟩ pkt).run.toOption.map _ = _
  rw [hrun]
  unfold linesAlone
  cases hone : (pcapHandlerLogged localTime notInited pkt).run with
  | error e => rfl
  | ok r =>
    obtain ⟨s, lines⟩ := r
    obtain ⟨rfl, -⟩ := run_handler_eq_ok.mp hone
    rfl

/-- The file after some frames. -/
def saved (F : Savefile φ ψ) (f : φ) (pkts : List Packet) : φ := pkts.foldl (fun f pkt => F.dump f pkt.h pkt.memory) f

/-- A run saves every frame, and gives the lines of each alone. -/
theorem run_start {F : Savefile φ ψ} {localTime : Int → Bytes} {dumper : Option φ} {pkts : List Packet} {reps : List (List Line)}
    {s : Capturing φ} :
    (machine F localTime).run ⟨notInited, dumper⟩ pkts = some (reps, s) ↔
      pkts.map (linesAlone localTime) = reps.map some ∧ s = ⟨notInited, dumper.map fun f => saved F f pkts⟩ := by
  induction pkts generalizing dumper reps with
  | nil =>
    have hsame : (dumper.map fun f => saved F f []) = dumper := by cases dumper <;> rfl
    rw [hsame, Machine.run_nil, Option.some.injEq, Prod.mk.injEq, List.map_nil, @eq_comm _ [] (reps.map some), List.map_eq_nil_iff,
      @eq_comm _ [] reps, @eq_comm _ _ s]
  | cons pkt pkts ih =>
    have hsaved : ((dumper.map fun f => F.dump f pkt.h pkt.memory).map fun f => saved F f pkts) =
        dumper.map fun f => saved F f (pkt :: pkts) := by
      rw [Option.map_map]
      rfl
    rw [Machine.run_cons_eq_some, List.map_cons]
    constructor
    · rintro ⟨lines, s', reps', hstep, hrun, rfl⟩
      rw [step_start] at hstep
      obtain ⟨lines', hlines, he⟩ := Option.map_eq_some_iff.mp hstep
      cases he
      obtain ⟨hall, rfl⟩ := ih.mp hrun
      exact ⟨by rw [hlines, hall, List.map_cons], by rw [hsaved]⟩
    · rintro ⟨hall, rfl⟩
      cases reps with
      | nil => cases hall
      | cons lines reps =>
        obtain ⟨hlines, hall⟩ := List.cons.inj hall
        refine ⟨lines, _, reps, ?_, ih.mpr ⟨hall, by rw [hsaved]⟩, rfl⟩
        rw [step_start, hlines, Option.map_some]

/-- Where `main` comes to the capture: `Init` was not called, and there is a file if a name was given that is not empty. -/
theorem start_of_cgidumpMain {F : Savefile φ ψ} {env : SniffEnv} {argv : List Bytes} {text : Bytes} {s : Capturing φ}
    (h : cgidumpMain F env argv = .ok (text, some s)) :
    s = ⟨notInited, s.dumper⟩ ∧
      ∀ fname, argv[4]? = some fname → fname ≠ [] → ∃ f, F.dumpOpen fname = some f ∧ s.dumper = some f := by
  unfold cgidumpMain at h
  split at h
  · rename_i name dev port cgi rest
    obtain ⟨⟨found, ip⟩, -, h⟩ := bind_eq_ok.mp h
    dsimp only at h
    -- the checks that return
    split at h
    · cases h
    split at h
    · cases h
    split at h
    · cases h
    split at h
    · cases h
    split at h
    · cases h
    cases rest with
    | nil =>
      cases h
      exact ⟨rfl, nofun⟩
    | cons dumpfile rest =>
      have hfourth : (name :: dev :: port :: cgi :: dumpfile :: rest)[4]? = some dumpfile := rfl
      dsimp only at h
      split at h
      · rename_i hempty
        cases h
        refine ⟨rfl, fun fname hfname hne => ?_⟩
        rw [hfourth] at hfname
        cases hfname
        exact absurd hempty hne
      · split at h
        · cases h
        · rename_i f hf
          cases h
          refine ⟨rfl, fun fname hfname _ => ?_⟩
          rw [hfourth] at hfname
          cases hfname
          exact ⟨f, hf, rfl⟩
  · cases h

/-- The streams after a run that started with `text` on `std::cout`. -/
def consoleOf (text : Bytes) (reps : List (List Line)) : Console :=
  ({ Console.new with cout := OStringStream.new.put text } : Console).writeAll reps.flatten

/-- Every line about a frame alone is a plain one, and the first is that there was no `Init`. -/
theorem plain_of_linesAlone {localTime : Int → Bytes} {pkt : Packet} {lines : List Line} (h : linesAlone localTime pkt = some lines) :
    lines.head? = some .notInitilized ∧ ∀ l ∈ lines, PcapHandler.IsPlain l := by
  obtain ⟨⟨s, lines'⟩, hrun, rfl⟩ := Option.map_eq_some_iff.mp h
  obtain ⟨-, found, rest, hfound, hlines⟩ := run_handler_eq_ok.mp (toOption_eq_some.mp hrun)
  have hrest := PcapHandler.only_ipHeaderLogged pkt.memory found rest hfound
  rcases hlines with ⟨-, rfl⟩ | ⟨ih, printed, -, hprinted, rfl⟩
  · exact ⟨rfl, List.forall_mem_cons.mpr ⟨⟨rfl, rfl⟩, hrest⟩⟩
  · have hprint := PcapHandler.only_printAt localTime pkt ih _ printed hprinted
    refine ⟨rfl, List.forall_mem_cons.mpr ⟨⟨rfl, rfl⟩, fun l hl => ?_⟩⟩
    rcases List.mem_append.mp hl with hl | hl
    · exact hrest l hl
    · exact hprint l hl

end Capturing

/-- Plain lines are written one behind the other in the mode that `std::cout` is in. -/
theorem Console.writeAll_plain {c : Console} (hc : c.Settled) {ls : List Line} (hls : ∀ l ∈ ls, PcapHandler.IsPlain l) :
    (c.writeAll ls).cout.str = c.cout.str ++ ls.flatMap (fun l => l.shown c.cout.hex) ∧ (c.writeAll ls).cerr = c.cerr := by
  induction ls generalizing c with
  | nil => exact ⟨(List.append_nil _).symm, rfl⟩
  | cons l ls ih =>
    obtain ⟨⟨hhex, hcerr⟩, htail⟩ := List.forall_mem_cons.mp hls
    obtain ⟨hsettled, hmode, hstr⟩ := Console.write_spec hc l
    have hsame : (c.write l).cerr = c.cerr := by
      unfold Console.write
      rw [hcerr]
      rfl
    rw [hhex, Bool.or_false] at hmode
    rw [hcerr, if_neg Bool.false_ne_true] at hstr
    obtain ⟨hcout, hcerr'⟩ := ih hsettled htail
    refine ⟨?_, hcerr'.trans hsame⟩
    rw [List.flatMap_cons, ← List.append_assoc, ← hstr, ← hmode]
    exact hcout

namespace Capturing

open Logged

variable {φ ψ : Type}

/-- In every run of `cgidump`, with whatever arguments `main` goes on to the capture, and on whatever frames: its `ParsePkg` is never
initialised and has no session; it saves every frame, if it has a file; it writes about each frame what it writes about this frame alone,
first that there was no `Init`; and all of it goes to `std::cout`, behind what `main` has written there, and in decimal. -/
theorem cgidump_run {F : Savefile φ ψ} {env : SniffEnv} {argv : List Bytes} {text : Bytes} {s₀ : Capturing φ}
    (hmain : cgidumpMain F env argv = .ok (text, some s₀)) {localTime : Int → Bytes} {pkts : List Packet} {reps : List (List Line)}
    {s : Capturing φ} (h : (machine F localTime).run s₀ pkts = some (reps, s)) :
    s.cgiDump.parsePkg.mInited = false ∧ s.cgiDump.parsePkg.mSessions = ∅ ∧
      s.dumper = s₀.dumper.map (fun f => pkts.foldl (fun f pkt => F.dump f pkt.h pkt.memory) f) ∧
      pkts.map (linesAlone localTime) = reps.map some ∧ (∀ lines ∈ reps, lines.head? = some .notInitilized) ∧
      (consoleOf text reps).cout.str = text ++ reps.flatten.flatMap (fun l => l.shown false) ∧ (consoleOf text reps).cerr.str = [] := by
  rw [(start_of_cgidumpMain hmain).1] at h
  obtain ⟨hall, rfl⟩ := run_start.mp h
  have halone : ∀ lines ∈ reps, ∃ pkt, linesAlone localTime pkt = some lines := by
    intro lines hlines
    have hmem := List.mem_map_of_mem (f := some) hlines
    rw [← hall] at hmem
    obtain ⟨pkt, -, hpkt⟩ := List.mem_map.mp hmem
    exact ⟨pkt, hpkt⟩
  have hplain : ∀ l ∈ reps.flatten, PcapHandler.IsPlain l := by
    intro l hl
    obtain ⟨lines, hlines, hl⟩ := List.mem_flatten.mp hl
    obtain ⟨pkt, hpkt⟩ := halone lines hlines
    exact (plain_of_linesAlone hpkt).2 l hl
  have hsettled : ({ Console.new with cout := OStringStream.new.put text } : Console).Settled := ⟨rfl, rfl, rfl⟩
  have htext : (OStringStream.new.put text).str = text := by simp [OStringStream.put, OStringStream.new]
  obtain ⟨hcout, hcerr⟩ := Console.writeAll_plain hsettled hplain
  refine ⟨rfl, rfl, rfl, hall, fun lines hlines => ?_, ?_, congrArg OStringStream.str hcerr⟩
  · obtain ⟨pkt, hpkt⟩ := halone lines hlines
    exact (plain_of_linesAlone hpkt).1
  · refine hcout.trans ?_
    dsimp only
    rw [htext]
    rfl

/-- There are lines about a frame unless it is decoded and its payload has an empty line in front of the first break. -/
theorem isSome_linesAlone_iff (localTime : Int → Bytes) {pkt : Packet} (hlong : PcapHandler.farthest ≤ pkt.memory.length) :
    (linesAlone localTime pkt).isSome ↔
      ∀ p contentLen, PcapHandler.decode pkt.memory = .ok (some (p, contentLen)) → 0 < contentLen →
        ¬EmptyLineBehind ((pkt.memory.drop p).take contentLen.toNat) := by
  have hlen : 131129 ≤ pkt.memory.length := hlong
  have hrun : (linesAlone localTime pkt).isSome ↔ ∃ lines, (pcapHandlerLogged localTime notInited pkt).run = .ok (notInited, lines) := by
    unfold linesAlone
    cases hone : (pcapHandlerLogged localTime notInited pkt).run with
    | error e => exact iff_of_false (by simp [Except.toOption]) nofun
    | ok r =>
      obtain ⟨s, lines⟩ := r
      obtain ⟨rfl, -⟩ := run_handler_eq_ok.mp hone
      exact iff_of_true rfl ⟨lines, rfl⟩
  obtain ⟨found, hfound⟩ : ∃ found, PcapHandler.ipHeader pkt.memory = .ok found := by
    obtain ⟨t, ht⟩ : ∃ t, EtherHeader.etherLengthType pkt.memory 0 = .ok t := exists_ntohsAt _ _ (by omega)
    obtain ⟨u, hu⟩ : ∃ u, VlanHeader.lengthType pkt.memory (etherHdrLen + vlanLen) = .ok u :=
      exists_ntohsAt _ _ (by unfold etherHdrLen vlanLen; omega)
    unfold PcapHandler.ipHeader
    rw [ht, ok_bind, hu]
    simp only [ok_bind]
    split
    · split
      · exact ⟨_, rfl⟩
      · exact ⟨_, rfl⟩
    · split
      · exact ⟨_, rfl⟩
      · exact ⟨_, rfl⟩
  have hlogged := hfound
  rw [← PcapHandler.erase_ipHeaderLogged] at hlogged
  obtain ⟨rest, hrest⟩ := erase_eq_ok.mp hlogged
  rw [hrun]
  cases found with
  | none =>
    refine iff_of_true ⟨_, run_handler_eq_ok.mpr ⟨rfl, none, rest, hrest, Or.inl ⟨rfl, rfl⟩⟩⟩ fun p contentLen hd => ?_
    obtain ⟨ih, hih, -⟩ := PcapHandler.decode_eq_some.mp hd
    cases hfound.symm.trans hih
  | some ih =>
    have hplace : ih ≤ 18 := by
      rcases PcapHandler.ipHeader_eq_some.mp hfound with ⟨-, -, rfl⟩ | ⟨-, rfl⟩
      · decide
      · decide
    have hdecode : ∀ p contentLen, PcapHandler.decode pkt.memory = .ok (some (p, contentLen)) ↔
        PcapHandler.decodeAt pkt.memory ih = .ok (some (p, contentLen)) := by
      intro p contentLen
      unfold PcapHandler.decode
      rw [hfound, ok_bind]
    simp only [hdecode]
    rw [← PcapHandler.erase_printAt_iff localTime hplace hlong, erase_eq_ok]
    constructor
    · rintro ⟨lines, hlines⟩
      obtain ⟨-, found, rest', hfound', ⟨rfl, -⟩ | ⟨ih', printed, rfl, hprinted, -⟩⟩ := run_handler_eq_ok.mp hlines
      · cases hrest.symm.trans hfound'
      · cases hrest.symm.trans hfound'
        exact ⟨printed, hprinted⟩
    · rintro ⟨printed, hprinted⟩
      exact ⟨_, run_handler_eq_ok.mpr ⟨rfl, some ih, rest, hrest, Or.inr ⟨ih, printed, rfl, hprinted, rfl⟩⟩⟩

/-- `cgidump` goes through a capture, where libpcap's memory reaches as far behind each frame as a dump may look, exactly when no frame
that is decoded has a payload with an empty line, other than one in its first two bytes, in front of the first break. -/
theorem cgidump_goes_on_iff {F : Savefile φ ψ} {env : SniffEnv} {argv : List Bytes} {text : Bytes} {s₀ : Capturing φ}
    (hmain : cgidumpMain F env argv = .ok (text, some s₀)) (localTime : Int → Bytes) {pkts : List Packet}
    (hlong : ∀ pkt ∈ pkts, PcapHandler.farthest ≤ pkt.memory.length) :
    (∃ reps s, (machine F localTime).run s₀ pkts = some (reps, s)) ↔
      ∀ pkt ∈ pkts, ∀ p contentLen, PcapHandler.decode pkt.memory = .ok (some (p, contentLen)) → 0 < contentLen →
        ¬EmptyLineBehind ((pkt.memory.drop p).take contentLen.toNat) := by
  rw [(start_of_cgidumpMain hmain).1]
  simp only [run_start]
  constructor
  · rintro ⟨reps, s, hall, -⟩ pkt hpkt
    have hmem := List.mem_map_of_mem (f := linesAlone localTime) hpkt
    rw [hall] at hmem
    obtain ⟨lines, -, hlines⟩ := List.mem_map.mp hmem
    exact (isSome_linesAlone_iff localTime (hlong pkt hpkt)).mp (by rw [← hlines]; rfl)
  · intro h
    refine ⟨pkts.map fun pkt => (linesAlone localTime pkt).getD [], _, ?_, rfl⟩
    rw [List.map_map]
    refine List.map_congr_left fun pkt hpkt => ?_
    obtain ⟨lines, hlines⟩ := Option.isSome_iff_exists.mp ((isSome_linesAlone_iff localTime (hlong pkt hpkt)).mpr (h pkt hpkt))
    rw [Function.comp_apply, hlines, Option.getD_some]

end Capturing

/-! ## `mock` -/

section

variable {φ ψ : Type}

/-- The first frames that `pcap_next` gives. -/
def Savefile.frames (F : Savefile φ ψ) : Nat → ψ → List Packet
  | 0, _ => []
  | n + 1, pc =>
    match F.next pc with
    | none => []
    | some (pkt, pc) => pkt :: F.frames n pc

/-- They are the first of those that are left in the file. -/
theorem Savefile.Lawful.frames_eq {F : Savefile φ ψ} {contents : φ → List Bytes} {remaining : ψ → List Bytes}
    (hF : F.Lawful contents remaining) (n : Nat) (pc : ψ) : (F.frames n pc).map Packet.bytes = (remaining pc).take n := by
  induction n generalizing pc with
  | zero => rfl
  | succ n ih =>
    rw [frames]
    cases hleft : remaining pc with
    | nil =>
      rw [hF.next_nil pc hleft]
      rfl
    | cons bytes rest =>
      obtain ⟨pkt, pc', hnext, hbytes, hrest⟩ := hF.next_cons pc bytes rest hleft
      rw [hnext, List.take_succ_cons]
      dsimp only
      rw [List.map_cons, ih pc', hrest, hbytes]

/-- What was saved in a new file is the frames. -/
theorem Savefile.Lawful.contents_saved {F : Savefile φ ψ} {contents : φ → List Bytes} {remaining : ψ → List Bytes}
    (hF : F.Lawful contents remaining) (f : φ) (pkts : List Packet) :
    contents (Capturing.saved F f pkts) = contents f ++ pkts.map Packet.bytes := by
  induction pkts generalizing f with
  | nil => exact (List.append_nil _).symm
  | cons pkt pkts ih =>
    have hone : Capturing.saved F f (pkt :: pkts) = Capturing.saved F (F.dump f pkt.h pkt.memory) pkts := rfl
    rw [hone, ih, hF.dump, List.append_assoc]
    rfl

namespace Mock

/-- The loop takes frames up to the one with which `count` is 21. -/
theorem loop_eq (F : Savefile φ ψ) (s : CgiDump) {count : Int} {left : Nat} (hleft : count + left = 21) (pc : ψ) :
    loop F s count pc = CgiDump.machine.run s ((F.frames (left + 1) pc).map Packet.bytes) := by
  induction left generalizing s count pc with
  | zero =>
    rw [loop, Savefile.frames]
    cases F.next pc with
    | none => rfl
    | some r =>
      obtain ⟨pkt, pc'⟩ := r
      dsimp only
      rw [List.map_cons, Machine.run, Savefile.frames]
      cases CgiDump.machine.step s pkt.bytes with
      | none => rfl
      | some r =>
        dsimp only
        rw [if_pos (by omega)]
        rfl
  | succ left ih =>
    rw [loop, Savefile.frames]
    cases F.next pc with
    | none => rfl
    | some r =>
      obtain ⟨pkt, pc'⟩ := r
      dsimp only
      rw [List.map_cons, Machine.run]
      cases CgiDump.machine.step s pkt.bytes with
      | none => rfl
      | some r =>
        dsimp only
        rw [if_neg (by omega), ih r.2 (by omega) pc']

/-- What `cgidump` saved under a name, once all of it is written out, `mock` takes from there: the first 22 frames, or all if there are
fewer, as far as they were captured and as `InputPkg` takes these frames themselves after `Init`. -/
theorem mock_replays {F : Savefile φ ψ} {contents : φ → List Bytes} {remaining : ψ → List Bytes} (hF : F.Lawful contents remaining)
    {env : SniffEnv} {argv : List Bytes} {text : Bytes} {s₀ : Capturing φ} (hmain : cgidumpMain F env argv = .ok (text, some s₀))
    {fname : Bytes} (hargv : argv[4]? = some fname) (hfname : fname ≠ []) {localTime : Int → Bytes} {pkts : List Packet}
    {reps : List (List Line)} {s : Capturing φ} (h : (Capturing.machine F localTime).run s₀ pkts = some (reps, s))
    {files : Bytes → Option φ} (hfiles : files fname = s.dumper) (name : Bytes) :
    main F files [name, fname] =
      (CgiDump.machine.run (CgiDump.init (ascii "10.197.136.192") 11135) ((pkts.take 22).map Packet.bytes)).map some := by
  obtain ⟨hstart, hfile⟩ := Capturing.start_of_cgidumpMain hmain
  obtain ⟨f, hopen, hdumper⟩ := hfile fname hargv hfname
  rw [hstart] at h
  obtain ⟨-, rfl⟩ := Capturing.run_start.mp h
  obtain ⟨pc, hpc, hremaining⟩ := hF.openOffline (Capturing.saved F f pkts)
  have hread : (files fname).bind F.openOffline = some pc := by
    rw [hfiles]
    dsimp only
    rw [hdumper]
    exact hpc
  rw [main, hread, List.map_take]
  dsimp only
  rw [loop_eq F _ (by decide : (0 : Int) + (21 : Nat) = 21) pc, hF.frames_eq, hremaining, hF.contents_saved,
    hF.dumpOpen fname f hopen, List.nil_append]

end Mock

end

/-! ## A capture with payloads -/

/-- A file as a list of frames, with nothing behind them in memory when they are read. -/
def listFile : Savefile (List Packet) (List Packet) where
  dumpOpen _ := some []
  dump f h mem :=
    if hcap : h.caplen.toNat ≤ mem.length ∧ h.caplen.toNat ≤ defaultSnaplen then
      f ++ [⟨h, mem.take h.caplen.toNat, by rw [List.length_take]; omega, hcap.2⟩]
    else f
  openOffline f := some f
  next
    | [] => none
    | pkt :: pkts => some (pkt, pkts)

/-- A list of packets is a file that keeps what libpcap documents. -/
theorem listFile_lawful : listFile.Lawful (List.map Packet.bytes) (List.map Packet.bytes) where
  dumpOpen _ f h := by
    cases h
    rfl
  dump f pkt := by
    have hcap : pkt.h.caplen.toNat ≤ pkt.memory.length ∧ pkt.h.caplen.toNat ≤ defaultSnaplen := ⟨pkt.captured, pkt.snapped⟩
    unfold listFile
    dsimp only
    rw [dif_pos hcap, List.map_append, List.map_singleton]
    simp [Packet.bytes]
  openOffline f := ⟨f, rfl, rfl⟩
  next_nil pc h := by
    rw [List.map_eq_nil_iff.mp h]
    rfl
  next_cons pc bytes rest h := by
    cases pc with
    | nil => cases h
    | cons pkt pkts =>
      obtain ⟨hbytes, hrest⟩ := List.cons.inj h
      exact ⟨pkt, pkts, rfl, hbytes, hrest⟩

/-- A frame with a whole request to the server that `mock` knows, and what lies behind it. -/
def requestPacket (behind : Bytes) : Packet where
  h := { tvSec := 1519800000, tvUsec := 250000, caplen := 79, len := 79 }
  memory := frameOf [0x08, 0x00] 65 [10, 0, 0, 1, 10, 197, 136, 192] [0x1F, 0x90, 0x2B, 0x7F] 5 HttpBuf.emptyGet.bytes ++ behind
  captured := by
    rw [List.length_append]
    exact Nat.le_add_right 79 _
  snapped := by decide

/-- A frame with a payload that begins with a line feed. -/
def lineFeedPacket (behind : Bytes) : Packet where
  h := { tvSec := 1519800001, tvUsec := 0, caplen := 59, len := 59 }
  memory := frameOf [0x08, 0x00] 45 [10, 0, 0, 1, 10, 197, 136, 192] [0x1F, 0x90, 0x2B, 0x7F] 5 (ascii "\nGET\n") ++ behind
  captured := by
    rw [List.length_append]
    exact Nat.le_add_right 59 _
  snapped := by decide

/-- A capture of both. -/
def requestAndLineFeed (behind : Bytes) : List Packet := [requestPacket behind, lineFeedPacket behind]

/-- The local time of one second. -/
def noon (_ : Int) : Bytes := ascii "2018-02-28 12:00:00"

/-- There is one device, and all calls succeed. -/
def oneDevice : SniffEnv where
  alldevs := some [⟨ascii "eth0", []⟩]
  lookupnet := true
  openLive := true
  compile _ := true
  setfilter := true
  ebuf := []

/-- The arguments of a capture that is saved. -/
def savingArgv : List Bytes := [ascii "cgidump", ascii "eth0", ascii "11135", ascii "login", ascii "out.pcap"]

namespace Capturing

/-- `cgidump` starts with these arguments. -/
theorem start_savingArgv :
    cgidumpMain listFile oneDevice savingArgv =
      .ok (ascii "creating a sniffing session with dev[eth0]\n", some ⟨notInited, some []⟩) := rfl

/-- The handler comes back from both packets. -/
theorem exists_run_requestAndLineFeed :
    ∃ reps s, (machine listFile noon).run ⟨notInited, some []⟩ (requestAndLineFeed (List.replicate 64 0)) = some (reps, s) := by
  have hsome : ((machine listFile noon).run ⟨notInited, some []⟩ (requestAndLineFeed (List.replicate 64 0))).isSome := by decide +kernel
  obtain ⟨⟨reps, s⟩, hrun⟩ := Option.isSome_iff_exists.mp hsome
  exact ⟨reps, s, hrun⟩

/-- `cgidump` on a request and a line feed. -/
theorem cgidump_run_requestAndLineFeed :
    ∃ reps s, (machine listFile noon).run ⟨notInited, some []⟩ (requestAndLineFeed (List.replicate 64 0)) = some (reps, s) ∧
      s.cgiDump.parsePkg.mSessions = ∅ ∧
      (consoleOf (ascii "creating a sniffing session with dev[eth0]\n") reps).cout.str =
        ascii "creating a sniffing session with dev[eth0]\n" ++ reps.flatten.flatMap (fun l => l.shown false) := by
  obtain ⟨reps, s, hrun⟩ := exists_run_requestAndLineFeed
  obtain ⟨-, hsessions, -, -, -, hcout, -⟩ := cgidump_run start_savingArgv hrun
  exact ⟨reps, s, hrun, hsessions, hcout⟩

/-- The same packets with enough memory behind them for the longest dump. -/
theorem cgidump_goes_on_iff_requestAndLineFeed :
    (∃ reps s, (machine listFile noon).run ⟨notInited, some []⟩ (requestAndLineFeed (List.replicate 131129 0)) = some (reps, s)) ↔
      ∀ pkt ∈ requestAndLineFeed (List.replicate 131129 0), ∀ p contentLen,
        PcapHandler.decode pkt.memory = .ok (some (p, contentLen)) → 0 < contentLen →
          ¬EmptyLineBehind ((pkt.memory.drop p).take contentLen.toNat) := by
  refine cgidump_goes_on_iff start_savingArgv noon fun pkt hpkt => ?_
  have hlong : ∀ frame : Bytes, PcapHandler.farthest ≤ (frame ++ List.replicate 131129 0).length := fun frame => by
    rw [List.length_append, List.length_replicate]
    exact Nat.le_add_left _ _
  rcases List.mem_cons.mp hpkt with rfl | hpkt
  · exact hlong _
  · rw [List.mem_singleton.mp hpkt]
    exact hlong _

end Capturing

/-- `mock` reads what `cgidump` saved of the two packets. -/
theorem Mock.mock_replays_requestAndLineFeed :
    ∃ reps s, (Capturing.machine listFile noon).run ⟨Capturing.notInited, some []⟩ (requestAndLineFeed (List.replicate 64 0)) =
        some (reps, s) ∧
      main listFile (fun _ => s.dumper) [ascii "mock", ascii "out.pcap"] =
        (CgiDump.machine.run (CgiDump.init (ascii "10.197.136.192") 11135)
          (((requestAndLineFeed (List.replicate 64 0)).take 22).map Packet.bytes)).map some := by
  obtain ⟨reps, s, hrun⟩ := Capturing.exists_run_requestAndLineFeed
  refine ⟨reps, s, hrun, mock_replays listFile_lawful Capturing.start_savingArgv rfl (by decide) hrun ?_ (ascii "mock")⟩
  rfl

end FrontServer
