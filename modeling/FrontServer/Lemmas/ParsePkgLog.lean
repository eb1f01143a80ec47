import FrontServer.Lemmas.Flows
import FrontServer.ParsePkgLog

/-!
# The lines of `cgidump` change nothing else

Without its lines each function is the one without a log (`erase_inputTcpPkgLogged` and so on, up to `CgiDump.erase_inputPkg`), and
the lines of a call are one block that says what became of the payload (`HttpBuf.Logs`).
-/

namespace FrontServer

open Logged

/-- The ring does the same with its lines as without them. -/
theorem TcpBuf.erase_inputTcpPkgLogged (b : TcpBuf) (data : Bytes) (len : Int) :
    (b.inputTcpPkgLogged data len).erase = b.inputTcpPkg data len := by
  unfold inputTcpPkgLogged inputTcpPkg
  split
  · rfl
  · simp only [erase_bind, erase_lift, erase_pure]
    rfl

namespace HttpBuf

/-- A header line is read the same with the lines as without them. -/
theorem fst_onLineLogged (h : HttpHead × List Line) (head : Bytes) : (onLineLogged h head).1 = onLine h.1 head := by
  unfold onLineLogged
  split
  · rfl
  · split
    · rfl
    · rfl

/-- The head is read the same with the lines as without them. -/
theorem erase_getHttpHeadersLogged (data : Bytes) (len remainPos : Int) :
    (getHttpHeadersLogged data len remainPos).erase = getHttpHeaders data len HttpHead.empty remainPos := by
  have hmap := scanHeaders_map fst_onLineLogged data len (HttpHead.empty, []) remainPos
  unfold getHttpHeadersLogged getHttpHeaders
  rw [hmap]
  simp only [erase_bind, erase_lift, erase_tell, erase_pure, ok_bind]
  cases scanHeaders onLineLogged data len (HttpHead.empty, []) remainPos with
  | error e => rfl
  | ok r => rfl

/-- A message is taken out the same with the lines as without them. -/
theorem erase_extractMessageLogged (h : HttpBuf) (contentLength : Bytes) (remainPos : Int) :
    (h.extractMessageLogged contentLength remainPos).erase = h.extractMessage contentLength remainPos := by
  unfold extractMessageLogged extractMessage
  simp only [erase_bind, erase_lift, erase_ite, erase_tell, erase_pure, ok_bind]
  refine bind_congr fun length => ?_
  split
  · refine bind_congr fun r => ?_
    split
    · rename_i hlen
      rw [decide_eq_false hlen]
      rfl
    · rename_i hlen
      rw [decide_eq_true (not_not.mp hlen)]
      rfl
  · rfl

/-- `HttpBuf::ParseHttpPkg` does the same with its lines as without them. -/
theorem erase_parseHttpPkgLogged (h : HttpBuf) : h.parseHttpPkgLogged.erase = h.parseHttpPkg := by
  unfold parseHttpPkgLogged parseHttpPkg
  simp only [erase_bind, erase_lift]
  refine bind_congr fun r => ?_
  split
  · rfl
  · simp only [erase_bind, erase_getHttpHeadersLogged]
    refine bind_congr fun r => ?_
    split
    · simp only [erase_bind, erase_tell, ok_bind]
      cases Finmap.lookup (ascii "Content-Length") r.2.1.headers with
      | none => rfl
      | some value => exact erase_extractMessageLogged _ _ _
    · rfl

/-- `HttpBuf::InputTcpPkg` does the same with its lines as without them. -/
theorem erase_inputTcpPkgLogged (h : HttpBuf) (data : Bytes) (len : Int) :
    (h.inputTcpPkgLogged data len).erase = h.inputTcpPkg data len := by
  unfold inputTcpPkgLogged inputTcpPkg
  simp only [erase_bind, erase_lift]
  refine bind_congr fun isHttp => ?_
  split
  · rfl
  · simp only [erase_bind, TcpBuf.erase_inputTcpPkgLogged]
    refine bind_congr fun r => ?_
    split
    · simp only [erase_bind, erase_parseHttpPkgLogged]
      rfl
    · rfl

/-! ## The lines of a call -/

/-- What an `InputTcpPkg` call writes for a payload of a client, by what becomes of it: it is dropped or refused, or it is taken, and
then the front of the buffer is read once. -/
inductive Logs (client : Bytes) (len : Int) : HttpReply → List Line → Prop where
  | dropped : Logs client len { ret := false, extracted := none } [.drop client len]
  | refused (remain : Int) :
    Logs client len { ret := false, extracted := none } [.bufferNotEnough client remain len, .inputToTcpFailed client len]
  | noContentLength (illegal : List Bytes) (line : Bytes) :
    Logs client len { ret := true, extracted := none } (illegal.map .illegalHead ++ [.firstLine line, .noContentLength client])
  | segmented (illegal : List Bytes) (line value : Bytes) :
    Logs client len { ret := true, extracted := none } (illegal.map .illegalHead ++ [.firstLine line, .segmented value])
  | taken (illegal : List Bytes) (line value : Bytes) (pos : Int) (message : Bytes) :
    Logs client len { ret := true, extracted := some message } (illegal.map .illegalHead ++ [.firstLine line, .contentLength value pos])

/-- The heads a scan calls illegal, next to what it fills in. -/
def onLineIllegal (h : HttpHead × List Bytes) (head : Bytes) : HttpHead × List Bytes :=
  (onLine h.1 head, if (Utils.splitByDelimiter head (ascii ":")).length = 2 ∨ h.1.headers = ∅ then h.2 else h.2 ++ [head])

/-- The lines that go with these heads. -/
def illegalLines (h : HttpHead × List Bytes) : HttpHead × List Line := (h.1, h.2.map .illegalHead)

/-- The lines written about a header line are those about illegal ones. -/
theorem onLineLogged_eq (h : HttpHead × List Bytes) (head : Bytes) :
    illegalLines (onLineIllegal h head) = onLineLogged (illegalLines h) head := by
  unfold onLineLogged onLineIllegal illegalLines
  dsimp only
  rcases Utils.splitByDelimiter head (ascii ":") with _ | ⟨k, _ | ⟨v, _ | ⟨w, pieces⟩⟩⟩
  all_goals by_cases hempty : h.1.headers = ∅ <;> simp [hempty]

/-- The header reader writes nothing but illegal heads, and does not fail where there is something to read. -/
theorem lines_of_getHttpHeadersLogged {data : Bytes} {len remainPos : Int} (hlen : len ≠ 0) {ret : Bool} {head : HttpHead} {pos : Int}
    {ls : List Line} (h : (getHttpHeadersLogged data len remainPos).run = .ok ((ret, head, pos), ls)) :
    ret = true ∧ ∃ illegal : List Bytes, ls = illegal.map .illegalHead := by
  obtain ⟨⟨ret', ⟨head', heads⟩, pos'⟩, hscan, hrest⟩ := run_lift_bind_eq_ok.mp h
  obtain ⟨he, rfl⟩ := run_tell_pure_eq_ok.mp hrest
  cases he
  have hmap := scanHeaders_map (f := illegalLines) onLineLogged_eq data len (HttpHead.empty, []) remainPos
  change scanHeaders onLineLogged data len (HttpHead.empty, []) remainPos = _ at hmap
  rw [hscan] at hmap
  constructor
  · unfold scanHeaders at hscan
    rw [if_neg (fun he => hlen he.symm)] at hscan
    obtain ⟨r, -, hr⟩ := bind_eq_ok.mp hscan
    exact (congrArg Prod.fst (Except.ok.inj hr)).symm
  · cases hres : scanHeaders onLineIllegal data len (HttpHead.empty, []) remainPos with
    | error e =>
      rw [hres] at hmap
      cases hmap
    | ok r =>
      rw [hres] at hmap
      have hlines := congrArg (fun p => p.2.1.2) (Except.ok.inj hmap)
      exact ⟨r.2.1.2, hlines⟩

/-- A message that is there is taken out whole. -/
theorem lines_of_extractMessageLogged {h h' : HttpBuf} {value : Bytes} {remainPos : Int} {reply : HttpReply} {ls : List Line}
    (hrun : (h.extractMessageLogged value remainPos).run = .ok ((reply, h'), ls)) :
    (∃ message, reply = { ret := true, extracted := some message } ∧ ls = [.contentLength value remainPos]) ∨
      reply = { ret := true, extracted := none } ∧ ls = [.segmented value] := by
  obtain ⟨length, -, hrest⟩ := run_lift_bind_eq_ok.mp hrun
  split at hrest
  · rename_i hge
    obtain ⟨⟨len, readBuf, tcpBuf⟩, hout, htaken⟩ := run_lift_bind_eq_ok.mp hrest
    have hlen : len = length := by
      unfold TcpBuf.outputTcpPkg at hout
      obtain ⟨r, -, hr⟩ := bind_eq_ok.mp hout
      cases hr
      unfold TcpBuf.cutLen
      rw [if_neg (by omega)]
    dsimp only at htaken
    rw [if_neg (not_not.mpr hlen)] at htaken
    obtain ⟨he, rfl⟩ := run_tell_pure_eq_ok.mp htaken
    cases he
    exact Or.inl ⟨_, rfl, rfl⟩
  · obtain ⟨he, rfl⟩ := run_tell_pure_eq_ok.mp hrest
    cases he
    exact Or.inr ⟨rfl, rfl⟩

/-- Reading the front of a buffer that holds something. -/
theorem logs_of_parseHttpPkgLogged {h h' : HttpBuf} (hwf : h.mTcpBuf.WellFormed) (hne : h.contents ≠ []) (len : Int) {reply : HttpReply}
    {ls : List Line} (hrun : h.parseHttpPkgLogged.run = .ok ((reply, h'), ls)) :
    Logs h.mTcpBuf.mClient len { reply with ret := true } ls := by
  have hpos : (0 : Int) < readBufSize := by decide
  obtain ⟨⟨n, readBuf⟩, hpeek, hread⟩ := run_lift_bind_eq_ok.mp hrun
  have hn : 0 < n := by
    unfold TcpBuf.preOutputTcpPkg at hpeek
    obtain ⟨r, -, hr⟩ := bind_eq_ok.mp hpeek
    cases hr
    have hheld : 0 < h.mTcpBuf.contents.length := List.length_pos_of_ne_nil hne
    rw [TcpBuf.cutLen_eq hwf]
    omega
  dsimp only at hread
  rw [if_neg (by omega)] at hread
  obtain ⟨⟨ret, head, pos⟩, w, w', hheaders, hfound, rfl⟩ := run_bind_eq_ok.mp hread
  obtain ⟨rfl, illegal, rfl⟩ := lines_of_getHttpHeadersLogged (by omega) hheaders
  dsimp only at hfound
  rw [if_pos rfl] at hfound
  obtain ⟨v, hlength, rfl⟩ := run_tell_bind_eq_ok.mp hfound
  cases hvalue : Finmap.lookup (ascii "Content-Length") head.headers with
  | none =>
    rw [hvalue] at hlength
    obtain ⟨he, rfl⟩ := run_tell_pure_eq_ok.mp hlength
    cases he
    exact Logs.noContentLength illegal _
  | some value =>
    rw [hvalue] at hlength
    rcases lines_of_extractMessageLogged hlength with ⟨message, rfl, rfl⟩ | ⟨rfl, rfl⟩
    · exact Logs.taken illegal _ _ _ message
    · exact Logs.segmented illegal _ _

/-- What a call of the ring writes: nothing where the payload is appended, and then there is something in the buffer unless the payload
is empty and it was empty before. -/
theorem run_ring_eq_ok {b b' : TcpBuf} (hwf : b.WellFormed) {data : Bytes} {len : Int} {ret : Bool} {ls : List Line}
    (hrun : (b.inputTcpPkgLogged data len).run = .ok ((ret, b'), ls)) :
    (ret = false ∧ b' = b ∧ ls = [.bufferNotEnough b.mClient b.remainSize len]) ∨
      ret = true ∧ b'.WellFormed ∧ b'.mClient = b.mClient ∧ b'.contents.length = b.contents.length + len ∧ ls = [] := by
  by_cases hfull : len > b.remainSize
  · unfold TcpBuf.inputTcpPkgLogged at hrun
    rw [if_pos hfull] at hrun
    obtain ⟨he, rfl⟩ := run_tell_pure_eq_ok.mp hrun
    cases he
    exact Or.inl ⟨rfl, rfl, rfl⟩
  · have hplain : b.inputTcpPkg data len = .ok (ret, b') := by
      rw [← TcpBuf.erase_inputTcpPkgLogged]
      exact erase_eq_ok.mpr ⟨ls, hrun⟩
    rw [TcpBuf.remainSize_eq hwf] at hfull
    obtain ⟨hlen, hdata⟩ := (TcpBuf.inputTcpPkg_eq_ok hwf hplain).resolve_left (by omega)
    obtain ⟨b₁, hin, hwf₁, hclient, hcontents⟩ := TcpBuf.inputTcpPkg_of_le hwf hlen hdata (by omega)
    rw [hplain] at hin
    cases hin
    have hlines : ls = [] := by
      unfold TcpBuf.inputTcpPkgLogged at hrun
      rw [if_neg (by rw [TcpBuf.remainSize_eq hwf]; exact hfull)] at hrun
      obtain ⟨b₁, -, hrest⟩ := run_lift_bind_eq_ok.mp hrun
      obtain ⟨buf, -, hpure⟩ := run_lift_bind_eq_ok.mp hrest
      exact (run_pure_eq_ok.mp hpure).2
    refine Or.inr ⟨rfl, hwf₁, hclient, ?_, hlines⟩
    rw [hcontents, List.length_append, List.length_take]
    omega

/-- What a call writes says what became of the payload. -/
theorem logs_of_inputTcpPkgLogged {h h' : HttpBuf} (hwf : h.mTcpBuf.WellFormed) {data : Bytes} {len : Int} {reply : HttpReply}
    {ls : List Line} (hrun : (h.inputTcpPkgLogged data len).run = .ok ((reply, h'), ls)) : Logs h.mTcpBuf.mClient len reply ls := by
  obtain ⟨isHttp, hhttp, hrest⟩ := run_lift_bind_eq_ok.mp hrun
  split at hrest
  · obtain ⟨he, rfl⟩ := run_tell_pure_eq_ok.mp hrest
    cases he
    exact Logs.dropped
  · rename_i hdrop
    obtain ⟨⟨ret, b⟩, w, w', hring, hafter, rfl⟩ := run_bind_eq_ok.mp hrest
    rcases run_ring_eq_ok hwf hring with ⟨rfl, rfl, rfl⟩ | ⟨rfl, hwf', hclient, hheld, rfl⟩
    · obtain ⟨he, rfl⟩ := run_tell_pure_eq_ok.mp hafter
      cases he
      exact Logs.refused _
    · obtain ⟨⟨reply', h₁⟩, u, u', hparse, hpure, rfl⟩ := run_bind_eq_ok.mp hafter
      obtain ⟨he, rfl⟩ := run_pure_eq_ok.mp hpure
      cases he
      -- an empty payload is no keyword, so that it has found something in the buffer
      have hne : HttpBuf.contents { h with mTcpBuf := b } ≠ [] := by
        intro hnil
        change b.contents = [] at hnil
        rw [hnil, List.length_nil] at hheld
        by_cases hzero : len = 0
        · subst hzero
          have hempty : h.contents = [] := List.length_eq_zero_iff.mp (by change h.mTcpBuf.contents.length = 0; omega)
          cases hhttp
          exact hdrop ⟨rfl, (contents_eq_nil_iff hwf).mp hempty⟩
        · have hneg : len < 0 := by omega
          have hplain := congrArg (Except.map Prod.fst) hring
          change (h.mTcpBuf.inputTcpPkgLogged data len).erase = .ok (true, b) at hplain
          rw [TcpBuf.erase_inputTcpPkgLogged] at hplain
          have hlen := TcpBuf.inputTcpPkg_eq_ok hwf hplain
          have hcap := TcpBuf.length_contents_le hwf
          omega
      have hlogs := logs_of_parseHttpPkgLogged hwf' hne len hparse
      rw [hclient] at hlogs
      simpa using hlogs

/-- Reading the front of a buffer leaves it the name of its client. -/
theorem mClient_of_parseHttpPkg {h h' : HttpBuf} {reply : HttpReply} (hok : h.parseHttpPkg = .ok (reply, h')) :
    h'.mTcpBuf.mClient = h.mTcpBuf.mClient := by
  obtain ⟨⟨n, readBuf⟩, -, hread⟩ := bind_eq_ok.mp hok
  dsimp only at hread
  split at hread
  · cases hread
    rfl
  · obtain ⟨⟨ret, head, pos⟩, -, hfound⟩ := bind_eq_ok.mp hread
    dsimp only at hfound
    split at hfound
    · cases hvalue : Finmap.lookup (ascii "Content-Length") head.headers with
      | none =>
        rw [hvalue] at hfound
        cases hfound
        rfl
      | some value =>
        rw [hvalue] at hfound
        obtain ⟨length, -, hrest⟩ := bind_eq_ok.mp hfound
        split at hrest
        · obtain ⟨⟨len, out, b⟩, hout, hpure⟩ := bind_eq_ok.mp hrest
          cases hpure
          obtain ⟨copied, -, hr⟩ := bind_eq_ok.mp hout
          cases hr
          rfl
        · cases hrest
          rfl
    · cases hfound
      rfl

/-- A buffer keeps the name of its client. -/
theorem mClient_of_inputTcpPkg {h h' : HttpBuf} (hwf : h.mTcpBuf.WellFormed) {data : Bytes} {len : Int} {reply : HttpReply}
    (hok : h.inputTcpPkg data len = .ok (reply, h')) : h'.mTcpBuf.mClient = h.mTcpBuf.mClient := by
  obtain ⟨isHttp, -, hrest⟩ := bind_eq_ok.mp hok
  split at hrest
  · cases hrest
    rfl
  · obtain ⟨⟨ret, b⟩, hring, hafter⟩ := bind_eq_ok.mp hrest
    have hb : b.mClient = h.mTcpBuf.mClient := by
      by_cases hfull : (TcpBuf.capacity : Int) < h.mTcpBuf.contents.length + len
      · rw [TcpBuf.inputTcpPkg_of_gt hwf hfull] at hring
        cases hring
        rfl
      · obtain ⟨hlen, hdata⟩ := (TcpBuf.inputTcpPkg_eq_ok hwf hring).resolve_left hfull
        obtain ⟨b', hin, -, hclient, -⟩ := TcpBuf.inputTcpPkg_of_le hwf hlen hdata (by omega)
        rw [hring] at hin
        cases hin
        exact hclient
    dsimp only at hafter
    split at hafter
    · obtain ⟨⟨reply', g⟩, hg, hpure⟩ := bind_eq_ok.mp hafter
      cases hpure
      exact (mClient_of_parseHttpPkg hg).trans hb
    · cases hafter
      exact hb

end HttpBuf

/-- A session does the same with its lines as without them. -/
theorem Session.erase_inputTcpPkgLogged (s : Session) (data : Bytes) (len : Int) (input : Bool) :
    (s.inputTcpPkgLogged data len input).erase = s.inputTcpPkg data len input := by
  unfold inputTcpPkgLogged inputTcpPkg
  split
  · simp only [erase_bind, HttpBuf.erase_inputTcpPkgLogged]
    rfl
  · simp only [erase_bind, HttpBuf.erase_inputTcpPkgLogged]
    rfl

namespace ParsePkg

/-- The Ethernet header is read the same with the lines as without them. -/
theorem erase_ipHeaderLogged (data : Bytes) : (ipHeaderLogged data).erase = ipHeader data := by
  unfold ipHeaderLogged ipHeader
  simp only [erase_bind, erase_lift]
  refine bind_congr fun lengthType => ?_
  split
  · simp only [erase_bind, erase_lift]
    refine bind_congr fun lengthType => ?_
    split
    · rfl
    · rfl
  · split
    · rfl
    · rfl

/-- The IP and TCP headers are read the same with the lines as without them. -/
theorem erase_decodeAtLogged (data : Bytes) (ih : Nat) : (decodeAtLogged data ih).erase = decodeAt data ih := by
  unfold decodeAtLogged decodeAt
  simp only [erase_bind, erase_lift]
  refine bind_congr fun vhl => bind_congr fun p => ?_
  split
  · simp only [erase_bind, erase_lift, erase_pure]
    rfl
  · rfl

/-! ## What is shown of a frame -/

/-- What `PrintPkgInfo` shows of a frame. -/
structure PkgInfo where
  src : Endpoint
  dst : Endpoint
  flags : UInt16
  dataLen : Int
  deriving DecidableEq

/-- The line that shows it. -/
def PkgInfo.line (p : PkgInfo) : Line :=
  .pkgInfo (Utils.long2IP p.src.addr) p.src.port.toNat (Utils.long2IP p.dst.addr) p.dst.port.toNat (Utils.tcpFlags2String p.flags) p.dataLen

/-- The same of the bytes of a frame, nothing for one that fails a check. -/
def pkgInfoOf (f : Bytes) : Option PkgInfo := do
  let d ← (decode f).toOption.join
  let src ← (source f d).toOption
  let dst ← (destination f d).toOption
  let hf ← (TcpHeader.hlenFlags f d.th).toOption
  pure { src := src, dst := dst, flags := TcpHeader.tcpFlags hf, dataLen := d.dataLen }

/-- The addresses and ports of a decoded frame lie in front of the field that was read last. -/
theorem exists_endpoints {f : Bytes} {d : Decoded} (hd : decode f = .ok (some d)) :
    14 ≤ f.length ∧ ∃ src dst hf, source f d = .ok src ∧ destination f d = .ok dst ∧ TcpHeader.hlenFlags f d.th = .ok hf := by
  obtain ⟨hih, hth, hlen, -⟩ := decode_swapAt hd
  obtain ⟨ih, hih', hat⟩ := decode_eq_some.mp hd
  obtain ⟨-, hf, l, hhf, -, rfl⟩ := decodeAt_eq_some.mp hat
  have htype : etherHdrLen ≤ ih := by
    rcases ipHeader_eq_some.mp hih with ⟨-, -, rfl⟩ | ⟨-, rfl⟩
    · exact Nat.le_add_right _ _
    · exact Nat.le_refl _
  unfold etherHdrLen at htype
  dsimp only at hlen
  obtain ⟨sa₀, hsa₀⟩ := exists_ntohsAt f (ih + 12) (by omega)
  obtain ⟨sa₁, hsa₁⟩ := exists_ntohsAt f (ih + 12 + 2) (by omega)
  obtain ⟨da₀, hda₀⟩ := exists_ntohsAt f (ih + 16) (by omega)
  obtain ⟨da₁, hda₁⟩ := exists_ntohsAt f (ih + 16 + 2) (by omega)
  obtain ⟨sp, hsp⟩ := exists_ntohsAt f (ih + ipHdrLen) (by unfold ipHdrLen; omega)
  obtain ⟨dp, hdp⟩ := exists_ntohsAt f (ih + ipHdrLen + 2) (by unfold ipHdrLen; omega)
  have hsa := ntohlAt_eq_ok.mpr ⟨sa₀, sa₁, hsa₀, hsa₁, rfl⟩
  have hda := ntohlAt_eq_ok.mpr ⟨da₀, da₁, hda₀, hda₁, rfl⟩
  exact ⟨by omega, ⟨_, sp⟩, ⟨_, dp⟩, hf, source_eq_ok.mpr ⟨hsa, hsp⟩, destination_eq_ok.mpr ⟨hda, hdp⟩, hhf⟩

/-- The line about a frame shows its header fields. -/
theorem pkgInfoOf_eq_some {f : Bytes} {info : PkgInfo} :
    pkgInfoOf f = some info ↔ ∃ d src dst hf, decode f = .ok (some d) ∧ source f d = .ok src ∧ destination f d = .ok dst ∧
      TcpHeader.hlenFlags f d.th = .ok hf ∧ info = { src := src, dst := dst, flags := TcpHeader.tcpFlags hf, dataLen := d.dataLen } := by
  unfold pkgInfoOf
  simp only [Option.bind_eq_bind, Option.bind_eq_some_iff, toOption_join_eq_some, toOption_eq_some]
  constructor
  · rintro ⟨d, hd, src, hsrc, dst, hdst, hf, hhf, h⟩
    exact ⟨d, src, dst, hf, hd, hsrc, hdst, hhf, (Option.some.inj h).symm⟩
  · rintro ⟨d, src, dst, hf, hd, hsrc, hdst, hhf, rfl⟩
    exact ⟨d, hd, src, hsrc, dst, hdst, hf, hhf, rfl⟩

/-- Exactly the frames that pass the checks are shown. -/
theorem isSome_pkgInfoOf {f : Bytes} : (pkgInfoOf f).isSome ↔ ∃ d, decode f = .ok (some d) := by
  constructor
  · intro h
    obtain ⟨info, hinfo⟩ := Option.isSome_iff_exists.mp h
    obtain ⟨d, -, -, -, hd, -⟩ := pkgInfoOf_eq_some.mp hinfo
    exact ⟨d, hd⟩
  · rintro ⟨d, hd⟩
    obtain ⟨-, src, dst, hf, hsrc, hdst, hhf⟩ := exists_endpoints hd
    rw [pkgInfoOf_eq_some.mpr ⟨d, src, dst, hf, hd, hsrc, hdst, hhf, rfl⟩]
    rfl

/-- `PrintPkgInfo` reads nothing behind what was read before, and writes its line. -/
theorem run_printPkgInfo {f : Bytes} {d : Decoded} (hd : decode f = .ok (some d)) :
    ∃ info, pkgInfoOf f = some info ∧ (printPkgInfo f d).run = .ok (⟨⟩, [info.line]) := by
  obtain ⟨hlen, src, dst, hf, hsrc, hdst, hhf⟩ := exists_endpoints hd
  refine ⟨_, pkgInfoOf_eq_some.mpr ⟨d, src, dst, hf, hd, hsrc, hdst, hhf, rfl⟩, ?_⟩
  obtain ⟨hsa, hsp⟩ := source_eq_ok.mp hsrc
  obtain ⟨hda, hdp⟩ := destination_eq_ok.mp hdst
  refine run_lift_bind_eq_ok.mpr ⟨f.take 12, ?_, ?_⟩
  · exact readBytes_eq_ok.mpr (by simp; omega)
  refine run_lift_bind_eq_ok.mpr ⟨_, hsa, run_lift_bind_eq_ok.mpr ⟨_, hda, run_lift_bind_eq_ok.mpr ⟨_, hsp, ?_⟩⟩⟩
  exact run_lift_bind_eq_ok.mpr ⟨_, hdp, run_lift_bind_eq_ok.mpr ⟨_, hhf, run_tell_eq_ok.mpr rfl⟩⟩

/-- The session of a client is called the same with the lines as without them. -/
theorem erase_inputPkg2SessionLogged (m : ParsePkg) (c : SessionCall) :
    ((m.inputPkg2SessionLogged c).erase).map (fun r => (r.1.ret, r.2)) = m.inputPkg2Session c := by
  unfold inputPkg2SessionLogged inputPkg2Session
  simp only [erase_bind, Session.erase_inputTcpPkgLogged]
  cases (m.session c.client).inputTcpPkg c.data c.len c.input with
  | error e => rfl
  | ok r =>
    obtain ⟨reply, session⟩ := r
    simp only [ok_bind]
    split
    · rfl
    · rfl

end ParsePkg

end FrontServer
