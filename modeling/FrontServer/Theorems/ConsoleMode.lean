import FrontServer.Theorems.LogLedger

/-!
# Numbers on the console

`std::cout` lives as long as the program, and the line about a frame of an unsupported type leaves it in hexadecimal: from the first such
frame on every number is written in hexadecimal, without a sign of it (`CgiDump.console_shows`). In either mode the line that shows a
frame can be read back (`CgiDump.pkgInfo_readable`).
-/

namespace FrontServer

/-! ## One statement -/

/-- What a statement writes to a stream in decimal, or in hexadecimal. -/
def Line.shown (l : Line) (hex : Bool) : Bytes := (({ OStringStream.new with hex := hex } : OStringStream).write l).str

/-- What a text or a number adds to a stream. -/
def Insertion.shown (hex : Bool) : Insertion → Bytes
  | .text s => s
  | .int n => if hex then hexadecimal (n % 2 ^ 32).toNat else decimalInt n
  | _ => []

/-- A text or a number. -/
def Insertion.isPlain : Insertion → Bool
  | .text _ | .int _ => true
  | _ => false

/-- Texts and numbers are appended as they are to a stream with no field width set. -/
theorem OStringStream.foldl_insert {xs : List Insertion} (hxs : xs.all Insertion.isPlain = true) {os : OStringStream} (hw : os.width = 0) :
    xs.foldl OStringStream.insert os = { os with str := os.str ++ xs.flatMap (Insertion.shown os.hex) } := by
  induction xs generalizing os with
  | nil =>
    rw [List.flatMap_nil, List.append_nil]
    rfl
  | cons x xs ih =>
    rw [List.all_cons, Bool.and_eq_true] at hxs
    obtain ⟨hx, hxs⟩ := hxs
    have hone : os.insert x = { os with str := os.str ++ x.shown os.hex } := by
      obtain ⟨str, hex, fill, width⟩ := os
      dsimp only at hw
      subst hw
      cases x with
      | text s => simp [insert, put, Insertion.shown]
      | int n => simp [insert, putSigned, put, Insertion.shown]
      | setfill c => cases hx
      | hex => cases hx
      | setw n => cases hx
    have hw' : ({ os with str := os.str ++ x.shown os.hex } : OStringStream).width = 0 := hw
    rw [List.foldl_cons, hone]
    refine (ih hxs hw').trans ?_
    simp only [List.flatMap_cons, List.append_assoc]

/-- Every statement but one writes texts and numbers only. -/
theorem Line.all_isPlain (l : Line) : l.insertions.all Insertion.isPlain = !l.setsHex := by
  cases l with
  | pkgInfo srcIp srcPort dstIp dstPort flags dataLen =>
    by_cases hlen : dataLen > 0 <;> simp [insertions, hlen, Insertion.isPlain, lit, endl, setsHex]
  | _ => rfl

/-- What a statement of texts and numbers writes. -/
theorem Line.shown_of_plain {l : Line} (h : l.setsHex = false) (hex : Bool) : l.shown hex = l.insertions.flatMap (Insertion.shown hex) := by
  have hplain : l.insertions.all Insertion.isPlain = true := by
    rw [l.all_isPlain, h]
    rfl
  unfold shown OStringStream.write
  rw [OStringStream.foldl_insert hplain rfl]
  rfl

/-- A statement on a stream with no field width set: its text in the mode of the stream is appended, and the mode stays unless the
statement sets it. -/
theorem OStringStream.write_spec {os : OStringStream} (hw : os.width = 0) (l : Line) :
    (os.write l).str = os.str ++ l.shown os.hex ∧ (os.write l).hex = (os.hex || l.setsHex) ∧ (os.write l).width = 0 := by
  by_cases h : l.setsHex = true
  · obtain ⟨str, hex, fill, width⟩ := os
    dsimp only at hw
    subst hw
    cases l with
    | unsupportLengthType t =>
      simp [write, Line.shown, Line.insertions, Line.setsHex, insert, put, putSigned, setfill, setHex, setw, lit, endl, new]
    | _ => cases h
  · rw [Bool.not_eq_true] at h
    have hplain : l.insertions.all Insertion.isPlain = true := by
      rw [l.all_isPlain, h]
      rfl
    rw [Line.shown_of_plain h, h, Bool.or_false]
    unfold write
    rw [foldl_insert hplain hw]
    exact ⟨rfl, rfl, hw⟩

/-! ## Some statements in a row -/

namespace Console

/-- No field width is set, and `std::cerr` is in decimal. -/
structure Settled (c : Console) : Prop where
  cout : c.cout.width = 0
  cerr : c.cerr.width = 0
  decimal : c.cerr.hex = false

theorem settled_new : new.Settled := ⟨rfl, rfl, rfl⟩

/-- The statement sets the mode of `std::cout`, and none sets that of `std::cerr`. -/
theorem toCerr_of_setsHex {l : Line} (h : l.setsHex = true) : l.toCerr = false := by
  cases l with
  | unsupportLengthType t => rfl
  | _ => cases h

theorem write_spec {c : Console} (hc : c.Settled) (l : Line) :
    (c.write l).Settled ∧ (c.write l).cout.hex = (c.cout.hex || l.setsHex) ∧
      (c.write l).cout.str = c.cout.str ++ if l.toCerr then [] else l.shown c.cout.hex := by
  unfold write
  by_cases herr : l.toCerr = true
  · have hstays : l.setsHex = false := by
      by_contra h
      rw [toCerr_of_setsHex (by simpa using h)] at herr
      cases herr
    obtain ⟨-, hhex, hwidth⟩ := OStringStream.write_spec hc.cerr l
    rw [if_pos herr, if_pos herr, hstays, Bool.or_false, List.append_nil]
    refine ⟨⟨hc.cout, hwidth, ?_⟩, rfl, rfl⟩
    rw [hhex, hc.decimal, hstays]
    rfl
  · obtain ⟨hstr, hhex, hwidth⟩ := OStringStream.write_spec hc.cout l
    rw [if_neg herr, if_neg herr]
    exact ⟨⟨hwidth, hc.cerr, hc.decimal⟩, hhex, hstr⟩

/-- Some statements leave `std::cout` in hexadecimal if one of them does, and add to what was there. -/
theorem writeAll_spec {c : Console} (hc : c.Settled) (ls : List Line) :
    (c.writeAll ls).Settled ∧ (c.writeAll ls).cout.hex = (c.cout.hex || ls.any Line.setsHex) ∧
      c.cout.str <+: (c.writeAll ls).cout.str := by
  induction ls generalizing c with
  | nil => exact ⟨hc, by simp [writeAll], List.prefix_refl _⟩
  | cons l ls ih =>
    obtain ⟨hl, hhex, hstr⟩ := write_spec hc l
    obtain ⟨hls, hhex', hpre⟩ := ih hl
    refine ⟨hls, ?_, ?_⟩
    · rw [List.any_cons, ← Bool.or_assoc, ← hhex]
      exact hhex'
    · rw [hstr] at hpre
      exact (List.prefix_append _ _).trans hpre

theorem writeAll_append (c : Console) (ls ls' : List Line) : c.writeAll (ls ++ ls') = (c.writeAll ls).writeAll ls' :=
  List.foldl_append

end Console

/-! ## Numerals -/

/-- A number as a stream writes it. -/
def numeral (hex : Bool) (n : Nat) : Bytes := if hex then hexadecimal n else decimal n

/-- The digits of a number in a base are those below the base. -/
theorem exists_digit_of_mem_toDigits {b n : Nat} (hb : 1 < b) {c : Char} (h : c ∈ Nat.toDigits b n) : ∃ d < b, c = d.digitChar := by
  induction n using Nat.strong_induction_on with
  | _ n ih =>
    by_cases hlt : n < b
    · rw [Nat.toDigits_of_lt_base hlt, List.mem_singleton] at h
      exact ⟨n, hlt, h⟩
    · rw [Nat.toDigits_of_base_le hb (by omega), List.mem_append, List.mem_singleton] at h
      rcases h with h | h
      · exact ih (n / b) (Nat.div_lt_self (by omega) hb) h
      · exact ⟨n % b, Nat.mod_lt n (by omega), h⟩

/-- Up to sixteen, different digits are written differently. -/
theorem digitByte_injective : ∀ d < 16, ∀ e < 16, d.digitChar.toNat.toUInt8 = e.digitChar.toNat.toUInt8 → d = e := by decide

/-- Different numbers are written differently in hexadecimal. -/
theorem hexadecimal_injective : Function.Injective hexadecimal := by
  intro m n h
  induction m using Nat.strong_induction_on generalizing n with
  | _ m ih =>
    have hlast : ∀ k, ¬k < 16 → hexadecimal k = hexadecimal (k / 16) ++ [(k % 16).digitChar.toNat.toUInt8] := by
      intro k hk
      rw [hexadecimal, Nat.toDigits_of_base_le (by decide) (by omega), List.map_append]
      rfl
    have hone : ∀ k, k < 16 → hexadecimal k = [k.digitChar.toNat.toUInt8] := by
      intro k hk
      rw [hexadecimal, Nat.toDigits_of_lt_base hk]
      rfl
    have hne : ∀ k, hexadecimal k ≠ [] := by
      intro k
      by_cases hk : k < 16
      · rw [hone k hk]
        exact List.cons_ne_nil _ _
      · rw [hlast k hk]
        exact fun he => List.cons_ne_nil _ _ (List.append_eq_nil_iff.mp he).2
    by_cases hm : m < 16
    · by_cases hn : n < 16
      · rw [hone m hm, hone n hn] at h
        exact digitByte_injective m hm n hn (List.singleton_injective h)
      · rw [hone m hm, hlast n hn] at h
        have hlen := congrArg List.length h
        have hpos := List.length_pos_of_ne_nil (hne (n / 16))
        rw [List.length_append, List.length_singleton, List.length_singleton] at hlen
        omega
    · by_cases hn : n < 16
      · rw [hlast m hm, hone n hn] at h
        have hlen := congrArg List.length h
        have hpos := List.length_pos_of_ne_nil (hne (m / 16))
        rw [List.length_append, List.length_singleton, List.length_singleton] at hlen
        omega
      · rw [hlast m hm, hlast n hn] at h
        obtain ⟨hq, hr⟩ := List.append_inj' h rfl
        have hq := ih (m / 16) (Nat.div_lt_self (by omega) (by decide)) hq
        have hr := digitByte_injective _ (Nat.mod_lt m (by decide)) _ (Nat.mod_lt n (by decide)) (List.singleton_injective hr)
        omega

/-- In one mode different numbers are written differently. -/
theorem numeral_injective (hex : Bool) : Function.Injective (numeral hex) := by
  cases hex with
  | false => exact decimal_injective
  | true => exact hexadecimal_injective

/-- A byte that is no digit of either base is not in a numeral. -/
theorem not_mem_numeral {b : UInt8} (h : ∀ d < 16, d.digitChar.toNat.toUInt8 ≠ b) (hex : Bool) (n : Nat) : b ∉ numeral hex n := by
  intro hb
  cases hex with
  | false =>
    obtain ⟨c, hc, rfl⟩ := List.mem_map.mp hb
    obtain ⟨d, hd, rfl⟩ := exists_digit_of_mem_toDigits (by decide) hc
    exact h d (by omega) rfl
  | true =>
    obtain ⟨c, hc, rfl⟩ := List.mem_map.mp hb
    obtain ⟨d, hd, rfl⟩ := exists_digit_of_mem_toDigits (by decide) hc
    exact h d hd rfl

/-! ## What is shown of a frame -/

/-- What is shown of the length of a payload. -/
def shownLen (hex : Bool) (n : Int) : Bytes := if n > 0 then numeral hex n.toNat else []

/-- The lines that show a frame, with numbers in one mode. -/
def shownFrame (hex : Bool) (n : Nat) (info : ParsePkg.PkgInfo) : Bytes :=
  ascii "[" ++ numeral hex n ++ ascii "]" ++ ascii "\n" ++
    (Utils.long2IP info.src.addr ++ ascii ":" ++ numeral hex info.src.port.toNat ++ ascii " -> " ++
      Utils.long2IP info.dst.addr ++ ascii ":" ++ numeral hex info.dst.port.toNat ++ ascii " [" ++ Utils.tcpFlags2String info.flags ++
      ascii "] " ++ shownLen hex info.dataLen ++ ascii "\n")

/-- A number that is not negative and has 32 bits is written as it is. -/
theorem shown_int {n : Int} (h₀ : 0 ≤ n) (h : n < 2 ^ 32) (hex : Bool) : (Insertion.int n).shown hex = numeral hex n.toNat := by
  cases hex with
  | false =>
    have hnat : n = (n.toNat : Int) := (Int.toNat_of_nonneg h₀).symm
    change decimalInt n = decimal n.toNat
    conv_lhs => rw [hnat, decimalInt_natCast]
  | true =>
    change hexadecimal (n % 2 ^ 32).toNat = hexadecimal n.toNat
    rw [Int.emod_eq_of_lt h₀ h]

theorem shown_text (s : Bytes) (hex : Bool) : (Insertion.text s).shown hex = s := rfl

/-- The two lines that show a frame. -/
theorem shown_frame {n : Nat} (hn : n < 2 ^ 32) {info : ParsePkg.PkgInfo} (hlen : info.dataLen < 2 ^ 32) (hex : Bool) :
    (Line.number n).shown hex ++ info.line.shown hex = shownFrame hex n info := by
  have hports : ∀ p : UInt16, ((p.toNat : Nat) : Int) < 2 ^ 32 := by
    intro p
    have := p.toNat_lt
    omega
  have hcount : (Insertion.int n).shown hex = numeral hex n := shown_int (Int.natCast_nonneg n) (by omega) hex
  have hsrc := shown_int (Int.natCast_nonneg _) (hports info.src.port) hex
  have hdst := shown_int (Int.natCast_nonneg _) (hports info.dst.port) hex
  rw [Int.toNat_natCast] at hsrc hdst
  rw [Line.shown_of_plain rfl, Line.shown_of_plain rfl, shownFrame, shownLen]
  unfold ParsePkg.PkgInfo.line Line.insertions
  by_cases hpos : info.dataLen > 0
  · have hdata := shown_int (show 0 ≤ info.dataLen by omega) hlen hex
    simp only [hpos, if_true, List.flatMap_append, List.flatMap_cons, List.flatMap_nil, hcount, hsrc, hdst, hdata, lit, endl,
      shown_text, List.append_nil, List.append_assoc]
  · simp only [hpos, if_false, List.flatMap_append, List.flatMap_cons, List.flatMap_nil, hcount, hsrc, hdst, lit, endl, shown_text,
      List.append_nil, List.append_assoc]

/-! ## Reading it back -/

/-- Two texts that are ended by the same byte and do not hold it can be told apart, whatever comes behind. -/
theorem append_cons_inj {x x' y y' : Bytes} {b : UInt8} (hx : b ∉ x) (hx' : b ∉ x') : x ++ b :: y = x' ++ b :: y' ↔ x = x' ∧ y = y' := by
  induction x generalizing x' with
  | nil =>
    cases x' with
    | nil => simp
    | cons c x' =>
      have hne : b ≠ c := fun he => hx' (he ▸ List.mem_cons_self)
      simp [hne]
  | cons c x ih =>
    have hne : c ≠ b := fun he => hx (he ▸ List.mem_cons_self)
    cases x' with
    | nil => simp [hne]
    | cons c' x' =>
      have htail := @ih x' (fun he => hx (List.mem_cons_of_mem _ he)) (fun he => hx' (List.mem_cons_of_mem _ he))
      simp only [List.cons_append, List.cons.injEq, htail, and_assoc]

/-- Different sets of flags are named differently, and no name holds a bracket. -/
theorem Utils.tcpFlags2String_injective :
    ∀ a < 64, (∀ b < 64, tcpFlags2String (UInt16.ofNat a) = tcpFlags2String (UInt16.ofNat b) → a = b) ∧
      93 ∉ tcpFlags2String (UInt16.ofNat a) := by
  decide +kernel

/-- The flags of a frame are six bits. -/
theorem flags_lt {f : Bytes} {info : ParsePkg.PkgInfo} (hinfo : ParsePkg.pkgInfoOf f = some info) : info.flags.toNat < 64 := by
  obtain ⟨d, src, dst, hf, -, -, -, -, rfl⟩ := ParsePkg.pkgInfoOf_eq_some.mp hinfo
  unfold TcpHeader.tcpFlags
  rw [UInt16.toNat_and]
  exact Nat.lt_of_le_of_lt Nat.and_le_right (by decide)

/-- A number is written with one digit at least. -/
theorem numeral_ne_nil (hex : Bool) (n : Nat) : numeral hex n ≠ [] := by
  cases hex with
  | false => exact mt List.map_eq_nil_iff.mp Nat.toDigits_ne_nil
  | true => exact mt List.map_eq_nil_iff.mp Nat.toDigits_ne_nil

theorem shownLen_inj {hex : Bool} {m n : Int} : shownLen hex m = shownLen hex n ↔ m = n ∨ m ≤ 0 ∧ n ≤ 0 := by
  unfold shownLen
  by_cases hm : m > 0
  · by_cases hn : n > 0
    · rw [if_pos hm, if_pos hn, (numeral_injective hex).eq_iff]
      omega
    · rw [if_pos hm, if_neg hn]
      simp only [numeral_ne_nil, false_iff]
      omega
  · by_cases hn : n > 0
    · rw [if_neg hm, if_pos hn]
      simp only [(numeral_ne_nil hex _).symm, false_iff]
      omega
    · rw [if_neg hm, if_neg hn]
      simp only [true_iff]
      omega

theorem not_mem_shownLen {b : UInt8} (h : ∀ d < 16, d.digitChar.toNat.toUInt8 ≠ b) (hex : Bool) (n : Int) : b ∉ shownLen hex n := by
  unfold shownLen
  split
  · exact not_mem_numeral h hex _
  · exact List.not_mem_nil

/-- The lines that show a frame, up to each byte that ends a field. -/
theorem shownFrame_append (hex : Bool) (n : Nat) (info : ParsePkg.PkgInfo) (r : Bytes) :
    shownFrame hex n info ++ r = 91 :: (numeral hex n ++ 93 :: 10 :: (Utils.long2IP info.src.addr ++ 58 :: (numeral hex info.src.port.toNat ++
      32 :: (ascii "-> " ++ (Utils.long2IP info.dst.addr ++ 58 :: (numeral hex info.dst.port.toNat ++
      32 :: 91 :: (Utils.tcpFlags2String info.flags ++ 93 :: 32 :: (shownLen hex info.dataLen ++ 10 :: r)))))))) := by
  have hopen : ascii "[" = [91] := by decide
  have hclose : ascii "]" = [93] := by decide
  have hline : ascii "\n" = [10] := by decide
  have hcolon : ascii ":" = [58] := by decide
  have harrow : ascii " -> " = 32 :: ascii "-> " := by decide
  have hflags : ascii " [" = [32, 91] := by decide
  have hlen : ascii "] " = [93, 32] := by decide
  unfold shownFrame
  rw [hopen, hclose, hline, hcolon, harrow, hflags, hlen]
  simp only [List.append_assoc, List.cons_append, List.nil_append]

namespace CgiDump

/-- The frame is of a type that is not supported, or its tag is. -/
def BadType (f : Bytes) : Prop := ParsePkg.ipHeader f = .ok none

instance (f : Bytes) : Decidable (BadType f) := by unfold BadType; infer_instance

/-- The console after a run. -/
def consoleOf (reps : List Report) : Console := Console.new.writeAll (linesOf reps)

/-- The lines about a payload leave the mode alone. -/
theorem any_setsHex_of_logs {client : Bytes} {len : Int} {reply : HttpReply} {ls : List Line} (h : HttpBuf.Logs client len reply ls) :
    ls.any Line.setsHex = false := by
  have hheads : ∀ illegal : List Bytes, (illegal.map Line.illegalHead).any Line.setsHex = false := by
    intro illegal
    rw [List.any_map, List.any_eq_false]
    intro x _
    exact Bool.false_ne_true
  cases h with
  | dropped => rfl
  | refused remain => rfl
  | noContentLength illegal line => rw [List.any_append, hheads]; rfl
  | segmented illegal line value => rw [List.any_append, hheads]; rfl
  | taken illegal line value pos message => rw [List.any_append, hheads]; rfl

/-- A frame sets the mode exactly if it is of a type that is not supported. -/
theorem any_setsHex_of_step {s s' : CgiDump} {f : Bytes} {rep : Report} (h : Step s f rep s') :
    rep.lines.any Line.setsHex = decide (BadType f) := by
  have hgood : ∀ {info}, ParsePkg.pkgInfoOf f = some info → decide (BadType f) = false := by
    intro info hinfo
    obtain ⟨d, -, -, -, hd, -⟩ := ParsePkg.pkgInfoOf_eq_some.mp hinfo
    obtain ⟨ih, hih, -⟩ := ParsePkg.decode_eq_some.mp hd
    refine decide_eq_false fun hbad => ?_
    rw [BadType, hih] at hbad
    cases hbad
  cases h with
  | badType t hih => rw [decide_eq_true (show BadType f from hih)]; rfl
  | badHeader vhl p hih hd => rw [decide_eq_false (show ¬BadType f from hih)]; rfl
  | foreign info hinfo _ => rw [hgood hinfo]; rfl
  | empty info hinfo _ => rw [hgood hinfo]; rfl
  | payload info c reply b ls hinfo _ _ hlogs =>
    rw [hgood hinfo, List.any_append, List.any_append, any_setsHex_of_logs hlogs, refusal]
    split <;> rfl

/-- The mode after a run, and the number of frames shown so far. -/
theorem mode_of_run {ip : Bytes} {port : Int} {frames : List Bytes} {reps : List Report} {s : CgiDump}
    (h : machine.run (init ip port) frames = some (reps, s)) :
    (consoleOf reps).Settled ∧ (consoleOf reps).cout.hex = frames.any (fun f => decide (BadType f)) ∧
      s.i = (frames.filterMap ParsePkg.pkgInfoOf).length := by
  have hhistory : (linesOf reps).any Line.setsHex = frames.any (fun f => decide (BadType f)) ∧
      s.i = (frames.filterMap ParsePkg.pkgInfoOf).length := by
    refine Machine.run_history (P := fun frames reps (s : CgiDump) =>
      (linesOf reps).any Line.setsHex = frames.any (fun f => decide (BadType f)) ∧
        s.i = (frames.filterMap ParsePkg.pkgInfoOf).length) ⟨rfl, rfl⟩ ?_ h
    intro frames reps s f rep s' hrun ⟨hany, hi⟩ hstep
    have hcases := step_cases (run_ready hrun) hstep
    constructor
    · rw [linesOf, List.flatMap_append, List.flatMap_singleton, List.any_append, List.any_append, ← linesOf, hany,
        any_setsHex_of_step hcases, List.any_cons, List.any_nil, Bool.or_false]
    · rw [(frameLines_of_step hcases).count, hi, List.filterMap_append, filterMap_one, List.length_append]
      push_cast
      rfl
  obtain ⟨hsettled, hhex, -⟩ := Console.writeAll_spec Console.settled_new (linesOf reps)
  refine ⟨hsettled, ?_, hhistory.2⟩
  rw [← hhistory.1]
  exact hhex

/-- A frame that passes the checks is shown first of all. -/
theorem lines_of_shown {s s' : CgiDump} {f : Bytes} {rep : Report} (h : Step s f rep s') {info : ParsePkg.PkgInfo}
    (hinfo : ParsePkg.pkgInfoOf f = some info) : ∃ tail, rep.lines = .number (s.i + 1).toNat :: info.line :: tail := by
  obtain ⟨d, -, -, -, hd, -⟩ := ParsePkg.pkgInfoOf_eq_some.mp hinfo
  cases h with
  | badType t hih =>
    obtain ⟨ih, hih', -⟩ := ParsePkg.decode_eq_some.mp hd
    rw [hih] at hih'
    cases hih'
  | badHeader vhl p _ hd' =>
    rw [hd'] at hd
    cases hd
  | foreign info' hinfo' _ =>
    cases hinfo.symm.trans hinfo'
    exact ⟨_, rfl⟩
  | empty info' hinfo' _ =>
    cases hinfo.symm.trans hinfo'
    exact ⟨_, rfl⟩
  | payload info' c reply b ls hinfo' _ _ _ =>
    cases hinfo.symm.trans hinfo'
    exact ⟨_, rfl⟩

/-- The length shown of a frame has 16 bits. -/
theorem dataLen_lt {f : Bytes} {info : ParsePkg.PkgInfo} (hinfo : ParsePkg.pkgInfoOf f = some info) : info.dataLen < 2 ^ 32 := by
  obtain ⟨d, -, -, -, hd, -, -, -, rfl⟩ := ParsePkg.pkgInfoOf_eq_some.mp hinfo
  obtain ⟨ih, -, hat⟩ := ParsePkg.decode_eq_some.mp hd
  obtain ⟨-, hf, l, -, -, rfl⟩ := ParsePkg.decodeAt_eq_some.mp hat
  have := l.toNat_lt
  unfold payloadLen
  dsimp only
  omega

/-- What two statements write, and what comes behind. -/
theorem writeAll_shown {c : Console} (hc : c.Settled) (n : Nat) (info : ParsePkg.PkgInfo) (ls : List Line) :
    ∃ rest, (c.writeAll (.number n :: info.line :: ls)).cout.str =
      c.cout.str ++ ((Line.number n).shown c.cout.hex ++ info.line.shown c.cout.hex ++ rest) := by
  obtain ⟨hs₁, hhex₁, hstr₁⟩ := Console.write_spec hc (.number n)
  obtain ⟨hs₂, -, hstr₂⟩ := Console.write_spec hs₁ info.line
  obtain ⟨rest, hrest⟩ := (Console.writeAll_spec hs₂ ls).2.2
  have hnumber : (Line.number n).setsHex = false := rfl
  have hcout : info.line.toCerr = false := rfl
  have hcout' : (Line.number n).toCerr = false := rfl
  have hall : c.writeAll (.number n :: info.line :: ls) = ((c.write (.number n)).write info.line).writeAll ls := by
    unfold Console.writeAll
    rw [List.foldl_cons, List.foldl_cons]
  refine ⟨rest, ?_⟩
  rw [hall, ← hrest, hstr₂, hstr₁, hhex₁, hnumber, Bool.or_false, hcout, hcout', if_neg Bool.false_ne_true, if_neg Bool.false_ne_true]
  simp only [List.append_assoc]

/-- Whatever the frames before it, a frame that passes the checks is shown by its number, which is one more than the frames shown so far,
and by its addresses, ports, flags and length, directly behind what was written before it. The numbers are in decimal until the first
frame of a type that is not supported, and in hexadecimal ever after. -/
theorem console_shows {ip : Bytes} {port : Int} {before after : List Bytes} {f : Bytes} {reps : List Report} {s : CgiDump}
    (h : machine.run (init ip port) (before ++ f :: after) = some (reps, s)) {info : ParsePkg.PkgInfo}
    (hinfo : ParsePkg.pkgInfoOf f = some info) :
    ∃ reps₁ s₁ rest, machine.run (init ip port) before = some (reps₁, s₁) ∧
      (consoleOf reps).cout.str = (consoleOf reps₁).cout.str ++
        (shownFrame (before.any (fun f => decide (BadType f))) ((before.filterMap ParsePkg.pkgInfoOf).length + 1) info ++ rest) := by
  obtain ⟨s₁, reps₁, reps₂, hbefore, hrest, rfl⟩ := Machine.run_append_eq_some.mp h
  obtain ⟨rep, s₂, reps₃, hstep, hafter, rfl⟩ := Machine.run_cons_eq_some.mp hrest
  obtain ⟨hsettled, hhex, hi⟩ := mode_of_run hbefore
  have hready := run_ready hbefore
  have hroom : s₁.i + 1 < 2 ^ 31 := count_lt_of_step hready hstep (by rw [hinfo]; rfl)
  obtain ⟨tail, htail⟩ := lines_of_shown (step_cases hready hstep) hinfo
  have hnumber : (s₁.i + 1).toNat = (before.filterMap ParsePkg.pkgInfoOf).length + 1 := by omega
  have hlines : linesOf (reps₁ ++ rep :: reps₃) = linesOf reps₁ ++ .number (s₁.i + 1).toNat :: info.line :: (tail ++ linesOf reps₃) := by
    rw [linesOf, List.flatMap_append, List.flatMap_cons, htail]
    rfl
  obtain ⟨rest, hshown⟩ := writeAll_shown hsettled (s₁.i + 1).toNat info (tail ++ linesOf reps₃)
  have hall : consoleOf (reps₁ ++ rep :: reps₃) =
      (consoleOf reps₁).writeAll (.number (s₁.i + 1).toNat :: info.line :: (tail ++ linesOf reps₃)) := by
    rw [consoleOf, hlines, Console.writeAll_append, consoleOf]
  refine ⟨reps₁, s₁, rest, hbefore, ?_⟩
  rw [hall, hshown, hhex, hnumber, shown_frame (by omega) (dataLen_lt hinfo)]

/-- A request behind a frame of another type: its numbers are in hexadecimal. -/
theorem console_shows_otherFrame :
    ∃ reps s, machine.run (init (Utils.long2IP ParsePkg.webServer.addr) ParsePkg.webServer.port) ([requestFrame, arpFrame] ++ otherFrame :: []) =
        some (reps, s) ∧
      ∃ reps₁ s₁ rest, machine.run (init (Utils.long2IP ParsePkg.webServer.addr) ParsePkg.webServer.port) [requestFrame, arpFrame] =
          some (reps₁, s₁) ∧
        (consoleOf reps).cout.str = (consoleOf reps₁).cout.str ++
          (shownFrame true 2 { src := otherFlow.client, dst := ⟨0x0A000002, 80⟩, flags := 0x10, dataLen := 25 } ++ rest) := by
  obtain ⟨reps, s, h⟩ := capture_of_twoClients.exists_run
  have hinfo : ParsePkg.pkgInfoOf otherFrame =
      some { src := otherFlow.client, dst := ⟨0x0A000002, 80⟩, flags := 0x10, dataLen := 25 } := by decide +kernel
  have hcount : [requestFrame, arpFrame].filterMap ParsePkg.pkgInfoOf =
      [{ src := ParsePkg.getFlow.client, dst := ⟨0x0A000002, 80⟩, flags := 0x10, dataLen := 25 }] := by decide +kernel
  have hmode : [requestFrame, arpFrame].any (fun f => decide (BadType f)) = true := by decide +kernel
  have hsplit : machine.run (init (Utils.long2IP ParsePkg.webServer.addr) ParsePkg.webServer.port)
      ([requestFrame, arpFrame] ++ otherFrame :: []) = some (reps, s) := h
  obtain ⟨reps₁, s₁, rest, hbefore, hcout⟩ := console_shows hsplit hinfo
  rw [hcount, hmode] at hcout
  exact ⟨reps, s, h, reps₁, s₁, rest, hbefore, hcout⟩

/-- The text that shows a frame, in one mode and with anything behind it, is that of another one exactly if the numbers of the two, their
addresses, ports and flags are the same, and their lengths, where a length of zero and less is not shown. -/
theorem pkgInfo_readable {f g : Bytes} {a b : ParsePkg.PkgInfo} (ha : ParsePkg.pkgInfoOf f = some a)
    (hb : ParsePkg.pkgInfoOf g = some b) (hex : Bool) (m n : Nat) (r r' : Bytes) :
    shownFrame hex m a ++ r = shownFrame hex n b ++ r' ↔
      m = n ∧ a.src = b.src ∧ a.dst = b.dst ∧ a.flags = b.flags ∧ (a.dataLen = b.dataLen ∨ a.dataLen ≤ 0 ∧ b.dataLen ≤ 0) ∧ r = r' := by
  have hflags : Utils.tcpFlags2String a.flags = Utils.tcpFlags2String b.flags ↔ a.flags = b.flags := by
    constructor
    · intro h
      have hinj := (Utils.tcpFlags2String_injective _ (flags_lt ha)).1 _ (flags_lt hb)
      rw [UInt16.ofNat_toNat, UInt16.ofNat_toNat] at hinj
      exact UInt16.toNat_inj.mp (hinj h)
    · exact congrArg _
  have hbracket : ∀ {x : Bytes} {i : ParsePkg.PkgInfo}, ParsePkg.pkgInfoOf x = some i → 93 ∉ Utils.tcpFlags2String i.flags := by
    intro x i hi
    have h := (Utils.tcpFlags2String_injective _ (flags_lt hi)).2
    rwa [UInt16.ofNat_toNat] at h
  have hnum : ∀ {c : UInt8}, (∀ d < 16, d.digitChar.toNat.toUInt8 ≠ c) → ∀ k, c ∉ numeral hex k := fun h => not_mem_numeral h hex
  have hcolon : ∀ ip, 58 ∉ Utils.long2IP ip := Utils.not_mem_long2IP (by decide) (by decide)
  have hdigit : (∀ d < 16, d.digitChar.toNat.toUInt8 ≠ 93) ∧ (∀ d < 16, d.digitChar.toNat.toUInt8 ≠ 32) ∧
      ∀ d < 16, d.digitChar.toNat.toUInt8 ≠ 10 := by decide
  obtain ⟨h93, h32, h10⟩ := hdigit
  have hend : ∀ p q : Endpoint, p = q ↔ p.addr = q.addr ∧ p.port = q.port := by
    rintro ⟨pa, pp⟩ ⟨qa, qp⟩
    exact Endpoint.mk.injEq pa pp qa qp ▸ Iff.rfl
  rw [shownFrame_append, shownFrame_append, List.cons.injEq, append_cons_inj (hnum h93 _) (hnum h93 _), List.cons.injEq,
    append_cons_inj (hcolon _) (hcolon _), append_cons_inj (hnum h32 _) (hnum h32 _), List.append_cancel_left_eq,
    append_cons_inj (hcolon _) (hcolon _), append_cons_inj (hnum h32 _) (hnum h32 _), List.cons.injEq,
    append_cons_inj (hbracket ha) (hbracket hb), List.cons.injEq,
    append_cons_inj (not_mem_shownLen h10 hex _) (not_mem_shownLen h10 hex _), hflags, shownLen_inj,
    Utils.long2IP_injective.eq_iff, Utils.long2IP_injective.eq_iff]
  simp only [(numeral_injective hex).eq_iff, UInt16.toNat_inj, true_and, hend, and_assoc]

/-- The lines of two frames of one size from two clients. -/
theorem pkgInfo_readable_twoClients :
    shownFrame true 1 { src := ParsePkg.getFlow.client, dst := ⟨0x0A000002, 80⟩, flags := 0x10, dataLen := 25 } ++ [] ≠
      shownFrame true 1 { src := otherFlow.client, dst := ⟨0x0A000002, 80⟩, flags := 0x10, dataLen := 25 } ++ [] := by
  have ha : ParsePkg.pkgInfoOf requestFrame =
      some { src := ParsePkg.getFlow.client, dst := ⟨0x0A000002, 80⟩, flags := 0x10, dataLen := 25 } := by decide +kernel
  have hb : ParsePkg.pkgInfoOf otherFrame =
      some { src := otherFlow.client, dst := ⟨0x0A000002, 80⟩, flags := 0x10, dataLen := 25 } := by decide +kernel
  intro h
  have hsrc := ((pkgInfo_readable ha hb true 1 1 [] []).mp h).2.1
  exact absurd hsrc (by decide)

end CgiDump

end FrontServer
