import FrontServer.CgiDumpMain
import FrontServer.Lemmas.HeaderScan
import FrontServer.Theorems.HeaderEnd
import FrontServer.Theorems.HexDump

/-!
# `ParseHttp` and `PrintHex` inside of a frame

Inside of a frame the scan may look at the byte in front of the payload, and does for a line feed at the front; whatever it finds there,
the scan goes on as if the payload began with another byte (`parseHttpAt_ok_iff`). A dump goes through where there is memory for as many
bytes as it is asked for (`exists_printHexText`).
-/

namespace FrontServer

variable {σ τ : Type}

/-! ## Where the scan goes on alike -/

/-- Two texts that differ in the first byte at most. -/
structure SameTail (d d' : Bytes) : Prop where
  length : d.length = d'.length
  drop : ∀ n, 1 ≤ n → d.drop n = d'.drop n

namespace SameTail

variable {d d' : Bytes}

theorem readAt_eq (h : SameTail d d') {i : Int} (hi : 1 ≤ i) : readAt d i = readAt d' i := by
  have hget : d[i.toNat]? = d'[i.toNat]? := by
    have hhead := congrArg List.head? (h.drop i.toNat (by omega))
    rwa [List.head?_drop, List.head?_drop] at hhead
  unfold readAt
  rw [hget]

theorem stringAt_eq (h : SameTail d d') {pos n : Int} (hpos : 1 ≤ pos) : stringAt d pos n = stringAt d' pos n := by
  unfold stringAt readBytes
  rw [h.length, h.drop pos.toNat (by omega)]

theorem scanBlankLine_eq (h : SameTail d d') (i pos : Nat) : scanBlankLine d i pos = scanBlankLine d' i pos := by
  unfold scanBlankLine
  split
  · rename_i hback
    rw [h.readAt_eq (by omega), h.readAt_eq (by omega)]
  · rfl

end SameTail

/-- What two scans carry that go on alike: they are in one line, or in lines that both started in front of the second byte. -/
def Agree (s : Scan σ) (s' : Scan τ) : Prop := (1 ≤ s.pos ∧ s.pos = s'.pos) ∨ s.pos ≤ 1 ∧ s'.pos ≤ 1

/-- Two turns that both fault, both break, or both go on with what agrees. -/
inductive Alike : Except Fault (Option (Scan σ)) → Except Fault (Option (Scan τ)) → Prop where
  | fault (e e' : Fault) : Alike (.error e) (.error e')
  | stop : Alike (.ok none) (.ok none)
  | goOn (s : Scan σ) (s' : Scan τ) (h : Agree s s') : Alike (.ok (some s)) (.ok (some s'))

/-- The text of a line that started in front of the second byte is there. -/
theorem exists_stringAt {d : Bytes} {i pos : Nat} (hi : 1 < i) (hpos : pos ≤ 1) (hlt : i < d.length) :
    ∃ head, stringAt d pos ((i : Int) - pos - 1) = .ok head := by
  refine ⟨(d.drop pos).take (i - pos - 1), ?_⟩
  unfold stringAt
  rw [if_neg (by omega), readBytes_eq_ok]
  refine ⟨by omega, by omega, by omega, ?_⟩
  rw [Int.toNat_natCast]
  congr 1
  omega

/-- Behind the first byte the turns of the loop on both texts are alike. -/
theorem scanStep_alike (onLine : σ → Bytes → σ) (onLine' : τ → Bytes → τ) {d d' : Bytes} (h : SameTail d d') {i : Nat} (hi : 1 ≤ i)
    {s : Scan σ} {s' : Scan τ} (hs : Agree s s') : Alike (scanStep onLine d i s) (scanStep onLine' d' i s') := by
  unfold scanStep
  rw [← h.readAt_eq (i := i) (by omega)]
  cases hread : readAt d i with
  | error e => exact .fault e e
  | ok b =>
    rw [ok_bind, ok_bind]
    by_cases hb : b = LF
    · have hends : ∀ m : Bytes, scanEndsLine m i = .ok true := fun m => if_pos (by omega)
      rw [if_pos hb, if_pos hb, hends, hends, ok_bind, ok_bind, if_pos rfl, if_pos rfl]
      by_cases hfirst : i > 1
      · rw [if_pos hfirst, if_pos hfirst]
        rcases hs with ⟨hpos, hsame⟩ | ⟨hpos, hpos'⟩
        · rw [h.scanBlankLine_eq, ← hsame]
          cases scanBlankLine d' i s.pos with
          | error e => exact .fault e e
          | ok blank =>
            rw [ok_bind, ok_bind]
            cases blank with
            | true => exact .stop
            | false =>
              rw [if_neg (by decide), if_neg (by decide), h.stringAt_eq (by omega)]
              cases stringAt d' s.pos ((i : Int) - s.pos - 1) with
              | error e => exact .fault e e
              | ok head => exact .goOn _ _ (Or.inl ⟨by dsimp only; omega, rfl⟩)
        · have hlt : i < d.length := by
            obtain ⟨-, hget⟩ := readAt_eq_ok.mp hread
            have hlt := (List.getElem?_eq_some_iff.mp hget).1
            omega
          have hblank : ∀ (m : Bytes) {pos : Nat}, pos ≤ 1 → scanBlankLine m i pos = .ok false := fun m pos hp => if_neg (by omega)
          obtain ⟨head, hhead⟩ := exists_stringAt hfirst hpos hlt
          obtain ⟨head', hhead'⟩ := exists_stringAt hfirst hpos' (h.length ▸ hlt)
          rw [hblank d hpos, hblank d' hpos', ok_bind, ok_bind, if_neg (by decide), if_neg (by decide), hhead, hhead']
          exact .goOn _ _ (Or.inl ⟨by dsimp only; omega, rfl⟩)
      · rw [if_neg hfirst, if_neg hfirst]
        exact .goOn _ _ (Or.inl ⟨by dsimp only; omega, rfl⟩)
    · rw [if_neg hb, if_neg hb]
      exact .goOn _ _ hs

/-- So either both loops fault or none does. -/
theorem scanLoop_alike (onLine : σ → Bytes → σ) (onLine' : τ → Bytes → τ) {d d' : Bytes} (h : SameTail d d') (n : Nat) {i : Nat}
    (hi : 1 ≤ i) {s : Scan σ} {s' : Scan τ} (hs : Agree s s') :
    (∃ r, scanLoop onLine d n i s = .ok r) ↔ ∃ r, scanLoop onLine' d' n i s' = .ok r := by
  induction n generalizing i s s' with
  | zero => exact iff_of_true ⟨_, rfl⟩ ⟨_, rfl⟩
  | succ n ih =>
    have hstep := scanStep_alike onLine onLine' h hi hs
    rw [scanLoop, scanLoop]
    generalize scanStep onLine d i s = x at hstep
    generalize scanStep onLine' d' i s' = y at hstep
    cases hstep with
    | fault e e' =>
      constructor
      · rintro ⟨r, h⟩
        cases h
      · rintro ⟨r, h⟩
        cases h
    | stop => exact iff_of_true ⟨_, rfl⟩ ⟨_, rfl⟩
    | goOn s s' hs => exact ih (by omega) hs

/-! ## `ParseHttp` -/

/-- Behind the first byte `ParseHttp` does not look in front of the payload. -/
theorem scanLoopWith_of_pos (onLine : σ → Bytes → σ) (mem : Bytes) (p : Nat) (data : Bytes) (n : Nat) {i : Nat} (hi : 0 < i)
    (s : Scan σ) : scanLoopWith (endsLineAt mem p) onLine data n i s = scanLoop onLine data n i s := by
  induction n generalizing i s with
  | zero => rfl
  | succ n ih =>
    have hstep : scanStepWith (endsLineAt mem p) onLine data i s = scanStep onLine data i s := by
      have hends : endsLineAt mem p i = scanEndsLine data i := by rw [endsLineAt, scanEndsLine, if_pos hi, if_pos hi]
      unfold scanStepWith scanStep
      rw [hends]
    rw [scanLoopWith, scanLoop, hstep]
    cases scanStep onLine data i s with
    | error e => rfl
    | ok r =>
      cases r with
      | none => rfl
      | some s' => exact ih (Nat.succ_pos i) s'

/-- The first turn: the line starts at the front, or behind a line feed there. -/
theorem scanStepWith_zero (onLine : σ → Bytes → σ) {mem : Bytes} {p : Nat} (hp : 0 < p) (hlt : p < mem.length) (acc : σ) :
    ∃ pos ≤ 1, scanStepWith (endsLineAt mem p) onLine (mem.drop p) 0 ⟨0, acc⟩ = .ok (some ⟨pos, acc⟩) := by
  have hhead : readAt (mem.drop p) (0 : Nat) = .ok mem[p] := by
    rw [readAt_eq_ok]
    simp
  obtain ⟨b, hb⟩ : ∃ b, readAt mem ((p : Int) + (0 : Nat) - 1) = .ok b := exists_readAt.mpr (by omega)
  unfold scanStepWith
  rw [hhead, ok_bind]
  by_cases hlf : mem[p] = LF
  · rw [if_pos hlf]
    unfold endsLineAt
    rw [if_neg (by decide), hb, ok_bind]
    by_cases hcr : b = CR
    · rw [hcr]
      exact ⟨1, le_rfl, rfl⟩
    · have hno : (b == CR) = false := beq_false_of_ne hcr
      refine ⟨0, Nat.zero_le 1, ?_⟩
      simp only [hno]
      rfl
  · rw [if_neg hlf]
    exact ⟨0, Nat.zero_le 1, rfl⟩

/-- An empty line, other than one in the first two bytes, with no break in front of it. -/
def EmptyLineBehind (d : Bytes) : Prop :=
  ∃ b r, d = b ++ LF :: r ∧ [LF] <:+ b ∧ 2 ≤ b.length ∧ ∀ e ≤ b.length, ¬BreakEnds d e

theorem breakEnds_cons {x y : UInt8} {t : Bytes} {e : Nat} (h : BreakEnds (x :: t) e) : BreakEnds (y :: t) e := by
  obtain ⟨b, z, hb, hz, htake⟩ := h
  cases e with
  | zero => exact absurd (List.append_eq_nil_iff.mp htake.symm).1 hb
  | succ e =>
    cases b with
    | nil => exact absurd rfl hb
    | cons c b =>
      rw [List.take_succ_cons, List.cons_append] at htake
      obtain ⟨-, htail⟩ := List.cons.inj htake
      refine ⟨y :: b, z, List.cons_ne_nil y b, hz, ?_⟩
      rw [List.take_succ_cons, htail, List.cons_append]

/-- For a text that does not begin with a line feed these are the empty lines at which the scan faults, whatever it begins with. -/
theorem emptyLineFirst_iff {x y : UInt8} (hx : x ≠ LF) {t : Bytes} : EmptyLineFirst (x :: t) ↔ EmptyLineBehind (y :: t) := by
  constructor
  · rintro ⟨b, r, hd, hb, hno⟩
    cases b with
    | nil => exact absurd (List.cons.inj hd).1 hx
    | cons c b =>
      rw [List.cons_append] at hd
      obtain ⟨rfl, rfl⟩ := List.cons.inj hd
      have hsuffix : [LF] <:+ x :: b := hb.resolve_left (List.cons_ne_nil x b)
      rcases List.suffix_cons_iff.mp hsuffix with heq | hin
      · exact absurd (List.cons.inj heq).1.symm hx
      · refine ⟨y :: b, r, rfl, hin.trans (List.suffix_cons y b), ?_, fun e he hbreak => hno e he (breakEnds_cons hbreak)⟩
        have hlen := hin.length_le
        rw [List.length_singleton] at hlen
        rw [List.length_cons]
        omega
  · rintro ⟨b, r, hd, hb, hlen, hno⟩
    cases b with
    | nil => cases hlen
    | cons c b =>
      rw [List.cons_append] at hd
      obtain ⟨rfl, rfl⟩ := List.cons.inj hd
      rcases List.suffix_cons_iff.mp hb with heq | hin
      · obtain ⟨-, rfl⟩ := List.cons.inj heq
        exact absurd hlen (Nat.not_succ_le_self 1)
      · exact ⟨x :: b, r, rfl, Or.inr (hin.trans (List.suffix_cons x b)), fun e he hbreak => hno e he (breakEnds_cons hbreak)⟩

/-- Inside of a frame, `ParseHttp` of a payload with a byte faults at an empty line that comes before the first break, unless the line is
in the first two bytes, and at nothing else. -/
theorem parseHttpAt_ok_iff {mem : Bytes} {p : Nat} (hp : 0 < p) {len : Int} (hpos : 0 < len) (hlen : p + len ≤ mem.length)
    (remainPos : Int) :
    (∃ r, parseHttpAt mem p len remainPos = .ok r) ↔ ¬EmptyLineBehind ((mem.drop p).take len.toNat) := by
  obtain ⟨n, hn⟩ : ∃ n, len.toNat = n + 1 := ⟨len.toNat - 1, by omega⟩
  have hlong : 0 < (mem.drop p).length := by
    rw [List.length_drop]
    omega
  obtain ⟨x, t, hdata⟩ := List.exists_cons_of_length_pos hlong
  have hdata' : len ≤ ((88 : UInt8) :: t).length := by
    have hsame := congrArg List.length hdata
    rw [List.length_drop] at hsame
    rw [List.length_cons] at hsame ⊢
    omega
  have htail : SameTail (x :: t) (88 :: t) := by
    refine ⟨rfl, fun n hn => ?_⟩
    cases n with
    | zero => cases hn
    | succ n => rfl
  -- both scans are behind their first bytes, in lines that started there or in front
  have hin : p < mem.length := by omega
  obtain ⟨pos, hle, hfirst⟩ := scanStepWith_zero (fun (lines : List Bytes) head => lines ++ [head]) hp hin []
  have hother : scanStep (fun (_ : Unit) _ => ()) (88 :: t) 0 ⟨0, ()⟩ = .ok (some ⟨0, ()⟩) := rfl
  have hagree : Agree (⟨pos, []⟩ : Scan (List Bytes)) (⟨0, ()⟩ : Scan Unit) := Or.inr ⟨hle, Nat.zero_le 1⟩
  have halike := scanLoop_alike (fun (lines : List Bytes) head => lines ++ [head]) (fun (_ : Unit) _ => ()) htail n (Nat.le_refl 1) hagree
  have hscan := scanHeaders_ok_iff (fun (_ : Unit) _ => ()) hpos hdata' () remainPos
  have hloop : ∀ {α β : Type} {y : Except Fault α} {f : α → β}, (∃ r, (y >>= fun a => pure (f a)) = Except.ok (ε := Fault) r) ↔
      ∃ r, y = .ok r := fun {_ _} y _ => by cases y <;> simp [pure, Except.pure]
  unfold parseHttpAt scanHeadersWith
  unfold scanHeaders at hscan
  rw [if_neg (by omega), hn, hloop, scanLoop, hother, ok_bind] at hscan
  rw [if_neg (by omega), hn, hloop, scanLoopWith, hfirst, ok_bind]
  dsimp only at hscan ⊢
  rw [scanLoopWith_of_pos _ _ _ _ _ (Nat.succ_pos 0), hdata, halike, hscan, List.take_succ_cons, List.take_succ_cons]
  exact not_congr (emptyLineFirst_iff (by decide))

/-- The loop ends after as many turns as it has, at the latest. -/
theorem le_of_scanLoopWith {endsLine : Nat → Except Fault Bool} {onLine : σ → Bytes → σ} {data : Bytes} {n i : Nat} {s : Scan σ}
    {r : Nat × Scan σ} (h : scanLoopWith endsLine onLine data n i s = .ok r) : r.1 ≤ i + n := by
  induction n generalizing i s with
  | zero =>
    cases h
    exact Nat.le_refl i
  | succ n ih =>
    rw [scanLoopWith] at h
    obtain ⟨next, -, h⟩ := bind_eq_ok.mp h
    cases next with
    | none =>
      cases h
      exact Nat.le_add_right i (n + 1)
    | some s' =>
      have hle := ih h
      omega

/-- `ParseHttp` puts `*remain_pos` one behind the payload at the latest. -/
theorem remainPos_of_parseHttpAt {mem : Bytes} {p : Nat} {len : Int} {ret : Bool} {lines : List Bytes} {nextPos : Int}
    (h : parseHttpAt mem p len 0 = .ok (ret, lines, nextPos)) : 0 ≤ nextPos ∧ nextPos ≤ max len 0 + 1 := by
  unfold parseHttpAt scanHeadersWith at h
  split at h
  · cases h
    omega
  · obtain ⟨r, hloop, h⟩ := bind_eq_ok.mp h
    cases h
    have hle := le_of_scanLoopWith hloop
    omega

/-! ## The dump of a part of memory -/

namespace Utils

/-- An inner loop looks at no byte behind the size. -/
theorem forBytes_take (body : OStringStream → UInt8 → OStringStream) {ctx : Bytes} {n : Nat} {stop j : Int} (hj : 0 ≤ j)
    (oss : OStringStream) : forBytes (ctx.take n) n stop body j oss = forBytes ctx n stop body j oss := by
  induction hk : (stop - j).toNat generalizing j oss with
  | zero => rw [forBytes, forBytes, if_neg (by omega), if_neg (by omega)]
  | succ k ih =>
    rw [forBytes, forBytes]
    by_cases hin : j < n ∧ j < stop
    · have hread : readAt (ctx.take n) j = readAt ctx j := by
        unfold readAt
        rw [List.getElem?_take_of_lt (by omega)]
      rw [if_pos hin, if_pos hin, hread]
      congr 1
      funext value
      exact ih (by omega) (body oss value) (by omega)
    · rw [if_neg hin, if_neg hin]

/-- Nor do the lines. -/
theorem printLines_take {ctx : Bytes} {n : Nat} {i : Int} (hi : 0 ≤ i) (oss : OStringStream) :
    printLines (ctx.take n) n i oss = printLines ctx n i oss := by
  induction hk : ((n : Int) - i * cntPerLine).toNat using Nat.strong_induction_on generalizing i oss with
  | _ k ih =>
    have hstart : 0 ≤ i * cntPerLine := by
      unfold cntPerLine
      omega
    have hline : printLine (ctx.take n) n i oss = printLine ctx n i oss := by
      unfold printLine
      simp only [forBytes_take _ hstart]
    rw [printLines, printLines, hline]
    split
    · congr 1
      funext oss'
      refine ih _ ?_ (by omega) oss' rfl
      unfold cntPerLine at *
      omega
    · rfl

end Utils

/-- A dump goes through where there is memory for it. -/
theorem exists_printHexText {ctx : Bytes} {size : Int} (hsize : size ≤ ctx.length) (hint : size < 2 ^ 31 - 16) :
    ∃ text, printHexText ctx size = .ok text := by
  have hlines : ∃ oss, Utils.printLines ctx size 0 OStringStream.new = .ok oss := by
    by_cases hpos : 0 < size
    · obtain ⟨n, rfl⟩ := Int.eq_ofNat_of_zero_le hpos.le
      have hlen : (ctx.take n).length = n := by
        rw [List.length_take]
        omega
      have hshort : (ctx.take n).length < 2 ^ 31 - 16 := by omega
      obtain ⟨oss, hoss, -⟩ := Utils.printLines_eq hshort (Nat.zero_add _) (i := 0)
        (by rfl : OStringStream.new.width = 0)
      rw [hlen] at hoss
      exact ⟨oss, (Utils.printLines_take (by omega) _).symm.trans hoss⟩
    · refine ⟨OStringStream.new, ?_⟩
      rw [Utils.printLines, if_neg (by unfold Utils.cntPerLine; omega)]
      rfl
  obtain ⟨oss, hoss⟩ := hlines
  exact ⟨oss.str, bind_eq_ok.mpr ⟨oss, hoss, rfl⟩⟩

end FrontServer
