import FrontServer.Lib.Lines
import FrontServer.Lemmas.HttpHead

/-!
# Printed numbers and addresses

A number is read back from its digits, and neither digits nor dots and colons can be mixed up, so different addresses are printed
differently.
-/

namespace FrontServer

/-! ## Numbers -/

/-- A digit of a number, as a character and as a byte. -/
theorem toNat_of_mem_toDigits {n : Nat} {c : Char} (h : c ∈ Nat.toDigits 10 n) :
    48 ≤ c.toNat ∧ c.toNat ≤ 57 ∧ c.toNat.toUInt8.toNat = c.toNat := by
  have hd := Nat.isDigit_of_mem_toDigits (by decide) (by decide) h
  obtain ⟨h₁, h₂⟩ : 48 ≤ c.toNat ∧ c.toNat ≤ 57 := by
    simpa [Char.isDigit, UInt32.le_iff_toNat_le] using hd
  refine ⟨h₁, h₂, ?_⟩
  rw [Nat.toUInt8, UInt8.toNat_ofNat']
  omega

/-- What is printed of a number are digits. -/
theorem isDigit_of_mem_decimal {n : Nat} {b : UInt8} (h : b ∈ decimal n) : isDigit b := by
  obtain ⟨c, hc, rfl⟩ := List.mem_map.mp h
  obtain ⟨h₁, h₂, h₃⟩ := toNat_of_mem_toDigits hc
  simp only [isDigit, Bool.and_eq_true, decide_eq_true_eq, UInt8.le_iff_toNat_le, h₃]
  exact ⟨h₁, h₂⟩

/-- The digits printed are those of the number. -/
theorem map_decimal (n : Nat) : (decimal n).map (fun b => Char.ofNat b.toNat) = Nat.toDigits 10 n := by
  unfold decimal
  rw [List.map_map]
  calc (Nat.toDigits 10 n).map ((fun b : UInt8 => Char.ofNat b.toNat) ∘ fun c => c.toNat.toUInt8)
      = (Nat.toDigits 10 n).map id := by
        refine List.map_congr_left fun c hc => ?_
        rw [Function.comp_apply, (toNat_of_mem_toDigits hc).2.2, Char.ofNat_toNat, id]
    _ = Nat.toDigits 10 n := List.map_id _

/-- Different numbers are printed differently. -/
theorem decimal_injective : Function.Injective decimal := by
  intro a b h
  have hmap := congrArg (List.map (fun b : UInt8 => Char.ofNat b.toNat)) h
  rw [map_decimal, map_decimal] at hmap
  calc a = Nat.ofDigitChars 10 (Nat.toDigits 10 a) 0 := (Nat.ofDigitChars_toDigits (by decide) (by decide)).symm
    _ = Nat.ofDigitChars 10 (Nat.toDigits 10 b) 0 := by rw [hmap]
    _ = b := Nat.ofDigitChars_toDigits (by decide) (by decide)

/-- A byte that is no digit is not in a printed number. -/
theorem not_mem_decimal {b : UInt8} (h : isDigit b = false) (n : Nat) : b ∉ decimal n := by
  intro hb
  rw [isDigit_of_mem_decimal hb] at h
  cases h

/-- An `int` that is not negative is printed as its value. -/
theorem decimalInt_natCast (n : Nat) : decimalInt n = decimal n := by
  unfold decimalInt
  rw [if_neg (by omega), Int.natAbs_natCast]

/-! ## Addresses -/

namespace Utils

/-- Eight bits of a number, by a mask and a shift. -/
theorem toNat_masked {ip mask shift : UInt32} {k : Nat} (hs : shift.toNat % 32 = k) (hm : mask.toNat >>> k = 2 ^ 8 - 1) :
    ((ip &&& mask) >>> shift).toNat = ip.toNat / 2 ^ k % 2 ^ 8 := by
  rw [UInt32.toNat_shiftRight, hs, UInt32.toNat_and, Nat.shiftRight_and_distrib, hm, Nat.and_two_pow_sub_one_eq_mod,
    Nat.shiftRight_eq_div_pow]

/-- The four numbers of a dotted address. -/
theorem long2IP_eq (ip : UInt32) :
    long2IP ip = joinLines 46 [decimal (ip.toNat / 2 ^ 24 % 2 ^ 8), decimal (ip.toNat / 2 ^ 16 % 2 ^ 8),
      decimal (ip.toNat / 2 ^ 8 % 2 ^ 8)] ++ decimal (ip.toNat % 2 ^ 8) := by
  have h₁ : ((ip &&& 0xFF000000) >>> 24).toNat = ip.toNat / 2 ^ 24 % 2 ^ 8 := toNat_masked rfl rfl
  have h₂ : ((ip &&& 0x00FF0000) >>> 16).toNat = ip.toNat / 2 ^ 16 % 2 ^ 8 := toNat_masked rfl rfl
  have h₃ : ((ip &&& 0x0000FF00) >>> 8).toNat = ip.toNat / 2 ^ 8 % 2 ^ 8 := toNat_masked rfl rfl
  have h₄ : (ip &&& 0x000000FF).toNat = ip.toNat % 2 ^ 8 := by
    rw [UInt32.toNat_and]
    exact Nat.and_two_pow_sub_one_eq_mod _ 8
  have hdot : ascii "." = [46] := by decide
  unfold long2IP
  rw [h₁, h₂, h₃, h₄, hdot]
  simp only [joinLines_cons, joinLines_nil, List.append_assoc, List.cons_append, List.nil_append]

/-- A printed address is its four numbers with dots between them. -/
theorem lines_long2IP (ip : UInt32) :
    Lines 46 (long2IP ip) [decimal (ip.toNat / 2 ^ 24 % 2 ^ 8), decimal (ip.toNat / 2 ^ 16 % 2 ^ 8),
      decimal (ip.toNat / 2 ^ 8 % 2 ^ 8)] (decimal (ip.toNat % 2 ^ 8)) := by
  have hdot : isDigit 46 = false := by decide
  refine ⟨long2IP_eq ip, ?_, not_mem_decimal hdot _⟩
  intro l hl
  simp only [List.mem_cons, List.not_mem_nil, or_false] at hl
  rcases hl with rfl | rfl | rfl
  · exact not_mem_decimal hdot _
  · exact not_mem_decimal hdot _
  · exact not_mem_decimal hdot _

/-- Different addresses are printed differently. -/
theorem long2IP_injective : Function.Injective long2IP := by
  intro a b h
  have hb := lines_long2IP b
  rw [← h] at hb
  obtain ⟨hl, ht⟩ := (lines_long2IP a).unique hb
  simp only [List.cons.injEq, and_true] at hl
  have h₁ := decimal_injective hl.1
  have h₂ := decimal_injective hl.2.1
  have h₃ := decimal_injective hl.2.2
  have h₄ := decimal_injective ht
  have ha := a.toNat_lt
  have hb := b.toNat_lt
  apply UInt32.toNat_inj.mp
  omega

/-- A byte other than a digit and a dot is not in a printed address. -/
theorem not_mem_long2IP {b : UInt8} (h : isDigit b = false) (hb : b ≠ 46) (ip : UInt32) : b ∉ long2IP ip := by
  rw [long2IP_eq]
  simp only [joinLines_cons, joinLines_nil, List.mem_append, List.mem_cons, List.not_mem_nil, hb, not_mem_decimal h, or_self,
    not_false_eq_true]

end Utils

end FrontServer
