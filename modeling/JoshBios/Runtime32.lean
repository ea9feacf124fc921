import Mathlib

/-! # 64-bit division (`boot/runtime32.c`)

The 32-bit loader has no 64-bit division of its own, the compiler calls `__udivdi3` and `__umoddi3` for it. Both go through
`udivmod64`, a restoring division that takes the bits of the numerator one by one, the highest first. `Simulates` relates
the words of the loop to the restoring division of bit vectors (`BitVec.divSubtractShift`), whose partial remainder is
below `2 ^ i` after `i` rounds: so the shifted one still fits in its word, and the carry that the loop saves is never set. -/

namespace JoshBios.Runtime32

open BitVec (DivModArgs DivModState divSubtractShift shiftConcat)

/-- The locals of the loop of `udivmod64`. -/
structure DivState where
  quotient : UInt64
  rem : UInt64
  bit : UInt64

def divStart : DivState := { quotient := 0, rem := 0, bit := (1 : UInt64) <<< 63 }

/-- The top bit of the remainder, which the shift pushes out. -/
def DivState.carry (s : DivState) : UInt32 := (s.rem >>> 63).toUInt32

def DivState.shifted (numerator : UInt64) (s : DivState) : UInt64 :=
  (s.rem <<< 1) ||| (if numerator &&& s.bit ≠ 0 then 1 else 0)

/-- One round of the loop. -/
def udivmodRound (numerator denominator : UInt64) (s : DivState) : DivState :=
  let carry := s.carry
  let rem := s.shifted numerator
  if carry ≠ 0 || rem ≥ denominator then
    { quotient := s.quotient ||| s.bit, rem := rem - denominator, bit := s.bit >>> 1 }
  else { quotient := s.quotient, rem, bit := s.bit >>> 1 }

def udivmodLoop (numerator denominator : UInt64) : (n : Nat) → DivState → DivState
  | 0, s => s
  | n + 1, s => udivmodLoop numerator denominator n (udivmodRound numerator denominator s)

/-- `udivmod64`: the quotient, and what it stores as the remainder. -/
def udivmod64 (numerator denominator : UInt64) : UInt64 × UInt64 :=
  if denominator = 0 then (0, 0) else
  let s := udivmodLoop numerator denominator 64 divStart
  (s.quotient, s.rem)

/-- `__udivdi3` -/
def udivdi3 (numerator denominator : UInt64) : UInt64 := (udivmod64 numerator denominator).1

/-- `__umoddi3` -/
def umoddi3 (numerator denominator : UInt64) : UInt64 := (udivmod64 numerator denominator).2

/-! ### The words of the loop -/

theorem toNat_bit_shiftRight (s : DivState) : (s.bit >>> 1).toNat = s.bit.toNat / 2 := by
  rw [UInt64.toNat_shiftRight]
  exact Nat.shiftRight_one _

theorem carry_eq_zero_iff (s : DivState) : s.carry = 0 ↔ s.rem.toNat < 2 ^ 63 := by
  have hlt := s.rem.toNat_lt
  have hcarry : s.carry.toNat = s.rem.toNat / 2 ^ 63 := by
    rw [DivState.carry, UInt64.toNat_toUInt32, UInt64.toNat_shiftRight]
    change s.rem.toNat >>> 63 % 2 ^ 32 = _
    rw [Nat.shiftRight_eq_div_pow]
    omega
  rw [← UInt32.toNat_inj, hcarry]
  change _ = 0 ↔ _
  omega

theorem and_bit_ne_zero_iff {numerator bit : UInt64} {k : Nat} (hbit : bit.toNat = 2 ^ k) :
    numerator &&& bit ≠ 0 ↔ numerator.toNat.testBit k = true := by
  have hpos := Nat.two_pow_pos k
  rw [ne_eq, ← UInt64.toNat_inj, UInt64.toNat_and, hbit, Nat.and_two_pow]
  cases numerator.toNat.testBit k with
  | false => simp
  | true =>
    change ¬ 1 * 2 ^ k = 0 ↔ _
    simp

theorem toNat_shifted {numerator : UInt64} {s : DivState} {k : Nat} (hbit : s.bit.toNat = 2 ^ k)
    (hrem : s.rem.toNat < 2 ^ 63) :
    (s.shifted numerator).toNat = 2 * s.rem.toNat + (numerator.toNat.testBit k).toNat := by
  have hshift : (s.rem <<< 1).toNat = 2 ^ 1 * s.rem.toNat := by
    rw [UInt64.toNat_shiftLeft]
    change s.rem.toNat <<< 1 % 2 ^ 64 = _
    rw [Nat.shiftLeft_eq]
    omega
  have hlow : (if numerator &&& s.bit ≠ 0 then (1 : UInt64) else 0).toNat = (numerator.toNat.testBit k).toNat := by
    simp only [and_bit_ne_zero_iff hbit]
    cases numerator.toNat.testBit k <;> rfl
  rw [DivState.shifted, UInt64.toNat_or, hshift, hlow, ← Nat.two_pow_add_eq_or_of_lt (Bool.toNat_lt _)]

theorem toNat_or_bit {quotient bit : UInt64} {q k : Nat} (hq : quotient.toNat = q * 2 ^ (k + 1))
    (hbit : bit.toNat = 2 ^ k) : (quotient ||| bit).toNat = (2 * q + 1) * 2 ^ k := by
  have hlt : 2 ^ k < 2 ^ (k + 1) := Nat.pow_lt_pow_succ (by decide)
  rw [UInt64.toNat_or, hq, hbit, Nat.mul_comm q, ← Nat.two_pow_add_eq_or_of_lt hlt]
  ring

/-! ### The restoring division -/

/-- The loop has `qr.wn` rounds to go: it holds the remainder as it is, the quotient with its bits already in their places. -/
structure Simulates (s : DivState) (qr : DivModState 64) : Prop where
  rem : s.rem.toNat = qr.r.toNat
  quotient : s.quotient.toNat = qr.q.toNat * 2 ^ qr.wn
  bit : s.bit.toNat = 2 ^ qr.wn / 2

theorem simulates_start : Simulates divStart (DivModState.init 64) := ⟨rfl, rfl, by decide⟩

section
variable {numerator denominator : UInt64} {s : DivState} {qr : DivModState 64}

theorem Simulates.rem_lt (h : Simulates s qr) (hp : qr.Poised ⟨numerator.toBitVec, denominator.toBitVec⟩) :
    s.rem.toNat < 2 ^ 63 := by
  rw [h.rem]
  exact Nat.lt_of_lt_of_le hp.hrWidth (Nat.pow_le_pow_right (by decide) (Nat.le_of_lt_succ (DivModState.wr_lt_w hp)))

/-- One round of the loop is one round of the restoring division. -/
theorem Simulates.round (h : Simulates s qr) (hp : qr.Poised ⟨numerator.toBitVec, denominator.toBitVec⟩) :
    Simulates (udivmodRound numerator denominator s)
      (divSubtractShift ⟨numerator.toBitVec, denominator.toBitVec⟩ qr) := by
  obtain ⟨k, hk⟩ := Nat.exists_eq_add_one.2 hp.hwn_lt
  have hbit : s.bit.toNat = 2 ^ k := by
    rw [h.bit, hk, Nat.pow_succ, Nat.mul_div_cancel _ (by decide)]
  have hquot : s.quotient.toNat = qr.q.toNat * 2 ^ (k + 1) := hk ▸ h.quotient
  have hnext : (s.bit >>> 1).toNat = 2 ^ k / 2 := by rw [toNat_bit_shiftRight, hbit]
  have hcarry := (carry_eq_zero_iff s).2 (h.rem_lt hp)
  have hroom := DivModState.wr_lt_w hp
  -- the same shifted remainder, the same comparison
  have hshift : (s.shifted numerator).toNat = (shiftConcat qr.r (numerator.toBitVec.getLsbD k)).toNat := by
    rw [toNat_shifted hbit (h.rem_lt hp), BitVec.toNat_shiftConcat_eq_of_lt hroom hp.hrWidth, h.rem, Nat.mul_comm]
    rfl
  have hconcat (b : Bool) : (qr.q.shiftConcat b).toNat = qr.q.toNat * 2 + b.toNat :=
    BitVec.toNat_shiftConcat_eq_of_lt hroom hp.hqWidth
  have hcmp : s.shifted numerator ≥ denominator ↔
      ¬ shiftConcat qr.r (numerator.toBitVec.getLsbD k) < denominator.toBitVec := by
    rw [ge_iff_le, UInt64.le_iff_toNat_le, BitVec.lt_def, hshift, Nat.not_lt]
    rfl
  have hwn : qr.wn - 1 = k := by rw [hk]; rfl
  simp only [udivmodRound, divSubtractShift, hcarry, ne_eq, not_true_eq_false, decide_false, Bool.false_or,
    decide_eq_true_eq, hcmp, ite_not, hwn]
  split
  next hlt =>
    refine ⟨hshift, ?_, hnext⟩
    rw [hconcat, hquot, Nat.pow_succ]
    change _ = (_ * 2 + 0) * _
    ring
  next hge =>
    refine ⟨?_, ?_, hnext⟩
    · rw [UInt64.toNat_sub_of_le _ _ (hcmp.2 hge), BitVec.toNat_sub_of_le (BitVec.not_lt.1 hge), hshift]
      rfl
    · rw [hconcat, toNat_or_bit hquot hbit]
      change _ = (_ * 2 + 1) * _
      ring

end

theorem udivmodLoop_succ (numerator denominator : UInt64) (n : Nat) (s : DivState) :
    udivmodLoop numerator denominator (n + 1) s =
      udivmodRound numerator denominator (udivmodLoop numerator denominator n s) := by
  induction n generalizing s with
  | zero => rfl
  | succ n ih => exact ih (udivmodRound numerator denominator s)

section
variable {numerator denominator : UInt64} (hd : 0 < denominator.toNat)
include hd

/-- After `k` rounds the loop holds a lawful state of the restoring division, with `64 - k` bits to go. -/
theorem udivmodLoop_simulates {k : Nat} (hk : k ≤ 64) :
    ∃ qr : DivModState 64, qr.Lawful ⟨numerator.toBitVec, denominator.toBitVec⟩ ∧ qr.wn + k = 64 ∧
      Simulates (udivmodLoop numerator denominator k divStart) qr := by
  induction k with
  | zero => exact ⟨_, DivModState.lawful_init _ hd, rfl, simulates_start⟩
  | succ k ih =>
    obtain ⟨qr, hlawful, hwn, hsim⟩ := ih (Nat.le_of_succ_le hk)
    have hp : qr.Poised ⟨numerator.toBitVec, denominator.toBitVec⟩ := ⟨hlawful, by omega⟩
    refine ⟨_, BitVec.lawful_divSubtractShift qr hp, ?_, ?_⟩
    · have hnext : (divSubtractShift ⟨numerator.toBitVec, denominator.toBitVec⟩ qr).wn = qr.wn - 1 := by
        rw [divSubtractShift]
        split <;> rfl
      omega
    · rw [udivmodLoop_succ]
      exact hsim.round hp

theorem udivmodLoop_fits {k : Nat} (hk : k < 64) :
    2 * (udivmodLoop numerator denominator k divStart).rem.toNat + 1 < 2 ^ 64 := by
  obtain ⟨qr, hlawful, hwn, hsim⟩ := @udivmodLoop_simulates numerator denominator hd k (Nat.le_of_lt hk)
  have hrem := hsim.rem_lt ⟨hlawful, by omega⟩
  omega

theorem udivmod64_eq : udivmod64 numerator denominator = (numerator / denominator, numerator % denominator) := by
  obtain ⟨qr, hlawful, hwn, hsim⟩ := @udivmodLoop_simulates numerator denominator hd 64 (Nat.le_refl _)
  have hzero : qr.wn = 0 := by omega
  have hne : denominator ≠ 0 := by
    rintro rfl
    exact absurd hd (by decide)
  rw [udivmod64, if_neg hne]
  refine Prod.ext (UInt64.toNat_inj.1 ?_) (UInt64.toNat_inj.1 ?_)
  · rw [hsim.quotient, hzero, Nat.pow_zero, Nat.mul_one, ← DivModState.udiv_eq_of_lawful hlawful hzero]
    rfl
  · rw [hsim.rem, ← DivModState.umod_eq_of_lawful hlawful hzero]
    rfl

end

theorem udivdi3_eq (numerator denominator : UInt64) : udivdi3 numerator denominator = numerator / denominator := by
  by_cases hd : denominator = 0
  · rw [udivdi3, udivmod64, if_pos hd, hd, UInt64.div_zero]
  · have hpos : 0 < denominator.toNat := Nat.pos_iff_ne_zero.2 fun h => hd (UInt64.toNat_inj.1 h)
    rw [udivdi3, udivmod64_eq hpos]

/-- The quotient and the remainder are right for every divisor but 0, those from `2 ^ 63` on too. In none of the 64
rounds does the shifted remainder overflow, so the carry is never set. -/
theorem udivmod64_divides {numerator denominator : UInt64} (hd : 0 < denominator.toNat) :
    (udivmod64 numerator denominator).1.toNat = numerator.toNat / denominator.toNat ∧
    (udivmod64 numerator denominator).2.toNat = numerator.toNat % denominator.toNat ∧
    (∀ k < 64, 2 * (udivmodLoop numerator denominator k divStart).rem.toNat + 1 < 2 ^ 64 ∧
      (udivmodLoop numerator denominator k divStart).carry = 0) ∧
    numerator.toNat =
      (udivdi3 numerator denominator).toNat * denominator.toNat + (umoddi3 numerator denominator).toNat ∧
    (umoddi3 numerator denominator).toNat < denominator.toNat := by
  rw [udivdi3, umoddi3, udivmod64_eq hd]
  refine ⟨UInt64.toNat_div .., UInt64.toNat_mod .., fun k hk => ?_, ?_, ?_⟩
  · have hfits := @udivmodLoop_fits numerator denominator hd k hk
    exact ⟨hfits, (carry_eq_zero_iff _).2 (by omega)⟩
  · rw [UInt64.toNat_div, UInt64.toNat_mod, Nat.div_add_mod']
  · rw [UInt64.toNat_mod]
    exact Nat.mod_lt _ hd

theorem udivmod64_divides_top :
    (umoddi3 0xffffffffffffffff 0x8000000000000001).toNat < (0x8000000000000001 : UInt64).toNat ∧
    (udivmod64 0xffffffffffffffff 0x8000000000000001).1.toNat =
      (0xffffffffffffffff : UInt64).toNat / (0x8000000000000001 : UInt64).toNat :=
  have h := @udivmod64_divides 0xffffffffffffffff 0x8000000000000001 (by decide)
  ⟨h.2.2.2.2, h.1⟩

/-- The divisors from `2 ^ 63` on are no exception. -/
theorem shifted_remainder_fits : ¬ ∃ numerator denominator : UInt64, 2 ^ 63 ≤ denominator.toNat ∧
    ∃ k < 64, 2 ^ 64 ≤ 2 * (udivmodLoop numerator denominator k divStart).rem.toNat + 1 := by
  rintro ⟨numerator, denominator, hd, k, hk, hover⟩
  have hfits := @udivmodLoop_fits numerator denominator (by omega) k hk
  omega

end JoshBios.Runtime32
