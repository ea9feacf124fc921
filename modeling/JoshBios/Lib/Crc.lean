import Mathlib

/-!
# Reflected CRCs

A message is a list of bits; read as the coefficients of a polynomial over the field of two elements, highest first, its
CRC is a remainder modulo a generator (`message_register`). The register holds that remainder with its highest coefficient in
bit 0, so a shift to the right multiplies by `X`, and the bit that drops out says whether the generator has to be
subtracted. A generator with a constant term divides no power of `X`, so it tells two messages apart that differ in no
more bits in a row than the register has (`register_ne_of_burst`).
-/

namespace JoshBios.Lib

open Polynomial

/-! ### Bits as coefficients -/

noncomputable section

/-- A bit as a constant. -/
def bitPoly (b : Bool) : (ZMod 2)[X] := if b then 1 else 0

theorem bitPoly_xor (a b : Bool) : bitPoly (a ^^ b) = bitPoly a + bitPoly b := by
  cases a <;> cases b <;> simp [bitPoly, CharTwo.add_self_eq_zero]

/-- The polynomial with the given coefficients, the highest first. -/
def message : List Bool → (ZMod 2)[X]
  | [] => 0
  | b :: bs => bitPoly b * X ^ bs.length + message bs

theorem message_append (as bs : List Bool) : message (as ++ bs) = message as * X ^ bs.length + message bs := by
  induction as with
  | nil => rw [List.nil_append, message, zero_mul, zero_add]
  | cons a as ih => rw [List.cons_append, message, message, ih, List.length_append, pow_add]; ring

theorem message_degree_lt (bs : List Bool) : (message bs).degree < bs.length := by
  induction bs with
  | nil => rw [message, degree_zero]; exact WithBot.bot_lt_coe _
  | cons b bs ih =>
    rw [message, List.length_cons]
    refine (degree_add_le _ _).trans_lt (max_lt ?_ (ih.trans (by exact_mod_cast Nat.lt_succ_self _)))
    cases b with
    | false => rw [bitPoly, if_neg Bool.false_ne_true, zero_mul, degree_zero]; exact WithBot.bot_lt_coe _
    | true => rw [bitPoly, if_pos rfl, one_mul, degree_X_pow]; exact_mod_cast Nat.lt_succ_self _

theorem message_injective {as bs : List Bool} (hlen : as.length = bs.length) (h : message as = message bs) : as = bs := by
  induction as generalizing bs with
  | nil => exact (List.length_eq_zero_iff.1 hlen.symm).symm
  | cons a as ih =>
    cases bs with
    | nil => cases hlen
    | cons b bs =>
      have hlen' : as.length = bs.length := Nat.succ.inj hlen
      have hhead : a = b := by
        have hcoeff : ∀ (c : Bool) (cs : List Bool), cs.length = bs.length →
            (message (c :: cs)).coeff bs.length = if c then 1 else 0 := by
          intro c cs hcs
          have htail : (message cs).coeff bs.length = 0 :=
            coeff_eq_zero_of_degree_lt (hcs ▸ message_degree_lt cs)
          rw [message, coeff_add, htail, add_zero, hcs]
          cases c <;> simp [bitPoly]
        have hab := congrArg (fun p => coeff p bs.length) h
        simp only [hcoeff a as hlen', hcoeff b bs rfl] at hab
        cases a <;> cases b <;> simp_all
      subst hhead
      rw [message, message, hlen'] at h
      rw [ih hlen' (add_left_cancel h)]

theorem message_xor {as bs : List Bool} (hlen : as.length = bs.length) :
    message (List.zipWith xor as bs) = message as + message bs := by
  induction as generalizing bs with
  | nil => rw [List.length_eq_zero_iff.1 hlen.symm, List.zipWith_nil_left, message, zero_add]
  | cons a as ih =>
    cases bs with
    | nil => cases hlen
    | cons b bs =>
      have hlen' : as.length = bs.length := Nat.succ.inj hlen
      rw [List.zipWith_cons_cons, message, message, message, bitPoly_xor, ih hlen', List.length_zipWith, hlen', min_self]
      ring

end

/-! ### The register -/

section
variable {w : Nat}

/-- The bits of a register, the lowest first. -/
def bits (s : BitVec w) : List Bool := (List.range w).map s.getLsbD

@[simp] theorem length_bits (s : BitVec w) : (bits s).length = w := by rw [bits, List.length_map, List.length_range]

theorem bits_injective {s t : BitVec w} (h : bits s = bits t) : s = t :=
  BitVec.eq_of_getLsbD_eq fun i hi => List.map_inj_left.1 h i (List.mem_range.2 hi)

theorem bits_xor (s t : BitVec w) : bits (s ^^^ t) = List.zipWith xor (bits s) (bits t) := by
  rw [bits, bits, bits, List.zipWith_map, List.zipWith_self]
  exact List.map_congr_left fun i _ => BitVec.getLsbD_xor

/-- One shift: the bit that drops out decides whether `g` is added. -/
def shiftOut (g s : BitVec w) : BitVec w := (s >>> 1) ^^^ (if s.getLsbD 0 then g else 0)

/-- One bit of a message goes in with a shift. -/
def feedBit (g s : BitVec w) (b : Bool) : BitVec w := (s >>> 1) ^^^ (if s.getLsbD 0 ^^ b then g else 0)

/-- The register after a message, from the contents `s` on. -/
def register (g s : BitVec w) (bs : List Bool) : BitVec w := bs.foldl (feedBit g) s

theorem register_append (g s : BitVec w) (as bs : List Bool) :
    register g s (as ++ bs) = register g (register g s as) bs := List.foldl_append

theorem shiftOut_xor (g s y : BitVec w) : shiftOut g (s ^^^ y) = feedBit g s (y.getLsbD 0) ^^^ (y >>> 1) := by
  rw [shiftOut, feedBit, BitVec.getLsbD_xor, BitVec.ushiftRight_xor_distrib, BitVec.xor_assoc, BitVec.xor_assoc,
    BitVec.xor_comm (y >>> 1)]

theorem shiftOut_iterate (g s y : BitVec w) (n : Nat) :
    (shiftOut g)^[n] (s ^^^ y) = register g s ((List.range n).map y.getLsbD) ^^^ (y >>> n) := by
  induction n with
  | zero => rw [Function.iterate_zero, id, BitVec.ushiftRight_zero]; rfl
  | succ n ih =>
    rw [Function.iterate_succ_apply', ih, shiftOut_xor, List.range_succ, List.map_append, register_append,
      ← BitVec.shiftRight_add, BitVec.getLsbD_ushiftRight]
    rfl

/-! ### The register as a remainder -/

noncomputable section

/-- The polynomial of a register. -/
def remainder (s : BitVec w) : (ZMod 2)[X] := message (bits s)

/-- The generator with the coefficients of `g` below the highest. -/
def generator (g : BitVec w) : (ZMod 2)[X] := X ^ w + remainder g

theorem remainder_degree_lt (s : BitVec w) : (remainder s).degree < w := by
  have h := message_degree_lt (bits s)
  rwa [length_bits] at h

theorem remainder_xor (s t : BitVec w) : remainder (s ^^^ t) = remainder s + remainder t := by
  rw [remainder, bits_xor, message_xor (by rw [length_bits, length_bits])]
  rfl

theorem remainder_ite (g : BitVec w) (b : Bool) : remainder (if b then g else 0) = bitPoly b * remainder g := by
  cases b with
  | true => rw [if_pos rfl, bitPoly, if_pos rfl, one_mul]
  | false =>
    have hzero := remainder_xor (0 : BitVec w) 0
    rw [BitVec.xor_self] at hzero
    rw [if_neg Bool.false_ne_true, bitPoly, if_neg Bool.false_ne_true, zero_mul]
    exact left_eq_add.1 hzero

theorem generator_monic (g : BitVec w) : (generator g).Monic := monic_X_pow_add (remainder_degree_lt g)

theorem generator_degree (g : BitVec w) : (generator g).degree = w := by
  have hpow : (X ^ w : (ZMod 2)[X]).degree = w := degree_X_pow w
  rw [generator, degree_add_eq_left_of_degree_lt (hpow.symm ▸ remainder_degree_lt g), hpow]

/-- A shift to the right multiplies by `X`, up to the bit that drops out. -/
theorem remainder_shift (s : BitVec w) :
    X * remainder s = bitPoly (s.getLsbD 0) * X ^ w + remainder (s >>> 1) := by
  cases w with
  | zero => rw [remainder, remainder, bits, bits, BitVec.getLsbD_of_ge s 0 (Nat.le_refl 0)]; simp [message, bitPoly]
  | succ v =>
    have hbits : bits s = s.getLsbD 0 :: (List.range v).map fun i => s.getLsbD (i + 1) := by
      rw [bits, List.range_succ_eq_map, List.map_cons, List.map_map]
      rfl
    have hshift : bits (s >>> 1) = ((List.range v).map fun i => s.getLsbD (i + 1)) ++ [false] := by
      rw [bits, List.range_succ, List.map_append, List.map_singleton, BitVec.getLsbD_ushiftRight,
        BitVec.getLsbD_of_ge s _ (by omega)]
      congr 1
      exact List.map_congr_left fun i _ => by rw [BitVec.getLsbD_ushiftRight, Nat.add_comm 1 i]
    rw [remainder, remainder, hbits, hshift, message_append, message, List.length_map, List.length_range]
    simp only [message, bitPoly, Bool.false_eq_true, if_false, List.length_singleton]
    ring

theorem remainder_feedBit (g s : BitVec w) (b : Bool) :
    X * remainder s + bitPoly b * X ^ w = generator g * bitPoly (s.getLsbD 0 ^^ b) + remainder (feedBit g s b) := by
  have htwo : ∀ p : (ZMod 2)[X], p + p = 0 := CharTwo.add_self_eq_zero
  rw [feedBit, remainder_xor, remainder_ite, remainder_shift, generator, bitPoly_xor]
  linear_combination (-1 : (ZMod 2)[X]) * htwo ((bitPoly (s.getLsbD 0) + bitPoly b) * remainder g)

/-- The register holds a remainder. -/
theorem message_register (g s : BitVec w) (bs : List Bool) :
    remainder (register g s bs) = (X ^ bs.length * remainder s + X ^ w * message bs) %ₘ generator g := by
  have hdivides : ∃ q, remainder (register g s bs) + generator g * q =
      X ^ bs.length * remainder s + X ^ w * message bs := by
    induction bs generalizing s with
    | nil => exact ⟨0, by rw [register, List.foldl_nil, message, List.length_nil]; ring⟩
    | cons b bs ih =>
      obtain ⟨q, hq⟩ := ih (feedBit g s b)
      refine ⟨bitPoly (s.getLsbD 0 ^^ b) * X ^ bs.length + q, ?_⟩
      rw [show register g s (b :: bs) = register g (feedBit g s b) bs from rfl, message, List.length_cons, pow_succ]
      linear_combination hq - X ^ bs.length * remainder_feedBit g s b
  obtain ⟨q, hq⟩ := hdivides
  refine (div_modByMonic_unique q _ (generator_monic g) ⟨hq, ?_⟩).2.symm
  rw [generator_degree]
  exact remainder_degree_lt _

theorem not_X_dvd_generator {g : BitVec w} (hg : g.getLsbD (w - 1) = true) : ¬ X ∣ generator g := by
  cases w with
  | zero => rw [BitVec.getLsbD_of_ge g _ (Nat.zero_le _)] at hg; cases hg
  | succ v =>
    have hbits : bits g = (List.range v).map g.getLsbD ++ [true] := by
      rw [bits, List.range_succ, List.map_append, List.map_singleton, show g.getLsbD v = true from hg]
    rw [X_dvd_iff, generator, remainder, hbits, message_append]
    simp [message, bitPoly]

theorem generator_coprime_X {g : BitVec w} (hg : ¬ X ∣ generator g) (n : Nat) : IsCoprime (generator g) (X ^ n) :=
  ((Irreducible.coprime_iff_not_dvd (p := (X : (ZMod 2)[X])) irreducible_X).2 hg).symm.pow_right

/-- Messages that differ in at most as many bits in a row as the register has leave different registers. -/
theorem register_ne_of_burst {g : BitVec w} (hg : ¬ X ∣ generator g) (s : BitVec w) {before burst burst' after : List Bool}
    (hlen : burst.length = burst'.length) (hw : burst.length ≤ w) (hne : burst ≠ burst') :
    register g s (before ++ burst ++ after) ≠ register g s (before ++ burst' ++ after) := by
  intro h
  have hrem := congrArg remainder h
  rw [message_register, message_register] at hrem
  have hdvd : generator g ∣ X ^ (w + after.length) * (message burst - message burst') := by
    rw [← sub_eq_zero, ← sub_modByMonic, modByMonic_eq_zero_iff_dvd (generator_monic g)] at hrem
    refine hrem.trans (dvd_of_eq ?_)
    simp only [message_append, List.length_append, hlen]
    ring
  have hburst : generator g ∣ message burst - message burst' :=
    (generator_coprime_X hg _).dvd_of_dvd_mul_left hdvd
  have hzero : message burst - message burst' = 0 := by
    refine eq_zero_of_dvd_of_degree_lt hburst ?_
    rw [generator_degree]
    refine (degree_sub_le _ _).trans_lt (max_lt ?_ ?_)
    · exact (message_degree_lt burst).trans_le (by exact_mod_cast hw)
    · exact (message_degree_lt burst').trans_le (by exact_mod_cast hlen ▸ hw)
  exact hne (message_injective hlen (sub_eq_zero.1 hzero))

theorem register_ne_of_window {g : BitVec w} (hg : ¬ X ∣ generator g) (s : BitVec w) {as bs : List Bool}
    (hlen : as.length = bs.length) (hne : as ≠ bs) {k : Nat} (hwindow : ∀ i, as[i]? ≠ bs[i]? → k ≤ i ∧ i < k + w) :
    register g s as ≠ register g s bs := by
  have hsplit : ∀ cs : List Bool, cs = cs.take k ++ (cs.drop k).take w ++ cs.drop (k + w) := by
    intro cs
    rw [List.append_assoc, ← List.drop_drop, List.take_append_drop, List.take_append_drop]
  have hsame : ∀ i, i < k ∨ k + w ≤ i → as[i]? = bs[i]? := by
    intro i hi
    by_contra hdiff
    have := hwindow i hdiff
    omega
  have hbefore : as.take k = bs.take k := by
    refine List.ext_getElem? fun i => ?_
    rw [List.getElem?_take, List.getElem?_take]
    split
    · next hi => exact hsame i (Or.inl hi)
    · rfl
  have hafter : as.drop (k + w) = bs.drop (k + w) := by
    refine List.ext_getElem? fun i => ?_
    rw [List.getElem?_drop, List.getElem?_drop]
    exact hsame _ (Or.inr (Nat.le_add_right _ _))
  rw [hsplit as, hsplit bs, hbefore, hafter]
  refine register_ne_of_burst hg s ?_ (List.length_take_le _ _) fun hburst => hne ?_
  · rw [List.length_take, List.length_take, List.length_drop, List.length_drop, hlen]
  · rw [hsplit as, hsplit bs, hbefore, hburst, hafter]

end

end

end JoshBios.Lib
