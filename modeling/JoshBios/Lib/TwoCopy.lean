import Mathlib

/-! # Storage in two alternating cells

A record with a version number is kept in two cells, even versions in one (`false`) and odd ones in the other
(`true`). A new version is one greater than the stored one, so writing it leaves the stored one alone; a write
that is cut short leaves its cell as it was, with the new record, or with something that is not a record. A
reader takes the valid cell with the greater version.

`Holds c r`: the cells read as `r`, and `r` is where its version belongs. `Holds.torn` is the point of it all:
whatever becomes of a write, the cells hold the old record or the new one. -/

namespace JoshBios.TwoCopy

variable {R : Type} (valid : R → Bool) (version : R → Nat)

def home (r : R) : Bool := version r % 2 == 1

/-- The cell a reader takes. -/
def newest (c : Bool → R) : Bool :=
  if valid (c false) && (!valid (c true) || version (c false) ≥ version (c true)) then false else true

/-- The cells have a valid record, and the one a reader takes is where its version belongs. -/
structure Placed (c : Bool → R) : Prop where
  some_valid : valid (c false) = true ∨ valid (c true) = true
  at_home : home version (c (newest valid version c)) = newest valid version c

structure Holds (c : Bool → R) (r : R) : Prop where
  is_valid : valid r = true
  cell : c (home version r) = r
  read : newest valid version c = home version r

/-- What a write of `r` can leave: the other cell is untouched, this one is old, new or no record. -/
structure Torn (c : Bool → R) (r : R) (c' : Bool → R) : Prop where
  other : c' (!home version r) = c (!home version r)
  cell : c' (home version r) = c (home version r) ∨ c' (home version r) = r ∨ valid (c' (home version r)) = false

variable {valid version} {c c' : Bool → R} {r r' : R}

theorem Holds.placed (h : Holds valid version c r) : Placed valid version c := by
  refine ⟨?_, by rw [h.read, h.cell]⟩
  have hv := h.is_valid
  rw [← h.cell] at hv
  cases hb : home version r with
  | false => exact Or.inl (hb ▸ hv)
  | true => exact Or.inr (hb ▸ hv)

theorem Placed.holds (h : Placed valid version c) : Holds valid version c (c (newest valid version c)) := by
  refine ⟨?_, by rw [h.at_home], h.at_home.symm⟩
  have hs := h.some_valid
  unfold newest
  split
  · next hn => exact (Bool.and_eq_true_iff.1 hn).1
  · next hn =>
    rcases hs with hs | hs
    · cases ht : valid (c true) with
      | true => rfl
      | false => simp [hs, ht] at hn
    · exact hs

theorem Holds.older (h : Holds valid version c r) (hv : valid (c (!home version r)) = true) :
    version (c (!home version r)) ≤ version r := by
  have hn := h.read
  have hc := h.cell
  have hr := h.is_valid
  unfold newest at hn
  cases hb : home version r with
  | false =>
    rw [hb] at hn hc hv
    simp only [Bool.not_false] at hv ⊢
    rw [hc, hr] at hn
    by_contra hlt
    simp [hv, show ¬ version r ≥ version (c true) by omega] at hn
  | true =>
    rw [hb] at hn hc hv
    simp only [Bool.not_true] at hv ⊢
    rw [hc] at hn
    by_contra hlt
    simp [hv, show version (c false) ≥ version r by omega] at hn

theorem Holds.intro (hv : valid r = true) (hc : c (home version r) = r)
    (ho : valid (c (!home version r)) = true → version (c (!home version r)) < version r) :
    Holds valid version c r := by
  refine ⟨hv, hc, ?_⟩
  unfold newest
  cases hb : home version r with
  | false =>
    rw [hb] at hc ho
    simp only [Bool.not_false] at ho
    rw [hc, hv]
    cases ht : valid (c true) with
    | false => rfl
    | true =>
      have := ho ht
      simp [show version r ≥ version (c true) by omega]
  | true =>
    rw [hb] at hc ho
    simp only [Bool.not_true] at ho
    rw [hc, hv]
    cases ht : valid (c false) with
    | false => rfl
    | true =>
      have := ho ht
      simp [show ¬ version (c false) ≥ version r by omega]

theorem home_succ (h : version r' = version r + 1) : home version r' = !home version r := by
  unfold home
  rcases Nat.mod_two_eq_zero_or_one (version r) with h2 | h2
  · rw [h, h2, show (version r + 1) % 2 = 1 by omega]
    rfl
  · rw [h, h2, show (version r + 1) % 2 = 0 by omega]
    rfl

theorem Holds.next (h : Holds valid version c r) (hv : valid r' = true) (hr : version r' = version r + 1)
    (hother : c' (!home version r') = c (!home version r')) (hcell : c' (home version r') = r') :
    Holds valid version c' r' := by
  refine Holds.intro hv hcell fun _ => ?_
  rw [hother, home_succ hr, Bool.not_not, h.cell]
  omega

/-- Whatever a write of the next version leaves, the cells hold the old record or the new one. -/
theorem Holds.torn (h : Holds valid version c r) (hv : valid r' = true) (hr : version r' = version r + 1)
    (ht : Torn valid version c r' c') : Holds valid version c' r ∨ Holds valid version c' r' := by
  have hhome := home_succ hr
  have hkeep : c' (home version r) = r := by
    have := ht.other
    rwa [hhome, Bool.not_not, h.cell] at this
  rcases ht.cell with hold | hnew | hbad
  · have hsame : c' = c := by
      funext b
      cases hb : home version r' with
      | false =>
        have := ht.other
        rw [hb] at hold this
        cases b with
        | false => exact hold
        | true => exact this
      | true =>
        have := ht.other
        rw [hb] at hold this
        cases b with
        | false => exact this
        | true => exact hold
    exact Or.inl (hsame ▸ h)
  · exact Or.inr (h.next hv hr ht.other hnew)
  · refine Or.inl (Holds.intro h.is_valid hkeep fun hvalid => ?_)
    rw [← hhome, hbad] at hvalid
    cases hvalid

/-- A write that reads back as a record of the new version took effect. -/
theorem Holds.verified (h : Holds valid version c r) (hv : valid r' = true) (hr : version r' = version r + 1)
    (ht : Torn valid version c r' c') (hread : valid (c' (home version r')) = true)
    (hversion : version (c' (home version r')) = version r') : Holds valid version c' r' := by
  have hhome := home_succ hr
  rcases ht.cell with hold | hnew | hbad
  · rw [hold, hhome] at hread hversion
    have := h.older hread
    omega
  · exact h.next hv hr ht.other hnew
  · rw [hbad] at hread
    cases hread

end JoshBios.TwoCopy
