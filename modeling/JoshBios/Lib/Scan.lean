import Mathlib

/-!
# Scans

A scan goes from position to position until one is accepted, or until one does not fit what is scanned. `looks` lists what
it looks at on its way. Both are about the positions that the scan comes to (`Comes`): those that fit, with no position
before them accepted.
-/

namespace JoshBios.Lib

variable {α β : Type*} (fits accept : α → Bool) (next : α → α)

/-- The first accepted one of `n` positions from `a` on. -/
def scan : (n : Nat) → (a : α) → Option α
  | 0, _ => none
  | n + 1, a => if !fits a then none else if accept a then some a else scan n (next a)

/-- What a scan looks at, given what it looks at for a position. -/
def looks (look : α → List β) : (n : Nat) → (a : α) → List β
  | 0, _ => []
  | n + 1, a => if !fits a then [] else look a ++ if accept a then [] else looks look n (next a)

/-- A scan from `a` comes to the `k`-th position after `a`. -/
structure Comes (a : α) (k : Nat) : Prop where
  fits : ∀ j ≤ k, fits (next^[j] a) = true
  before : ∀ j < k, accept (next^[j] a) = false

section
variable {fits accept next} {look : α → List β} {a b : α} {k n : Nat} {x : β}

theorem comes_zero : Comes fits accept next a 0 ↔ fits a = true :=
  ⟨fun h => h.fits 0 (Nat.le_refl 0), fun h => ⟨fun j hj => by rw [Nat.le_zero.1 hj]; exact h, nofun⟩⟩

theorem comes_succ : Comes fits accept next a (k + 1) ↔
    fits a = true ∧ accept a = false ∧ Comes fits accept next (next a) k := by
  constructor
  · intro h
    refine ⟨h.fits 0 (Nat.zero_le _), h.before 0 (Nat.succ_pos k), fun j hj => ?_, fun j hj => ?_⟩
    · exact h.fits (j + 1) (Nat.succ_le_succ hj)
    · exact h.before (j + 1) (Nat.succ_lt_succ hj)
  · rintro ⟨hfits, haccept, h⟩
    refine ⟨fun j hj => ?_, fun j hj => ?_⟩
    · cases j with
      | zero => exact hfits
      | succ j => exact h.fits j (Nat.le_of_succ_le_succ hj)
    · cases j with
      | zero => exact haccept
      | succ j => exact h.before j (Nat.lt_of_succ_lt_succ hj)

theorem exists_comes_succ {P : α → Prop} : (∃ k < n + 1, Comes fits accept next a k ∧ P (next^[k] a)) ↔
    fits a = true ∧ (P a ∨ accept a = false ∧ ∃ k < n, Comes fits accept next (next a) k ∧ P (next^[k] (next a))) := by
  constructor
  · rintro ⟨k, hk, hcomes, hP⟩
    refine ⟨hcomes.fits 0 (Nat.zero_le k), ?_⟩
    cases k with
    | zero => exact Or.inl hP
    | succ k =>
      obtain ⟨-, haccept, hcomes⟩ := comes_succ.1 hcomes
      exact Or.inr ⟨haccept, k, Nat.lt_of_succ_lt_succ hk, hcomes, hP⟩
  · rintro ⟨hfits, hP | ⟨haccept, k, hk, hcomes, hP⟩⟩
    · exact ⟨0, Nat.succ_pos n, comes_zero.2 hfits, hP⟩
    · exact ⟨k + 1, Nat.succ_lt_succ hk, comes_succ.2 ⟨hfits, haccept, hcomes⟩, hP⟩

theorem scan_eq_some_iff : scan fits accept next n a = some b ↔
    ∃ k < n, Comes fits accept next a k ∧ accept (next^[k] a) = true ∧ next^[k] a = b := by
  induction n generalizing a with
  | zero => exact ⟨nofun, fun ⟨_, hk, _⟩ => absurd hk (Nat.not_lt_zero _)⟩
  | succ n ih =>
    rw [exists_comes_succ (P := fun c => accept c = true ∧ c = b), scan, ← ih]
    cases hfits : fits a <;> cases haccept : accept a <;> simp

theorem mem_looks : x ∈ looks fits accept next look n a ↔
    ∃ k < n, Comes fits accept next a k ∧ x ∈ look (next^[k] a) := by
  induction n generalizing a with
  | zero => exact ⟨nofun, fun ⟨_, hk, _⟩ => absurd hk (Nat.not_lt_zero _)⟩
  | succ n ih =>
    rw [exists_comes_succ (P := fun c => x ∈ look c), looks, ← ih]
    cases hfits : fits a <;> cases haccept : accept a <;> simp

end

end JoshBios.Lib
