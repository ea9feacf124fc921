import JoshBios.HealthRun
import JoshBios.Lib.Refine
import JoshBios.SlotChain

/-! # The boot policy

What an administrator has in mind when they install a kernel: there is a slot that is known to be good and a slot that is
booted; a new kernel is booted on trial, a bounded number of times, unless it is marked good before that. `Policy` is this
much of a health record and no more. It has no generations, checksums or sectors, and every operation on records comes
down to one on policies (`policyOf_attempt` and the lemmas after it). -/

namespace JoshBios

open Health (HealthRecord BootSlot FailureStage slotOf valid)
open Config (BootConfig)

structure Policy where
  lastGood : BootSlot
  selected : BootSlot
  -- the attempts so far, when the selected slot is on trial
  trial : Option Nat
deriving DecidableEq, Repr

namespace Policy

/-- The policy of a fresh installation. -/
def fresh : Policy := ⟨.current, .current, none⟩

/-- Where to go when `slot` has failed its trial. -/
def retreat (lastGood slot : BootSlot) : BootSlot := if lastGood ≠ slot then lastGood else .recovery

/-- A boot is about to be attempted. -/
def attempt (p : Policy) : Policy :=
  match p.trial with
  | none => p
  | some k =>
    if k < 3 then { p with trial := some (k + 1) } else { p with selected := retreat p.lastGood p.selected, trial := none }

/-- A slot that would not load was left for this one. -/
def fallBack (p : Policy) (slot : BootSlot) : Policy := { p with selected := slot, trial := none }

/-- A boot with a configuration, when `loads` says which kernels load: the slot that is booted, if there is one. -/
def boot (config : BootConfig) (loads : BootSlot → Bool) (p : Policy) : Option BootSlot × Policy :=
  ((chain config p.attempt.selected).find? loads,
    (tried loads (chain config p.attempt.selected)).tail.foldl fallBack p.attempt)

def markGood (p : Policy) (slot : BootSlot) : Policy := { p with lastGood := slot, selected := slot, trial := none }

/-- An update of `slot` begins; the recovery slot is not updated this way. -/
def beginUpdate (p : Policy) (slot : BootSlot) : Option Policy :=
  if slot = .recovery then none else some { p with selected := slot, trial := some 0 }

end Policy

/-- The policy that a record says. -/
def policyOf (r : HealthRecord) : Policy where
  lastGood := slotOf r.lastGoodSlot
  selected := slotOf r.selectedSlot
  trial := if r.pendingGood = 0 then none else some r.attemptCount.toNat

theorem policyOf_healthDefault : policyOf Health.healthDefault = Policy.fresh := rfl

section Valid
variable {r : HealthRecord} (h : valid r = true)
include h

theorem policyOf_attempt :
    policyOf (Health.prepareAttempt r Health.healthMaxAttempts).2 = (policyOf r).attempt := by
  have hdoes := Health.does_prepareAttempt h Health.healthMaxAttempts
  generalize (Health.prepareAttempt r Health.healthMaxAttempts).1 = slot at hdoes
  generalize (Health.prepareAttempt r Health.healthMaxAttempts).2 = r' at hdoes ⊢
  cases hdoes with
  | settled hp => simp only [Policy.attempt, policyOf, hp, if_true]
  | tried hp hn =>
    have hlt : r.attemptCount.toNat < 3 := UInt32.lt_iff_toNat_lt.1 hn
    have hcount : (r.attemptCount + 1).toNat = r.attemptCount.toNat + 1 := by
      rw [UInt32.toNat_add]
      exact Nat.mod_eq_of_lt (by change r.attemptCount.toNat + 1 < 2 ^ 32; omega)
    simp only [Policy.attempt, policyOf, Health.sealRecord, hp, if_false, hlt, if_true, hcount]
  | @exhausted _ slot' hp hn hslot =>
    have hle : ¬ r.attemptCount.toNat < 3 := Nat.not_lt.2 (UInt32.le_iff_toNat_le.1 hn)
    have hretreat : slotOf slot' = Policy.retreat (slotOf r.lastGoodSlot) (slotOf r.selectedSlot) := by
      have hw := Health.wellFormed_of_valid h
      rw [hslot, Policy.retreat]
      by_cases heq : r.lastGoodSlot = r.selectedSlot
      · rw [if_neg (not_not.2 heq), if_neg (not_not.2 (congrArg slotOf heq)), Health.slotOf_code]
      · rw [if_pos heq, if_pos]
        intro hslots
        rw [← Health.code_slotOf hw.lastGood, hslots, Health.code_slotOf hw.selected] at heq
        exact heq rfl
    simp only [Policy.attempt, policyOf, Health.sealRecord, hp, if_false, hle, if_true, hretreat]

theorem attemptSlot_eq : Health.attemptSlot r = (policyOf r).attempt.selected := by
  have hp := Health.prepareAttempt_spec h Health.healthMaxAttempts
  rw [← policyOf_attempt h, ← Health.prepareAttempt_slot h]
  show _ = slotOf (Health.prepareAttempt r Health.healthMaxAttempts).2.selectedSlot
  rw [← hp.slot, Health.slotOf_code]

theorem policyOf_fallbacks (slots : List BootSlot) :
    policyOf (fallbacks r slots) = slots.foldl Policy.fallBack (policyOf r) := by
  induction slots generalizing r with
  | nil => rfl
  | cons slot slots ih =>
    obtain ⟨r', hr', hfb⟩ := Health.selectFallback_spec h slot .kernelFile
    have hstep : policyOf r' = (policyOf r).fallBack slot := by
      simp only [policyOf, Policy.fallBack, hfb.lastGood, hfb.slot, hfb.pending, Health.slotOf_code, if_true]
    rw [fallbacks, List.foldl_cons, List.foldl_cons, hr', ← hstep]
    exact ih hfb.valid

theorem policyOf_markGood (slot : BootSlot) :
    ∃ r', Health.markGood r slot.code = (true, r') ∧ policyOf r' = (policyOf r).markGood slot := by
  refine ⟨_, Health.markGood_eq h slot, ?_⟩
  simp only [policyOf, Policy.markGood, Health.sealRecord, Health.slotOf_code, if_true]

theorem policyOf_beginUpdate {slot : BootSlot} (hs : slot ≠ .recovery) :
    ∃ r', Health.beginUpdate r slot.code = (true, r') ∧ (policyOf r).beginUpdate slot = some (policyOf r') := by
  refine ⟨_, Health.beginUpdate_eq h slot hs, ?_⟩
  rw [Policy.beginUpdate, if_neg hs]
  simp only [policyOf, Health.sealRecord, Health.slotOf_code]
  rfl

end Valid

theorem beginUpdate_recovery (r : HealthRecord) : Health.beginUpdate r BootSlot.recovery.code = (false, r) := by
  rw [Health.beginUpdate, if_pos (by simp)]

/-! ### A trial -/

namespace Policy

variable {config : BootConfig} {loads : BootSlot → Bool}

theorem boot_loads {p q : Policy} (hq : p.attempt = q) (h : loads q.selected = true) :
    p.boot config loads = (some q.selected, q) := by
  subst hq
  rw [boot, chain_eq, List.find?_cons_of_pos h, tried, if_pos h]
  rfl

theorem attempt_settled {p : Policy} (hp : p.trial = none) : p.attempt = p := by
  rw [attempt, hp]

theorem attempt_trial {p : Policy} {k : Nat} (hp : p.trial = some k) :
    p.attempt = if k < 3 then { p with trial := some (k + 1) }
      else { p with selected := retreat p.lastGood p.selected, trial := none } := by
  rw [attempt, hp]

/-- Booting `n` times: the slots, first boot first. -/
def bootTimes (config : BootConfig) (loads : BootSlot → Bool) : Nat → Policy → List (Option BootSlot)
  | 0, _ => []
  | n + 1, p => (p.boot config loads).1 :: bootTimes config loads n (p.boot config loads).2

theorem bootTimes_settled {p : Policy} (hp : p.trial = none) (h : loads p.selected = true) (n : Nat) :
    bootTimes config loads n p = .replicate n (some p.selected) := by
  induction n with
  | zero => rfl
  | succ n ih => rw [bootTimes, boot_loads (attempt_settled hp) h, ih, List.replicate_succ]

/-- With `k` attempts made, the slot on trial is booted until there are three, and the slot to retreat to after that. -/
theorem bootTimes_trial {p : Policy} {k : Nat} (hp : p.trial = some k) (h : loads p.selected = true) (n : Nat)
    (hr : 3 - k < n → loads (retreat p.lastGood p.selected) = true) :
    bootTimes config loads n p =
      .replicate (min n (3 - k)) (some p.selected) ++ .replicate (n - (3 - k)) (some (retreat p.lastGood p.selected)) := by
  induction n generalizing p k with
  | zero => rw [Nat.zero_min, Nat.zero_sub]; rfl
  | succ n ih =>
    have hattempt := attempt_trial hp
    by_cases hk : k < 3
    · rw [if_pos hk] at hattempt
      have hrest := ih (p := { p with trial := some (k + 1) }) rfl h fun hlt => hr (by omega)
      rw [bootTimes, boot_loads hattempt h]
      simp only [hrest]
      rw [show min (n + 1) (3 - k) = min n (3 - (k + 1)) + 1 by omega, List.replicate_succ, List.cons_append,
        show n + 1 - (3 - k) = n - (3 - (k + 1)) by omega]
    · rw [if_neg hk] at hattempt
      have hretreat := hr (by omega)
      rw [bootTimes, boot_loads hattempt hretreat]
      simp only [bootTimes_settled (p := { p with selected := retreat p.lastGood p.selected, trial := none }) rfl hretreat]
      rw [show 3 - k = 0 by omega, Nat.min_zero, List.replicate_zero, List.nil_append, Nat.sub_zero, List.replicate_succ]

end Policy

end JoshBios
