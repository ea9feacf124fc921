import JoshBios.Health
import JoshBios.Config

/-! # Kernel slots

The BIOS and the UEFI loader choose a kernel in the same way: each has a loop over at most three slots that reads a
slot's kernel, falls back to another slot when that fails, and records the step in the health record. What a loop
does to the rest of the machine is a `SlotWorld`. `chain` says which slots are tried, and in which order. -/

namespace JoshBios

open Health (HealthRecord BootSlot)
open Config (BootConfig isSet)

def slotPath (config : BootConfig) : BootSlot → List UInt8
  | .current => config.kernelPath
  | .previous => config.previousKernelPath
  | .recovery => config.recoveryKernelPath

theorem Config.Accepted.slotPath {config : BootConfig} (h : Config.Accepted config) (slot : BootSlot)
    (hp : isSet (slotPath config slot) = true) : Config.HoldsPath (slotPath config slot) := by
  cases slot with
  | current => exact h.kernel
  | previous => exact h.previous hp
  | recovery => exact h.recovery hp

/-- What the candidate loop does to the world `S` around it: try a slot, store a record, print a line. -/
structure SlotWorld (S α : Type) where
  read : BootSlot → S → Option α × S
  persist : HealthRecord → S → S
  say : String → S → S

/-- What the loop leaves: the slot that loaded, if one did, the health record, and the world. -/
structure Selected (S α : Type) where
  kernel : Option (BootSlot × α)
  health : HealthRecord
  world : S

/-- The slot to try after `slot`, if the configuration has one. -/
def fallbackSlot (config : BootConfig) (slot : BootSlot) : Option BootSlot :=
  if slot = .current ∧ isSet config.previousKernelPath = true then some .previous
  else if slot ≠ .recovery ∧ isSet config.recoveryKernelPath = true then some .recovery
  else none

/-- The fallback steps that are left from a slot on. -/
def stepsLeft : BootSlot → Nat
  | .current => 2
  | .previous => 1
  | .recovery => 0

theorem stepsLeft_fallbackSlot {config : BootConfig} {slot next : BootSlot}
    (h : fallbackSlot config slot = some next) : stepsLeft next < stepsLeft slot := by
  unfold fallbackSlot at h
  split at h
  · next hc =>
    cases h
    rw [hc.1]
    decide
  · split at h
    · next hc =>
      cases h
      cases slot with
      | current => decide
      | previous => decide
      | recovery => exact absurd rfl hc.1
    · cases h

theorem isSet_fallbackSlot {config : BootConfig} {slot next : BootSlot} (h : fallbackSlot config slot = some next) :
    isSet (slotPath config next) = true := by
  unfold fallbackSlot at h
  split at h
  · next hc => cases h; exact hc.2
  · split at h
    · next hc => cases h; exact hc.2
    · cases h

/-- The slots to try, from the first on. -/
def chain (config : BootConfig) : BootSlot → List BootSlot
  | .current =>
    if isSet config.previousKernelPath then
      if isSet config.recoveryKernelPath then [.current, .previous, .recovery] else [.current, .previous]
    else if isSet config.recoveryKernelPath then [.current, .recovery]
    else [.current]
  | .previous => if isSet config.recoveryKernelPath then [.previous, .recovery] else [.previous]
  | .recovery => [.recovery]

theorem chain_eq (config : BootConfig) (slot : BootSlot) :
    chain config slot = slot ::
      match fallbackSlot config slot with
      | none => []
      | some next => chain config next := by
  cases hp : isSet config.previousKernelPath <;> cases hr : isSet config.recoveryKernelPath <;>
    cases slot <;> simp [chain, fallbackSlot, hp, hr]

/-- The slots of a chain that are tried: up to the first that loads, or all of them. -/
def tried (loads : BootSlot → Bool) : List BootSlot → List BootSlot
  | [] => []
  | slot :: rest => if loads slot then [slot] else slot :: tried loads rest

/-- The record after the fallback steps to the given slots. -/
def fallbacks (health : HealthRecord) (slots : List BootSlot) : HealthRecord :=
  slots.foldl (fun h slot => (Health.selectFallback h slot.code Health.FailureStage.kernelFile.code).2) health

/-- What fallback steps do to a record. -/
structure FellTo (health : HealthRecord) (slots : List BootSlot) (health' : HealthRecord) : Prop where
  valid : Health.valid health' = true
  selected : health'.selectedSlot = (slots.getLast?.map BootSlot.code).getD health.selectedSlot
  lastGood : health'.lastGoodSlot = health.lastGoodSlot
  update : health'.updateGeneration = health.updateGeneration
  pending : slots ≠ [] → health'.pendingGood = 0
  generation : health'.generation = health.generation + UInt64.ofNat slots.length

theorem fallbacks_spec {health : HealthRecord} (h : Health.valid health = true) (slots : List BootSlot) :
    FellTo health slots (fallbacks health slots) := by
  induction slots generalizing health with
  | nil => exact ⟨h, rfl, rfl, rfl, fun h0 => absurd rfl h0, by simp [fallbacks]⟩
  | cons slot slots ih =>
    obtain ⟨r, hr, hfb⟩ := Health.selectFallback_spec h slot .kernelFile
    have hrec : fallbacks health (slot :: slots) = fallbacks r slots := by
      rw [fallbacks, List.foldl_cons, hr, fallbacks]
    have hs := ih hfb.valid
    rw [hrec]
    refine ⟨hs.valid, ?_, hs.lastGood.trans hfb.lastGood, hs.update.trans hfb.update, ?_, ?_⟩
    · rw [hs.selected, hfb.slot]
      cases slots with
      | nil => rfl
      | cons a l => rw [List.getLast?_cons_cons, List.getLast?_eq_some_getLast (List.cons_ne_nil a l)]; rfl
    · intro _
      by_cases h0 : slots = []
      · subst h0; exact hfb.pending
      · exact hs.pending h0
    · rw [hs.generation, hfb.generation, List.length_cons, UInt64.ofNat_add, UInt64.add_assoc,
        UInt64.add_comm 1]
      rfl

end JoshBios
