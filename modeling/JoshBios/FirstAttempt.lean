import JoshBios.SlotChain
import JoshBios.HealthStore
import JoshBios.KernelPaths

/-! # A boot that tries nothing

The health record may send a boot to a slot that the configuration leaves empty: a trial that fails three times
falls back to the last good slot, and to the recovery slot when it was the last good slot that failed. If that
slot's path is empty and there is nothing to fall back to, the loop ends at once, and the kernel that is configured
is not even opened. `kernel_attempted_iff` says exactly when. -/

namespace JoshBios

open Health (HealthRecord BootSlot)
open Config (BootConfig isSet cString)

/-- The boot can start at the slot: its path is there, or a fallback is. The current kernel always is. -/
def CanStart (config : BootConfig) : BootSlot → Prop
  | .current => True
  | .previous => isSet config.previousKernelPath = true ∨ isSet config.recoveryKernelPath = true
  | .recovery => isSet config.recoveryKernelPath = true

theorem canStart_iff {config : BootConfig} (hk : isSet config.kernelPath = true) (slot : BootSlot) :
    CanStart config slot ↔ isSet (slotPath config slot) = true ∨ ∃ next, fallbackSlot config slot = some next := by
  cases slot with
  | current => simp [CanStart, slotPath, hk]
  | previous =>
    cases hr : isSet config.recoveryKernelPath <;> simp [CanStart, slotPath, fallbackSlot, hr]
  | recovery => simp [CanStart, slotPath, fallbackSlot]

/-- A set path was newly opened; `entry` is how the log shows a slot's path. -/
def Attempted {β : Type} (config : BootConfig) (entry : BootSlot → β) (before after : List β) : Prop :=
  ∃ new slot, after = new ++ before ∧ isSet (slotPath config slot) = true ∧ entry slot ∈ new

/-- In the world `w` a slot with a path opens it and one without does nothing; `log` shows what was opened. -/
structure Logs {S α β : Type} (w : SlotWorld S α) (config : BootConfig) (log : S → List β) (entry : BootSlot → β) :
    Prop where
  say : ∀ message s, log (w.say message s) = log s
  persist : ∀ health s, log (w.persist health s) = log s
  read_set : ∀ slot s, isSet (slotPath config slot) = true → log (w.read slot s).2 = entry slot :: log s
  read_unset : ∀ slot s, isSet (slotPath config slot) = false → w.read slot s = (none, s)

section
variable {S α β : Type} {w : SlotWorld S α} {config : BootConfig} {log : S → List β} {entry : BootSlot → β}
  (hl : Logs w config log entry)
include hl

theorem Logs.asBios : Logs (asBios w) config log entry := by
  refine ⟨fun message s => ?_, hl.persist, hl.read_set, hl.read_unset⟩
  exact asBios_say (I := fun t => log t = log s) (fun message t ht => (hl.say message t).trans ht) message rfl

theorem candidateLoop_log {n : Nat} {slot : BootSlot} {health : HealthRecord} {s : S} {x : β} {base : List β}
    (h : ∃ new, log s = new ++ base ∧ x ∈ new) :
    ∃ new, log (Stage2.candidateLoop w config n slot health s).world = new ++ base ∧ x ∈ new := by
  have hread : ∀ (slot : BootSlot) s, (∃ new, log s = new ++ base ∧ x ∈ new) →
      ∃ new, log (w.read slot s).2 = new ++ base ∧ x ∈ new := by
    rintro slot s ⟨new, hnew, hx⟩
    cases hp : isSet (slotPath config slot) with
    | true => exact ⟨entry slot :: new, by rw [hl.read_set slot s hp, hnew]; rfl, List.mem_cons_of_mem _ hx⟩
    | false =>
      rw [hl.read_unset slot s hp]
      exact ⟨new, hnew, hx⟩
  refine (Stage2.candidateLoop_rule (I := fun _ _ s => ∃ new, log s = new ++ base ∧ x ∈ new) ?_ ?_ ?_ n h).elim
    fun _ hlast => hlast
  · intro _ _ s message hI
    rw [hl.say]
    exact hI
  · intro slot _ s hI
    exact hread slot s hI
  · intro _ _ _ _ s _ hI _
    rw [hl.persist]
    exact hI

/-- A first slot with a path is opened. -/
theorem candidateLoop_opens (n : Nat) {slot : BootSlot} (health : HealthRecord) (s : S)
    (hp : isSet (slotPath config slot) = true) :
    ∃ new, log (Stage2.candidateLoop w config (n + 1) slot health s).world = new ++ log s ∧ entry slot ∈ new := by
  have hread := hl.read_set slot (w.say (Stage2.slotMarker slot) s) hp
  rw [hl.say] at hread
  rw [Stage2.candidateLoop_succ]
  split
  next a s' hs =>
    rw [hs] at hread
    refine ⟨[entry slot], ?_, List.mem_singleton_self _⟩
    rw [hl.say, hl.say]
    exact hread
  next s' hs =>
    rw [hs] at hread
    have hnow : ∃ new, log s' = new ++ log s ∧ entry slot ∈ new := ⟨[entry slot], hread, List.mem_singleton_self _⟩
    split
    · exact hnow
    · split
      · exact hnow
      · refine candidateLoop_log hl ?_
        rw [hl.say, hl.persist]
        exact hnow

theorem candidateLoop_attempted {slot : BootSlot} {health : HealthRecord} (hv : Health.valid health = true) (s : S)
    (hcan : isSet (slotPath config slot) = true ∨ ∃ next, fallbackSlot config slot = some next) (n : Nat) :
    Attempted config entry (log s) (log (Stage2.candidateLoop w config (n + 2) slot health s).world) := by
  cases hp : isSet (slotPath config slot) with
  | true =>
    obtain ⟨new, hnew, hmem⟩ := candidateLoop_opens hl (n + 1) health s hp
    exact ⟨new, slot, hnew, hp, hmem⟩
  | false =>
    obtain ⟨next, hnext⟩ := hcan.resolve_left (by rw [hp]; decide)
    obtain ⟨r, hr, -⟩ := Health.selectFallback_spec hv next .kernelFile
    have hset := isSet_fallbackSlot hnext
    obtain ⟨new, hnew, hmem⟩ := candidateLoop_opens hl n r
      (w.say (Stage2.fallbackMessage next) (w.persist r (w.say (Stage2.slotMarker slot) s))) hset
    rw [hl.say, hl.persist, hl.say] at hnew
    refine ⟨new, next, ?_, hset, hmem⟩
    rw [Stage2.candidateLoop_succ, hl.read_unset _ _ hp, hnext]
    simp only [hr]
    exact hnew

theorem candidateLoop_nothing {slot : BootSlot} (health : HealthRecord) (s : S)
    (hp : isSet (slotPath config slot) = false) (hf : fallbackSlot config slot = none) (n : Nat) :
    (Stage2.candidateLoop w config (n + 1) slot health s).kernel = none ∧
      log (Stage2.candidateLoop w config (n + 1) slot health s).world = log s := by
  rw [Stage2.candidateLoop_succ, hl.read_unset _ _ hp, hf]
  exact ⟨rfl, hl.say _ _⟩

theorem selectKernel_attempted_iff (hk : isSet config.kernelPath = true) {health : HealthRecord}
    (hv : Health.valid health = true) (s : S) :
    ((Stage2.selectKernel w config health s).kernel = none →
      Attempted config entry (log s) (log (Stage2.selectKernel w config health s).world)) ↔
      CanStart config (Health.attemptSlot health) := by
  have hp := Health.prepareAttempt_spec hv Health.healthMaxAttempts
  rw [canStart_iff hk, ← Health.prepareAttempt_slot hv]
  unfold Stage2.selectKernel
  generalize Health.prepareAttempt health Health.healthMaxAttempts = p at hp
  obtain ⟨slot, prepared⟩ := p
  simp only at hp ⊢
  generalize hs₁ : (if health.pendingGood ≠ 0 ∧ health.selectedSlot ≠ slot.code then _ else _ : S) = s₁
  have hlog : log s₁ = log s := by
    have hpersist : log (if prepared.generation ≠ health.generation then w.persist prepared s else s) = log s := by
      split
      · exact hl.persist _ _
      · rfl
    subst hs₁
    split
    · rw [hl.say]
      exact hpersist
    · exact hpersist
  constructor
  · intro h
    by_contra hcan
    simp only [not_or, not_exists, Bool.not_eq_true] at hcan
    have hf : fallbackSlot config slot = none := by
      cases hf : fallbackSlot config slot with
      | none => rfl
      | some next => exact absurd hf (hcan.2 next)
    obtain ⟨hnone, hsame⟩ := candidateLoop_nothing hl prepared s₁ hcan.1 hf 2
    simp only [hnone, hl.say, hsame, hlog] at h
    obtain ⟨new, x, hnew, -, hmem⟩ := h trivial
    have : new = [] := by simpa using hnew
    rw [this] at hmem
    cases hmem
  · intro hcan _
    have hatt := candidateLoop_attempted hl hp.valid s₁ hcan 1
    rw [hlog] at hatt
    split
    · exact hatt
    · rw [hl.say]
      exact hatt

end

/-! ### The two loaders -/

theorem biosWorld_logs {D : Type} (drive : Stage2.BiosDrive D) (fs : Fat32) (config : BootConfig) :
    Logs (Stage2.biosWorld drive fs config) config (·.opened) (Stage2.kernelPathForSlot config) := by
  refine ⟨fun _ _ => rfl, fun health s => ?_, fun slot s hp => ?_, fun slot s hp => ?_⟩
  · show (Stage2.healthPersist drive health s).opened = s.opened
    simp only [Stage2.healthPersist]
    split
    · rfl
    · split <;> rfl
  · show (Stage2.readKernelCandidate drive fs (slotPath config slot) s).2.opened = slotPath config slot :: s.opened
    obtain ⟨h, -⟩ | ⟨-, r, m, h, -⟩ := Stage2.readKernelCandidate_cases drive fs (slotPath config slot) s
    · rw [h] at hp
      cases hp
    · rw [h]
  · show Stage2.readKernelCandidate drive fs (slotPath config slot) s = (none, s)
    obtain ⟨-, h⟩ | ⟨h, -⟩ := Stage2.readKernelCandidate_cases drive fs (slotPath config slot) s
    · exact h
    · rw [h] at hp
      cases hp

/-- The path that the UEFI loader opens for a slot. -/
def uefiEntry (config : BootConfig) (slot : BootSlot) : List UInt16 :=
  (Uefi.asciiPathToUefi (slotPath config slot) (Config.pathMax + 1)).getD []

theorem uefi_readFile_opened {F : Type} (fw : Uefi.Firmware F) (path : List UInt16) (u : Uefi.Loader F) :
    (Uefi.readFile fw path u).2.opened = path :: u.opened := by
  obtain ⟨f, -, hread⟩ := Uefi.readFile_calls fw path u
  rw [hread]

theorem uefiWorld_logs {F : Type} (fw : Uefi.Firmware F) {config : BootConfig} (hc : Config.Accepted config) :
    Logs (Uefi.uefiWorld fw config) config (·.opened) (uefiEntry config) := by
  refine ⟨fun _ _ => rfl, fun health u => ?_, fun slot u hp => ?_, fun slot u hp => ?_⟩
  · show (Uefi.uefiHealthStore fw health u).opened = u.opened
    simp only [Uefi.uefiHealthStore]
    split
    · rfl
    · split <;> rfl
  · show (Uefi.readCandidate fw (slotPath config slot) u).2.opened = uefiEntry config slot :: u.opened
    have hpath := Uefi.asciiPathToUefi_eq (hc.slotPath slot hp)
    have hopened := uefi_readFile_opened fw (Uefi.uefiPath (cString (slotPath config slot))) u
    rw [uefiEntry, hpath]
    simp only [Uefi.readCandidate, hp, Bool.not_true, Bool.false_eq_true, if_false, hpath]
    split
    · exact hopened
    · split <;> exact hopened
  · show Uefi.readCandidate fw (slotPath config slot) u = (none, u)
    simp only [Uefi.readCandidate, hp, Bool.not_false, if_true]

section
variable {config : BootConfig} (hc : Config.Accepted config) {health : HealthRecord}
  (hr : Health.Reached health)
include hc hr

theorem bios_attempted_iff {D : Type} (drive : Stage2.BiosDrive D) (fs : Fat32) (s : Stage2.Bios D) :
    ((Stage2.selectKernel (Stage2.biosWorld drive fs config) config health s).kernel = none →
      Attempted config (slotPath config) s.opened
        (Stage2.selectKernel (Stage2.biosWorld drive fs config) config health s).world.opened) ↔
      CanStart config (Health.attemptSlot health) :=
  selectKernel_attempted_iff (biosWorld_logs drive fs config) hc.kernel.isSet hr.valid s

theorem uefi_attempted_iff {F : Type} (fw : Uefi.Firmware F) (u : Uefi.Loader F) :
    ((Uefi.selectKernel (Uefi.uefiWorld fw config) config health u).kernel = none →
      Attempted config (uefiEntry config) u.opened
        (Uefi.selectKernel (Uefi.uefiWorld fw config) config health u).world.opened) ↔
      CanStart config (Health.attemptSlot health) := by
  rw [uefi_selectKernel_eq]
  exact selectKernel_attempted_iff (uefiWorld_logs fw hc).asBios hc.kernel.isSet hr.valid u

end

/-- For an accepted configuration and a record that the health operations can reach, each loader opens a configured
path before it gives up, just when it can start at the slot of the attempt. -/
theorem kernel_attempted_iff {text : List UInt8} {config : BootConfig} (hparse : Config.parse text = .ok config)
    {health : HealthRecord} (hr : Health.Reached health) :
    (∀ {D : Type} (drive : Stage2.BiosDrive D) (fs : Fat32) (s : Stage2.Bios D),
      ((Stage2.selectKernel (Stage2.biosWorld drive fs config) config health s).kernel = none →
        Attempted config (slotPath config) s.opened
          (Stage2.selectKernel (Stage2.biosWorld drive fs config) config health s).world.opened) ↔
        CanStart config (Health.attemptSlot health)) ∧
    (∀ {F : Type} (fw : Uefi.Firmware F) (u : Uefi.Loader F),
      ((Uefi.selectKernel (Uefi.uefiWorld fw config) config health u).kernel = none →
        Attempted config (uefiEntry config) u.opened
          (Uefi.selectKernel (Uefi.uefiWorld fw config) config health u).world.opened) ↔
        CanStart config (Health.attemptSlot health)) := by
  have hc := Config.parse_accepted hparse
  exact ⟨bios_attempted_iff hc hr, uefi_attempted_iff hc hr⟩

/-! ### A configuration with one kernel, after a trial that failed -/

def loneKernelText : List UInt8 :=
  Config.ascii "version=1\ndefault=josh\ntimeout=3\nentry=josh\nname=Josh OS\nkernel=/boot/josh/kernel.elf\n"

theorem length_loneKernelText : loneKernelText.length = 86 := by decide

def loneKernelConfig : BootConfig :=
  match Config.parse loneKernelText with
  | .ok config => config
  | .error _ => Config.zeroConfig

/-- The record, spelled out. -/
def loneKernelRecord : BootConfig where
  version := 1
  timeoutSeconds := 3
  flags := 0
  defaultEntry := (Config.ascii "josh").rightpad 16 0
  entryId := (Config.ascii "josh").rightpad 16 0
  displayName := (Config.ascii "Josh OS").rightpad 32 0
  kernelPath := (Config.ascii "/boot/josh/kernel.elf").rightpad 96 0
  previousKernelPath := .replicate 96 0
  recoveryKernelPath := .replicate 96 0
  commandLine := .replicate 128 0

theorem parse_loneKernelRecord : Config.parse loneKernelText = .ok loneKernelRecord := by
  decide

theorem loneKernelConfig_eq : loneKernelConfig = loneKernelRecord := by
  delta loneKernelConfig
  rw [parse_loneKernelRecord]

theorem parse_loneKernelText : Config.parse loneKernelText = .ok loneKernelConfig := by
  rw [loneKernelConfig_eq]
  exact parse_loneKernelRecord

/-- An update of the current kernel whose three attempts were not marked good. -/
def failedTrial : HealthRecord :=
  let attempt r := (Health.prepareAttempt r Health.healthMaxAttempts).2
  attempt (attempt (attempt (Health.beginUpdate Health.healthDefault BootSlot.current.code).2))

theorem failedTrial_reached : Health.Reached failedTrial := by
  rw [failedTrial]
  exact .prepareAttempt _ (.prepareAttempt _ (.prepareAttempt _ (.beginUpdate _ .default)))

theorem attemptSlot_failedTrial : Health.attemptSlot failedTrial = .recovery := by
  have hbegin := Health.beginUpdate_eq Health.valid_healthDefault .current (by decide)
  have h₀ := Health.valid_beginUpdate Health.valid_healthDefault BootSlot.current.code
  rw [hbegin] at h₀
  have htry₁ := Health.prepareAttempt_tried h₀ (by decide) (by decide)
  have h₁ := (Health.prepareAttempt_spec h₀ Health.healthMaxAttempts).valid
  rw [htry₁] at h₁
  have htry₂ := Health.prepareAttempt_tried h₁ (by decide) (by decide)
  have h₂ := (Health.prepareAttempt_spec h₁ Health.healthMaxAttempts).valid
  rw [htry₂] at h₂
  rw [failedTrial, hbegin]
  simp only [htry₁, htry₂, Health.prepareAttempt_tried h₂ (by decide) (by decide)]
  rfl

theorem kernel_attempted_iff_lone :
    Config.parse loneKernelText = .ok loneKernelConfig ∧ Health.Reached Health.healthDefault ∧
    ((Stage2.selectKernel (Stage2.biosWorld Stage2.plainDrive Fat32.smallVolume loneKernelConfig) loneKernelConfig
        Health.healthDefault Stage2.freshBios).kernel = none →
      Attempted loneKernelConfig (slotPath loneKernelConfig) []
        (Stage2.selectKernel (Stage2.biosWorld Stage2.plainDrive Fat32.smallVolume loneKernelConfig) loneKernelConfig
          Health.healthDefault Stage2.freshBios).world.opened) :=
  ⟨parse_loneKernelText, .default,
    ((kernel_attempted_iff parse_loneKernelText .default).1 Stage2.plainDrive Fat32.smallVolume Stage2.freshBios).2 trivial⟩

/-- After the failed trial neither loader opens the kernel, and the boot gives up. -/
theorem lone_kernel_not_tried :
    Config.parse loneKernelText = .ok loneKernelConfig ∧ Health.Reached failedTrial ∧
    ¬ ((Stage2.selectKernel (Stage2.biosWorld Stage2.plainDrive Fat32.smallVolume loneKernelConfig) loneKernelConfig
        failedTrial Stage2.freshBios).kernel = none →
      Attempted loneKernelConfig (slotPath loneKernelConfig) Stage2.freshBios.opened
        (Stage2.selectKernel (Stage2.biosWorld Stage2.plainDrive Fat32.smallVolume loneKernelConfig) loneKernelConfig
          failedTrial Stage2.freshBios).world.opened) ∧
    ¬ ((Uefi.selectKernel (Uefi.uefiWorld (Uefi.oneFileFirmware (fun _ => 0) 64) loneKernelConfig) loneKernelConfig
        failedTrial Uefi.freshLoader).kernel = none →
      Attempted loneKernelConfig (uefiEntry loneKernelConfig) Uefi.freshLoader.opened
        (Uefi.selectKernel (Uefi.uefiWorld (Uefi.oneFileFirmware (fun _ => 0) 64) loneKernelConfig) loneKernelConfig
          failedTrial Uefi.freshLoader).world.opened) := by
  have hc := Config.parse_accepted parse_loneKernelText
  have hcan : ¬ CanStart loneKernelConfig (Health.attemptSlot failedTrial) := by
    rw [attemptSlot_failedTrial, loneKernelConfig_eq]
    show ¬ isSet loneKernelRecord.recoveryKernelPath = true
    decide
  have hbios := bios_attempted_iff hc failedTrial_reached Stage2.plainDrive Fat32.smallVolume Stage2.freshBios
  have huefi := uefi_attempted_iff hc failedTrial_reached (Uefi.oneFileFirmware (fun _ => 0) 64) Uefi.freshLoader
  refine ⟨parse_loneKernelText, failedTrial_reached, ?_, ?_⟩
  · rw [hbios]
    exact hcan
  · rw [huefi]
    exact hcan

/-! ### A configuration with two kernels, and a trial of the second -/

def twoKernelText : List UInt8 := Config.ascii
  "version=1\ndefault=josh\ntimeout=3\nentry=josh\nname=Josh\nkernel=/boot/josh/new.elf\nprevious_kernel=/boot/josh/old.elf\n"

def twoKernelConfig : BootConfig where
  version := 1
  timeoutSeconds := 3
  flags := 0
  defaultEntry := (Config.ascii "josh").rightpad 16 0
  entryId := (Config.ascii "josh").rightpad 16 0
  displayName := (Config.ascii "Josh").rightpad 32 0
  kernelPath := (Config.ascii "/boot/josh/new.elf").rightpad 96 0
  previousKernelPath := (Config.ascii "/boot/josh/old.elf").rightpad 96 0
  recoveryKernelPath := .replicate 96 0
  commandLine := .replicate 128 0

set_option maxRecDepth 2000 in
theorem parse_twoKernelText : Config.parse twoKernelText = .ok twoKernelConfig := by
  decide

/-- An update of the previous kernel, begun. -/
def begunUpdate : HealthRecord := (Health.beginUpdate Health.healthDefault BootSlot.previous.code).2

end JoshBios
