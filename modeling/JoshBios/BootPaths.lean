import JoshBios.SharedDisk
import JoshBios.UefiPolicy

/-! # A disk and a variable that say the same

The BIOS path keeps the health record in two sectors of the disk, the UEFI path in a variable. If these say the same policy,
and the same slots load, then the boots on the two paths take the same slots ever after (`paths_agree`): a kernel that is on
trial is tried as often, and left for the same one. -/

namespace JoshBios

open Health (HealthRecord BootSlot valid)
open HealthCtl (FileOps)
open Stage2 (Action BiosDrive BootFiles PowerOn Sectors Seen answers_boots biosDevice cells diskStep kernelLoads loads
  policyStep version)
open Uefi (FileService Restarts Says VariableService Volume bootStep policyBoot)
open Lib

/-- The policy after `n` boots. -/
def Policy.afterBoots (config : Config.BootConfig) (loads : BootSlot → Bool) (n : Nat) (p : Policy) : Policy :=
  (fun p => (p.boot config loads).2)^[n] p

theorem runOps_boots (config : Config.BootConfig) (loads : BootSlot → Bool) (ps : List PowerOn) (p : Policy) :
    runOps (policyStep config loads) (ps.map Action.boot) p = p.afterBoots config loads ps.length := by
  induction ps generalizing p with
  | nil => rfl
  | cons _ ps ih => exact ih _

theorem runOps_policyBoot {F : Type} (volume : Volume) (config : Config.BootConfig) (starts : List (F → Uefi.Loader F))
    (p : Policy) :
    runOps (policyBoot volume config) starts p = p.afterBoots config (loads (volume.kernel config)) starts.length := by
  induction starts generalizing p with
  | nil => rfl
  | cons _ starts ih => exact ih _

/-- As many boots on each path, from a disk and a variable that say the same policy, are of the same slots, and the
disk and the variable say the same policy at the end. -/
theorem paths_agree {D F : Type} {drive : BiosDrive D} {ops : FileOps D} {contents : D → Sectors}
    (hd : Stage2.OneDisk drive ops contents) {d₀ : D} {files : BootFiles} {r : HealthRecord}
    (hk : Stage2.Keeps drive contents d₀ files r) {fw : Uefi.Firmware F} {volume : Volume} {var : F → Option Uefi.Variable}
    {Sound : F → Prop} {IsOpen : F → Nat → List UInt16 → Prop} (hf : FileService fw volume Sound IsOpen)
    (hv : VariableService fw var Sound) {text : Bytes} {size : UInt64}
    (hc : volume.Configured files.config text size) {f : F} (hsound : Sound f) (ps : List PowerOn)
    (starts : List (F → Uefi.Loader F)) (hlen : starts.length = ps.length) (hready : ∀ p ∈ ps, p.Ready)
    (hstarts : ∀ start ∈ starts, Restarts var Sound start) (hstate : Says starts.length (var f) (policyOf r))
    (hroom : version r + 3 * ps.length < 2 ^ 64)
    (hloads : ∀ slot, loads (volume.kernel files.config) slot = kernelLoads (biosDevice drive d₀) files slot) :
    answers (diskStep drive ops) (ps.map Action.boot) d₀ =
      (Policy.bootTimes files.config (kernelLoads (biosDevice drive d₀) files) ps.length (policyOf r)).map Seen.booted ∧
    answers (bootStep fw) starts f =
      (Policy.bootTimes files.config (kernelLoads (biosDevice drive d₀) files) ps.length (policyOf r)).map
        (volume.answer files.config) ∧
    ∃ r', TwoCopy.Holds valid version (cells (contents (runOps (diskStep drive ops) (ps.map Action.boot) d₀))) r' ∧
      Says 0 (var (runOps (bootStep fw) starts f)) (policyOf r') := by
  have hactions : ∀ action ∈ ps.map Action.boot, action.Ready := by
    intro action haction
    obtain ⟨p, hp, rfl⟩ := List.mem_map.1 haction
    exact hready p hp
  obtain ⟨hbios, r', hlast, hpolicy⟩ := (Stage2.diskStep_refines hd hk.toInstalled).answers_eq (n := 0) hactions
    ⟨r, hk.stores (by rw [List.length_map]; exact hroom), rfl⟩
  obtain ⟨huefi, -, hvar⟩ := (Uefi.bootStep_refines hf hv hc).answers_eq (n := 0) hstarts ⟨hsound, hstate⟩
  rw [answers_boots] at hbios
  rw [Uefi.answers_policyBoot, funext hloads, hlen] at huefi
  rw [runOps_policyBoot, funext hloads, hlen, ← runOps_boots, ← hpolicy] at hvar
  exact ⟨hbios, huefi, r', hlast.holds, hvar⟩

/-! ### The installed disk, with its files on a UEFI volume -/

theorem loads_installed (slot : BootSlot) :
    loads (Uefi.installedFiles.kernel twoKernelConfig) slot =
      kernelLoads Stage2.installedDevice Stage2.installedFiles slot := by
  cases slot with
  | current => rw [Stage2.kernelLoads_installed (by decide), Uefi.loads_installed_current]
  | previous => rw [Stage2.kernelLoads_installed (by decide), Uefi.loads_installed_previous]
  | recovery =>
    have hset : Config.isSet twoKernelConfig.recoveryKernelPath = false := by decide
    have huefi : Uefi.installedFiles.candidate twoKernelConfig.recoveryKernelPath = none := by
      rw [Volume.candidate, hset]
      rfl
    have hbios : Stage2.kernelImage Stage2.installedDevice Fat32.smallVolume twoKernelConfig.recoveryKernelPath =
        none := by
      rw [Stage2.kernelImage, hset]
      rfl
    exact (congrArg Option.isSome huefi).trans (congrArg Option.isSome hbios).symm

theorem kernelLoads_trial (slot : BootSlot) :
    kernelLoads (biosDevice Stage2.plainDrive Stage2.trialDisk) Stage2.installedFiles slot =
      kernelLoads Stage2.installedDevice Stage2.installedFiles slot := by
  have himage := Stage2.sameBootFiles_trial.image _ _ _ (Prod.fst_eq_iff.1 Stage2.readBootFiles_installed)
  rw [kernelLoads, kernelLoads, himage]

theorem holds_trialDisk : TwoCopy.Holds valid version (cells Stage2.trialDisk) begunUpdate := by
  have hodd : cells Stage2.trialDisk true = begunUpdate := Health.recordAt_bytes _
  have heven : cells Stage2.trialDisk false = Health.healthDefault := Health.recordAt_bytes _
  exact Stage2.holds_odd Uefi.valid_begunUpdate (by decide +kernel) hodd heven (by decide +kernel)

theorem keeps_trialDisk : Stage2.Keeps Stage2.plainDrive id Stage2.trialDisk Stage2.installedFiles begunUpdate where
  found := Stage2.readBootFiles_trial
  safe := rfl
  holds := holds_trialDisk

/-- Five boots on each path, with the old kernel on trial. -/
theorem paths_agree_trial :
    answers (diskStep Stage2.plainDrive Stage2.sectorOps) ((List.replicate 5 Stage2.pcPower).map Action.boot)
        Stage2.trialDisk = .replicate 3 (.booted (some .previous)) ++ .replicate 2 (.booted (some .current)) ∧
      answers (bootStep (Uefi.volumeFirmware Uefi.installedHandle Uefi.installedFile)) (.replicate 5 Uefi.coldStart)
        (some begunUpdate.bytes) =
        .replicate 3 (Uefi.efiSuccess, some (twoKernelConfig, some (Uefi.smallKernel 0xffffffff80200000), 124)) ++
          .replicate 2 (Uefi.efiSuccess, some (twoKernelConfig, some (Uefi.smallKernel 0xffffffff80000000), 124)) := by
  have hloads : ∀ slot, loads (Uefi.installedFiles.kernel twoKernelConfig) slot =
      kernelLoads (biosDevice Stage2.plainDrive Stage2.trialDisk) Stage2.installedFiles slot := fun slot => by
    rw [loads_installed, kernelLoads_trial]
  obtain ⟨hbios, huefi, -⟩ := paths_agree Stage2.oneDisk_installed keeps_trialDisk
    (Uefi.fileService_volumeFirmware Uefi.installedHandle Uefi.installedFile)
    (Uefi.variableService_volumeFirmware Uefi.installedHandle Uefi.installedFile) Uefi.configured_installed
    (f := some begunUpdate.bytes) trivial (.replicate 5 Stage2.pcPower) (.replicate 5 Uefi.coldStart) rfl
    (fun p hp => List.eq_of_mem_replicate hp ▸ Stage2.ready_pcMachine) (Uefi.restarts_coldStart 5)
    (.record Uefi.holds_begunUpdate (by decide +kernel)) (by decide +kernel) hloads
  have hslots : Policy.bootTimes Stage2.installedFiles.config
      (kernelLoads (biosDevice Stage2.plainDrive Stage2.trialDisk) Stage2.installedFiles)
      (List.replicate 5 Stage2.pcPower).length (policyOf begunUpdate) =
        .replicate 3 (some .previous) ++ .replicate 2 (some .current) := by
    rw [Uefi.policyOf_begunUpdate]
    refine @Policy.bootTimes_trial _ _ ⟨.current, .previous, some 0⟩ 0 rfl ?_ 5 fun _ => ?_
    · rw [kernelLoads_trial]
      exact Stage2.kernelLoads_installed (by decide)
    · rw [kernelLoads_trial]
      exact Stage2.kernelLoads_installed (by decide)
  rw [hslots] at hbios huefi
  refine ⟨hbios, huefi.trans ?_⟩
  rw [List.map_append, List.map_replicate, List.map_replicate, show Stage2.installedFiles.config = twoKernelConfig from rfl,
    Uefi.answer_installed_previous, Uefi.answer_installed_current]

end JoshBios
