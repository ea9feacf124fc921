import JoshBios.BootPolicy
import JoshBios.SlotOutcome
import JoshBios.UefiHandoff
import JoshBios.UefiHealth

/-! # The boot policy on the UEFI path

`load_files` on a firmware that serves the files of a volume (`FileService`) and keeps the health variable
(`VariableService`) is the same `Policy` as the BIOS loader with its sectors: over any number of boots, each boot comes back
with the kernel of the slot that the policy says (`uefi_follows_policy`). A variable without a valid record says the policy
of a fresh installation. -/

namespace JoshBios.Uefi

open Health (HealthRecord BootSlot valid recordAt)
open Config (BootConfig isSet)
open Stage2 (version SlotSteps loads)
open Lib

/-! ### Files -/

/-- The files by their paths: the bytes, and how many. -/
abbrev Volume := List UInt16 → Option (Bytes × UInt64)

/-- The file that `read_file` gives; it has no use for an empty one. -/
def Volume.readable (volume : Volume) (path : List UInt16) : Option (Bytes × UInt64) :=
  (volume path).filter fun file => file.2 ≠ 0

/-- The kernel that `read_candidate` finds. -/
def Volume.candidate (volume : Volume) (ascii : List UInt8) : Option (Option Bytes × UInt64) :=
  if !isSet ascii then none else
  match asciiPathToUefi ascii (Config.pathMax + 1) with
  | none => none
  | some path =>
    match volume.readable path with
    | none => none
    | some (image, size) =>
      if (Elf64.validate (some image) size (some ⟨0, 0, 0, 0⟩)).1 = .ok then some (some image, size) else none

def Volume.kernel (volume : Volume) (config : BootConfig) (slot : BootSlot) : Option (Option Bytes × UInt64) :=
  volume.candidate (uefiKernelPath config slot)

/-- The volume has a configuration that the loader accepts. -/
structure Volume.Configured (volume : Volume) (config : BootConfig) (text : Bytes) (size : UInt64) : Prop where
  file : volume.readable cfgPath = some (text, size)
  fits : size.toNat ≤ Config.configMaxBytes
  parses : Config.parse (text.slice 0 size.toNat) = .ok config

variable {F : Type}

/-- In a `Sound` state the files of `volume` can be read, and there are no others. `IsOpen f handle path` is for a handle of
the file at `path`. -/
structure FileService (fw : Firmware F) (volume : Volume) (Sound : F → Prop) (IsOpen : F → Nat → List UInt16 → Prop) :
    Prop where
  loadedImage : ∀ f, Sound f →
    efiError (fw.loadedImage f).1 = false ∧ (fw.loadedImage f).2.1 = true ∧ Sound (fw.loadedImage f).2.2
  fileSystem : ∀ f, Sound f →
    efiError (fw.fileSystem f).1 = false ∧ (fw.fileSystem f).2.1 = true ∧ Sound (fw.fileSystem f).2.2
  openVolume : ∀ f, Sound f → efiError (fw.openVolume f).1 = false ∧ Sound (fw.openVolume f).2
  missing : ∀ path f, Sound f → volume path = none →
    efiError (fw.openFile path f).1 = true ∧ Sound (fw.openFile path f).2.2
  found : ∀ path f file, Sound f → volume path = some file →
    efiError (fw.openFile path f).1 = false ∧ Sound (fw.openFile path f).2.2 ∧
      ∃ handle, (fw.openFile path f).2.1 = some handle ∧ IsOpen (fw.openFile path f).2.2 handle path
  infoSize : ∀ handle path f, Sound f → IsOpen f handle path →
    (fw.infoSize handle f).1 = efiBufferTooSmall ∧ 24 ≤ (fw.infoSize handle f).2.1 ∧
      Sound (fw.infoSize handle f).2.2 ∧ IsOpen (fw.infoSize handle f).2.2 handle path
  allocatePool : ∀ size f, Sound f → efiError (fw.allocatePool size f).1 = false ∧ Sound (fw.allocatePool size f).2 ∧
    ∀ handle path, IsOpen f handle path → IsOpen (fw.allocatePool size f).2 handle path
  getInfo : ∀ handle path size f file, Sound f → IsOpen f handle path → volume path = some file →
    efiError (fw.getInfo handle size f).1 = false ∧ le64 (fw.getInfo handle size f).2.1 8 = file.2 ∧
      Sound (fw.getInfo handle size f).2.2 ∧ IsOpen (fw.getInfo handle size f).2.2 handle path
  readBytes : ∀ handle path f file, Sound f → IsOpen f handle path → volume path = some file →
    efiError (fw.readBytes handle file.2 f).1 = false ∧ (fw.readBytes handle file.2 f).2.1 = file.2 ∧
      (fw.readBytes handle file.2 f).2.2.1 = file.1 ∧ Sound (fw.readBytes handle file.2 f).2.2.2

/-- What `read_file` answers when the file is this. -/
inductive Answers : Option (Bytes × UInt64) → EfiStatus × Option Bytes × UInt64 → Prop
  | data {image : Bytes} {size : UInt64} : Answers (some (image, size)) (efiSuccess, some image, size)
  | error {status : EfiStatus} {image : Option Bytes} {size : UInt64} (h : efiError status = true) :
      Answers none (status, image, size)

section Files
variable {fw : Firmware F} {volume : Volume} {Sound : F → Prop} {IsOpen : F → Nat → List UInt16 → Prop}
  (h : FileService fw volume Sound IsOpen)
include h

theorem openRoot_served {f : F} (hf : Sound f) : efiError (openRoot fw f).1 = false ∧ Sound (openRoot fw f).2 := by
  obtain ⟨he, hthere, hsound⟩ := h.loadedImage f hf
  obtain ⟨he', hthere', hsound'⟩ := h.fileSystem _ hsound
  unfold openRoot
  simp only [he, hthere, he', hthere', Bool.not_true, Bool.or_self, Bool.false_eq_true, if_false]
  exact h.openVolume _ hsound'

theorem readFile_served (path : List UInt16) {u : Loader F} (hu : Sound u.firmware) :
    Answers (volume.readable path) (readFile fw path u).1 ∧ Sound (readFile fw path u).2.firmware := by
  unfold readFile Volume.readable
  cases hfile : volume path with
  | none =>
    obtain ⟨he, hsound⟩ := h.missing path _ hu hfile
    simp only [he, if_true]
    split <;> exact ⟨.error he, hsound⟩
  | some file =>
    obtain ⟨he, hsound, handle, hhandle, hopen⟩ := h.found path _ file hu hfile
    obtain ⟨hs₁, hroom, hsound₁, hopen₁⟩ := h.infoSize handle path _ hsound hopen
    have hsize : ¬ (fw.infoSize handle (fw.openFile path u.firmware).2.2).2.1 < 24 := UInt64.not_lt.2 hroom
    obtain ⟨hs₂, hsound₂, hkept₂⟩ :=
      h.allocatePool (fw.infoSize handle (fw.openFile path u.firmware).2.2).2.1 _ hsound₁
    obtain ⟨hs₃, hlen, hsound₃, hopen₃⟩ := h.getInfo handle path
      (fw.infoSize handle (fw.openFile path u.firmware).2.2).2.1 _ file hsound₂ (hkept₂ _ _ hopen₁) hfile
    obtain ⟨hs₄, hsound₄, hkept₄⟩ := h.allocatePool file.2 _ hsound₃
    obtain ⟨hs₅, hread, hdata, hsound₅⟩ := h.readBytes handle path _ file hsound₄ (hkept₄ _ _ hopen₃) hfile
    simp only [he, hhandle, hs₁, hsize, hs₂, hs₃, hlen, ne_eq, not_true, decide_false, Bool.or_self, Bool.false_eq_true,
      if_false]
    by_cases hempty : file.2 = 0
    · rw [if_pos hempty, Option.filter_some, if_neg (by simp [hempty])]
      exact ⟨.error (by decide), hsound₃⟩
    · rw [if_neg hempty, Option.filter_some, if_pos (by simp [hempty])]
      simp only [hs₄, hs₅, hread, hdata, not_true, decide_false, Bool.or_self, Bool.false_eq_true, if_false]
      exact ⟨.data, hsound₅⟩

theorem readCandidate_served (ascii : List UInt8) {u : Loader F} (hu : Sound u.firmware) :
    (readCandidate fw ascii u).1 = volume.candidate ascii ∧ Sound (readCandidate fw ascii u).2.firmware := by
  unfold readCandidate Volume.candidate
  split
  · exact ⟨rfl, hu⟩
  cases asciiPathToUefi ascii (Config.pathMax + 1) with
  | none => exact ⟨rfl, hu⟩
  | some path =>
    obtain ⟨hread, hsound⟩ := readFile_served h path hu
    simp only
    generalize readFile fw path u = r at hread hsound
    generalize volume.readable path = file at hread
    obtain ⟨r, u'⟩ := r
    cases hread with
    | error he =>
      simp only [he, if_true]
      exact ⟨trivial, hsound⟩
    | data =>
      simp only [efiError_efiSuccess, Bool.false_eq_true, if_false]
      split
      · exact ⟨rfl, hsound⟩
      · exact ⟨rfl, hsound⟩

end Files

/-! ### The variable -/

/-- In a `Sound` state the calls on the variable succeed. -/
structure VariableService (fw : Firmware F) (var : F → Option Variable) (Sound : F → Prop) : Prop
    extends VariableStore fw var where
  runtime : fw.hasRuntime = true
  get_served : ∀ f r, Sound f → Holds (var f) r → efiError (fw.getVariable f).1 = false
  get_sound : ∀ f, Sound f → Sound (fw.getVariable f).2.2.2
  set_served : ∀ data f, Sound f → efiError (fw.setVariable data f).1 = false ∧ Sound (fw.setVariable data f).2

/-- The policy that the variable says, with generations left for `n` boots. -/
inductive Says (n : Nat) (v : Option Variable) : Policy → Prop
  | record {r : HealthRecord} (holds : Holds v r) (room : version r + 3 * n < 2 ^ 64) : Says n v (policyOf r)
  | missing (none_ : ∀ r, ¬ Holds v r) (room : 3 * n < 2 ^ 64) : Says n v .fresh

/-- The loader while a slot is chosen. -/
structure Keeping (var : F → Option Variable) (Sound : F → Prop) (health : HealthRecord) (u : Loader F) : Prop where
  holds : Holds (var u.firmware) health
  sound : Sound u.firmware

section Variable
variable {fw : Firmware F} {var : F → Option Variable} {Sound : F → Prop} (h : VariableService fw var Sound)
include h

theorem uefiHealthStore_served {health : HealthRecord} (hv : valid health = true) {u : Loader F} (hu : Sound u.firmware) :
    Keeping var Sound health (uefiHealthStore fw health u) := by
  obtain ⟨he, hsound⟩ := h.set_served health.bytes _ hu
  obtain ⟨x, hx, hsize, hdata⟩ := h.set_ok _ _ he
  have hset : (uefiHealthStore fw health u).firmware = (fw.setVariable health.bytes u.firmware).2 := by
    simp only [uefiHealthStore, h.runtime, he, Bool.not_true, Bool.false_eq_true, if_false]
    rfl
  have hrec : recordAt x.data = health := by rw [Health.recordAt_congr hdata, Health.recordAt_bytes]
  exact ⟨hset ▸ ⟨x, hx, hsize, hrec, hv⟩, hset ▸ hsound⟩

theorem uefiHealthLoad_served {n : Nat} {p : Policy} {u : Loader F} (hu : Sound u.firmware)
    (hp : Says n (var u.firmware) p) :
    policyOf (uefiHealthLoad fw u).1 = p ∧ version (uefiHealthLoad fw u).1 + 3 * n < 2 ^ 64 ∧
      Keeping var Sound (uefiHealthLoad fw u).1 (uefiHealthLoad fw u).2 := by
  have hsound := h.get_sound _ hu
  have hkeeps := h.get_keeps u.firmware
  simp only [uefiHealthLoad, h.runtime, if_true]
  cases hp with
  | @record r hheld hroom =>
    have he := h.get_served _ r hu hheld
    obtain ⟨hsize, hrec, hv⟩ := (h.holds_iff he r).1 hheld
    simp only [he, hsize, hrec, hv, ne_eq, not_true, decide_false, Bool.not_true, Bool.or_self, Bool.false_eq_true, if_false]
    refine ⟨trivial, hroom, ?_, hsound⟩
    show Holds (var (fw.getVariable u.firmware).2.2.2) r
    rw [hkeeps]
    exact hheld
  | missing hnone hroom =>
    have hbad : (efiError (fw.getVariable u.firmware).1 ||
        decide ((fw.getVariable u.firmware).2.1 ≠ Health.recordSize.toUInt64) ||
        !valid (recordAt (fw.getVariable u.firmware).2.2.1)) = true := by
      by_contra hgood
      simp only [Bool.or_eq_true, not_or, Bool.not_eq_true, decide_eq_true_eq, not_not, Bool.not_eq_false'] at hgood
      obtain ⟨⟨he, hsize⟩, hv⟩ := hgood
      exact hnone _ ((h.holds_iff he _).2 ⟨hsize, rfl, hv⟩)
    rw [if_pos hbad]
    have hzero : version Health.healthDefault = 0 := rfl
    obtain ⟨hheld, hsound'⟩ := uefiHealthStore_served h Health.valid_healthDefault
      (u := { u with firmware := (fw.getVariable u.firmware).2.2.2 }) hsound
    exact ⟨policyOf_healthDefault, by rw [hzero, Nat.zero_add]; exact hroom, hheld, hsound'⟩

end Variable

/-! ### A boot -/

/-- What `load_files` answers when it has chosen this slot. -/
def Volume.answer (volume : Volume) (config : BootConfig) (slot : Option BootSlot) :
    EfiStatus × Option (BootConfig × Option Bytes × UInt64) :=
  match slot.bind (volume.kernel config) with
  | none => (efiNotFound, none)
  | some (image, size) => (efiSuccess, some (config, image, size))

section Boot
variable {fw : Firmware F} {volume : Volume} {var : F → Option Variable} {Sound : F → Prop}
  {IsOpen : F → Nat → List UInt16 → Prop} (hf : FileService fw volume Sound IsOpen) (hv : VariableService fw var Sound)
include hf hv

theorem uefiWorld_steps (config : BootConfig) :
    SlotSteps (asBios (uefiWorld fw config)) (volume.kernel config) (Keeping var Sound) fun _ _ _ => True where
  say health message u hu :=
    asBios_say (I := Keeping var Sound health) (fun _ _ hu => ⟨hu.holds, hu.sound⟩) message hu
  say_made _ _ _ _ h := h
  persist _ _ _ hu hvalid _ := uefiHealthStore_served hv hvalid hu.sound
  read health slot u hu := by
    obtain ⟨hread, hsound⟩ := readCandidate_served hf (uefiKernelPath config slot) hu.sound
    refine ⟨hread, ?_, hsound⟩
    have hvar : var (readCandidate fw (uefiKernelPath config slot) u).2.firmware = var u.firmware :=
      hv.quiet.readCandidate (uefiKernelPath config slot) u
    show Holds (var (readCandidate fw (uefiKernelPath config slot) u).2.firmware) health
    rw [hvar]
    exact hu.holds
  made _ _ _ _ _ _ := trivial

/-- The choice of a slot, from the record that was loaded. -/
theorem selectKernel_served (config : BootConfig) {n : Nat} {r : HealthRecord} {u : Loader F}
    (hu : Keeping var Sound r u) (hroom : version r + 3 * (n + 1) < 2 ^ 64) :
    (∀ slot a, (selectKernel (uefiWorld fw config) config r u).kernel = some (slot, a) →
      volume.kernel config slot = some a) ∧
    (selectKernel (uefiWorld fw config) config r u).kernel.map Prod.fst =
      ((policyOf r).boot config (loads (volume.kernel config))).1 ∧
    Sound (selectKernel (uefiWorld fw config) config r u).world.firmware ∧
    Says n (var (selectKernel (uefiWorld fw config) config r u).world.firmware)
      ((policyOf r).boot config (loads (volume.kernel config))).2 := by
  obtain ⟨-, -, -, -, hvalid⟩ := hu.holds
  have hthree : r.generation.toNat + 3 < 2 ^ 64 := by
    change version r + 3 < 2 ^ 64
    omega
  have hsteps := uefiWorld_steps hf hv config
  have hout := Stage2.selectKernel_outcome hsteps config hvalid hthree hu
  have hnewer : version (Stage2.selectKernel (asBios (uefiWorld fw config)) config r u).health ≤ version r + 3 :=
    Stage2.selectKernel_newer hsteps config hvalid hthree hu
  have hfirst := hout.first
  have hrecord := congrArg policyOf hout.record
  rw [policyOf_fallbacks (Health.prepareAttempt_spec hvalid Health.healthMaxAttempts).valid, policyOf_attempt hvalid] at hrecord
  rw [attemptSlot_eq hvalid] at hfirst hrecord
  rw [uefi_selectKernel_eq]
  refine ⟨fun slot a heq => (hout.made slot a heq).1, hfirst, hout.kept.sound, ?_⟩
  have hstate : Says n (var (Stage2.selectKernel (asBios (uefiWorld fw config)) config r u).world.firmware) _ :=
    .record hout.kept.holds (by omega)
  rw [hrecord] at hstate
  exact hstate

theorem loadFiles_served {config : BootConfig} {text : Bytes} {size : UInt64} (hc : volume.Configured config text size)
    {n : Nat} {p : Policy} {u : Loader F} (hu : Sound u.firmware) (hp : Says (n + 1) (var u.firmware) p) :
    (loadFiles fw u).1 = volume.answer config (p.boot config (loads (volume.kernel config))).1 ∧
      Sound (loadFiles fw u).2.firmware ∧
      Says n (var (loadFiles fw u).2.firmware) (p.boot config (loads (volume.kernel config))).2 := by
  obtain ⟨he, hsound⟩ := openRoot_served hf hu
  have hvar := hv.quiet.openRoot u.firmware
  unfold loadFiles
  generalize openRoot fw u.firmware = root at he hsound hvar
  obtain ⟨status, f⟩ := root
  simp only at he hsound hvar ⊢
  simp only [he, Bool.false_eq_true, if_false]
  obtain ⟨hread, hsound₁⟩ := readFile_served hf cfgPath (u := { u with firmware := f }) hsound
  have hvar₁ := (hv.quiet.readFile cfgPath { u with firmware := f }).trans hvar
  rw [hc.file] at hread
  rw [cfgPath] at hread hsound₁ hvar₁
  generalize readFile fw _ { u with firmware := f } = q at hread hsound₁ hvar₁ ⊢
  obtain ⟨q, u₁⟩ := q
  cases hread with
  | data =>
    simp only [efiError_efiSuccess, Bool.false_eq_true, if_false, if_neg (Nat.not_lt.2 hc.fits), hc.parses]
    rw [← hvar₁] at hp
    obtain ⟨rfl, hroom, hkeeping⟩ := uefiHealthLoad_served hv (u := say "JOSHUEFI_CONFIG_OK\r\n" u₁) hsound₁ hp
    obtain ⟨hmade, hfirst, hsound₂, hstate⟩ := selectKernel_served hf hv config hkeeping hroom
    rw [← hfirst, Volume.answer]
    generalize selectKernel (uefiWorld fw config) config _ _ = r at hmade hsound₂ hstate ⊢
    obtain ⟨kernel, health, u₂⟩ := r
    cases kernel with
    | none => exact ⟨rfl, hsound₂, hstate⟩
    | some kernel =>
      have hkernel := hmade kernel.1 kernel.2 rfl
      simp only [Option.map_some, Option.bind_some, hkernel]
      exact ⟨trivial, hsound₂, hstate⟩

end Boot

/-! ### Boots -/

/-- A boot: `start` is what the reset makes of the firmware, with the rest of the loader's machine. -/
def bootStep (fw : Firmware F) (start : F → Loader F) (f : F) :
    (EfiStatus × Option (BootConfig × Option Bytes × UInt64)) × F :=
  ((loadFiles fw (start f)).1, (loadFiles fw (start f)).2.firmware)

/-- The variable outlives the reset, and the firmware comes up again. -/
def Restarts (var : F → Option Variable) (Sound : F → Prop) (start : F → Loader F) : Prop :=
  ∀ f, Sound f → Sound (start f).firmware ∧ var (start f).firmware = var f

def policyBoot (volume : Volume) (config : BootConfig) (_ : F → Loader F) (p : Policy) :
    (EfiStatus × Option (BootConfig × Option Bytes × UInt64)) × Policy :=
  (volume.answer config (p.boot config (loads (volume.kernel config))).1, (p.boot config (loads (volume.kernel config))).2)

theorem answers_policyBoot (volume : Volume) (config : BootConfig) (starts : List (F → Loader F)) (p : Policy) :
    answers (policyBoot volume config) starts p =
      (Policy.bootTimes config (loads (volume.kernel config)) starts.length p).map (volume.answer config) := by
  induction starts generalizing p with
  | nil => rfl
  | cons start starts ih =>
    rw [answers, ih]
    rfl

section Boots
variable {fw : Firmware F} {volume : Volume} {var : F → Option Variable} {Sound : F → Prop}
  {IsOpen : F → Nat → List UInt16 → Prop} (hf : FileService fw volume Sound IsOpen) (hv : VariableService fw var Sound)
  {config : BootConfig} {text : Bytes} {size : UInt64} (hc : volume.Configured config text size)
include hf hv hc

theorem bootStep_refines : Refines (Restarts var Sound) (bootStep fw) (policyBoot volume config)
    fun n f p => Sound f ∧ Says n (var f) p := by
  refine ⟨?_, ?_⟩
  · rintro n start f p hstart ⟨hsound, hp⟩
    obtain ⟨hsound', hvar⟩ := hstart f hsound
    rw [← hvar] at hp
    exact (loadFiles_served hf hv hc hsound' hp).1
  · rintro n start f p hstart ⟨hsound, hp⟩
    obtain ⟨hsound', hvar⟩ := hstart f hsound
    rw [← hvar] at hp
    exact (loadFiles_served hf hv hc hsound' hp).2

/-- Every boot of a run comes back with the kernel of the slot that the policy takes, and the variable says the policy's
state at the end. -/
theorem uefi_follows_policy {f : F} (hsound : Sound f) {p : Policy} (starts : List (F → Loader F))
    (hstarts : ∀ start ∈ starts, Restarts var Sound start) (hp : Says starts.length (var f) p) :
    answers (bootStep fw) starts f =
      (Policy.bootTimes config (loads (volume.kernel config)) starts.length p).map (volume.answer config) ∧
    Says 0 (var (runOps (bootStep fw) starts f)) (runOps (policyBoot volume config) starts p) := by
  obtain ⟨hanswers, -, hlast⟩ := (bootStep_refines hf hv hc).answers_eq (n := 0) hstarts ⟨hsound, hp⟩
  rw [answers_policyBoot] at hanswers
  exact ⟨hanswers, hlast⟩

/-- While the variable says that a slot is on trial, with `k` attempts made, the boots come back with its kernel until
there were three, and from then on with that of the slot to retreat to. -/
theorem uefi_trial {f : F} (hsound : Sound f) {p : Policy} {k : Nat} (htrial : p.trial = some k)
    (hload : loads (volume.kernel config) p.selected = true) (starts : List (F → Loader F))
    (hstarts : ∀ start ∈ starts, Restarts var Sound start) (hp : Says starts.length (var f) p)
    (hretreat : 3 - k < starts.length → loads (volume.kernel config) (Policy.retreat p.lastGood p.selected) = true) :
    answers (bootStep fw) starts f =
      .replicate (min starts.length (3 - k)) (volume.answer config (some p.selected)) ++
        .replicate (starts.length - (3 - k)) (volume.answer config (some (Policy.retreat p.lastGood p.selected))) := by
  obtain ⟨hanswers, -⟩ := (bootStep_refines hf hv hc).answers_eq (n := 0) hstarts ⟨hsound, hp⟩
  rw [hanswers, answers_policyBoot, Policy.bootTimes_trial htrial hload _ hretreat, List.map_append, List.map_replicate,
    List.map_replicate]

end Boots

/-! ### A firmware for the theorems -/

def volumeOf (handleOf : List UInt16 → Option Nat) (files : Nat → Bytes × UInt64) : Volume := fun path =>
  (handleOf path).map files

/-- A firmware with these files, and a variable that works. -/
def volumeFirmware (handleOf : List UInt16 → Option Nat) (files : Nat → Bytes × UInt64) : Firmware (Option Bytes) :=
  { recordFirmware true with
    openFile := fun path f =>
      match handleOf path with
      | some handle => (efiSuccess, some handle, f)
      | none => (efiNotFound, none, f)
    getInfo := fun handle _ f => (efiSuccess, bytesOf (packBytes [(8, 80), (8, (files handle).2.toNat)]), f)
    readBytes := fun handle n f => (efiSuccess, n, (files handle).1, f) }

section
variable (handleOf : List UInt16 → Option Nat) (files : Nat → Bytes × UInt64)

theorem fileService_volumeFirmware : FileService (volumeFirmware handleOf files) (volumeOf handleOf files)
    (fun _ => True) fun _ handle path => handleOf path = some handle where
  loadedImage _ _ := ⟨efiError_efiSuccess, rfl, trivial⟩
  fileSystem _ _ := ⟨efiError_efiSuccess, rfl, trivial⟩
  openVolume _ _ := ⟨efiError_efiSuccess, trivial⟩
  missing path f _ hnone := by
    have hhandle : handleOf path = none := Option.map_eq_none_iff.1 hnone
    simp only [volumeFirmware, hhandle]
    exact ⟨by decide, trivial⟩
  found path f file _ hfile := by
    obtain ⟨handle, hhandle, -⟩ := Option.map_eq_some_iff.1 hfile
    simp only [volumeFirmware, hhandle]
    exact ⟨efiError_efiSuccess, trivial, handle, rfl, rfl⟩
  infoSize _ _ _ _ hopen := ⟨rfl, (by decide : (24 : UInt64) ≤ 80), trivial, hopen⟩
  allocatePool _ _ _ := ⟨efiError_efiSuccess, trivial, fun _ _ hopen => hopen⟩
  getInfo handle path size f file _ hopen hfile := by
    rw [volumeOf, hopen, Option.map_some] at hfile
    cases hfile
    exact ⟨efiError_efiSuccess, le64_packBytes [(8, 80)] (files handle).2 [] rfl, trivial, hopen⟩
  readBytes handle path f file _ hopen hfile := by
    rw [volumeOf, hopen, Option.map_some] at hfile
    cases hfile
    exact ⟨efiError_efiSuccess, rfl, rfl, trivial⟩

theorem variableService_volumeFirmware :
    VariableService (volumeFirmware handleOf files) recordVariable fun _ => True := by
  obtain ⟨⟨himage, hsystem, hvolume, -, hinfo, -, hpool, -⟩, hset, herror, hget, hkeeps⟩ :=
    variableStore_recordFirmware true
  have hquiet : Quiet (volumeFirmware handleOf files) recordVariable := by
    refine ⟨himage, hsystem, hvolume, fun path f => ?_, hinfo, fun _ _ _ => rfl, hpool, fun _ _ _ => rfl⟩
    simp only [volumeFirmware]
    split <;> rfl
  refine ⟨⟨hquiet, hset, herror, hget, hkeeps⟩, rfl, fun f r _ hheld => ?_, fun _ _ => trivial, fun _ _ _ =>
    ⟨efiError_efiSuccess, trivial⟩⟩
  obtain ⟨x, hx, -⟩ := hheld
  cases f with
  | none => cases hx
  | some data => exact efiError_efiSuccess

variable {handleOf files}

theorem readable_volumeOf {path : List UInt16} {handle : Nat} (h : handleOf path = some handle)
    (hsize : (files handle).2 ≠ 0) : (volumeOf handleOf files).readable path = some (files handle) := by
  rw [Volume.readable, volumeOf, h, Option.map_some, Option.filter_some, if_pos (decide_eq_true hsize)]

theorem candidate_volumeOf {ascii : List UInt8} {path : List UInt16} {handle : Nat} (hset : isSet ascii = true)
    (hpath : asciiPathToUefi ascii (Config.pathMax + 1) = some path) (h : handleOf path = some handle)
    (hsize : (files handle).2 ≠ 0)
    (hvalid : (Elf64.validate (some (files handle).1) (files handle).2 (some ⟨0, 0, 0, 0⟩)).1 = .ok) :
    (volumeOf handleOf files).candidate ascii = some (some (files handle).1, (files handle).2) := by
  simp only [Volume.candidate, hset, hpath, readable_volumeOf h hsize, hvalid, Bool.not_true, Bool.false_eq_true, if_false,
    if_true]

end

/-! ### A volume with two kernels -/

-- the kernels' paths
def newPath : List UInt16 := (asciiPathToUefi twoKernelConfig.kernelPath (Config.pathMax + 1)).getD []
def oldPath : List UInt16 := (asciiPathToUefi twoKernelConfig.previousKernelPath (Config.pathMax + 1)).getD []

def installedHandle (path : List UInt16) : Option Nat :=
  if path = cfgPath then some 0 else if path = newPath then some 1 else if path = oldPath then some 2 else none

/-- The configuration, and the two kernels. -/
def installedFile (handle : Nat) : Bytes × UInt64 :=
  if handle = 0 then (bytesOf twoKernelText, 115)
  else if handle = 1 then (smallKernel 0xffffffff80000000, 124)
  else (smallKernel 0xffffffff80200000, 124)

abbrev installedFiles : Volume := volumeOf installedHandle installedFile

set_option maxRecDepth 2000 in
theorem length_twoKernelText : twoKernelText.length = 115 := by decide

theorem configured_installed :
    installedFiles.Configured twoKernelConfig (bytesOf twoKernelText) 115 where
  file := @readable_volumeOf installedHandle installedFile cfgPath 0 (if_pos rfl) (by decide)
  fits := by decide
  parses := by
    have hlength : (115 : UInt64).toNat = twoKernelText.length := length_twoKernelText.symm
    rw [hlength, slice_bytesOf]
    exact parse_twoKernelText

theorem kernel_installed_current :
    installedFiles.kernel twoKernelConfig .current =
      some (some (smallKernel 0xffffffff80000000), 124) := by
  have hpath : asciiPathToUefi twoKernelConfig.kernelPath (Config.pathMax + 1) = some newPath := rfl
  have hhandle : installedHandle newPath = some 1 := by decide
  exact candidate_volumeOf (by decide) hpath hhandle (by decide) (by decide)

theorem kernel_installed_previous :
    installedFiles.kernel twoKernelConfig .previous =
      some (some (smallKernel 0xffffffff80200000), 124) := by
  have hpath : asciiPathToUefi twoKernelConfig.previousKernelPath (Config.pathMax + 1) = some oldPath := rfl
  have hhandle : installedHandle oldPath = some 2 := by decide
  exact candidate_volumeOf (by decide) hpath hhandle (by decide) (by decide)

theorem answer_installed_current : installedFiles.answer twoKernelConfig (some .current) =
    (efiSuccess, some (twoKernelConfig, some (smallKernel 0xffffffff80000000), 124)) := by
  simp only [Volume.answer, Option.bind_some, kernel_installed_current]

theorem answer_installed_previous : installedFiles.answer twoKernelConfig (some .previous) =
    (efiSuccess, some (twoKernelConfig, some (smallKernel 0xffffffff80200000), 124)) := by
  simp only [Volume.answer, Option.bind_some, kernel_installed_previous]

theorem loads_installed_current : loads (installedFiles.kernel twoKernelConfig) .current = true := by
  rw [loads, kernel_installed_current]
  rfl

theorem loads_installed_previous : loads (installedFiles.kernel twoKernelConfig) .previous = true := by
  rw [loads, kernel_installed_previous]
  rfl

/-- A reset that leaves the firmware as it is. -/
def coldStart (f : Option Bytes) : Loader (Option Bytes) :=
  { firmware := f, mem := fun _ => 0, serial := [], opened := [], stored := [] }

theorem restarts_coldStart (n : Nat) :
    ∀ start ∈ List.replicate n coldStart, Restarts recordVariable (fun _ => True) start := by
  intro start hstart f _
  rw [List.eq_of_mem_replicate hstart]
  exact ⟨trivial, rfl⟩

theorem policyOf_begunUpdate : policyOf begunUpdate = ⟨.current, .previous, some 0⟩ := by
  obtain ⟨r, hr, hp⟩ := @policyOf_beginUpdate Health.healthDefault Health.valid_healthDefault .previous (by decide)
  rw [begunUpdate, hr]
  exact (Option.some.inj hp).symm

theorem retreat_begunUpdate : Policy.retreat .current .previous = .current := rfl

theorem valid_begunUpdate : valid begunUpdate = true := Health.valid_beginUpdate Health.valid_healthDefault _

theorem holds_begunUpdate : Holds (recordVariable (some begunUpdate.bytes)) begunUpdate :=
  ⟨_, rfl, rfl, Health.recordAt_bytes _, valid_begunUpdate⟩

/-- Five boots, with the old kernel on trial. -/
theorem uefi_follows_policy_installed :
    answers (bootStep (volumeFirmware installedHandle installedFile)) (.replicate 5 coldStart) (some begunUpdate.bytes) =
      .replicate 3 (efiSuccess, some (twoKernelConfig, some (smallKernel 0xffffffff80200000), 124)) ++
        .replicate 2 (efiSuccess, some (twoKernelConfig, some (smallKernel 0xffffffff80000000), 124)) := by
  have hstate : Says (List.replicate 5 coldStart).length (recordVariable (some begunUpdate.bytes)) (policyOf begunUpdate) :=
    .record holds_begunUpdate (by decide +kernel)
  rw [policyOf_begunUpdate] at hstate
  have hrun := (uefi_follows_policy (fileService_volumeFirmware installedHandle installedFile)
    (variableService_volumeFirmware installedHandle installedFile) configured_installed trivial
    (.replicate 5 coldStart) (restarts_coldStart 5) hstate).1
  have hslots := @Policy.bootTimes_trial twoKernelConfig (loads (installedFiles.kernel twoKernelConfig))
    ⟨.current, .previous, some 0⟩ 0 rfl loads_installed_previous 5 fun _ => loads_installed_current
  rw [hrun, List.length_replicate, hslots, List.map_append, List.map_replicate, List.map_replicate]
  simp only [answer_installed_previous, retreat_begunUpdate, answer_installed_current]
  rfl

/-- The record after the first attempt. -/
def attemptedUpdate : HealthRecord := (Health.prepareAttempt begunUpdate Health.healthMaxAttempts).2

/-- Two attempts are left of the trial then. -/
theorem uefi_trial_installed :
    answers (bootStep (volumeFirmware installedHandle installedFile)) (.replicate 5 coldStart)
        (some attemptedUpdate.bytes) =
      .replicate 2 (efiSuccess, some (twoKernelConfig, some (smallKernel 0xffffffff80200000), 124)) ++
        .replicate 3 (efiSuccess, some (twoKernelConfig, some (smallKernel 0xffffffff80000000), 124)) := by
  have hheld : Holds (recordVariable (some attemptedUpdate.bytes)) attemptedUpdate :=
    ⟨_, rfl, rfl, Health.recordAt_bytes _, (Health.prepareAttempt_spec valid_begunUpdate Health.healthMaxAttempts).valid⟩
  have hstate : Says (List.replicate 5 coldStart).length (recordVariable (some attemptedUpdate.bytes))
      (policyOf attemptedUpdate) := .record hheld (by decide +kernel)
  have hpolicy : policyOf attemptedUpdate = ⟨.current, .previous, some 1⟩ := by
    rw [attemptedUpdate, policyOf_attempt valid_begunUpdate, policyOf_begunUpdate]
    rfl
  rw [hpolicy] at hstate
  have hrun := uefi_trial (fileService_volumeFirmware installedHandle installedFile)
    (variableService_volumeFirmware installedHandle installedFile) configured_installed trivial rfl loads_installed_previous
    (.replicate 5 coldStart) (restarts_coldStart 5) hstate fun _ => loads_installed_current
  rw [hrun]
  simp only [answer_installed_previous, retreat_begunUpdate, answer_installed_current]
  rfl

end JoshBios.Uefi
