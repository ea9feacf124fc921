import JoshBios.Slots
import JoshBios.Elf64

/-! # Files and health on the UEFI path (`boot/uefi/main.c`)

The firmware is a parameter: a type `F` of its states and, for each service the loader calls, the status and the
data it answers with. `Close` and `FreePool` only give things back and are left out. A file buffer is null when
`Open` reports success without a file. `Loader` adds the physical memory, and, newest first, the serial lines and what
was opened and stored; file buffers are apart from the pages that are allocated, and are not part of the memory. -/

namespace JoshBios.Uefi

open Health (HealthRecord BootSlot FailureStage)
open Config (BootConfig isSet cString)

abbrev EfiStatus := UInt64

-- EFI_*
def efiErr (code : UInt64) : EfiStatus := 0x8000000000000000 ||| code
def efiSuccess : EfiStatus := 0
def efiLoadError : EfiStatus := efiErr 1
def efiInvalidParameter : EfiStatus := efiErr 2
def efiUnsupported : EfiStatus := efiErr 3
def efiBadBufferSize : EfiStatus := efiErr 4
def efiBufferTooSmall : EfiStatus := efiErr 5
def efiDeviceError : EfiStatus := efiErr 7
def efiOutOfResources : EfiStatus := efiErr 9
def efiNotFound : EfiStatus := efiErr 14

def efiError (s : EfiStatus) : Bool := s &&& 0x8000000000000000 ≠ 0

@[simp] theorem efiError_efiSuccess : efiError efiSuccess = false := by decide

structure Firmware (F : Type) where
  -- the two protocol lookups of `open_root`, with whether they gave an interface
  loadedImage : F → EfiStatus × Bool × F
  fileSystem : F → EfiStatus × Bool × F
  openVolume : F → EfiStatus × F
  openFile : List UInt16 → F → EfiStatus × Option Nat × F
  -- `GetInfo` without a buffer, and with one of the given size
  infoSize : Nat → F → EfiStatus × UInt64 × F
  getInfo : Nat → UInt64 → F → EfiStatus × Bytes × F
  allocatePool : UInt64 → F → EfiStatus × F
  -- `AllocatePages` below 4 GiB: so many pages, and where they are
  allocatePages : UInt64 → F → EfiStatus × UInt64 × F
  readBytes : Nat → UInt64 → F → EfiStatus × UInt64 × Bytes × F
  -- the health variable; `hasRuntime` is whether the runtime services are there
  hasRuntime : Bool
  getVariable : F → EfiStatus × UInt64 × Bytes × F
  setVariable : Bytes → F → EfiStatus × F

structure Loader (F : Type) where
  firmware : F
  mem : Bytes
  serial : List String
  opened : List (List UInt16)
  stored : List HealthRecord

variable {F : Type} (fw : Firmware F)

def say (message : String) (u : Loader F) : Loader F := { u with serial := message :: u.serial }

def openRoot (f : F) : EfiStatus × F :=
  let (s, loaded, f) := fw.loadedImage f
  if efiError s || !loaded then (s, f) else
  let (s, fs, f) := fw.fileSystem f
  if efiError s || !fs then (efiNotFound, f) else fw.openVolume f

/-- `ascii_path_to_uefi`; the terminating zero is not part of the list, and `cap` counts it. -/
def convertPath (cap : Nat) : (o : Nat) → List UInt8 → Option (List UInt16)
  | _, [] => some []
  | o, c :: cs =>
    if o + 1 ≥ cap then none
    else if c < 0x20 || c > 0x7e then none
    else (convertPath cap (o + 1) cs).map ((if c = 0x2f then 0x5c else c.toUInt16) :: ·)

def asciiPathToUefi (a : List UInt8) (cap : Nat) : Option (List UInt16) :=
  if cap < 2 || a.getD 0 0 ≠ 0x2f then none else convertPath cap 0 (cString a)

/-- `read_file`: the status, the buffer and its size. -/
def readFile (path : List UInt16) (u : Loader F) : (EfiStatus × Option Bytes × UInt64) × Loader F :=
  let (s, file, f) := fw.openFile path u.firmware
  let u := { u with opened := path :: u.opened, firmware := f }
  match file with
  | none => ((s, none, 0), u)
  | some file =>
    if efiError s then ((s, none, 0), u) else
    let (s, is, f) := fw.infoSize file u.firmware
    let u := { u with firmware := f }
    if s ≠ efiBufferTooSmall || is < 24 then ((efiDeviceError, none, 0), u) else
    let (s, f) := fw.allocatePool is u.firmware
    let u := { u with firmware := f }
    if efiError s then ((s, none, 0), u) else
    let (s, info, f) := fw.getInfo file is u.firmware
    let u := { u with firmware := f }
    if efiError s then ((s, none, 0), u) else
    let fs := le64 info 8
    if fs = 0 then ((efiBadBufferSize, none, 0), u) else
    let (s, f) := fw.allocatePool fs u.firmware
    let u := { u with firmware := f }
    if efiError s then ((s, none, 0), u) else
    let (s, size, buf, f) := fw.readBytes file fs u.firmware
    let u := { u with firmware := f }
    if efiError s || size ≠ fs then ((efiDeviceError, none, 0), u) else ((efiSuccess, some buf, size), u)

/-- What calls on a file, one after the other, make of the firmware. -/
inductive FileCalls (f : F) : F → Prop
  | none : FileCalls f f
  | openFile {g : F} (path : List UInt16) : FileCalls f g → FileCalls f (fw.openFile path g).2.2
  | infoSize {g : F} (file : Nat) : FileCalls f g → FileCalls f (fw.infoSize file g).2.2
  | allocatePool {g : F} (size : UInt64) : FileCalls f g → FileCalls f (fw.allocatePool size g).2
  | getInfo {g : F} (file : Nat) (size : UInt64) : FileCalls f g → FileCalls f (fw.getInfo file size g).2.2
  | readBytes {g : F} (file : Nat) (size : UInt64) : FileCalls f g → FileCalls f (fw.readBytes file size g).2.2.2

theorem readFile_calls (path : List UInt16) (u : Loader F) :
    ∃ f, FileCalls fw u.firmware f ∧ (readFile fw path u).2 = { u with opened := path :: u.opened, firmware := f } := by
  have h₁ : FileCalls fw u.firmware _ := .openFile path .none
  simp only [readFile]
  split
  · exact ⟨_, h₁, rfl⟩
  next file _ =>
    have h₂ := h₁.infoSize file
    split
    · exact ⟨_, h₁, rfl⟩
    split
    · exact ⟨_, h₂, rfl⟩
    split
    · exact ⟨_, h₂.allocatePool _, rfl⟩
    split
    · exact ⟨_, (h₂.allocatePool _).getInfo file _, rfl⟩
    split
    · exact ⟨_, (h₂.allocatePool _).getInfo file _, rfl⟩
    split
    · exact ⟨_, ((h₂.allocatePool _).getInfo file _).allocatePool _, rfl⟩
    split
    · exact ⟨_, (((h₂.allocatePool _).getInfo file _).allocatePool _).readBytes file _, rfl⟩
    · exact ⟨_, (((h₂.allocatePool _).getInfo file _).allocatePool _).readBytes file _, rfl⟩

def uefiHealthStore (health : HealthRecord) (u : Loader F) : Loader F :=
  if !fw.hasRuntime then u else
  let (s, f) := fw.setVariable health.bytes u.firmware
  let u := { u with firmware := f, stored := health :: u.stored }
  if efiError s then say "JOSHUEFI_WARN_HEALTH_PERSIST\r\n" u else say "JOSHUEFI_HEALTH_PERSISTED\r\n" u

def uefiHealthLoad (u : Loader F) : HealthRecord × Loader F :=
  let (s, size, bytes, f) :=
    if fw.hasRuntime then fw.getVariable u.firmware else (efiNotFound, Health.recordSize.toUInt64, fun _ => 0, u.firmware)
  let u := { u with firmware := f }
  let health := Health.recordAt bytes
  if efiError s || size ≠ Health.recordSize.toUInt64 || !Health.valid health then
    (Health.healthDefault, say "JOSHUEFI_HEALTH_INITIALIZED\r\n" (uefiHealthStore fw Health.healthDefault u))
  else (health, say "JOSHUEFI_HEALTH_LOADED\r\n" u)

def uefiKernelPath : BootConfig → BootSlot → List UInt8 := slotPath

def uefiSlotMarker : BootSlot → String
  | .current => "JOSHUEFI_SLOT_CURRENT\r\n"
  | .previous => "JOSHUEFI_SLOT_PREVIOUS\r\n"
  | .recovery => "JOSHUEFI_SLOT_RECOVERY\r\n"

/-- One candidate: the image and its size, once it is read and validates. -/
def readCandidate (ascii : List UInt8) (u : Loader F) : Option (Option Bytes × UInt64) × Loader F :=
  if !isSet ascii then (none, u) else
  match asciiPathToUefi ascii (Config.pathMax + 1) with
  | none => (none, u)
  | some path =>
    let ((s, image, size), u) := readFile fw path u
    if efiError s then (none, u)
    else
      let check : Elf64.Summary := { entry := 0, virtualMin := 0, virtualMax := 0, loadSegmentCount := 0 }
      if (Elf64.validate image size (some check)).1 = .ok then (some (image, size), u) else (none, u)

section Select
variable {S α : Type} (w : SlotWorld S α) (config : BootConfig)

/-- The candidate loop of `load_files`, `n` rounds of it. -/
def candidateLoop : (n : Nat) → (slot : BootSlot) → HealthRecord → S → Selected S α
  | 0, _, health, s => ⟨none, health, s⟩
  | n + 1, slot, health, s =>
    match w.read slot (w.say (uefiSlotMarker slot) s) with
    | (some a, s) => ⟨some (slot, a), health, w.say "JOSHUEFI_KERNEL_FILE_LOADED\r\n" s⟩
    | (none, s) =>
      if slot = .current ∧ isSet config.previousKernelPath = true then
        match Health.selectFallback health BootSlot.previous.code FailureStage.kernelFile.code with
        | (false, health) => ⟨none, health, s⟩
        | (true, health) =>
          candidateLoop n .previous health (w.say "JOSHUEFI_FALLBACK_PREVIOUS\r\n" (w.persist health s))
      else if slot ≠ .recovery ∧ isSet config.recoveryKernelPath = true then
        match Health.selectFallback health BootSlot.recovery.code FailureStage.kernelFile.code with
        | (false, health) => ⟨none, health, s⟩
        | (true, health) =>
          candidateLoop n .recovery health (w.say "JOSHUEFI_FALLBACK_RECOVERY\r\n" (w.persist health s))
      else ⟨none, health, s⟩

/-- `load_files` from the loaded health record on. -/
def selectKernel (health : HealthRecord) (s : S) : Selected S α :=
  let (slot, prepared) := Health.prepareAttempt health Health.healthMaxAttempts
  let s := if prepared.generation ≠ health.generation then w.persist prepared s else s
  let s :=
    if health.pendingGood ≠ 0 ∧ health.selectedSlot ≠ slot.code then
      w.say (if slot = .previous then "JOSHUEFI_HEALTH_ROLLBACK_PREVIOUS\r\n"
        else "JOSHUEFI_HEALTH_ROLLBACK_RECOVERY\r\n") s
    else s
  let r := candidateLoop w config 3 slot prepared s
  match r.kernel with
  | some _ => r
  | none => { r with world := w.say "JOSHUEFI_ERROR_KERNEL_CANDIDATES\r\n" r.world }

end Select

def uefiWorld (config : BootConfig) : SlotWorld (Loader F) (Option Bytes × UInt64) where
  read slot := readCandidate fw (uefiKernelPath config slot)
  persist := uefiHealthStore fw
  say := say

/-- `load_files`: the status, and the configuration with the kernel image and its size. -/
def loadFiles (u : Loader F) : (EfiStatus × Option (BootConfig × Option Bytes × UInt64)) × Loader F :=
  let (s, f) := openRoot fw u.firmware
  let u := { u with firmware := f }
  if efiError s then ((s, none), u) else
  -- "\EFI\JOSH\BOOT.CFG"
  let cfgPath : List UInt16 :=
    [0x5c, 0x45, 0x46, 0x49, 0x5c, 0x4a, 0x4f, 0x53, 0x48, 0x5c, 0x42, 0x4f, 0x4f, 0x54, 0x2e, 0x43, 0x46, 0x47]
  let ((s, cfg, size), u) := readFile fw cfgPath u
  if efiError s then ((s, none), u)
  else if size.toNat > Config.configMaxBytes then ((efiLoadError, none), u) else
  match cfg with
  | none => ((efiLoadError, none), u)
  | some cfg =>
    match Config.parse (cfg.slice 0 size.toNat) with
    | .error _ => ((efiLoadError, none), u)
    | .ok config =>
      let (health, u) := uefiHealthLoad fw (say "JOSHUEFI_CONFIG_OK\r\n" u)
      let r := selectKernel (uefiWorld fw config) config health u
      match r.kernel with
      | none => ((efiNotFound, none), r.world)
      | some (_, image, size) => ((efiSuccess, some (config, image, size)), r.world)

/-! ### A firmware to try things on -/

/-- A firmware that holds one file, whatever the path, and allocates pages upwards from its state. -/
def oneFileFirmware (image : Bytes) (size : UInt64) : Firmware UInt64 where
  loadedImage f := (efiSuccess, true, f)
  fileSystem f := (efiSuccess, true, f)
  openVolume f := (efiSuccess, f)
  openFile _ f := (efiSuccess, some 0, f)
  infoSize _ f := (efiBufferTooSmall, 80, f)
  getInfo _ _ f := (efiSuccess, bytesOf (packBytes [(8, 80), (8, size.toNat)]), f)
  allocatePool _ f := (efiSuccess, f)
  allocatePages n f := (efiSuccess, f, f + n * 4096)
  readBytes _ n f := (efiSuccess, n, image, f)
  hasRuntime := true
  getVariable f := (efiNotFound, 0, fun _ => 0, f)
  setVariable _ f := (efiSuccess, f)

def freshLoader : Loader UInt64 where
  firmware := 0x400000
  mem := fun _ => 0
  serial := []
  opened := []
  stored := []

end JoshBios.Uefi
