import JoshBios.Slots
import JoshBios.Fat32
import JoshBios.Handoff

/-! # Stage 2 of the BIOS path (`boot/stage2_pm.c`)

The drive behind `bios_block_read` and `bios_block_write` is a parameter: a type `D` of drive states, what a
read gives in a state, and what a write does to it. Physical memory is one byte array. The bounce buffer and
the health buffer are scratch space that nothing else looks at, and are left out of it.

`Bios` is the state the code works on. Its last fields only record what happened (newest first): the health
writes, the kernel paths that were opened, the slot that was chosen, and the ranges the ELF loader filled. -/

namespace JoshBios.Stage2

open Health (HealthRecord BootSlot FailureStage)
open Config (BootConfig isSet cString)

-- KERNEL_IMAGE_ADDR, KERNEL_IMAGE_BYTES, BIOS_BOUNCE_SECTORS, BIOS_DEVICE_SECTORS, CONFIG_PATH
def kernelImageAddr : Nat := 0x01000000
def kernelImageBytes : UInt32 := 4 * 1024 * 1024
def biosBounceSectors : UInt32 := 64
def biosDeviceSectors : UInt64 := 0x100000000
def configPath : List UInt8 := Config.ascii "/boot/josh/boot.cfg"

structure BiosDrive (D : Type) where
  read : D → UInt64 → UInt32 → Option Bytes
  write : D → UInt64 → UInt32 → Bytes → Bool × D

/-- One call of `health_write_copy`: the drive before and after it, and whether it reported success. -/
structure HealthWrite (D : Type) where
  lba : UInt64
  record : HealthRecord
  before : D
  after : D
  persisted : Bool

structure Bios (D : Type) where
  drive : D
  mem : Bytes
  healthPersistentEnabled : Bool
  serial : List String
  writes : List (HealthWrite D)
  opened : List (List UInt8)
  slot : Option BootSlot
  loaded : List (Nat × Nat)

variable {D : Type} (drive : BiosDrive D)

def say (message : String) (s : Bios D) : Bios D := { s with serial := message :: s.serial }

/-- The chunk loop of `bios_block_read_bounced`; `done` bytes of the destination are filled already. -/
def bounceLoop (d : D) : (n : Nat) → (lba : UInt64) → (remaining : UInt32) → (done : Nat) → Bytes → Option Bytes
  | 0, _, _, _, out => some out
  | n + 1, lba, remaining, done, out =>
    if remaining = 0 then some out else
    let chunk := if remaining > biosBounceSectors then biosBounceSectors else remaining
    match drive.read d lba chunk with
    | none => none
    | some bytes =>
      bounceLoop d n (lba + chunk.toUInt64) (remaining - chunk) (done + chunk.toNat * sectorSize)
        fun i => if i < done then out i else bytes (i - done)

def biosBlockReadBounced (d : D) (lba : UInt64) (sectorCount : UInt32) : Option Bytes :=
  if sectorCount = 0 then none else bounceLoop drive d sectorCount.toNat lba sectorCount 0 fun _ => 0

def biosDevice (d : D) : BlockDevice where
  sectorCount := biosDeviceSectors
  read := biosBlockReadBounced drive d

/-! ### Health storage -/

def zeroRecord : HealthRecord where
  magic := 0
  version := 0
  size := 0
  generation := 0
  selectedSlot := 0
  lastGoodSlot := 0
  pendingGood := 0
  attemptCount := 0
  lastFailureStage := 0
  reserved0 := 0
  updateGeneration := 0
  reserved1 := 0
  checksum := 0

/-- `health_read_copy`; a failed read leaves the caller's record as it was. -/
def healthReadCopy (d : D) (lba : UInt64) (record : HealthRecord) : Bool × HealthRecord :=
  match drive.read d lba 1 with
  | none => (false, record)
  | some sector => (Health.valid (Health.recordAt sector), Health.recordAt sector)

def healthWriteCopy (d : D) (lba : UInt64) (record : HealthRecord) : Bool × D :=
  match drive.write d lba 1 record.bytes with
  | (false, d) => (false, d)
  | (true, d) =>
    let (have_, verify) := healthReadCopy drive d lba zeroRecord
    (have_ && verify.generation == record.generation && verify.checksum == record.checksum, d)

/-- `health_load`, which always succeeds. -/
def healthLoad (s : Bios D) : HealthRecord × Bios D :=
  let (haveA, a) := healthReadCopy drive s.drive Health.healthLbaA zeroRecord
  let (haveB, b) := healthReadCopy drive s.drive Health.healthLbaB zeroRecord
  if !haveA && !haveB then
    (Health.healthDefault,
      say "JOSHBOOT_HEALTH_VOLATILE_UNPROVISIONED\n" { s with healthPersistentEnabled := false })
  else ((Health.choose a b).2, say "JOSHBOOT_HEALTH_LOADED\n" { s with healthPersistentEnabled := true })

/-- The copy a record goes to. -/
def healthLba (record : HealthRecord) : UInt64 :=
  if record.generation &&& 1 ≠ 0 then Health.healthLbaB else Health.healthLbaA

def healthPersist (record : HealthRecord) (s : Bios D) : Bios D :=
  if !s.healthPersistentEnabled then say "JOSHBOOT_HEALTH_VOLATILE_NO_WRITE\n" s else
  let lba := healthLba record
  let (ok, d) := healthWriteCopy drive s.drive lba record
  let s := { s with drive := d, writes := ⟨lba, record, s.drive, d, ok⟩ :: s.writes }
  if !ok then say "JOSHBOOT_WARN_HEALTH_PERSIST\n" { s with healthPersistentEnabled := false }
  else say "JOSHBOOT_HEALTH_PERSISTED\n" s

/-! ### Choosing a kernel -/

def kernelPathForSlot : BootConfig → BootSlot → List UInt8 := slotPath

def slotMarker : BootSlot → String
  | .current => "JOSHBOOT_SLOT_CURRENT\n"
  | .previous => "JOSHBOOT_SLOT_PREVIOUS\n"
  | .recovery => "JOSHBOOT_SLOT_RECOVERY\n"

/-- `read_kernel_candidate`: the size of the image it left at `kernelImageAddr`. -/
def readKernelCandidate (fs : Fat32) (path : List UInt8) (s : Bios D) : Option UInt32 × Bios D :=
  if !isSet path then (none, s) else
  let s := { s with opened := path :: s.opened }
  let device := biosDevice drive s.drive
  match Fat32.openPath device fs (cString path) with
  | .error _ => (none, s)
  | .ok kernel =>
    if kernel.size = 0 || kernel.size > kernelImageBytes then (none, s) else
    let r := Fat32.readFile device fs kernel 0 kernel.size
    let s := { s with mem := s.mem.write kernelImageAddr r.out }
    if r.status ≠ .ok || r.bytesRead ≠ kernel.size then (none, s) else
    match Elf64.validateImage (s.mem.from kernelImageAddr) kernel.size.toUInt64 with
    | .error _ => (none, s)
    | .ok _ => (some kernel.size, s)

section Select
variable {S α : Type} (w : SlotWorld S α) (config : BootConfig)

/-- The candidate loop of `load_kernel_file`, `n` rounds of it. -/
def candidateLoop : (n : Nat) → (slot : BootSlot) → HealthRecord → S → Selected S α
  | 0, _, health, s => ⟨none, health, s⟩
  | n + 1, slot, health, s =>
    match w.read slot (w.say (slotMarker slot) s) with
    | (some a, s) =>
      ⟨some (slot, a), health, w.say "JOSHBOOT_KERNEL_FILE_LOADED\n" (w.say "JOSHBOOT_KERNEL_PATH_OK\n" s)⟩
    | (none, s) =>
      if slot = .current ∧ isSet config.previousKernelPath = true then
        match Health.selectFallback health BootSlot.previous.code FailureStage.kernelFile.code with
        | (false, health) => ⟨none, health, s⟩
        | (true, health) =>
          candidateLoop n .previous health (w.say "JOSHBOOT_FALLBACK_PREVIOUS\n" (w.persist health s))
      else if slot ≠ .recovery ∧ isSet config.recoveryKernelPath = true then
        match Health.selectFallback health BootSlot.recovery.code FailureStage.kernelFile.code with
        | (false, health) => ⟨none, health, s⟩
        | (true, health) =>
          candidateLoop n .recovery health (w.say "JOSHBOOT_FALLBACK_RECOVERY\n" (w.persist health s))
      else ⟨none, health, s⟩

/-- `load_kernel_file` from the loaded health record on. -/
def selectKernel (health : HealthRecord) (s : S) : Selected S α :=
  let (slot, prepared) := Health.prepareAttempt health Health.healthMaxAttempts
  let s := if prepared.generation ≠ health.generation then w.persist prepared s else s
  let s :=
    if health.pendingGood ≠ 0 ∧ health.selectedSlot ≠ slot.code then
      w.say (if slot = .previous then "JOSHBOOT_HEALTH_ROLLBACK_PREVIOUS\n"
        else "JOSHBOOT_HEALTH_ROLLBACK_RECOVERY\n") s
    else s
  let r := candidateLoop w config 3 slot prepared s
  match r.kernel with
  | some _ => r
  | none => { r with world := w.say "JOSHBOOT_ERROR_KERNEL_CANDIDATES\n" r.world }

end Select

def biosWorld (fs : Fat32) (config : BootConfig) : SlotWorld (Bios D) UInt32 where
  read slot := readKernelCandidate drive fs (kernelPathForSlot config slot)
  persist := healthPersist drive
  say := say

/-- What `load_kernel_file` finds out before it looks at the health record. -/
structure BootFiles where
  layoutSafe : Bool
  fs : Fat32
  config : BootConfig

/-- The part of `load_kernel_file` before the health record, with the lines it prints. -/
def readBootFiles (device : BlockDevice) (serial : List String) : Option BootFiles × List String :=
  match Partition.findBoot device with
  | .error _ => (none, "JOSHBOOT_ERROR_PARTITION\n" :: serial)
  | .ok partition =>
    let serial := "JOSHBOOT_PARTITION_OK\n" :: serial
    let layoutSafe := Partition.rangeIsUnallocated device Health.healthLbaA 2
    let serial := if layoutSafe then serial else "JOSHBOOT_HEALTH_LAYOUT_UNSAFE_VOLATILE\n" :: serial
    match Fat32.mount device partition with
    | .error _ => (none, "JOSHBOOT_ERROR_FAT32\n" :: serial)
    | .ok fs =>
      let serial := "JOSHBOOT_FAT32_OK\n" :: serial
      match Fat32.openPath device fs configPath with
      | .error _ => (none, "JOSHBOOT_ERROR_CONFIG_PATH\n" :: serial)
      | .ok file =>
        if file.size = 0 || file.size.toNat > Config.configMaxBytes then
          (none, "JOSHBOOT_ERROR_CONFIG_SIZE\n" :: serial)
        else
          let r := Fat32.readFile device fs file 0 file.size
          if r.status ≠ .ok || r.bytesRead ≠ file.size then (none, "JOSHBOOT_ERROR_CONFIG_READ\n" :: serial) else
          match Config.parse r.out with
          | .error _ => (none, "JOSHBOOT_ERROR_CONFIG_PARSE\n" :: serial)
          | .ok config => (some { layoutSafe, fs, config }, "JOSHBOOT_CONFIG_OK\n" :: serial)

/-- The health record to boot with. -/
def bootHealth (layoutSafe : Bool) (s : Bios D) : HealthRecord × Bios D :=
  if !layoutSafe then
    (Health.healthDefault, say "JOSHBOOT_HEALTH_VOLATILE_LAYOUT\n" { s with healthPersistentEnabled := false })
  else healthLoad drive s

/-- `load_kernel_file`: the size of the image and the configuration. -/
def loadKernelFile (s : Bios D) : Option (UInt32 × BootConfig) × Bios D :=
  match readBootFiles (biosDevice drive s.drive) s.serial with
  | (none, serial) => (none, { s with serial })
  | (some files, serial) =>
    let (health, s) := bootHealth drive files.layoutSafe { s with serial }
    let r := selectKernel (biosWorld drive files.fs files.config) files.config health s
    match r.kernel with
    | none => (none, r.world)
    | some (slot, bytes) => (some (bytes, files.config), { r.world with slot := some slot })

/-! ### Loading the image -/

/-- The copy and the zero fill of one segment. -/
def placeSegment (segment : Elf64.LoadSegment) (physical : UInt64) (m : Bytes) : Bytes :=
  let m := memcopy m physical.toUInt32.toNat (kernelImageAddr + segment.fileOffset.toUInt32.toNat)
    segment.fileSize.toUInt32.toNat
  if segment.memorySize > segment.fileSize then
    memzero m (physical + segment.fileSize).toUInt32.toNat
      (segment.memorySize - segment.fileSize).toUInt32.toNat
  else m

/-- The segment loop of `load_elf`, `n` segments from the `i`-th on; every round reads the headers again. -/
def loadElfLoop (imageBytes : UInt32) : (n : Nat) → (i : UInt16) → Bios D → Bool × Bios D
  | 0, _, s => (true, s)
  | n + 1, i, s =>
    match Elf64.loadSegmentOf (s.mem.from kernelImageAddr) imageBytes.toUInt64 i with
    | .error _ => (false, s)
    | .ok segment =>
      if segment.virtualAddress < kernelVirtBase then (false, s) else
      let physical := kernelPhysBase.toUInt64 + (segment.virtualAddress - kernelVirtBase)
      if physical > kernelPhysLimit.toUInt64 || segment.memorySize > kernelPhysLimit.toUInt64 - physical then
        (false, s)
      else
        loadElfLoop imageBytes n (i + 1)
          { s with
            mem := placeSegment segment physical s.mem
            loaded := (physical.toNat, segment.memorySize.toNat) :: s.loaded }

/-- `load_elf`: the summary of the image when it returns 0. -/
def loadElf (imageBytes : UInt32) (s : Bios D) : Option Elf64.Summary × Bios D :=
  match Elf64.validateImage (s.mem.from kernelImageAddr) imageBytes.toUInt64 with
  | .error _ => (none, s)
  | .ok summary =>
    if summary.virtualMin < kernelVirtBase || summary.virtualMax ≤ summary.virtualMin then (none, s)
    else if summary.virtualMax - kernelVirtBase > (kernelPhysLimit - kernelPhysBase).toUInt64 then (none, s)
    else
      match loadElfLoop imageBytes summary.loadSegmentCount.toNat 0 s with
      | (false, s) => (none, s)
      | (true, s) => (some summary, s)

/-! ### The main program -/

-- JOSH_MEMORY_USABLE
def memoryUsable : UInt32 := 1

def stagingRangeIsUsable (machine : Machine) (m : Bytes) : Bool :=
  let start : UInt64 := .ofNat kernelImageAddr
  let end_ := start + kernelImageBytes.toUInt64
  (List.range machine.e820Count.toNat).any fun i =>
    let entry := memoryMapAddr + memoryMapEntrySize * i
    let entryStart := le64 m entry
    let entryEnd := entryStart + le64 m (entry + 8)
    le32 m (entry + 16) == memoryUsable && !(entryEnd < entryStart) && start ≥ entryStart && end_ ≤ entryEnd

def hasElfMagic (m : Bytes) : Bool :=
  m kernelImageAddr == 0x7f && m (kernelImageAddr + 1) == 0x45 && m (kernelImageAddr + 2) == 0x4c &&
    m (kernelImageAddr + 3) == 0x46

/-- How `stage2_pm_main` ends. `returned` is the way back to the raw loader. -/
inductive Ending where
  | halted (error : String)
  | returned
  | handoff (entry : UInt64)
deriving DecidableEq, Repr

def halt (error : String) (s : Bios D) : Ending × Bios D := (.halted error, say error s)

/-- `stage2_pm_main` from the detected ELF image on. -/
def handOver (machine : Machine) (imageBytes : UInt32) (config : Option BootConfig) (s : Bios D) : Ending × Bios D :=
  match loadElf imageBytes (say "JOSHBOOT_ELF64_DETECTED\n" s) with
  | (none, s) => halt "JOSHBOOT_ERROR_ELF64\n" s
  | (some summary, s) =>
    let mem := buildPageTables (fillBootInfo machine summary config s.mem)
    (.handoff summary.entry, say "JOSHBOOT_HANDOFF_READY\n" { s with mem })

def stage2PmMain (machine : Machine) (s : Bios D) : Ending × Bios D :=
  if !cpuHasLongMode machine then halt "JOSHBOOT_ERROR_CPU_LONG_MODE\n" s else
  let s := say "JOSHBOOT_CPU_LONG_MODE_OK\n" s
  if machine.filesystemBoot && !stagingRangeIsUsable machine s.mem then halt "JOSHBOOT_ERROR_STAGING_MEMORY\n" s
  else if hasElfMagic s.mem then handOver machine kernelImageBytes none s
  else if !machine.filesystemBoot then (.returned, s)
  else
    match loadKernelFile drive (say "JOSHBOOT_FS_LOAD_BEGIN\n" s) with
    | (none, s) => halt "JOSHBOOT_ERROR_FILESYSTEM_LOAD\n" s
    | (some (imageBytes, config), s) =>
      if !hasElfMagic s.mem then halt "JOSHBOOT_ERROR_KERNEL_NOT_ELF\n" s
      else handOver machine imageBytes (some config) s

end JoshBios.Stage2
