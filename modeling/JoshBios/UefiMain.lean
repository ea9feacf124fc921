import JoshBios.Handoff
import JoshBios.UefiElf

/-! # `efi_main` (`boot/uefi/main.c`)

The rest of the UEFI loader: the boot information, the framebuffer, and the memory map at the end of the boot services.
The page with the metadata and the buffer for the memory map are in physical memory; a `uefi_metadata_t` is the
`JoshBootInfo`, the entries of the memory map, the command line and the name of the loader, one after the other. -/

namespace JoshBios.Uefi

open Elf64 (Summary LoadSegment)
open Config (BootConfig isSet cString)
open Stage2 (store)

/-! ### The services that `efi_main` calls itself -/

structure EfiGuid where
  data1 : UInt32
  data2 : UInt16
  data3 : UInt16
  data4 : List UInt8
deriving DecidableEq

-- gEfi*TableGuid
def acpi20TableGuid : EfiGuid := ⟨0x8868e871, 0xe4f1, 0x11d3, [0xbc, 0x22, 0x00, 0x80, 0xc7, 0x3c, 0x88, 0x81]⟩
def acpi10TableGuid : EfiGuid := ⟨0xeb9d2d30, 0x2d88, 0x11d3, [0x9a, 0x16, 0x00, 0x90, 0x27, 0x3f, 0xc1, 0x4d]⟩
def smbios3TableGuid : EfiGuid := ⟨0xf2fd1544, 0x9794, 0x4a2c, [0x99, 0x2e, 0xe5, 0xbb, 0xcf, 0x20, 0xe3, 0x94]⟩
def smbiosTableGuid : EfiGuid := ⟨0xeb9d2d31, 0x2d88, 0x11d3, [0x9a, 0x16, 0x00, 0x90, 0x27, 0x3f, 0xc1, 0x4d]⟩

def guidEqual (a b : EfiGuid) : Bool := a = b

/-- What the loader reads of the graphics mode. -/
structure GraphicsMode where
  frameBufferBase : UInt64
  horizontalResolution : UInt32
  verticalResolution : UInt32
  pixelFormat : UInt32
  redMask : UInt32
  greenMask : UInt32
  blueMask : UInt32
  pixelsPerScanLine : UInt32

/-- What `GetMemoryMap` answers; the data is in the buffer unless the status is an error. -/
structure MapAnswer where
  status : EfiStatus
  size : UInt64
  key : UInt64
  descriptorSize : UInt64
  data : Bytes

structure BootFirmware (F : Type) extends Firmware F where
  hasBootServices : Bool
  -- of the loaded image
  imageBase : UInt64
  imageSize : UInt64
  configurationTable : List (EfiGuid × UInt64)
  -- `LocateProtocol`, with the mode if no pointer on the way to it is null
  graphicsOutput : F → EfiStatus × Option GraphicsMode × F
  -- with the size of the buffer, zero if there is none
  getMemoryMap : UInt64 → F → MapAnswer × F
  exitBootServices : UInt64 → F → EfiStatus × F

variable {F : Type} (fw : BootFirmware F)

/-! ### The boot information -/

-- JOSH_BOOT_MAX_MEMORY_ENTRIES, and the offsets in a uefi_metadata_t
def maxMemoryEntries : Nat := 128
def entriesOffset : Nat := 40
def framebufferOffset : Nat := 48
def memoryMapOffset : Nat := Stage2.bootInfoSize
def commandLineOffset : Nat := memoryMapOffset + maxMemoryEntries * Stage2.memoryMapEntrySize
def loaderNameOffset : Nat := commandLineOffset + Config.cmdlineMax + 1
def metadataSize : Nat := loaderNameOffset + 32

def firmwareUefi : Nat := 2

/-- Stores to the fields of a structure at `a`: offset, width and value of each. -/
def storeFields (a : Nat) (fields : List (Nat × Nat × Nat)) (m : Bytes) : Bytes :=
  fields.foldl (fun m f => store m (a + f.1) f.2.1 f.2.2) m

/-- `find_table`: the first table `a`, or else the last table `b`. -/
def findTable (a b : EfiGuid) : List (EfiGuid × UInt64) → (fb : UInt64) → UInt64
  | [], fb => fb
  | (guid, table) :: rest, fb =>
    if guidEqual guid a then table else findTable a b rest (if guidEqual guid b then table else fb)

def uefiLoaderName : List UInt8 := Config.ascii "JoshBootloader UEFI"

/-- `fill_meta`. -/
def fillMeta (metadata : UInt64) (s : Summary) (kp : UInt64) (c : BootConfig) (m : Bytes) : Bytes :=
  let i := metadata.toNat
  let rsdp := findTable acpi20TableGuid acpi10TableGuid fw.configurationTable 0
  let smbios := findTable smbios3TableGuid smbiosTableGuid fw.configurationTable 0
  let line := (cString c.commandLine).take Config.cmdlineMax
  let flags := Stage2.flagMemoryMap ||| Stage2.flagFramebuffer ||| Stage2.flagLoaderName |||
    (if rsdp ≠ 0 then Stage2.flagRsdp else 0) ||| (if smbios ≠ 0 then Stage2.flagSmbios else 0) |||
    (if isSet c.commandLine then Stage2.flagCmdline else 0)
  let m := storeFields i
    [(0, 8, Stage2.bootInfoMagic), (8, 4, 0), (12, 4, 1), (16, 4, Stage2.bootInfoSize), (24, 4, firmwareUefi), (20, 4, flags),
      (32, 8, i + memoryMapOffset), (44, 4, Stage2.memoryMapEntrySize), (96, 8, kp.toNat),
      (104, 8, (kp + (s.virtualMax - s.virtualMin)).toNat), (112, 8, s.virtualMin.toNat), (120, 8, s.virtualMax.toNat),
      (176, 8, s.entry.toNat), (128, 8, rsdp.toNat), (136, 8, smbios.toNat)]
    (memzero m i metadataSize)
  let m := storeFields i [(160, 8, i + loaderNameOffset), (168, 4, uefiLoaderName.length)]
    (m.write (i + loaderNameOffset) (uefiLoaderName ++ [0]))
  if !isSet c.commandLine then m
  else storeFields i [(144, 8, i + commandLineOffset), (152, 4, line.length)] (m.write (i + commandLineOffset) line)

/-! ### The framebuffer -/

-- PixelRedGreenBlueReserved8BitPerColor, PixelBlueGreenRedReserved8BitPerColor, PixelBltOnly
def pixelRgb : UInt32 := 0
def pixelBgr : UInt32 := 1
def pixelBltOnly : UInt32 := 3

def maskShiftLoop : (n : Nat) → (m s : UInt32) → UInt32
  | 0, _, s => s
  | n + 1, m, s => if m &&& 1 ≠ 0 then s else maskShiftLoop n (m >>> 1) (s + 1)

/-- `mask_shift`; a mask that is not zero has a bit in its 32. -/
def maskShift (m : UInt32) : UInt32 := if m = 0 then 0 else maskShiftLoop 32 m 0

def maskSizeLoop : (n : Nat) → (m s : UInt32) → UInt32
  | 0, _, s => s
  | n + 1, m, s => if m = 0 then s else maskSizeLoop n (m >>> 1) (s + (m &&& 1))

def maskSize (m : UInt32) : UInt32 := maskSizeLoop 32 m 0

/-- The sizes and the shifts of the three colours, in the order of the fields. -/
def colourMasks (i : GraphicsMode) : List UInt32 :=
  if i.pixelFormat = pixelRgb then [8, 0, 8, 8, 8, 16]
  else if i.pixelFormat = pixelBgr then [8, 16, 8, 8, 8, 0]
  else [maskSize i.redMask, maskShift i.redMask, maskSize i.greenMask, maskShift i.greenMask, maskSize i.blueMask,
    maskShift i.blueMask]

/-- `fill_fb`, for the `JoshFramebufferInfo` at `fb`. -/
def fillFb (fb : Nat) (u : Loader F) : EfiStatus × Loader F :=
  let (s, mode, f) := fw.graphicsOutput u.firmware
  let u := { u with firmware := f }
  match mode with
  | none => (efiNotFound, u)
  | some i =>
    if efiError s then (efiNotFound, u)
    else if i.pixelFormat = pixelBltOnly || i.frameBufferBase = 0 then (efiUnsupported, u) else
    let m := storeFields fb
      [(0, 8, i.frameBufferBase.toNat), (8, 4, i.horizontalResolution.toNat), (12, 4, i.verticalResolution.toNat),
        (16, 4, (i.pixelsPerScanLine * 4).toNat), (20, 4, 32)] (memzero u.mem fb 48)
    let m := storeFields fb ((colourMasks i).zipIdx.map fun c => (24 + 4 * c.2, 4, c.1.toNat)) m
    (efiSuccess, say "JOSHUEFI_GOP_OK\r\n" { u with mem := m })

/-! ### The memory map -/

-- EfiConventionalMemory, EfiUnusableMemory, EfiACPIReclaimMemory, EfiACPIMemoryNVS
def conventionalMemory : UInt32 := 7
def unusableMemory : UInt32 := 8
def acpiReclaimMemory : UInt32 := 9
def acpiMemoryNvs : UInt32 := 10

-- JOSH_MEMORY_*
def memoryUsable : UInt32 := 1
def memoryReserved : UInt32 := 2
def memoryAcpiReclaimable : UInt32 := 3
def memoryAcpiNvs : UInt32 := 4
def memoryBad : UInt32 := 5

def mapType (t : UInt32) : UInt32 :=
  if t = conventionalMemory then memoryUsable
  else if t = acpiReclaimMemory then memoryAcpiReclaimable
  else if t = acpiMemoryNvs then memoryAcpiNvs
  else if t = unusableMemory then memoryBad
  else memoryReserved

/-- What the loader reads of an `EFI_MEMORY_DESCRIPTOR`. -/
structure Descriptor where
  type : UInt32
  physicalStart : UInt64
  numberOfPages : UInt64

-- sizeof(EFI_MEMORY_DESCRIPTOR)
def descriptorBytes : UInt64 := 40

def descriptorAt (b : Bytes) (off : Nat) : Descriptor where
  type := le32 b off
  physicalStart := le64 b (off + 8)
  numberOfPages := le64 b (off + 24)

/-- `JoshMemoryMapEntry` -/
structure MemoryMapEntry where
  base : UInt64
  length : UInt64
  type : UInt32
  flags : UInt32
deriving DecidableEq

def Descriptor.entry (d : Descriptor) : MemoryMapEntry where
  base := d.physicalStart
  length := d.numberOfPages * pageSize
  type := mapType d.type
  flags := 0

/-- The address of entry `n` of the memory map. -/
def entryAddress (metadata : UInt64) (n : Nat) : Nat := metadata.toNat + memoryMapOffset + Stage2.memoryMapEntrySize * n

def MemoryMapEntry.bytes (e : MemoryMapEntry) : List UInt8 :=
  packBytes [(8, e.base.toNat), (8, e.length.toNat), (4, e.type.toNat), (4, e.flags.toNat)]

/-- The loop of `capture_map`, from the descriptor at `off` on, with `n` entries stored. -/
def captureLoop (raw metadata ds size : UInt64) : (fuel : Nat) → (off : UInt64) → (n : Nat) → Bytes → EfiStatus × Nat × Bytes
  | 0, _, n, m => (efiSuccess, n, m)
  | fuel + 1, off, n, m =>
    if !(off + ds ≤ size) then (efiSuccess, n, m) else
    let d := descriptorAt m (raw.toNat + off.toNat)
    if d.numberOfPages = 0 then captureLoop raw metadata ds size fuel (off + ds) n m
    else if n ≥ maxMemoryEntries then (efiOutOfResources, n, m)
    else captureLoop raw metadata ds size fuel (off + ds) (n + 1) (m.write (entryAddress metadata n) d.entry.bytes)

/-- `capture_map`: the status and the key. There is no room for more than `size / ds` descriptors. -/
def captureMap (raw cap metadata : UInt64) (u : Loader F) : (EfiStatus × UInt64) × Loader F :=
  let (a, f) := fw.getMemoryMap cap u.firmware
  let m := if efiError a.status then u.mem else u.mem.write raw.toNat (a.data.slice 0 a.size.toNat)
  let u := { u with firmware := f, mem := m }
  if efiError a.status || a.descriptorSize < descriptorBytes then ((a.status, a.key), u) else
  let (s, n, m) := captureLoop raw metadata a.descriptorSize a.size (a.size.toNat / a.descriptorSize.toNat + 1) 0 0 u.mem
  if efiError s then ((s, a.key), { u with mem := m })
  else ((efiSuccess, a.key),
    say "JOSHUEFI_MEMORY_MAP_OK\r\n" { u with mem := store m (metadata.toNat + entriesOffset) 4 n })

/-! ### `efi_main` -/

inductive Outcome
  | returned (s : EfiStatus)
  -- the arguments of `josh_uefi_handoff`
  | handoff (root stack entry info : UInt64)

/-- What is there before the memory map. -/
structure Prepared where
  root : UInt64
  stack : UInt64
  entry : UInt64
  metadata : UInt64

/-- `efi_main` up to the page tables. `sum` and `seg` are what the stack slots of the summary and of a segment hold. -/
def prepare (sum : Summary) (seg : LoadSegment) (u : Loader F) : Except EfiStatus Prepared × Loader F :=
  let loaded := (fw.loadedImage u.firmware).2.1
  match loadFiles fw.toFirmware u with
  | ((s, files), u) =>
    if efiError s then (.error s, say "JOSHUEFI_ERROR_FILESYSTEM\r\n" u)
    else if !loaded || fw.imageBase + fw.imageSize > 0x100000000 then
      (.error efiUnsupported, say "JOSHUEFI_ERROR_IMAGE_ABOVE_4G\r\n" u)
    else
      let (cfg, ki, kis) := files.getD (Config.zeroConfig, none, 0)
      match loadElf fw.toFirmware ki kis sum seg u with
      | ((s, sum, kp), u) =>
        if efiError s then (.error s, say "JOSHUEFI_ERROR_ELF64\r\n" u) else
        match allocLow fw.toFirmware 1 u with
        | ((s, ma), u) =>
          if efiError s then (.error s, u) else
          match fillFb fw (ma.toNat + framebufferOffset) { u with mem := fillMeta fw ma sum kp cfg u.mem } with
          | (s, u) =>
            if efiError s then (.error s, say "JOSHUEFI_ERROR_GOP\r\n" u) else
            match buildTables fw.toFirmware kp sum u with
            | ((s, root, stack), u) =>
              if efiError s then (.error s, say "JOSHUEFI_ERROR_PAGING\r\n" u)
              else (.ok { root, stack, entry := sum.entry, metadata := ma }, u)

-- RAW_MAP_EXTRA_DESCRIPTORS
def rawMapExtraDescriptors : UInt64 := 16

/-- The buffer for the memory map, and its size. -/
def allocMap (u : Loader F) : Except EfiStatus (UInt64 × UInt64) × Loader F :=
  let (a, f) := fw.getMemoryMap 0 u.firmware
  let u := { u with firmware := f }
  if a.status ≠ efiBufferTooSmall || a.descriptorSize < descriptorBytes then (.error efiDeviceError, u) else
  let need := a.size + a.descriptorSize * rawMapExtraDescriptors
  match allocLow fw.toFirmware (pagesFor need) u with
  | ((s, raw), u) => if efiError s then (.error s, u) else (.ok (raw, pagesFor need * pageSize), u)

/-- The attempts to leave the boot services, `n` of them. -/
def exitLoop (raw cap metadata : UInt64) : (n : Nat) → Loader F → EfiStatus × Loader F
  | 0, u => (efiSuccess, u)
  | n + 1, u =>
    let ((s, key), u) := captureMap fw raw cap metadata u
    if efiError s then (s, u) else
    let (s, f) := fw.exitBootServices key u.firmware
    let u := { u with firmware := f }
    if !efiError s then (s, u)
    else if n = 0 then (s, say "JOSHUEFI_ERROR_EXIT_BOOT_SERVICES\r\n" u)
    else exitLoop raw cap metadata n u

def efiMain (sum : Summary) (seg : LoadSegment) (u : Loader F) : Outcome × Loader F :=
  let u := say "JOSHUEFI_ENTRY_OK\r\n" u
  if !fw.hasBootServices then (.returned efiInvalidParameter, u) else
  match prepare fw sum seg u with
  | (.error s, u) => (.returned s, u)
  | (.ok p, u) =>
    match allocMap fw u with
    | (.error s, u) => (.returned s, u)
    | (.ok (raw, cap), u) =>
      match exitLoop fw raw cap p.metadata 3 u with
      | (s, u) =>
        if efiError s then (.returned s, u)
        else (.handoff p.root p.stack p.entry p.metadata,
          say "JOSHUEFI_HANDOFF_READY\r\n" (say "JOSHUEFI_EXIT_BOOT_SERVICES_OK\r\n" u))

end JoshBios.Uefi
