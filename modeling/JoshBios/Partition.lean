import JoshBios.Crc32

/-! # Block devices and partition tables (`boot/core/block.h`, `boot/core/partition.c`)

A device is its sector count and its read function: the same sectors give the same bytes, or the same
failure, for as long as nothing is written. A sector is a buffer of which the code looks at 512 bytes. -/

namespace JoshBios

-- JOSH_BLOCK_SECTOR_SIZE
def sectorSize : Nat := 512

structure BlockDevice where
  sectorCount : UInt64
  read : UInt64 → UInt32 → Option Bytes

def BlockDevice.blockRead (device : BlockDevice) (lba : UInt64) (sectorCount : UInt32) : Option Bytes :=
  if sectorCount = 0 then none
  else if lba ≥ device.sectorCount then none
  else if sectorCount.toUInt64 > device.sectorCount - lba then none
  else device.read lba sectorCount

inductive PartitionScheme where
  | none | mbr | gpt
deriving DecidableEq, Repr

structure Partition where
  scheme : PartitionScheme
  firstLba : UInt64
  sectorCount : UInt64
  mbrType : UInt8
  gptTypeGuid : List UInt8
  gptUniqueGuid : List UInt8
deriving DecidableEq, Repr

namespace Partition

inductive Status where
  | ok | noTable | noUsablePartition | ioError | corrupt | unsupported
deriving DecidableEq, Repr

-- MBR_*, GPT_*
def mbrSignatureOffset : Nat := 510
def mbrPartitionOffset : Nat := 446
def mbrPartitionSize : Nat := 16
def mbrPartitionCount : Nat := 4
def gptHeaderLba : UInt64 := 1
def gptHeaderMinSize : UInt32 := 92
-- "EFI PART"
def gptSignature : List UInt8 := [0x45, 0x46, 0x49, 0x20, 0x50, 0x41, 0x52, 0x54]

def bytesAllZero (b : Bytes) (off n : Nat) : Bool := (b.slice off n).all (· == 0)

def rangeValid (device : BlockDevice) (first count : UInt64) : Bool :=
  if count = 0 || first ≥ device.sectorCount then false else count ≤ device.sectorCount - first

/-- The CRC of the partition entries, `n` sectors from `lba` on, `remaining` bytes of them. -/
def entriesCrc (device : BlockDevice) : (n : Nat) → (lba remaining : UInt64) → UInt32 → Option UInt32
  | 0, _, _, crc => some crc
  | n + 1, lba, remaining, crc =>
    match device.blockRead lba 1 with
    | none => none
    | some sector =>
      let chunk := if remaining > 512 then 512 else remaining
      entriesCrc device n (lba + 1) (remaining - chunk) (crc32Update crc sector chunk.toNat)

structure GptHeader where
  firstUsable : UInt64
  lastUsable : UInt64
  entriesLba : UInt64
  entryCount : UInt32
  entrySize : UInt32

/-- The search for the first used entry, `n` entries from `index` on. -/
def findEntry (device : BlockDevice) (h : GptHeader) : (n : Nat) → (index : UInt32) → Except Status Partition
  | 0, _ => .error .noUsablePartition
  | n + 1, index =>
    let perSector := 512 / h.entrySize
    match device.blockRead (h.entriesLba + (index / perSector).toUInt64) 1 with
    | none => .error .ioError
    | some sector =>
      let entry := (index % perSector * h.entrySize).toNat
      if bytesAllZero sector entry 16 then findEntry device h n (index + 1) else
      let first := le64 sector (entry + 32)
      let last := le64 sector (entry + 40)
      if first > last || first < h.firstUsable || last > h.lastUsable then .error .corrupt
      else .ok
        { scheme := .gpt, firstLba := first, sectorCount := last - first + 1, mbrType := 0
          gptTypeGuid := sector.slice entry 16, gptUniqueGuid := sector.slice (entry + 16) 16 }

def parseGpt (device : BlockDevice) : Except Status Partition :=
  match device.blockRead gptHeaderLba 1 with
  | none => .error .ioError
  | some header =>
    if header.slice 0 8 ≠ gptSignature then .error .corrupt else
    let headerSize := le32 header 12
    let expectedHeaderCrc := le32 header 16
    let currentLba := le64 header 24
    let h : GptHeader :=
      { firstUsable := le64 header 40, lastUsable := le64 header 48, entriesLba := le64 header 72
        entryCount := le32 header 80, entrySize := le32 header 84 }
    let expectedEntriesCrc := le32 header 88
    if headerSize < gptHeaderMinSize || headerSize > 512 then .error .corrupt
    else if currentLba ≠ gptHeaderLba || h.firstUsable > h.lastUsable || h.lastUsable ≥ device.sectorCount then
      .error .corrupt
    else if h.entryCount = 0 || h.entryCount > 4096 || h.entrySize < 128 || h.entrySize > 512 ||
        512 % h.entrySize ≠ 0 then .error .unsupported
    else
      -- the CRC is taken with its own field zeroed
      let headerCopy : Bytes := fun i => if 16 ≤ i ∧ i < 20 then 0 else header i
      if crc32Update 0 headerCopy headerSize.toNat ≠ expectedHeaderCrc then .error .corrupt else
      let entryBytes := h.entryCount.toUInt64 * h.entrySize.toUInt64
      let entrySectors := (entryBytes + 512 - 1) / 512
      if !rangeValid device h.entriesLba entrySectors then .error .corrupt else
      match entriesCrc device entrySectors.toNat h.entriesLba entryBytes 0 with
      | none => .error .ioError
      | some crc =>
        if crc ≠ expectedEntriesCrc then .error .corrupt else findEntry device h h.entryCount.toNat 0

structure MbrEntry where
  status : UInt8
  type : UInt8
  first : UInt32
  count : UInt32

def mbrEntry (mbr : Bytes) (i : Nat) : MbrEntry :=
  let entry := mbrPartitionOffset + i * mbrPartitionSize
  { status := mbr entry, type := mbr (entry + 4), first := le32 mbr (entry + 8), count := le32 mbr (entry + 12) }

def hasSignature (mbr : Bytes) : Bool := mbr mbrSignatureOffset == 0x55 && mbr (mbrSignatureOffset + 1) == 0xaa

/-- The scan of the MBR entries, `n` of them from `i` on: the entry to boot from, or what to return at once. -/
def findMbrEntry (device : BlockDevice) (mbr : Bytes) :
    (n i : Nat) → Option MbrEntry → Except (Except Status Partition) (Option MbrEntry)
  | 0, _, fallback => .ok fallback
  | n + 1, i, fallback =>
    let entry := mbrEntry mbr i
    if entry.status ≠ 0x00 ∧ entry.status ≠ 0x80 then .error (.error .corrupt)
    else if entry.type = 0 ∨ entry.count = 0 then findMbrEntry device mbr n (i + 1) fallback
    else if entry.type = 0xee then .error (parseGpt device)
    else if !rangeValid device entry.first.toUInt64 entry.count.toUInt64 then .error (.error .corrupt)
    else if entry.status = 0x80 then .ok (some entry)
    else findMbrEntry device mbr n (i + 1) (some (fallback.getD entry))

/-- `josh_partition_find_boot` -/
def findBoot (device : BlockDevice) : Except Status Partition :=
  if device.sectorCount < 2 then .error .noTable else
  match device.blockRead 0 1 with
  | none => .error .ioError
  | some mbr =>
    if !hasSignature mbr then .error .noTable else
    match findMbrEntry device mbr mbrPartitionCount 0 none with
    | .error result => result
    | .ok none => .error .noUsablePartition
    | .ok (some entry) => .ok
      { scheme := .mbr, mbrType := entry.type, firstLba := entry.first.toUInt64
        sectorCount := entry.count.toUInt64
        gptTypeGuid := .replicate 16 0, gptUniqueGuid := .replicate 16 0 }

def rangesOverlap (aFirst aCount bFirst bCount : UInt64) : Bool :=
  if aCount = 0 || bCount = 0 then false else
  let aLast := aFirst + aCount - 1
  let bLast := bFirst + bCount - 1
  if aLast < aFirst || bLast < bFirst then true
  else !(aLast < bFirst || bLast < aFirst)

def entriesAvoid (device : BlockDevice) (mbr : Bytes) (firstLba sectorCount : UInt64) : (n i : Nat) → Bool
  | 0, _ => true
  | n + 1, i =>
    let entry := mbrEntry mbr i
    if entry.status ≠ 0x00 ∧ entry.status ≠ 0x80 then false
    else if entry.type = 0 ∨ entry.count = 0 then entriesAvoid device mbr firstLba sectorCount n (i + 1)
    -- a GPT keeps metadata outside its protective entry, so its media are never written raw
    else if entry.type = 0xee then false
    else if !rangeValid device entry.first.toUInt64 entry.count.toUInt64 then false
    else if rangesOverlap firstLba sectorCount entry.first.toUInt64 entry.count.toUInt64 then false
    else entriesAvoid device mbr firstLba sectorCount n (i + 1)

/-- `josh_partition_range_is_unallocated` -/
def rangeIsUnallocated (device : BlockDevice) (firstLba sectorCount : UInt64) : Bool :=
  if !rangeValid device firstLba sectorCount || rangesOverlap firstLba sectorCount 0 1 then false else
  match device.blockRead 0 1 with
  | none => false
  | some mbr => if !hasSignature mbr then false else entriesAvoid device mbr firstLba sectorCount mbrPartitionCount 0

end Partition

end JoshBios
