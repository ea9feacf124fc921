import JoshBios.Lib.Bytes

/-! # ELF64 images (`boot/elf64.c`)

The two entry points both start from `headerIfBasicValid` and then walk the program headers in the image
itself; nothing is copied out of it before it is needed. `validateImage` and `loadSegmentOf` are their bodies
for an image and an out-structure that exist, `validate` and `loadSegment` add the null pointers: a null image
passes `headerIfBasicValid` with the status untouched. -/

namespace JoshBios.Elf64

inductive Status where
  | ok | errArgument | errTruncated | errMagic | errClass | errEndian | errVersion | errType
  | errRelocationModel | errMachine | errPhdr | errSegment | errOverlap | errEntry
deriving DecidableEq, Repr

-- JOSH_ELF64_*, and the ELF constants of elf64.c
def maxPhdrs : UInt16 := 128
def ptLoad : UInt32 := 1
def pfX : UInt32 := 1
def elfClass64 : UInt8 := 2
def elfData2Lsb : UInt8 := 1
def evCurrent : UInt8 := 1
def etExec : UInt16 := 2
def etDyn : UInt16 := 3
def emX8664 : UInt16 := 62
-- sizeof(Elf64Header), sizeof(Elf64ProgramHeader)
def headerSize : UInt16 := 64
def programHeaderSize : UInt16 := 56

structure LoadSegment where
  fileOffset : UInt64
  virtualAddress : UInt64
  fileSize : UInt64
  memorySize : UInt64
  alignment : UInt64
  flags : UInt32
deriving DecidableEq, Repr

structure Summary where
  entry : UInt64
  virtualMin : UInt64
  virtualMax : UInt64
  loadSegmentCount : UInt16
deriving DecidableEq, Repr

/-- The fields of `Elf64Header` that the code reads, `ident` apart. -/
structure Header where
  type : UInt16
  machine : UInt16
  version : UInt32
  entry : UInt64
  phoff : UInt64
  ehsize : UInt16
  phentsize : UInt16
  phnum : UInt16
deriving DecidableEq, Repr

structure ProgramHeader where
  type : UInt32
  flags : UInt32
  offset : UInt64
  vaddr : UInt64
  filesz : UInt64
  memsz : UInt64
  align : UInt64
deriving DecidableEq, Repr

def headerAt (image : Bytes) : Header where
  type := le16 image 16
  machine := le16 image 18
  version := le32 image 20
  entry := le64 image 24
  phoff := le64 image 32
  ehsize := le16 image 52
  phentsize := le16 image 54
  phnum := le16 image 56

def programHeaderAt (image : Bytes) (at_ : Nat) : ProgramHeader where
  type := le32 image at_
  flags := le32 image (at_ + 4)
  offset := le64 image (at_ + 8)
  vaddr := le64 image (at_ + 16)
  filesz := le64 image (at_ + 32)
  memsz := le64 image (at_ + 40)
  align := le64 image (at_ + 48)

def addOverflows (a b : UInt64) : Bool := ~~~a < b

def rangeInside (offset length total : UInt64) : Bool := !addOverflows offset length && offset + length ≤ total

def powerOfTwo (value : UInt64) : Bool := value ≠ 0 && value &&& (value - 1) = 0

/-- The checks of `header_if_basic_valid` on an image that is there. -/
def basicHeader (image : Bytes) (imageSize : UInt64) : Except Status Header :=
  if imageSize < headerSize.toUInt64 then .error .errTruncated else
  let h := headerAt image
  if image 0 ≠ 0x7f || image 1 ≠ 0x45 || image 2 ≠ 0x4c || image 3 ≠ 0x46 then .error .errMagic
  else if image 4 ≠ elfClass64 then .error .errClass
  else if image 5 ≠ elfData2Lsb then .error .errEndian
  else if image 6 ≠ evCurrent || h.version ≠ evCurrent.toUInt32 then .error .errVersion
  else if h.type = etDyn then .error .errRelocationModel
  else if h.type ≠ etExec then .error .errType
  else if h.machine ≠ emX8664 then .error .errMachine
  else if h.ehsize ≠ headerSize || h.phentsize ≠ programHeaderSize || h.phnum = 0 || h.phnum > maxPhdrs then
    .error .errPhdr
  else if !rangeInside h.phoff (h.phnum.toUInt64 * h.phentsize.toUInt64) imageSize then .error .errTruncated
  else .ok h

def headerIfBasicValid (image : Option Bytes) (imageSize : UInt64) : Status × Option Header :=
  match image with
  | none => (.ok, none)
  | some image =>
    match basicHeader image imageSize with
    | .error status => (status, none)
    | .ok h => (.ok, some h)

def programHeader (image : Bytes) (h : Header) (index : Nat) : ProgramHeader :=
  programHeaderAt image (h.phoff + UInt64.ofNat index * h.phentsize.toUInt64).toNat

def validateLoadSegment (p : ProgramHeader) (imageSize : UInt64) : Status :=
  if p.filesz > p.memsz then .errSegment
  else if !rangeInside p.offset p.filesz imageSize then .errTruncated
  else if p.memsz ≠ 0 && addOverflows p.vaddr p.memsz then .errSegment
  else if p.align > 1 then
    if !powerOfTwo p.align then .errSegment
    else if p.vaddr &&& (p.align - 1) ≠ p.offset &&& (p.align - 1) then .errSegment
    else .ok
  else .ok

/-- The loop variables of `josh_elf64_validate`. -/
structure Scan where
  virtualMin : UInt64
  virtualMax : UInt64
  loadCount : UInt16
  entryIsExecutable : Bool

def overlapsEarlier (image : Bytes) (h : Header) (p : ProgramHeader) (i : Nat) : Bool :=
  (List.range i).any fun j =>
    let q := programHeader image h j
    !(q.type ≠ ptLoad || q.memsz = 0) && p.vaddr < q.vaddr + q.memsz && q.vaddr < p.vaddr + p.memsz

/-- The program headers from `i` on, `n` of them. -/
def validateLoop (image : Bytes) (imageSize : UInt64) (h : Header) : (n i : Nat) → Scan → Except Status Scan
  | 0, _, s => .ok s
  | n + 1, i, s =>
    let p := programHeader image h i
    if p.type ≠ ptLoad then validateLoop image imageSize h n (i + 1) s else
    let status := validateLoadSegment p imageSize
    if status ≠ .ok then .error status
    else if p.memsz = 0 then validateLoop image imageSize h n (i + 1) s
    else
      let end_ := p.vaddr + p.memsz
      if overlapsEarlier image h p i then .error .errOverlap else
      validateLoop image imageSize h n (i + 1)
        { virtualMin := if p.vaddr < s.virtualMin then p.vaddr else s.virtualMin
          virtualMax := if end_ > s.virtualMax then end_ else s.virtualMax
          loadCount := s.loadCount + 1
          entryIsExecutable := s.entryIsExecutable ||
            (p.flags &&& pfX ≠ 0 && h.entry ≥ p.vaddr && h.entry < end_) }

def validateHeaders (image : Bytes) (imageSize : UInt64) (h : Header) : Except Status Summary :=
  match validateLoop image imageSize h h.phnum.toNat 0
    { virtualMin := ~~~0, virtualMax := 0, loadCount := 0, entryIsExecutable := false } with
  | .error status => .error status
  | .ok s =>
    if s.loadCount = 0 then .error .errSegment
    else if !s.entryIsExecutable then .error .errEntry
    else .ok
      { entry := h.entry, virtualMin := s.virtualMin, virtualMax := s.virtualMax, loadSegmentCount := s.loadCount }

def validateImage (image : Bytes) (imageSize : UInt64) : Except Status Summary :=
  match basicHeader image imageSize with
  | .error status => .error status
  | .ok h => validateHeaders image imageSize h

def loadSegmentLoop (image : Bytes) (imageSize : UInt64) (h : Header) (loadIndex : UInt16) :
    (n i : Nat) → (current : UInt16) → Except Status LoadSegment
  | 0, _, _ => .error .errSegment
  | n + 1, i, current =>
    let p := programHeader image h i
    if p.type ≠ ptLoad || p.memsz = 0 then loadSegmentLoop image imageSize h loadIndex n (i + 1) current else
    let status := validateLoadSegment p imageSize
    if status ≠ .ok then .error status
    else if current ≠ loadIndex then loadSegmentLoop image imageSize h loadIndex n (i + 1) (current + 1)
    else .ok
      { fileOffset := p.offset, virtualAddress := p.vaddr, fileSize := p.filesz, memorySize := p.memsz
        alignment := p.align, flags := p.flags }

def loadSegmentOf (image : Bytes) (imageSize : UInt64) (loadIndex : UInt16) : Except Status LoadSegment :=
  match basicHeader image imageSize with
  | .error status => .error status
  | .ok h => loadSegmentLoop image imageSize h loadIndex h.phnum.toNat 0 0

/-- `josh_elf64_validate`: the status, and what the out-structure holds afterwards. -/
def validate (image : Option Bytes) (imageSize : UInt64) (summary : Option Summary) : Status × Option Summary :=
  match summary with
  | none => (.errArgument, none)
  | some before =>
    match image, headerIfBasicValid image imageSize with
    | some image, (_, some h) =>
      match validateHeaders image imageSize h with
      | .error status => (status, some before)
      | .ok after => (.ok, some after)
    | _, (status, _) => (status, some before)

/-- `josh_elf64_load_segment` -/
def loadSegment (image : Option Bytes) (imageSize : UInt64) (loadIndex : UInt16) (segment : Option LoadSegment) :
    Status × Option LoadSegment :=
  match segment with
  | none => (.errArgument, none)
  | some before =>
    match image, headerIfBasicValid image imageSize with
    | some image, (_, some h) =>
      match loadSegmentLoop image imageSize h loadIndex h.phnum.toNat 0 0 with
      | .error status => (status, some before)
      | .ok after => (.ok, some after)
    | _, (status, _) => (status, some before)

theorem validate_some (image : Bytes) (imageSize : UInt64) (before : Summary) :
    validate (some image) imageSize (some before) =
      match validateImage image imageSize with
      | .error status => (status, some before)
      | .ok after => (.ok, some after) := by
  simp only [validate, headerIfBasicValid, validateImage]
  cases basicHeader image imageSize <;> rfl

theorem loadSegment_some (image : Bytes) (imageSize : UInt64) (loadIndex : UInt16) (before : LoadSegment) :
    loadSegment (some image) imageSize loadIndex (some before) =
      match loadSegmentOf image imageSize loadIndex with
      | .error status => (status, some before)
      | .ok after => (.ok, some after) := by
  simp only [loadSegment, headerIfBasicValid, loadSegmentOf]
  cases basicHeader image imageSize <;> rfl

end JoshBios.Elf64
