import JoshBios.UefiMap

/-! # Stage 2 in real mode (`boot/stage2.S`)

Before protected mode stage 2 asks the BIOS for what it cannot ask later: the memory map, which `collect_e820` puts at
`0x59000`, and a video mode, whose block `setup_vbe` puts at `0x5a000`. `BiosServices` is the BIOS, one field an interrupt;
everything the answers may be is left open. The menu and the messages on the screen are not here. -/

namespace JoshBios.Stage2

open Uefi (MemoryMapEntry entryIn)

/-- What `int 0x15` with `eax = 0xe820` gives back; `entry` is what it stores at `es:di`. -/
structure MapAnswer where
  carry : Bool
  eax : UInt32
  ebx : UInt32
  cx : UInt16
  entry : List UInt8

structure BiosServices (F : Type) where
  -- `int 0x13`, `ah = 0x41`, `bx = 0x55aa`: the carry, `bx` and `cx`
  checkExtensions : UInt8 → F → (Bool × UInt16 × UInt16) × F
  -- `int 0x13`, `ah = 0x42`: what is stored, unless there is a carry
  extendedRead : UInt8 → UInt64 → UInt16 → F → Option (List UInt8) × F
  -- `int 0x15`, `eax = 0xe820`, by `ebx`
  memoryMap : UInt32 → F → MapAnswer × F
  -- `int 0x10`, `ax = 0x4f01`, by `cx`: `ax`, and the mode block
  modeInfo : UInt16 → F → (UInt16 × List UInt8) × F
  -- `int 0x10`, `ax = 0x4f02`, by `bx`: `ax`
  setMode : UInt16 → F → UInt16 × F

/-- The BIOS and the memory. -/
structure RealMode (F : Type) where
  bios : F
  mem : Bytes

/-- The ways to `halt`. -/
inductive RealModeError where
  | edd | disk | e820 | vbe
deriving DecidableEq, Repr

def RealModeError.message : RealModeError → String
  | .edd => "BIOS EDD extensions unavailable.\r\n"
  | .disk => "Kernel extent read failed.\r\n"
  | .e820 => "E820 memory map unavailable.\r\n"
  | .vbe => "32-bpp VBE framebuffer unavailable.\r\n"

-- "SMAP"
def smapSignature : UInt32 := 0x534d4150
def maxMapEntries : Nat := 128

section
variable {F : Type} (b : BiosServices F)

/-! ### The memory map -/

/-- The loop of `collect_e820`, `n` rounds at most; `di` is where the next entry goes. -/
def e820Loop : (n : Nat) → (di count : Nat) → (ebx : UInt32) → RealMode F → Option Nat × RealMode F
  -- the count is checked in every round, and is 128 by now
  | 0, _, count, _, s => (some count, s)
  | n + 1, di, count, ebx, s =>
    let mem := store s.mem (memoryMapAddr + di + 20) 4 0
    let (a, bios) := b.memoryMap ebx s.bios
    let s : RealMode F := ⟨bios, mem.write (memoryMapAddr + di) a.entry⟩
    if a.carry then (if count ≠ 0 then some count else none, s)
    else if a.eax ≠ smapSignature then (none, s)
    else if a.cx < 20 then (none, s)
    else if count + 1 ≥ maxMapEntries then (some (count + 1), s)
    else if a.ebx = 0 then (some (count + 1), s)
    else e820Loop n (di + memoryMapEntrySize) (count + 1) a.ebx s

/-- `collect_e820`: `e820_count`, unless it returns with the carry set. -/
def collectE820 (s : RealMode F) : Option Nat × RealMode F := e820Loop b maxMapEntries 0 0 0 s

/-! ### The video mode -/

def tryVbeMode (mode : UInt16) (s : RealMode F) : Bool × RealMode F :=
  let ((ax, block), bios) := b.modeInfo mode s.bios
  let m := s.mem.write vbeInfoAddr block
  (ax = 0x004f && le16 m vbeInfoAddr &&& 0x0080 ≠ 0 && m (vbeInfoAddr + 0x19) = 32 && m (vbeInfoAddr + 0x1b) = 6 &&
    le32 m (vbeInfoAddr + 0x28) ≠ 0, ⟨bios, m⟩)

/-- The first of the modes that will do. -/
def tryVbeModes : List UInt16 → RealMode F → Option UInt16 × RealMode F
  | [], s => (none, s)
  | mode :: modes, s =>
    match tryVbeMode b mode s with
    | (true, s) => (some mode, s)
    | (false, s) => tryVbeModes modes s

def vbeModes : List UInt16 := [0x0144, 0x0143, 0x0142]

/-- `setup_vbe`: the selected mode, with the linear framebuffer, unless it returns with the carry set. -/
def setupVbe (s : RealMode F) : Option UInt16 × RealMode F :=
  match tryVbeModes b vbeModes s with
  | (none, s) => (none, s)
  | (some mode, s) =>
    let (ax, bios) := b.setMode (mode ||| 0x4000) s.bios
    (if ax = 0x004f then some mode else none, ⟨bios, s.mem⟩)

/-! ### The way to protected mode -/

def checkEdd (drive : UInt8) (s : RealMode F) : Bool × RealMode F :=
  let ((carry, bx, cx), bios) := b.checkExtensions drive s.bios
  (!carry && bx = 0xaa55 && cx &&& 0x0001 ≠ 0, ⟨bios, s.mem⟩)

/-- Stage 1 is still at `0x7c00`, its partition table with it. -/
def hasBootPartition (m : Bytes) : Bool := m 0x7dc2 = 0x0b || m 0x7dc2 = 0x0c || m 0x7dc2 = 0xee

def kernelLba : UInt64 := 65
def kernelChunks : Nat := 8
def kernelSegmentStart : Nat := 0x1000

/-- The loop of `load_kernel_extent`, 64 sectors a chunk. -/
def extentLoop (drive : UInt8) : (n segment : Nat) → (lba : UInt64) → RealMode F → Bool × RealMode F
  | 0, _, _, s => (true, s)
  | n + 1, segment, lba, s =>
    match b.extendedRead drive lba 64 s.bios with
    | (none, bios) => (false, ⟨bios, s.mem⟩)
    | (some data, bios) => extentLoop drive n (segment + 0x0800) (lba + 64) ⟨bios, s.mem.write (16 * segment) data⟩

def loadKernelExtent (drive : UInt8) (s : RealMode F) : Bool × RealMode F :=
  extentLoop b drive kernelChunks kernelSegmentStart kernelLba s

/-- What stage 2 enters protected mode with. -/
structure Entered (F : Type) where
  filesystemBoot : Bool
  e820Count : Nat
  -- the mode that was set, if one was
  mode : Option UInt16
  state : RealMode F

def prepareNativePlatform (filesystemBoot : Bool) (s : RealMode F) : Except RealModeError (Entered F) :=
  match collectE820 b s with
  | (none, _) => .error .e820
  | (some e820Count, s) =>
    match setupVbe b s with
    | (none, _) => .error .vbe
    | (some mode, s) => .ok ⟨filesystemBoot, e820Count, some mode, s⟩

/-- `boot_kernel`, up to the switch to protected mode. -/
def bootKernel (drive : UInt8) (s : RealMode F) : Except RealModeError (Entered F) :=
  match checkEdd b drive s with
  | (false, _) => .error .edd
  | (true, s) =>
    if hasBootPartition s.mem then prepareNativePlatform b true s
    else
      match loadKernelExtent b drive s with
      | (false, _) => .error .disk
      | (true, s) =>
        if le32 s.mem 0x10000 ≠ 0x464c457f then .ok ⟨false, 0, none, s⟩ else prepareNativePlatform b false s

end

end JoshBios.Stage2
