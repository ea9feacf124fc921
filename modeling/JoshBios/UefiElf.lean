import JoshBios.UefiFiles

/-! # Loading and mapping the kernel on the UEFI path (`boot/uefi/main.c`)

`load_elf` copies the segments from the file buffer to freshly allocated pages, and `build_tables` maps these pages at
the kernel's addresses. A `uint64_t *` into physical memory is its address, the null pointer is zero. -/

namespace JoshBios.Uefi

open Elf64 (Summary LoadSegment)

-- KERNEL_VIRT_FLOOR, MAX_KERNEL_BYTES, PAGE_SIZE, HUGE_PAGE_SIZE, PAGE_*, PAGE_TABLE_POOL_PAGES, IDENTITY_GIB
def kernelVirtFloor : UInt64 := 0xffffffff80000000
def maxKernelBytes : UInt64 := 64 * 1024 * 1024
def pageSize : UInt64 := 4096
def hugePageSize : UInt64 := 0x200000
def pagePresent : UInt64 := 0x001
def pageRw : UInt64 := 0x002
def pagePs : UInt64 := 0x080
def pageTablePoolPages : UInt64 := 48
def identityGib : Nat := 4

variable {F : Type} (fw : Firmware F)

def pagesFor (n : UInt64) : UInt64 := (n + pageSize - 1) / pageSize

def allocLow (pages : UInt64) (u : Loader F) : (EfiStatus × UInt64) × Loader F :=
  if pages = 0 then ((efiInvalidParameter, 0), u) else
  let (s, a, f) := fw.allocatePages pages u.firmware
  ((s, a), { u with firmware := f })

/-! ### `load_elf` -/

/-- `memcopy` from the image, which is memory from address zero on when the pointer to it is null. -/
def copyImage (m : Bytes) (d : Nat) (image : Option Bytes) (off n : Nat) : Bytes :=
  match image with
  | none => memcopy m d off n
  | some image => m.write d (image.slice off n)

/-- The segment loop of `load_elf`, `n` segments from the `i`-th on. `seg` is what the stack slot of the segment holds. -/
def loadElfLoop (image : Option Bytes) (bytes : UInt64) (sum : Summary) (span phys : UInt64) (seg : LoadSegment) :
    (n : Nat) → (i : UInt16) → Bytes → EfiStatus × Bytes
  | 0, _, m => (efiSuccess, m)
  | n + 1, i, m =>
    match Elf64.loadSegment image bytes i (some seg) with
    | (status, after) =>
      let seg := after.getD seg
      if status ≠ .ok || seg.virtualAddress < sum.virtualMin then (efiLoadError, m) else
      let off := seg.virtualAddress - sum.virtualMin
      if off > span || seg.memorySize > span - off then (efiLoadError, m) else
      loadElfLoop image bytes sum span phys seg n (i + 1)
        (copyImage m (phys + off).toNat image seg.fileOffset.toNat seg.fileSize.toNat)

/-- `load_elf`: the status, the summary and the physical address. `sum` and `seg` are what the caller's summary and
the stack slot hold before. -/
def loadElf (image : Option Bytes) (bytes : UInt64) (sum : Summary) (seg : LoadSegment) (u : Loader F) :
    (EfiStatus × Summary × UInt64) × Loader F :=
  match Elf64.validate image bytes (some sum) with
  | (status, after) =>
    let sum := after.getD sum
    if status ≠ .ok then ((efiLoadError, sum, 0), u)
    else if sum.virtualMin < kernelVirtFloor || sum.virtualMax ≤ sum.virtualMin then ((efiUnsupported, sum, 0), u) else
    let span := sum.virtualMax - sum.virtualMin
    if span = 0 || span > maxKernelBytes then ((efiBadBufferSize, sum, 0), u) else
    let ((s, phys), u) := allocLow fw (pagesFor span) u
    if efiError s then ((s, sum, phys), u) else
    let m := memzero u.mem phys.toNat (pagesFor span * pageSize).toNat
    let (s, m) := loadElfLoop image bytes sum span phys seg sum.loadSegmentCount.toNat 0 m
    let u := { u with mem := m }
    if efiError s then ((s, sum, phys), u) else ((efiSuccess, sum, phys), say "JOSHUEFI_ELF64_LOADED\r\n" u)

/-! ### `build_tables` -/

structure PageTablePool where
  cursor : UInt64
  end_ : UInt64

def ptAlloc (p : PageTablePool) (m : Bytes) : UInt64 × PageTablePool × Bytes :=
  if p.cursor ≥ p.end_ then (0, p, m)
  else (p.cursor, { p with cursor := p.cursor + pageSize }, memzero m p.cursor.toNat 4096)

def table (e : UInt64) : UInt64 := e &&& 0x000ffffffffff000

/-- `t[i]` and `t[i] = e`. -/
def entryAt (m : Bytes) (t : UInt64) (i : Nat) : UInt64 := le64 m (t.toNat + 8 * i)

def setEntry (m : Bytes) (t : UInt64) (i : Nat) (e : UInt64) : Bytes := m.write (t.toNat + 8 * i) (leBytes 8 e.toNat)

/-- One level of `map4k`: the table behind `t[i]`, a new one if there is none. The top level does not look at
`PAGE_PS`. -/
def nextTable (checkPs : Bool) (t : UInt64) (i : Nat) (p : PageTablePool) (m : Bytes) :
    Option UInt64 × PageTablePool × Bytes :=
  let e := entryAt m t i
  if e &&& pagePresent = 0 then
    let (n, p, m) := ptAlloc p m
    if n = 0 then (none, p, m) else (some n, p, setEntry m t i (n ||| pagePresent ||| pageRw))
  else if checkPs && e &&& pagePs ≠ 0 then (none, p, m)
  else (some (table e), p, m)

def tableIndex (v shift : UInt64) : Nat := ((v >>> shift) &&& 511).toNat

def map4k (p : PageTablePool) (pml4 v ph : UInt64) (m : Bytes) : Bool × PageTablePool × Bytes :=
  match nextTable false pml4 (tableIndex v 39) p m with
  | (none, p, m) => (false, p, m)
  | (some pdpt, p, m) =>
    match nextTable true pdpt (tableIndex v 30) p m with
    | (none, p, m) => (false, p, m)
    | (some pd, p, m) =>
      match nextTable true pd (tableIndex v 21) p m with
      | (none, p, m) => (false, p, m)
      | (some pt, p, m) =>
        (true, p, setEntry m pt (tableIndex v 12) ((ph &&& 0x000ffffffffff000) ||| pagePresent ||| pageRw))

/-- The inner identity loop: `n` entries of `pd` from the `i`-th on. -/
def identityEntries (pd : UInt64) (g : Nat) : (n i : Nat) → Bytes → Bytes
  | 0, _, m => m
  | n + 1, i, m =>
    let ph := (UInt64.ofNat g * 512 + UInt64.ofNat i) * hugePageSize
    identityEntries pd g n (i + 1) (setEntry m pd i (ph ||| pagePresent ||| pageRw ||| pagePs))

/-- The outer one, `n` gibibytes from the `g`-th on. -/
def identityLoop (pdpt : UInt64) : (n g : Nat) → PageTablePool → Bytes → Bool × PageTablePool × Bytes
  | 0, _, p, m => (true, p, m)
  | n + 1, g, p, m =>
    let (pd, p, m) := ptAlloc p m
    if pd = 0 then (false, p, m) else
    identityLoop pdpt n (g + 1) p (identityEntries pd g 512 0 (setEntry m pdpt g (pd ||| pagePresent ||| pageRw)))

/-- The kernel's pages, `n` of them from the `i`-th on. -/
def kernelLoop (pml4 virt kp : UInt64) : (n : Nat) → (i : UInt64) → PageTablePool → Bytes → Bool × PageTablePool × Bytes
  | 0, _, p, m => (true, p, m)
  | n + 1, i, p, m =>
    match map4k p pml4 (virt + i * pageSize) (kp + i * pageSize) m with
    | (false, p, m) => (false, p, m)
    | (true, p, m) => kernelLoop pml4 virt kp n (i + 1) p m

/-- `build_tables`: the status, the root and the stack. -/
def buildTables (kp : UInt64) (s : Summary) (u : Loader F) : (EfiStatus × UInt64 × UInt64) × Loader F :=
  let ((st, pa), u) := allocLow fw pageTablePoolPages u
  if efiError st then ((st, 0, 0), u) else
  let (pml4, p, m) := ptAlloc { cursor := pa, end_ := pa + pageTablePoolPages * pageSize }
    (memzero u.mem pa.toNat (pageTablePoolPages * pageSize).toNat)
  let (pdpt, p, m) := ptAlloc p m
  if pml4 = 0 || pdpt = 0 then ((efiOutOfResources, 0, 0), { u with mem := m }) else
  let (ok, p, m) := identityLoop pdpt identityGib 0 p (setEntry m pml4 0 (pdpt ||| pagePresent ||| pageRw))
  if !ok then ((efiOutOfResources, 0, 0), { u with mem := m }) else
  let pages := pagesFor (s.virtualMax - s.virtualMin)
  let (ok, _, m) := kernelLoop pml4 s.virtualMin kp pages.toNat 0 p m
  let u := { u with mem := m }
  if !ok then ((efiOutOfResources, 0, 0), u) else
  let ((st, sp), u) := allocLow fw 4 u
  if efiError st then ((st, 0, 0), u)
  else ((efiSuccess, pml4, sp + 4 * pageSize - 16), { u with mem := memzero u.mem sp.toNat (4 * pageSize).toNat })

end JoshBios.Uefi
