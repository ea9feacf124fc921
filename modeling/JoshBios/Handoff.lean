import JoshBios.Config
import JoshBios.Elf64

/-! # The hand-over tables of the BIOS path (`boot/stage2_pm.c`)

`fillBootInfo` and `buildPageTables` write the boot information block and the page tables into low memory,
below `0x60000`. The addresses of the firmware tables are `unsigned int` in the source and wrap as such. -/

namespace JoshBios.Stage2

-- the memory map of stage 2
def kernelVirtBase : UInt64 := 0xffffffff80000000
def kernelPhysBase : UInt32 := 0x00200000
def kernelPhysLimit : UInt32 := 0x08000000
def pml4Addr : Nat := 0x00050000
def pdptLowAddr : Nat := 0x00051000
def pdLow0Addr : Nat := 0x00052000
def pdptHighAddr : Nat := 0x00056000
def pdHighAddr : Nat := 0x00057000
def bootInfoAddr : Nat := 0x00058000
def memoryMapAddr : Nat := 0x00059000
def vbeInfoAddr : Nat := 0x0005a000
def loaderNameAddr : Nat := 0x0005b000
def cmdlineAddr : Nat := 0x0005c000

-- PAGE_*
def pagePresent : Nat := 0x001
def pageRw : Nat := 0x002
def pagePs : Nat := 0x080

/-- What the firmware and stage 1 leave behind for stage 2, the memory and the drive apart. -/
structure Machine where
  hasCpuid : Bool
  -- the `eax` and `edx` of a leaf
  cpuid : UInt32 → UInt32 × UInt32
  e820Count : UInt16
  bootDrive : UInt8
  filesystemBoot : Bool

def cpuHasLongMode (machine : Machine) : Bool :=
  if !machine.hasCpuid then false
  else if (machine.cpuid 1).2 &&& ((1 : UInt32) <<< 6) = 0 then false
  else if (machine.cpuid 0x80000000).1 < 0x80000001 then false
  else (machine.cpuid 0x80000001).2 &&& ((1 : UInt32) <<< 29) ≠ 0

/-- A store of the `n` low bytes of `v`. -/
def store (m : Bytes) (a n v : Nat) : Bytes := m.write a (leBytes n v)

def bytesEqual (m : Bytes) (a : UInt32) (text : List UInt8) : Bool := m.slice a.toNat text.length == text

/-- The sum of `n` bytes from `a` on; the pointer wraps at 32 bits. -/
def checksum (m : Bytes) : (a : UInt32) → (n : Nat) → UInt8
  | _, 0 => 0
  | a, n + 1 => m a.toNat + checksum m (a + 1) n

/-- `find_rsdp` in one region, `n` addresses of it from `address` on. -/
def scanRsdp (m : Bytes) (end_ : UInt32) : (n : Nat) → (address : UInt32) → Option UInt32
  | 0, _ => none
  | n + 1, address =>
    if !(address + 20 ≤ end_) then none
    else if !bytesEqual m address (Config.ascii "RSD PTR ") || checksum m address 20 ≠ 0 then
      scanRsdp m end_ n (address + 16)
    else
      let length := le32 m (address.toNat + 20)
      if m (address.toNat + 15) ≥ 2 &&
          (length < 36 || address + length > end_ || checksum m address length.toNat ≠ 0) then
        scanRsdp m end_ n (address + 16)
      else some address

/-- `find_rsdp`: the first kibibyte of the EBDA, then the BIOS area. -/
def findRsdp (m : Bytes) : UInt64 :=
  let ebda := (le16 m 0x40e).toUInt32 <<< 4
  let region (start end_ : UInt32) := scanRsdp m end_ ((end_ - start).toNat / 16 + 1) ((start + 15) &&& ~~~15)
  match region ebda (ebda + 1024) with
  | some address => address.toUInt64
  | none => ((region 0xe0000 0x100000).map UInt32.toUInt64).getD 0

def scanSmbios (m : Bytes) : (n : Nat) → (address : UInt32) → Option UInt32
  | 0, _ => none
  | n + 1, address =>
    if !(address + 0x20 ≤ 0x100000) then none
    else if bytesEqual m address (Config.ascii "_SM3_") && m (address.toNat + 6) ≥ 0x18 &&
        checksum m address (m (address.toNat + 6)).toNat = 0 then some address
    else if bytesEqual m address (Config.ascii "_SM_") && m (address.toNat + 5) ≥ 0x1f &&
        checksum m address (m (address.toNat + 5)).toNat = 0 then some address
    else scanSmbios m n (address + 16)

def findSmbios (m : Bytes) : UInt64 := ((scanSmbios m 0x1000 0xf0000).map UInt32.toUInt64).getD 0

-- JOSH_BOOT_INFO_*, JOSH_BOOT_FLAG_*, and the sizes of the two structures
def bootInfoMagic : Nat := 0x30494248534f4a4a
def flagMemoryMap : Nat := 1
def flagFramebuffer : Nat := 2
def flagRsdp : Nat := 4
def flagSmbios : Nat := 8
def flagCmdline : Nat := 16
def flagLoaderName : Nat := 32
def firmwareLegacyBios : Nat := 1
def bootInfoSize : Nat := 224
def memoryMapEntrySize : Nat := 24

/-- Stores to fields of `JoshBootInfo`: offset, width and value of each. -/
def storeInfo (m : Bytes) (fields : List (Nat × Nat × Nat)) : Bytes :=
  fields.foldl (fun m f => store m (bootInfoAddr + f.1) f.2.1 f.2.2) m

def infoFlags (m : Bytes) : Nat := (le32 m (bootInfoAddr + 20)).toNat

def loaderName : List UInt8 := Config.ascii "JoshBootloader BIOS"

/-- The fields that come from the summary, the machine and the VBE mode block. -/
def storeBasics (machine : Machine) (summary : Elf64.Summary) (m : Bytes) : Bytes :=
  let physStart := kernelPhysBase.toUInt64 + (summary.virtualMin - kernelVirtBase)
  let physEnd := kernelPhysBase.toUInt64 + (summary.virtualMax - kernelVirtBase)
  storeInfo m
    [(0, 8, bootInfoMagic), (8, 4, 0), (12, 4, 1), (16, 4, bootInfoSize),
      (20, 4, flagMemoryMap ||| flagFramebuffer ||| flagLoaderName), (24, 4, firmwareLegacyBios),
      (28, 4, machine.bootDrive.toNat), (32, 8, memoryMapAddr), (40, 4, machine.e820Count.toNat),
      (44, 4, memoryMapEntrySize),
      (64, 4, leNat m (vbeInfoAddr + 0x10) 2), (56, 4, leNat m (vbeInfoAddr + 0x12) 2),
      (60, 4, leNat m (vbeInfoAddr + 0x14) 2), (68, 4, leNat m (vbeInfoAddr + 0x19) 1),
      (72, 4, leNat m (vbeInfoAddr + 0x1f) 1), (76, 4, leNat m (vbeInfoAddr + 0x20) 1),
      (80, 4, leNat m (vbeInfoAddr + 0x21) 1), (84, 4, leNat m (vbeInfoAddr + 0x22) 1),
      (88, 4, leNat m (vbeInfoAddr + 0x23) 1), (92, 4, leNat m (vbeInfoAddr + 0x24) 1),
      (48, 8, leNat m (vbeInfoAddr + 0x28) 4),
      (112, 8, summary.virtualMin.toNat), (120, 8, summary.virtualMax.toNat), (96, 8, physStart.toNat),
      (104, 8, physEnd.toNat), (176, 8, summary.entry.toNat)]

/-- The address of a firmware table, and its flag when there is one. -/
def storeTable (field flag : Nat) (find : Bytes → UInt64) (m : Bytes) : Bytes :=
  let address := find m
  let m := storeInfo m [(field, 8, address.toNat)]
  if address ≠ 0 then storeInfo m [(20, 4, infoFlags m ||| flag)] else m

def storeCommandLine (config : Option Config.BootConfig) (m : Bytes) : Bytes :=
  match config with
  | none => m
  | some config =>
    if !Config.isSet config.commandLine then m else
    let line := Config.cString config.commandLine
    let m := m.write cmdlineAddr line
    storeInfo m [(144, 8, cmdlineAddr), (152, 4, line.length), (20, 4, infoFlags m ||| flagCmdline)]

def storeLoaderName (m : Bytes) : Bytes :=
  storeInfo (m.write loaderNameAddr loaderName) [(160, 8, loaderNameAddr), (168, 4, loaderName.length)]

def fillBootInfo (machine : Machine) (summary : Elf64.Summary) (config : Option Config.BootConfig) (m : Bytes) :
    Bytes :=
  let m := storeBasics machine summary (memzero m bootInfoAddr bootInfoSize)
  let m := storeTable 128 flagRsdp findRsdp m
  let m := storeTable 136 flagSmbios findSmbios m
  storeLoaderName (storeCommandLine config m)

/-- `for (i = 0; i < n; ++i) table[i] = entry(i);` -/
def storeEntries (m : Bytes) (table n : Nat) (entry : Nat → Nat) : Bytes :=
  (List.range n).foldl (fun m i => store m (table + 8 * i) 8 (entry i)) m

def buildPageTables (m : Bytes) : Bytes :=
  let m := memzero m pml4Addr 0x8000
  let m := store m pml4Addr 8 (pdptLowAddr ||| pagePresent ||| pageRw)
  let m := (List.range 4).foldl (fun m gib =>
    let pd := pdLow0Addr + gib * 0x1000
    let m := store m (pdptLowAddr + 8 * gib) 8 (pd ||| pagePresent ||| pageRw)
    storeEntries m pd 512 fun i => (gib * 512 + i) * 0x200000 ||| pagePresent ||| pageRw ||| pagePs) m
  let m := store m (pml4Addr + 8 * 511) 8 (pdptHighAddr ||| pagePresent ||| pageRw)
  let m := store m (pdptHighAddr + 8 * 510) 8 (pdHighAddr ||| pagePresent ||| pageRw)
  storeEntries m pdHighAddr 512 fun i =>
    (kernelPhysBase.toNat + i * 0x200000) ||| pagePresent ||| pageRw ||| pagePs

/-! ### Both stay below `0x60000` -/

theorem store_above (m : Bytes) {a n v i : Nat} (h : a + n ≤ i) : store m a n v i = m i :=
  m.write_of_le _ (by rwa [length_leBytes])

theorem foldl_above {α : Type} {f : Bytes → α → Bytes} {l : List α} {i : Nat} (m : Bytes)
    (h : ∀ m, ∀ x ∈ l, f m x i = m i) : l.foldl f m i = m i := by
  induction l generalizing m with
  | nil => rfl
  | cons x l ih =>
    rw [List.foldl_cons, ih _ fun m y hy => h m y (List.mem_cons_of_mem x hy)]
    exact h m x (List.mem_cons_self ..)

theorem storeInfo_above (m : Bytes) {fields : List (Nat × Nat × Nat)} {i : Nat} (hi : 0x60000 ≤ i)
    (hf : (fields.all fun f => f.1 + f.2.1 ≤ bootInfoSize) = true) : storeInfo m fields i = m i := by
  refine foldl_above m fun m f hmem => store_above m ?_
  have := of_decide_eq_true (List.all_eq_true.1 hf f hmem)
  simp only [bootInfoAddr, bootInfoSize] at *
  omega

theorem storeTable_above (flag : Nat) (find : Bytes → UInt64) (m : Bytes) {field i : Nat} (hi : 0x60000 ≤ i)
    (hf : field + 8 ≤ bootInfoSize) : storeTable field flag find m i = m i := by
  have hs : ∀ v, storeInfo m [(field, 8, v)] i = m i := fun v =>
    storeInfo_above m hi (by simpa using hf)
  simp only [storeTable]
  split
  · rw [storeInfo_above _ hi rfl, hs]
  · exact hs _

theorem storeCommandLine_above {config : Option Config.BootConfig} (hc : ∀ c ∈ config, c.commandLine.length ≤ 0x1000)
    (m : Bytes) {i : Nat} (hi : 0x60000 ≤ i) : storeCommandLine config m i = m i := by
  unfold storeCommandLine
  split
  · rfl
  next c =>
    split
    · rfl
    · have h₁ : (Config.cString c.commandLine).length ≤ c.commandLine.length := (List.takeWhile_sublist _).length_le
      have h₂ := hc c rfl
      rw [storeInfo_above _ hi rfl, Bytes.write_of_le]
      simp only [cmdlineAddr]
      omega

theorem fillBootInfo_above (machine : Machine) (summary : Elf64.Summary) {config : Option Config.BootConfig}
    (hc : ∀ c ∈ config, c.commandLine.length ≤ 0x1000) (m : Bytes) {i : Nat} (hi : 0x60000 ≤ i) :
    fillBootInfo machine summary config m i = m i := by
  have hname : loaderNameAddr + loaderName.length ≤ i := by
    have : loaderName.length = 19 := by decide
    simp only [this, loaderNameAddr]
    omega
  simp only [fillBootInfo, storeLoaderName, storeBasics]
  rw [storeInfo_above _ hi rfl, Bytes.write_of_le _ _ hname, storeCommandLine_above hc _ hi,
    storeTable_above _ _ _ hi (by decide), storeTable_above _ _ _ hi (by decide), storeInfo_above _ hi rfl,
    memzero_outside]
  simp only [bootInfoAddr, bootInfoSize]
  omega

theorem storeEntries_above (m : Bytes) {table n i : Nat} (entry : Nat → Nat) (hi : table + 8 * n ≤ i) :
    storeEntries m table n entry i = m i := by
  refine foldl_above m fun m j hj => store_above m ?_
  have := List.mem_range.1 hj
  omega

theorem buildPageTables_above (m : Bytes) {i : Nat} (hi : 0x60000 ≤ i) : buildPageTables m i = m i := by
  simp only [buildPageTables, pml4Addr, pdptLowAddr, pdptHighAddr, pdHighAddr, pdLow0Addr]
  rw [storeEntries_above _ _ (by omega), store_above _ (by omega), store_above _ (by omega), foldl_above]
  · rw [store_above _ (by omega), memzero_outside _ (by omega)]
  · intro m gib hg
    have := List.mem_range.1 hg
    rw [storeEntries_above _ _ (by omega), store_above _ (by omega)]

end JoshBios.Stage2
