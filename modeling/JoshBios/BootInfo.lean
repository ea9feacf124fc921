import JoshBios.HealthFrame
import JoshBios.Lib.Fields

/-! # The boot information block

`JoshBootInfo` is what the kernel gets from either loader. `bootInfoAt` reads it the way the kernel does. `Announces` is what
the block promises, whatever the firmware: its flags name the parts that are there, the addresses and the entry are those of
the image, and the texts are the command line of the configuration and the name of the loader.

`fillBootInfo` fills the block in while it scans memory for the tables of the firmware, and writes texts elsewhere; a list
of stores is one update of the record (`bootInfoAt_writeFields`), and so is each of its parts. -/

namespace JoshBios

structure FramebufferInfo where
  address : UInt64
  width : UInt32
  height : UInt32
  pitch : UInt32
  bpp : UInt32
  redMaskSize : UInt32
  redMaskShift : UInt32
  greenMaskSize : UInt32
  greenMaskShift : UInt32
  blueMaskSize : UInt32
  blueMaskShift : UInt32
deriving DecidableEq

/-- `JoshBootInfo` -/
structure BootInfo where
  magic : UInt64
  abiMajor : UInt32
  abiMinor : UInt32
  totalSize : UInt32
  flags : UInt32
  firmwareType : UInt32
  bootDrive : UInt32
  memoryMapAddress : UInt64
  memoryMapEntries : UInt32
  memoryMapEntrySize : UInt32
  framebuffer : FramebufferInfo
  kernelPhysStart : UInt64
  kernelPhysEnd : UInt64
  kernelVirtStart : UInt64
  kernelVirtEnd : UInt64
  rsdpPhys : UInt64
  smbiosPhys : UInt64
  commandLineAddress : UInt64
  commandLineLength : UInt32
  reserved0 : UInt32
  bootloaderNameAddress : UInt64
  bootloaderNameLength : UInt32
  reserved1 : UInt32
  kernelEntry : UInt64
  reserved : List UInt64
deriving DecidableEq

namespace BootInfo

/-- The record whose field of `n` bytes at the offset `o` is `f o n`. -/
def ofFields (f : Nat → Nat → Nat) : BootInfo where
  magic := .ofNat (f 0 8)
  abiMajor := .ofNat (f 8 4)
  abiMinor := .ofNat (f 12 4)
  totalSize := .ofNat (f 16 4)
  flags := .ofNat (f 20 4)
  firmwareType := .ofNat (f 24 4)
  bootDrive := .ofNat (f 28 4)
  memoryMapAddress := .ofNat (f 32 8)
  memoryMapEntries := .ofNat (f 40 4)
  memoryMapEntrySize := .ofNat (f 44 4)
  framebuffer := {
    address := .ofNat (f 48 8)
    width := .ofNat (f 56 4)
    height := .ofNat (f 60 4)
    pitch := .ofNat (f 64 4)
    bpp := .ofNat (f 68 4)
    redMaskSize := .ofNat (f 72 4)
    redMaskShift := .ofNat (f 76 4)
    greenMaskSize := .ofNat (f 80 4)
    greenMaskShift := .ofNat (f 84 4)
    blueMaskSize := .ofNat (f 88 4)
    blueMaskShift := .ofNat (f 92 4) }
  kernelPhysStart := .ofNat (f 96 8)
  kernelPhysEnd := .ofNat (f 104 8)
  kernelVirtStart := .ofNat (f 112 8)
  kernelVirtEnd := .ofNat (f 120 8)
  rsdpPhys := .ofNat (f 128 8)
  smbiosPhys := .ofNat (f 136 8)
  commandLineAddress := .ofNat (f 144 8)
  commandLineLength := .ofNat (f 152 4)
  reserved0 := .ofNat (f 156 4)
  bootloaderNameAddress := .ofNat (f 160 8)
  bootloaderNameLength := .ofNat (f 168 4)
  reserved1 := .ofNat (f 172 4)
  kernelEntry := .ofNat (f 176 8)
  reserved := [.ofNat (f 184 8), .ofNat (f 192 8), .ofNat (f 200 8), .ofNat (f 208 8), .ofNat (f 216 8)]

/-- The offsets and the widths. -/
def layout : List (Nat × Nat) :=
  [(0, 8), (8, 4), (12, 4), (16, 4), (20, 4), (24, 4), (28, 4), (32, 8), (40, 4), (44, 4), (48, 8), (56, 4), (60, 4), (64, 4),
    (68, 4), (72, 4), (76, 4), (80, 4), (84, 4), (88, 4), (92, 4), (96, 8), (104, 8), (112, 8), (120, 8), (128, 8), (136, 8),
    (144, 8), (152, 4), (156, 4), (160, 8), (168, 4), (172, 4), (176, 8), (184, 8), (192, 8), (200, 8), (208, 8), (216, 8)]

theorem ofFields_congr {f g : Nat → Nat → Nat} (h : ∀ x ∈ layout, f x.1 x.2 = g x.1 x.2) : ofFields f = ofFields g := by
  simp only [layout, List.forall_mem_cons] at h
  simp only [ofFields, h]

end BootInfo

/-- The block at `a`, as the kernel reads it. -/
def bootInfoAt (m : Bytes) (a : Nat) : BootInfo := .ofFields fun o n => leNat m (a + o) n

theorem leNat_zeros (o n : Nat) : leNat (fun _ => 0) o n = 0 := by
  induction n generalizing o with
  | zero => rfl
  | succ n ih =>
    rw [leNat, ih]
    rfl

theorem bootInfoAt_congr {m m' : Bytes} {a : Nat} (h : ∀ x, a ≤ x → x < a + Stage2.bootInfoSize → m x = m' x) :
    bootInfoAt m a = bootInfoAt m' a := by
  refine BootInfo.ofFields_congr fun f hf => leNat_congr fun x h₁ h₂ => h x (by omega) ?_
  have hin : ∀ f ∈ BootInfo.layout, f.1 + f.2 ≤ Stage2.bootInfoSize := by decide
  have := hin f hf
  omega

theorem bootInfoAt_writeFields {fields : List (Nat × Nat × Nat)} (m : Bytes) (a : Nat)
    (h : ∀ old : Nat × Nat → Nat, (BootInfo.layout.all fun f => (fieldAfter f.1 f.2 fields (old f)).isSome) = true) :
    bootInfoAt (writeFields m a fields) a =
      .ofFields fun o n => (fieldAfter o n fields (leNat m (a + o) n)).getD 0 := by
  refine BootInfo.ofFields_congr fun f hf => ?_
  have hsome := List.all_eq_true.1 (h fun f => leNat m (a + f.1) f.2) f hf
  obtain ⟨v, hv⟩ := Option.isSome_iff_exists.1 hsome
  rw [leNat_writeFields hv, hv, Option.getD_some]

theorem bootInfoAt_writeFields_zero {fields : List (Nat × Nat × Nat)} {m : Bytes} {a : Nat}
    (hzero : ∀ x, a ≤ x → x < a + Stage2.bootInfoSize → m x = 0)
    (h : ∀ old : Nat × Nat → Nat, (BootInfo.layout.all fun f => (fieldAfter f.1 f.2 fields (old f)).isSome) = true) :
    bootInfoAt (writeFields m a fields) a = .ofFields fun o n => (fieldAfter o n fields 0).getD 0 := by
  refine (bootInfoAt_writeFields m a h).trans (BootInfo.ofFields_congr fun f hf => ?_)
  have hin : ∀ f ∈ BootInfo.layout, f.1 + f.2 ≤ Stage2.bootInfoSize := by decide
  have hold : leNat m (a + f.1) f.2 = 0 := by
    have hsize := hin f hf
    have hwindow := @leNat_of_window m (fun _ => 0) (a + f.1) 0 f.2 fun k hk =>
      hzero _ (by omega) (by omega)
    rw [hwindow, leNat_zeros]
  rw [hold]

/-- The parts of the block that are the same for both loaders. -/
structure BootInfo.Announces (i : BootInfo) (m : Bytes) (s : Elf64.Summary) (line name : List UInt8) : Prop where
  magic : i.magic = 0x30494248534f4a4a
  abi : i.abiMajor = 0 ∧ i.abiMinor = 1 ∧ i.totalSize = 224 ∧ i.memoryMapEntrySize = 24
  flags : i.flags = 0x23 ||| (if i.rsdpPhys ≠ 0 then 4 else 0) ||| (if i.smbiosPhys ≠ 0 then 8 else 0) |||
    (if line ≠ [] then 16 else 0)
  kernel : i.kernelVirtStart = s.virtualMin ∧ i.kernelVirtEnd = s.virtualMax ∧ i.kernelEntry = s.entry
  physical : i.kernelPhysEnd - i.kernelPhysStart = i.kernelVirtEnd - i.kernelVirtStart
  commandLine : m.slice i.commandLineAddress.toNat i.commandLineLength.toNat = line
  noCommandLine : line = [] → i.commandLineAddress = 0 ∧ i.commandLineLength = 0
  loaderName : m.slice i.bootloaderNameAddress.toNat i.bootloaderNameLength.toNat = name
  reserved : i.reserved0 = 0 ∧ i.reserved1 = 0 ∧ i.reserved = [0, 0, 0, 0, 0]

theorem BootInfo.Announces.congr {i : BootInfo} {m m' : Bytes} {s : Elf64.Summary} {line name : List UInt8}
    (h : i.Announces m s line name)
    (hline : ∀ k < i.commandLineLength.toNat, m (i.commandLineAddress.toNat + k) = m' (i.commandLineAddress.toNat + k))
    (hname : ∀ k < i.bootloaderNameLength.toNat, m (i.bootloaderNameAddress.toNat + k) = m' (i.bootloaderNameAddress.toNat + k)) :
    i.Announces m' s line name :=
  { h with
    commandLine := (slice_of_window hline).symm.trans h.commandLine
    loaderName := (slice_of_window hname).symm.trans h.loaderName }

namespace Stage2

/-! ### What the parts of `fillBootInfo` do to the block -/

/-- The mode block, as the kernel is told of it. -/
def vbeFramebuffer (m : Bytes) : FramebufferInfo where
  address := (le32 m (vbeInfoAddr + 0x28)).toUInt64
  width := (le16 m (vbeInfoAddr + 0x12)).toUInt32
  height := (le16 m (vbeInfoAddr + 0x14)).toUInt32
  pitch := (le16 m (vbeInfoAddr + 0x10)).toUInt32
  bpp := (m (vbeInfoAddr + 0x19)).toUInt32
  redMaskSize := (m (vbeInfoAddr + 0x1f)).toUInt32
  redMaskShift := (m (vbeInfoAddr + 0x20)).toUInt32
  greenMaskSize := (m (vbeInfoAddr + 0x21)).toUInt32
  greenMaskShift := (m (vbeInfoAddr + 0x22)).toUInt32
  blueMaskSize := (m (vbeInfoAddr + 0x23)).toUInt32
  blueMaskShift := (m (vbeInfoAddr + 0x24)).toUInt32

theorem ofNat_mod_64 (x : UInt64) : UInt64.ofNat (x.toNat % 256 ^ 8) = x := by
  rw [Nat.mod_eq_of_lt (show x.toNat < 256 ^ 8 from x.toNat_lt), UInt64.ofNat_toNat]

theorem ofNat_mod_32 (x : UInt32) : UInt32.ofNat (x.toNat % 256 ^ 4) = x := by
  rw [Nat.mod_eq_of_lt (show x.toNat < 256 ^ 4 from x.toNat_lt), UInt32.ofNat_toNat]

theorem ofNat_or_32 (x : UInt32) (y : Nat) : UInt32.ofNat ((x.toNat ||| y) % 256 ^ 4) = x ||| .ofNat y := by
  refine UInt32.toNat_inj.1 ?_
  rw [show (256 : Nat) ^ 4 = 2 ^ 32 from rfl, UInt32.toNat_or, UInt32.toNat_ofNat', UInt32.toNat_ofNat', Nat.mod_mod,
    Nat.or_mod_two_pow, Nat.mod_eq_of_lt x.toNat_lt]

theorem storeTable_eq {field flag : Nat} (hfield : 24 ≤ field) (find : Bytes → UInt64) (m : Bytes) :
    storeTable field flag find m = writeFields m bootInfoAddr ((field, 8, (find m).toNat) ::
      if find m ≠ 0 then [(20, 4, (le32 m (bootInfoAddr + 20)).toNat ||| flag)] else []) := by
  have hflags : infoFlags (storeInfo m [(field, 8, (find m).toNat)]) = (le32 m (bootInfoAddr + 20)).toNat := by
    rw [infoFlags, le32, le32]
    congr 2
    exact leNat_writeFields_apart (by simp [apart]; omega) m bootInfoAddr
  simp only [storeTable, hflags]
  split <;> rfl

theorem storeTable_rsdp (find : Bytes → UInt64) (m : Bytes) :
    bootInfoAt (storeTable 128 flagRsdp find m) bootInfoAddr =
      { bootInfoAt m bootInfoAddr with
        rsdpPhys := find m
        flags := if find m ≠ 0 then (bootInfoAt m bootInfoAddr).flags ||| 4 else (bootInfoAt m bootInfoAddr).flags } := by
  rw [storeTable_eq (by decide)]
  split
  · refine (bootInfoAt_writeFields m bootInfoAddr fun _ => rfl).trans ?_
    show { bootInfoAt m bootInfoAddr with
      rsdpPhys := .ofNat ((find m).toNat % 256 ^ 8)
      flags := .ofNat (((bootInfoAt m bootInfoAddr).flags.toNat ||| 4) % 256 ^ 4) } = _
    rw [ofNat_mod_64, ofNat_or_32]
    rfl
  · refine (bootInfoAt_writeFields m bootInfoAddr fun _ => rfl).trans ?_
    show { bootInfoAt m bootInfoAddr with rsdpPhys := .ofNat ((find m).toNat % 256 ^ 8) } = _
    rw [ofNat_mod_64]

theorem storeTable_smbios (find : Bytes → UInt64) (m : Bytes) :
    bootInfoAt (storeTable 136 flagSmbios find m) bootInfoAddr =
      { bootInfoAt m bootInfoAddr with
        smbiosPhys := find m
        flags := if find m ≠ 0 then (bootInfoAt m bootInfoAddr).flags ||| 8 else (bootInfoAt m bootInfoAddr).flags } := by
  rw [storeTable_eq (by decide)]
  split
  · refine (bootInfoAt_writeFields m bootInfoAddr fun _ => rfl).trans ?_
    show { bootInfoAt m bootInfoAddr with
      smbiosPhys := .ofNat ((find m).toNat % 256 ^ 8)
      flags := .ofNat (((bootInfoAt m bootInfoAddr).flags.toNat ||| 8) % 256 ^ 4) } = _
    rw [ofNat_mod_64, ofNat_or_32]
    rfl
  · refine (bootInfoAt_writeFields m bootInfoAddr fun _ => rfl).trans ?_
    show { bootInfoAt m bootInfoAddr with smbiosPhys := .ofNat ((find m).toNat % 256 ^ 8) } = _
    rw [ofNat_mod_64]

theorem bootInfoAt_write (m : Bytes) {a : Nat} (text : List UInt8) (ha : bootInfoAddr + bootInfoSize ≤ a) :
    bootInfoAt (m.write a text) bootInfoAddr = bootInfoAt m bootInfoAddr :=
  bootInfoAt_congr fun _ _ hx => Bytes.write_of_lt m text (by omega)

/-- The command line that the kernel is told of. -/
def commandLineOf : Option Config.BootConfig → List UInt8
  | none => []
  | some config => Config.cString config.commandLine

theorem isSet_eq_true_iff (a : List UInt8) : Config.isSet a = true ↔ Config.cString a ≠ [] := by
  cases a with
  | nil => simp [Config.isSet, Config.cString]
  | cons c a => by_cases h : c = 0 <;> simp [Config.isSet, Config.cString, h]

theorem storeCommandLine_eq (config : Option Config.BootConfig) (m : Bytes) :
    storeCommandLine config m = if commandLineOf config = [] then m else
      writeFields (m.write cmdlineAddr (commandLineOf config)) bootInfoAddr [(144, 8, cmdlineAddr),
        (152, 4, (commandLineOf config).length),
        (20, 4, (le32 (m.write cmdlineAddr (commandLineOf config)) (bootInfoAddr + 20)).toNat ||| flagCmdline)] := by
  cases config with
  | none => rfl
  | some c =>
    by_cases hset : Config.isSet c.commandLine = true
    · rw [commandLineOf, if_neg ((isSet_eq_true_iff _).1 hset), storeCommandLine, hset, Bool.not_true,
        if_neg Bool.false_ne_true]
      rfl
    · have hline := not_not.1 fun h => hset ((isSet_eq_true_iff _).2 h)
      rw [Bool.not_eq_true] at hset
      rw [commandLineOf, if_pos hline, storeCommandLine, hset, Bool.not_false, if_pos rfl]

theorem storeCommandLine_bootInfo (config : Option Config.BootConfig) (m : Bytes) :
    bootInfoAt (storeCommandLine config m) bootInfoAddr =
      if commandLineOf config = [] then bootInfoAt m bootInfoAddr
      else { bootInfoAt m bootInfoAddr with
        commandLineAddress := .ofNat cmdlineAddr
        commandLineLength := .ofNat (commandLineOf config).length
        flags := (bootInfoAt m bootInfoAddr).flags ||| 16 } := by
  rw [storeCommandLine_eq]
  split
  · rfl
  · have hblock := bootInfoAt_write m (a := cmdlineAddr) (commandLineOf config) (by decide)
    rw [← hblock]
    generalize m.write cmdlineAddr (commandLineOf config) = m'
    refine (bootInfoAt_writeFields m' bootInfoAddr fun _ => rfl).trans ?_
    show { bootInfoAt m' bootInfoAddr with
      commandLineAddress := .ofNat (cmdlineAddr % 256 ^ 8)
      commandLineLength := .ofNat ((commandLineOf config).length % 256 ^ 4)
      flags := .ofNat (((bootInfoAt m' bootInfoAddr).flags.toNat ||| 16) % 256 ^ 4) } = _
    rw [ofNat_or_32, show (256 : Nat) ^ 4 = UInt32.size from rfl, UInt32.ofNat_mod_size]
    rfl

theorem storeLoaderName_bootInfo (m : Bytes) :
    bootInfoAt (storeLoaderName m) bootInfoAddr =
      { bootInfoAt m bootInfoAddr with
        bootloaderNameAddress := .ofNat loaderNameAddr
        bootloaderNameLength := .ofNat loaderName.length } := by
  rw [← bootInfoAt_write m (a := loaderNameAddr) loaderName (by decide)]
  exact bootInfoAt_writeFields _ bootInfoAddr fun _ => rfl

theorem ofNat_leNat_8 (m : Bytes) (a : Nat) : UInt32.ofNat (leNat m a 1 % 256 ^ 4) = (m a).toUInt32 := by
  have hlt := (m a).toNat_lt
  refine UInt32.toNat_inj.1 ?_
  rw [UInt32.toNat_ofNat', UInt8.toNat_toUInt32, leNat, leNat]
  omega

theorem ofNat_leNat_16 (m : Bytes) (a : Nat) : UInt32.ofNat (leNat m a 2 % 256 ^ 4) = (le16 m a).toUInt32 := by
  have hlt : leNat m a 2 < 256 ^ 2 := leNat_lt m a 2
  refine UInt32.toNat_inj.1 ?_
  rw [UInt32.toNat_ofNat', UInt16.toNat_toUInt32, le16, UInt16.toNat_ofNat']
  omega

theorem ofNat_leNat_32 (m : Bytes) (a : Nat) : UInt64.ofNat (leNat m a 4 % 256 ^ 8) = (le32 m a).toUInt64 := by
  have hlt : leNat m a 4 < 256 ^ 4 := leNat_lt m a 4
  refine UInt64.toNat_inj.1 ?_
  rw [UInt64.toNat_ofNat', UInt32.toNat_toUInt64, le32, UInt32.toNat_ofNat']
  omega

theorem storeBasics_bootInfo (machine : Machine) (summary : Elf64.Summary) {m : Bytes}
    (hzero : ∀ x, bootInfoAddr ≤ x → x < bootInfoAddr + bootInfoSize → m x = 0) :
    bootInfoAt (storeBasics machine summary m) bootInfoAddr =
      { BootInfo.ofFields fun _ _ => 0 with
        magic := 0x30494248534f4a4a
        abiMinor := 1
        totalSize := 224
        flags := 0x23
        firmwareType := 1
        bootDrive := machine.bootDrive.toUInt32
        memoryMapAddress := .ofNat memoryMapAddr
        memoryMapEntries := machine.e820Count.toUInt32
        memoryMapEntrySize := 24
        framebuffer := vbeFramebuffer m
        kernelPhysStart := kernelPhysBase.toUInt64 + (summary.virtualMin - kernelVirtBase)
        kernelPhysEnd := kernelPhysBase.toUInt64 + (summary.virtualMax - kernelVirtBase)
        kernelVirtStart := summary.virtualMin
        kernelVirtEnd := summary.virtualMax
        kernelEntry := summary.entry } := by
  have hfb : vbeFramebuffer m = {
      address := .ofNat (leNat m (vbeInfoAddr + 0x28) 4 % 256 ^ 8)
      width := .ofNat (leNat m (vbeInfoAddr + 0x12) 2 % 256 ^ 4)
      height := .ofNat (leNat m (vbeInfoAddr + 0x14) 2 % 256 ^ 4)
      pitch := .ofNat (leNat m (vbeInfoAddr + 0x10) 2 % 256 ^ 4)
      bpp := .ofNat (leNat m (vbeInfoAddr + 0x19) 1 % 256 ^ 4)
      redMaskSize := .ofNat (leNat m (vbeInfoAddr + 0x1f) 1 % 256 ^ 4)
      redMaskShift := .ofNat (leNat m (vbeInfoAddr + 0x20) 1 % 256 ^ 4)
      greenMaskSize := .ofNat (leNat m (vbeInfoAddr + 0x21) 1 % 256 ^ 4)
      greenMaskShift := .ofNat (leNat m (vbeInfoAddr + 0x22) 1 % 256 ^ 4)
      blueMaskSize := .ofNat (leNat m (vbeInfoAddr + 0x23) 1 % 256 ^ 4)
      blueMaskShift := .ofNat (leNat m (vbeInfoAddr + 0x24) 1 % 256 ^ 4) } := by
    simp only [ofNat_leNat_8, ofNat_leNat_16, ofNat_leNat_32, vbeFramebuffer]
  have hdrive : UInt32.ofNat (machine.bootDrive.toNat % 256 ^ 4) = machine.bootDrive.toUInt32 :=
    ofNat_mod_32 machine.bootDrive.toUInt32
  have hcount : UInt32.ofNat (machine.e820Count.toNat % 256 ^ 4) = machine.e820Count.toUInt32 :=
    ofNat_mod_32 machine.e820Count.toUInt32
  refine (bootInfoAt_writeFields_zero hzero fun _ => rfl).trans ?_
  rw [hfb]
  simp only [BootInfo.ofFields]
  congr 1
  case e_kernelPhysStart => exact ofNat_mod_64 _
  case e_kernelPhysEnd => exact ofNat_mod_64 _
  case e_kernelVirtStart => exact ofNat_mod_64 summary.virtualMin
  case e_kernelVirtEnd => exact ofNat_mod_64 summary.virtualMax
  case e_kernelEntry => exact ofNat_mod_64 summary.entry

/-! ### The block that `fillBootInfo` leaves -/

/-- What the BIOS path says beyond the common parts. -/
structure BiosInfo (machine : Machine) (summary : Elf64.Summary) (m : Bytes) (i : BootInfo) : Prop where
  firmware : i.firmwareType = 1 ∧ i.bootDrive = machine.bootDrive.toUInt32
  map : i.memoryMapAddress = .ofNat memoryMapAddr ∧ i.memoryMapEntries = machine.e820Count.toUInt32
  framebuffer : i.framebuffer = vbeFramebuffer m
  physical : i.kernelPhysStart = kernelPhysBase.toUInt64 + (summary.virtualMin - kernelVirtBase)
  texts : i.bootloaderNameAddress = .ofNat loaderNameAddr ∧ (i.commandLineLength = 0 ∨ i.commandLineAddress = .ofNat cmdlineAddr)

theorem storeInfo_elsewhere (m : Bytes) {fields : List (Nat × Nat × Nat)}
    (h : (fields.all fun f => f.1 + f.2.1 ≤ bootInfoSize) = true) {x : Nat} (hx : bootInfoAddr + bootInfoSize ≤ x) :
    writeFields m bootInfoAddr fields x = m x := writeFields_outside h m bootInfoAddr (.inr hx)

theorem storeTable_elsewhere {field : Nat} (hlow : 24 ≤ field) (hfield : field + 8 ≤ bootInfoSize) (flag : Nat)
    (find : Bytes → UInt64) (m : Bytes) {x : Nat} (hx : bootInfoAddr + bootInfoSize ≤ x) :
    storeTable field flag find m x = m x := by
  rw [storeTable_eq hlow]
  refine storeInfo_elsewhere m ?_ hx
  split <;> simpa [bootInfoSize] using hfield

theorem vbeFramebuffer_congr {m m' : Bytes} (h : ∀ x, vbeInfoAddr ≤ x → x < vbeInfoAddr + 0x100 → m x = m' x) :
    vbeFramebuffer m = vbeFramebuffer m' := by
  have hfield (o n : Nat) (ho : o + n ≤ 0x100) : leNat m (vbeInfoAddr + o) n = leNat m' (vbeInfoAddr + o) n :=
    leNat_congr fun x h₁ h₂ => h x (by omega) (by omega)
  have hbyte (o : Nat) (ho : o < 0x100) : m (vbeInfoAddr + o) = m' (vbeInfoAddr + o) := h _ (by omega) (by omega)
  simp only [vbeFramebuffer, le16, le32]
  rw [hfield 0x28 4 (by decide), hfield 0x12 2 (by decide), hfield 0x14 2 (by decide), hfield 0x10 2 (by decide),
    hbyte 0x19 (by decide), hbyte 0x1f (by decide), hbyte 0x20 (by decide), hbyte 0x21 (by decide), hbyte 0x22 (by decide),
    hbyte 0x23 (by decide), hbyte 0x24 (by decide)]

theorem slice_eq {m : Bytes} {a : Nat} {text : List UInt8} (h : ∀ k < text.length, m (a + k) = text.getD k 0) :
    m.slice a text.length = text := by
  have hwindow : ∀ k < text.length, m (a + k) = bytesOf text (0 + k) := fun k hk => by rw [Nat.zero_add, h k hk, bytesOf]
  rw [slice_of_window hwindow, slice_bytesOf]

theorem storeLoaderName_elsewhere (m : Bytes) {x : Nat} (hx : bootInfoAddr + bootInfoSize ≤ x) :
    storeLoaderName m x = m.write loaderNameAddr loaderName x := storeInfo_elsewhere _ rfl hx

theorem storeLoaderName_slice (m : Bytes) : (storeLoaderName m).slice loaderNameAddr loaderName.length = loaderName :=
  slice_eq fun k hk => by
    rw [storeLoaderName_elsewhere m (by simp only [bootInfoAddr, bootInfoSize, loaderNameAddr]; omega), Bytes.write_inside m hk]

theorem storeCommandLine_elsewhere (config : Option Config.BootConfig) (m : Bytes) {x : Nat}
    (hx : bootInfoAddr + bootInfoSize ≤ x) :
    storeCommandLine config m x = m.write cmdlineAddr (commandLineOf config) x := by
  rw [storeCommandLine_eq]
  split
  next hnone => rw [hnone, Bytes.write, List.length_nil, if_neg (by omega)]
  · exact storeInfo_elsewhere _ rfl hx

theorem storeCommandLine_slice (config : Option Config.BootConfig) (m : Bytes) :
    (storeLoaderName (storeCommandLine config m)).slice cmdlineAddr (commandLineOf config).length = commandLineOf config :=
  slice_eq fun k hk => by
    have hblock : bootInfoAddr + bootInfoSize ≤ cmdlineAddr + k := by
      simp only [bootInfoAddr, bootInfoSize, cmdlineAddr]
      omega
    have hname : loaderNameAddr + loaderName.length ≤ cmdlineAddr + k := Nat.le_add_right_of_le (by decide)
    rw [storeLoaderName_elsewhere _ hblock, Bytes.write_of_le _ _ hname, storeCommandLine_elsewhere _ _ hblock,
      Bytes.write_inside m hk]

/-- The block, with the tables that were found. -/
def biosBootInfo (machine : Machine) (summary : Elf64.Summary) (line : List UInt8) (fb : FramebufferInfo)
    (rsdp smbios : UInt64) : BootInfo where
  magic := 0x30494248534f4a4a
  abiMajor := 0
  abiMinor := 1
  totalSize := 224
  flags := 0x23 ||| (if rsdp ≠ 0 then 4 else 0) ||| (if smbios ≠ 0 then 8 else 0) ||| (if line ≠ [] then 16 else 0)
  firmwareType := 1
  bootDrive := machine.bootDrive.toUInt32
  memoryMapAddress := .ofNat memoryMapAddr
  memoryMapEntries := machine.e820Count.toUInt32
  memoryMapEntrySize := 24
  framebuffer := fb
  kernelPhysStart := kernelPhysBase.toUInt64 + (summary.virtualMin - kernelVirtBase)
  kernelPhysEnd := kernelPhysBase.toUInt64 + (summary.virtualMax - kernelVirtBase)
  kernelVirtStart := summary.virtualMin
  kernelVirtEnd := summary.virtualMax
  rsdpPhys := rsdp
  smbiosPhys := smbios
  commandLineAddress := if line ≠ [] then .ofNat cmdlineAddr else 0
  commandLineLength := if line ≠ [] then .ofNat line.length else 0
  reserved0 := 0
  bootloaderNameAddress := .ofNat loaderNameAddr
  bootloaderNameLength := .ofNat loaderName.length
  reserved1 := 0
  kernelEntry := summary.entry
  reserved := [0, 0, 0, 0, 0]

theorem fillBootInfo_bootInfo (machine : Machine) (summary : Elf64.Summary) (config : Option Config.BootConfig) (m : Bytes) :
    ∃ rsdp smbios, bootInfoAt (fillBootInfo machine summary config m) bootInfoAddr =
      biosBootInfo machine summary (commandLineOf config) (vbeFramebuffer m) rsdp smbios := by
  have hzero : ∀ x, bootInfoAddr ≤ x → x < bootInfoAddr + bootInfoSize → memzero m bootInfoAddr bootInfoSize x = 0 :=
    fun x h₁ h₂ => memzero_inside m h₁ h₂
  have hfb : vbeFramebuffer (memzero m bootInfoAddr bootInfoSize) = vbeFramebuffer m :=
    vbeFramebuffer_congr fun x h₁ _ => memzero_outside m (.inr (Nat.le_trans (by decide) h₁))
  have hblock := storeBasics_bootInfo machine summary hzero
  rw [hfb] at hblock
  simp only [fillBootInfo]
  generalize storeBasics machine summary (memzero m bootInfoAddr bootInfoSize) = m₀ at hblock
  refine ⟨findRsdp m₀, findSmbios (storeTable 128 flagRsdp findRsdp m₀), ?_⟩
  rw [storeLoaderName_bootInfo, storeCommandLine_bootInfo, storeTable_smbios, storeTable_rsdp, hblock]
  generalize findSmbios (storeTable 128 flagRsdp findRsdp m₀) = smbios
  generalize findRsdp m₀ = rsdp
  unfold biosBootInfo
  by_cases hr : rsdp = 0 <;> by_cases hs : smbios = 0 <;> by_cases hline : commandLineOf config = []
  all_goals simp only [hr, hs, hline, ne_eq, not_true_eq_false, not_false_eq_true, if_true, if_false]
  all_goals rfl

theorem fillBootInfo_announces (machine : Machine) (summary : Elf64.Summary) {config : Option Config.BootConfig}
    (hline : (commandLineOf config).length < 0x1000) (m : Bytes) :
    (bootInfoAt (fillBootInfo machine summary config m) bootInfoAddr).Announces (fillBootInfo machine summary config m) summary
        (commandLineOf config) loaderName ∧
      BiosInfo machine summary m (bootInfoAt (fillBootInfo machine summary config m) bootInfoAddr) := by
  have hname : (fillBootInfo machine summary config m).slice loaderNameAddr loaderName.length = loaderName :=
    storeLoaderName_slice _
  have hslice : (fillBootInfo machine summary config m).slice cmdlineAddr (commandLineOf config).length =
    commandLineOf config := storeCommandLine_slice config _
  obtain ⟨rsdp, smbios, hblock⟩ := fillBootInfo_bootInfo machine summary config m
  rw [hblock]
  generalize fillBootInfo machine summary config m = m' at hname hslice
  have hphys : kernelPhysBase.toUInt64 + (summary.virtualMax - kernelVirtBase) -
      (kernelPhysBase.toUInt64 + (summary.virtualMin - kernelVirtBase)) = summary.virtualMax - summary.virtualMin := by grind
  refine ⟨⟨rfl, ⟨rfl, rfl, rfl, rfl⟩, rfl, ⟨rfl, rfl, rfl⟩, hphys, ?_, ?_, hname, ⟨rfl, rfl, rfl⟩⟩,
    ⟨⟨rfl, rfl⟩, ⟨rfl, rfl⟩, rfl, rfl, rfl, ?_⟩⟩
  · simp only [biosBootInfo]
    by_cases hnone : commandLineOf config = []
    · rw [hnone]
      rfl
    · have hlen : (UInt32.ofNat (commandLineOf config).length).toNat = (commandLineOf config).length :=
        (UInt32.toNat_ofNat' ..).trans (Nat.mod_eq_of_lt (by omega))
      rw [if_pos hnone, if_pos hnone, hlen]
      exact hslice
  · intro hnone
    simp only [biosBootInfo]
    rw [if_neg (not_not.2 hnone), if_neg (not_not.2 hnone)]
    exact ⟨rfl, rfl⟩
  · simp only [biosBootInfo]
    by_cases hnone : commandLineOf config = []
    · exact .inl (if_neg (not_not.2 hnone))
    · exact .inr (if_pos hnone)

end Stage2

end JoshBios
