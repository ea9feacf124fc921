import JoshBios.BootInfo
import JoshBios.UefiHandoff
import JoshBios.ConfigParse

/-! # The boot information of the UEFI path

`fill_meta` and `fill_fb` fill in one page: the block, and the texts behind the memory map. The block announces the same parts
as the one of the BIOS path; what is different is `UefiInfo`. -/

namespace JoshBios

/-- The bytes of a block without the number of its map entries decide all of it but this number. -/
theorem bootInfoAt_entries {m m' : Bytes} {a : Nat}
    (h : ∀ x, a ≤ x → x < a + Stage2.bootInfoSize → x < a + 40 ∨ a + 44 ≤ x → m' x = m x) :
    bootInfoAt m' a = { bootInfoAt m a with memoryMapEntries := le32 m' (a + 40) } := by
  have hfields : bootInfoAt m' a = .ofFields fun o n => if o = 40 then leNat m' (a + 40) 4 else leNat m (a + o) n := by
    refine BootInfo.ofFields_congr fun f hf => ?_
    have hlayout : ∀ f ∈ BootInfo.layout, f.1 + f.2 ≤ Stage2.bootInfoSize ∧
        (f.1 = 40 ∧ f.2 = 4 ∨ f.1 ≠ 40 ∧ (f.1 + f.2 ≤ 40 ∨ 44 ≤ f.1)) := by decide
    obtain ⟨hin, hentries | ⟨hne, hapart⟩⟩ := hlayout f hf
    · rw [hentries.1, hentries.2, if_pos rfl]
    · rw [if_neg hne]
      exact leNat_congr fun x h₁ h₂ => h x (by omega) (by omega) (by omega)
  rw [hfields]
  rfl

theorem bootInfoAt_framebuffer {m m' : Bytes} {a : Nat} {fb : FramebufferInfo}
    (h : ∀ x, a ≤ x → x < a + Stage2.bootInfoSize → x < a + 48 ∨ a + 96 ≤ x → m' x = m x) :
    { bootInfoAt m' a with framebuffer := fb } = { bootInfoAt m a with framebuffer := fb } := by
  have hfields : BootInfo.ofFields (fun o n => if 48 ≤ o ∧ o < 96 then 0 else leNat m' (a + o) n) =
      .ofFields fun o n => if 48 ≤ o ∧ o < 96 then 0 else leNat m (a + o) n := by
    refine BootInfo.ofFields_congr fun f hf => ?_
    have hlayout : ∀ f ∈ BootInfo.layout, f.1 + f.2 ≤ Stage2.bootInfoSize ∧
        (48 ≤ f.1 ∧ f.1 < 96 ∨ ¬ (48 ≤ f.1 ∧ f.1 < 96) ∧ (f.1 + f.2 ≤ 48 ∨ 96 ≤ f.1)) := by decide
    obtain ⟨hin, hfb | ⟨hne, hapart⟩⟩ := hlayout f hf
    · rw [if_pos hfb, if_pos hfb]
    · rw [if_neg hne, if_neg hne]
      exact leNat_congr fun x h₁ h₂ => h x (by omega) (by omega) (by omega)
  exact congrArg (fun i : BootInfo => { i with framebuffer := fb }) hfields

namespace Uefi

open Stage2 (commandLineOf isSet_eq_true_iff slice_eq ofNat_mod_64 ofNat_mod_32)
open Config (BootConfig isSet cString)

variable {F : Type}

/-! ### The command line -/

theorem cString_commandLine {text : List UInt8} {config : BootConfig} (h : Config.parse text = .ok config) :
    (cString config.commandLine).length ≤ Config.cmdlineMax := by
  by_cases hlen : 1 ≤ text.length ∧ text.length ≤ 1024
  · rcases Config.grammatical_or_rejects text with ⟨es, hes⟩ | ⟨status, hrej⟩
    · rw [Config.parse_grammatical hlen hes] at h
      obtain rfl := Except.ok.inj h
      have hstrings := (Config.configOf_holds hes.wellFormed).strings
      simp only [Config.texts, List.forall_mem_cons] at hstrings
      obtain ⟨-, -, -, -, -, -, ⟨hline, -, hlt⟩, -⟩ := hstrings
      rw [hline]
      exact Nat.le_of_lt_succ hlt
    · rw [Config.parse_rejects hlen hrej] at h
      cases h
  · rw [Config.parse, if_pos] at h
    · cases h
    · rw [Bool.or_eq_true, decide_eq_true_iff, decide_eq_true_iff, Config.configMaxBytes]
      omega

/-! ### `fill_meta` -/

def rsdpOf (fw : BootFirmware F) : UInt64 := findTable acpi20TableGuid acpi10TableGuid fw.configurationTable 0
def smbiosOf (fw : BootFirmware F) : UInt64 := findTable smbios3TableGuid smbiosTableGuid fw.configurationTable 0

/-- The block without a framebuffer and without a map. -/
def uefiBootInfo (fw : BootFirmware F) (metadata : UInt64) (s : Elf64.Summary) (kp : UInt64) (line : List UInt8) :
    BootInfo where
  magic := 0x30494248534f4a4a
  abiMajor := 0
  abiMinor := 1
  totalSize := 224
  flags := 0x23 ||| (if rsdpOf fw ≠ 0 then 4 else 0) ||| (if smbiosOf fw ≠ 0 then 8 else 0) ||| (if line ≠ [] then 16 else 0)
  firmwareType := 2
  bootDrive := 0
  memoryMapAddress := .ofNat (metadata.toNat + memoryMapOffset)
  memoryMapEntries := 0
  memoryMapEntrySize := 24
  framebuffer := ⟨0, 0, 0, 0, 0, 0, 0, 0, 0, 0, 0⟩
  kernelPhysStart := kp
  kernelPhysEnd := kp + (s.virtualMax - s.virtualMin)
  kernelVirtStart := s.virtualMin
  kernelVirtEnd := s.virtualMax
  rsdpPhys := rsdpOf fw
  smbiosPhys := smbiosOf fw
  commandLineAddress := if line ≠ [] then .ofNat (metadata.toNat + commandLineOffset) else 0
  commandLineLength := if line ≠ [] then .ofNat line.length else 0
  reserved0 := 0
  bootloaderNameAddress := .ofNat (metadata.toNat + loaderNameOffset)
  bootloaderNameLength := 19
  reserved1 := 0
  kernelEntry := s.entry
  reserved := [0, 0, 0, 0, 0]

theorem flags_eq (rsdp smbios : UInt64) (line : Bool) :
    UInt32.ofNat ((Stage2.flagMemoryMap ||| Stage2.flagFramebuffer ||| Stage2.flagLoaderName |||
      (if rsdp ≠ 0 then Stage2.flagRsdp else 0) ||| (if smbios ≠ 0 then Stage2.flagSmbios else 0) |||
      (if line then Stage2.flagCmdline else 0)) % 256 ^ 4) =
    0x23 ||| (if rsdp ≠ 0 then 4 else 0) ||| (if smbios ≠ 0 then 8 else 0) ||| (if line then 16 else 0) := by
  by_cases hr : rsdp = 0 <;> by_cases hs : smbios = 0 <;> cases line
  all_goals simp only [hr, hs, ne_eq, not_true_eq_false, not_false_eq_true, if_true, if_false, Bool.false_eq_true]
  all_goals decide

theorem storeFields_eq (a : Nat) (fields : List (Nat × Nat × Nat)) (m : Bytes) : storeFields a fields m = writeFields m a fields :=
  rfl

theorem bootInfoAt_text (m : Bytes) {i a : Nat} (text : List UInt8) (ha : i + Stage2.bootInfoSize ≤ a) :
    bootInfoAt (m.write a text) i = bootInfoAt m i :=
  bootInfoAt_congr fun _ _ hx => Bytes.write_of_lt m text (by omega)

/-- The fields that do not depend on where the texts are. -/
def basicFields (fw : BootFirmware F) (metadata : UInt64) (s : Elf64.Summary) (kp : UInt64) (line : Bool) :
    List (Nat × Nat × Nat) :=
  [(0, 8, Stage2.bootInfoMagic), (8, 4, 0), (12, 4, 1), (16, 4, Stage2.bootInfoSize), (24, 4, firmwareUefi),
    (20, 4, Stage2.flagMemoryMap ||| Stage2.flagFramebuffer ||| Stage2.flagLoaderName |||
      (if rsdpOf fw ≠ 0 then Stage2.flagRsdp else 0) ||| (if smbiosOf fw ≠ 0 then Stage2.flagSmbios else 0) |||
      (if line then Stage2.flagCmdline else 0)),
    (32, 8, metadata.toNat + memoryMapOffset), (44, 4, Stage2.memoryMapEntrySize), (96, 8, kp.toNat),
    (104, 8, (kp + (s.virtualMax - s.virtualMin)).toNat), (112, 8, s.virtualMin.toNat), (120, 8, s.virtualMax.toNat),
    (176, 8, s.entry.toNat), (128, 8, (rsdpOf fw).toNat), (136, 8, (smbiosOf fw).toNat)]

theorem basicFields_bootInfo (fw : BootFirmware F) (metadata : UInt64) (s : Elf64.Summary) (kp : UInt64) (line : Bool)
    {m : Bytes} (hzero : ∀ x, metadata.toNat ≤ x → x < metadata.toNat + Stage2.bootInfoSize → m x = 0) :
    bootInfoAt (writeFields m metadata.toNat (basicFields fw metadata s kp line)) metadata.toNat =
      { uefiBootInfo fw metadata s kp [] with
        flags := 0x23 ||| (if rsdpOf fw ≠ 0 then 4 else 0) ||| (if smbiosOf fw ≠ 0 then 8 else 0) |||
          (if line then 16 else 0)
        bootloaderNameAddress := 0
        bootloaderNameLength := 0 } := by
  refine (bootInfoAt_writeFields_zero hzero fun _ => rfl).trans ?_
  rw [← flags_eq, uefiBootInfo]
  simp only [BootInfo.ofFields]
  congr 1
  case e_memoryMapAddress =>
    refine UInt64.toNat_inj.1 ?_
    rw [UInt64.toNat_ofNat', UInt64.toNat_ofNat']
    exact Nat.mod_mod _ _
  case e_kernelPhysStart => exact ofNat_mod_64 kp
  case e_kernelPhysEnd => exact ofNat_mod_64 _
  case e_kernelVirtStart => exact ofNat_mod_64 s.virtualMin
  case e_kernelVirtEnd => exact ofNat_mod_64 s.virtualMax
  case e_rsdpPhys => exact ofNat_mod_64 (rsdpOf fw)
  case e_smbiosPhys => exact ofNat_mod_64 (smbiosOf fw)
  case e_kernelEntry => exact ofNat_mod_64 s.entry

/-- The page with the name of the loader. -/
def namedPage (fw : BootFirmware F) (metadata : UInt64) (s : Elf64.Summary) (kp : UInt64) (line : Bool) (m : Bytes) : Bytes :=
  writeFields ((writeFields (memzero m metadata.toNat metadataSize) metadata.toNat (basicFields fw metadata s kp line)).write
    (metadata.toNat + loaderNameOffset) (uefiLoaderName ++ [0])) metadata.toNat
    [(160, 8, metadata.toNat + loaderNameOffset), (168, 4, uefiLoaderName.length)]

theorem fillMeta_eq (fw : BootFirmware F) (metadata : UInt64) (s : Elf64.Summary) (kp : UInt64) {c : BootConfig}
    (hline : (cString c.commandLine).length ≤ Config.cmdlineMax) (m : Bytes) :
    fillMeta fw metadata s kp c m =
      if cString c.commandLine = [] then namedPage fw metadata s kp false m
      else writeFields ((namedPage fw metadata s kp true m).write (metadata.toNat + commandLineOffset) (cString c.commandLine))
        metadata.toNat [(144, 8, metadata.toNat + commandLineOffset), (152, 4, (cString c.commandLine).length)] := by
  have htake : (cString c.commandLine).take Config.cmdlineMax = cString c.commandLine := List.take_of_length_le hline
  by_cases hset : isSet c.commandLine = true
  · rw [if_neg ((isSet_eq_true_iff _).1 hset), fillMeta, hset, htake, Bool.not_true, if_neg Bool.false_ne_true]
    rfl
  · have hnone := not_not.1 fun h => hset ((isSet_eq_true_iff _).2 h)
    rw [Bool.not_eq_true] at hset
    rw [if_pos hnone, fillMeta, hset, Bool.not_false, if_pos rfl]
    rfl

theorem namedPage_bootInfo (fw : BootFirmware F) (metadata : UInt64) (s : Elf64.Summary) (kp : UInt64) (line : Bool)
    (m : Bytes) :
    bootInfoAt (namedPage fw metadata s kp line m) metadata.toNat =
      { uefiBootInfo fw metadata s kp [] with
        flags := 0x23 ||| (if rsdpOf fw ≠ 0 then 4 else 0) ||| (if smbiosOf fw ≠ 0 then 8 else 0) |||
          (if line then 16 else 0) } := by
  have hbasic := @basicFields_bootInfo F fw metadata s kp line (memzero m metadata.toNat metadataSize) fun x h₁ h₂ =>
    memzero_inside m h₁ (Nat.lt_of_lt_of_le h₂ (Nat.add_le_add_left (by decide) _))
  rw [← bootInfoAt_text _ (uefiLoaderName ++ [0]) (Nat.add_le_add_left (show Stage2.bootInfoSize ≤ loaderNameOffset by decide) _)]
    at hbasic
  refine (bootInfoAt_writeFields _ metadata.toNat fun _ => rfl).trans ?_
  generalize (writeFields (memzero m metadata.toNat metadataSize) metadata.toNat (basicFields fw metadata s kp line)).write
    (metadata.toNat + loaderNameOffset) (uefiLoaderName ++ [0]) = m' at hbasic
  show { bootInfoAt m' metadata.toNat with
    bootloaderNameAddress := .ofNat ((metadata.toNat + loaderNameOffset) % 256 ^ 8)
    bootloaderNameLength := .ofNat (uefiLoaderName.length % 256 ^ 4) } = _
  rw [hbasic, show (256 : Nat) ^ 8 = UInt64.size from rfl, UInt64.ofNat_mod_size]
  rfl

theorem fillMeta_bootInfo (fw : BootFirmware F) (metadata : UInt64) (s : Elf64.Summary) (kp : UInt64) {c : BootConfig}
    (hline : (cString c.commandLine).length ≤ Config.cmdlineMax) (m : Bytes) :
    bootInfoAt (fillMeta fw metadata s kp c m) metadata.toNat = uefiBootInfo fw metadata s kp (cString c.commandLine) := by
  rw [fillMeta_eq fw metadata s kp hline]
  split
  next hnone =>
    rw [namedPage_bootInfo, hnone]
    rfl
  next hsome =>
    have hnamed := namedPage_bootInfo fw metadata s kp true m
    rw [← bootInfoAt_text _ (cString c.commandLine)
      (Nat.add_le_add_left (show Stage2.bootInfoSize ≤ commandLineOffset by decide) _)] at hnamed
    generalize (namedPage fw metadata s kp true m).write (metadata.toNat + commandLineOffset) (cString c.commandLine) = m'
      at hnamed
    refine (bootInfoAt_writeFields _ metadata.toNat fun _ => rfl).trans ?_
    show { bootInfoAt m' metadata.toNat with
      commandLineAddress := .ofNat ((metadata.toNat + commandLineOffset) % 256 ^ 8)
      commandLineLength := .ofNat ((cString c.commandLine).length % 256 ^ 4) } = _
    rw [hnamed, show (256 : Nat) ^ 8 = UInt64.size from rfl, UInt64.ofNat_mod_size, show (256 : Nat) ^ 4 = UInt32.size from rfl,
      UInt32.ofNat_mod_size, uefiBootInfo, uefiBootInfo]
    simp only [ne_eq, hsome, not_false_eq_true, if_true]

theorem writeFields_block (m : Bytes) (i : Nat) {fields : List (Nat × Nat × Nat)}
    (h : (fields.all fun f => f.1 + f.2.1 ≤ Stage2.bootInfoSize) = true) {x : Nat} (hx : x < i ∨ i + Stage2.bootInfoSize ≤ x) :
    writeFields m i fields x = m x := writeFields_outside h m i hx

theorem namedPage_elsewhere (fw : BootFirmware F) (metadata : UInt64) (s : Elf64.Summary) (kp : UInt64) (line : Bool)
    (m : Bytes) {x : Nat} (hx : x < metadata.toNat ∨ metadata.toNat + Stage2.bootInfoSize ≤ x) :
    namedPage fw metadata s kp line m x = (memzero m metadata.toNat metadataSize).write (metadata.toNat + loaderNameOffset)
      (uefiLoaderName ++ [0]) x := by
  rw [namedPage, writeFields_block _ _ rfl hx, Bytes.write, Bytes.write]
  split
  · rfl
  · exact writeFields_block _ _ rfl hx

theorem fillMeta_outside (fw : BootFirmware F) (metadata : UInt64) (s : Elf64.Summary) (kp : UInt64) {c : BootConfig}
    (hline : (cString c.commandLine).length ≤ Config.cmdlineMax) (m : Bytes) {x : Nat}
    (hx : x < metadata.toNat ∨ metadata.toNat + metadataSize ≤ x) : fillMeta fw metadata s kp c m x = m x := by
  have hsize : metadataSize = 3456 := rfl
  have hname : loaderNameOffset = 3424 := rfl
  have hcmd : commandLineOffset = 3296 := rfl
  have hmax : Config.cmdlineMax = 127 := rfl
  have hblock : Stage2.bootInfoSize = 224 := rfl
  have hlen : (uefiLoaderName ++ [0]).length = 20 := rfl
  have hnamed (line : Bool) : namedPage fw metadata s kp line m x = m x := by
    rw [namedPage_elsewhere _ _ _ _ _ _ (by omega)]
    rcases hx with hx | hx
    · rw [Bytes.write_of_lt _ _ (by omega), memzero_outside _ (by omega)]
    · rw [Bytes.write_of_le _ _ (by omega), memzero_outside _ (by omega)]
  rw [fillMeta_eq fw metadata s kp hline]
  split
  · exact hnamed false
  · rw [writeFields_block _ _ rfl (by omega)]
    rcases hx with hx | hx
    · rw [Bytes.write_of_lt _ _ (by omega), hnamed]
    · rw [Bytes.write_of_le _ _ (by omega), hnamed]

theorem fillMeta_texts (fw : BootFirmware F) (metadata : UInt64) (s : Elf64.Summary) (kp : UInt64) {c : BootConfig}
    (hline : (cString c.commandLine).length ≤ Config.cmdlineMax) (m : Bytes) :
    (fillMeta fw metadata s kp c m).slice (metadata.toNat + loaderNameOffset) uefiLoaderName.length = uefiLoaderName ∧
      (cString c.commandLine ≠ [] → (fillMeta fw metadata s kp c m).slice (metadata.toNat + commandLineOffset)
        (cString c.commandLine).length = cString c.commandLine) := by
  have hname : loaderNameOffset = 3424 := rfl
  have hcmd : commandLineOffset = 3296 := rfl
  have hmax : Config.cmdlineMax = 127 := rfl
  have hblock : Stage2.bootInfoSize = 224 := rfl
  have hnamed (line : Bool) : ∀ k < uefiLoaderName.length,
      namedPage fw metadata s kp line m (metadata.toNat + loaderNameOffset + k) = uefiLoaderName.getD k 0 := fun k hk => by
    rw [namedPage_elsewhere _ _ _ _ _ _ (by omega), Bytes.write_inside _ (by rw [List.length_append]; omega),
      List.getD_append _ _ _ _ hk]
  rw [fillMeta_eq fw metadata s kp hline]
  refine ⟨slice_eq fun k hk => ?_, fun hsome => slice_eq fun k hk => ?_⟩
  · split
    · exact hnamed false k hk
    · rw [writeFields_block _ _ rfl (by omega), Bytes.write_of_le _ _ (by omega), hnamed true k hk]
  · rw [if_neg hsome, writeFields_block _ _ rfl (by omega), Bytes.write_inside _ hk]

/-! ### `fill_fb` -/

/-- The graphics mode, as the kernel is told of it. -/
def gopFramebuffer (i : GraphicsMode) : FramebufferInfo where
  address := i.frameBufferBase
  width := i.horizontalResolution
  height := i.verticalResolution
  pitch := i.pixelsPerScanLine * 4
  bpp := 32
  redMaskSize := (colourMasks i).getD 0 0
  redMaskShift := (colourMasks i).getD 1 0
  greenMaskSize := (colourMasks i).getD 2 0
  greenMaskShift := (colourMasks i).getD 3 0
  blueMaskSize := (colourMasks i).getD 4 0
  blueMaskShift := (colourMasks i).getD 5 0

theorem length_colourMasks (i : GraphicsMode) : (colourMasks i).length = 6 := by
  rw [colourMasks]
  split
  · rfl
  · split <;> rfl

theorem writeFields_shift (m : Bytes) (a c : Nat) (fields : List (Nat × Nat × Nat)) :
    writeFields m (a + c) fields = writeFields m a (fields.map fun f => (c + f.1, f.2)) := by
  induction fields generalizing m with
  | nil => rfl
  | cons f fields ih => rw [writeFields_cons, ih, List.map_cons, writeFields_cons, Nat.add_assoc]

theorem fillFb_bootInfo (i : GraphicsMode) (m : Bytes) (a : Nat) :
    bootInfoAt (storeFields (a + framebufferOffset) ((colourMasks i).zipIdx.map fun c => (24 + 4 * c.2, 4, c.1.toNat))
      (storeFields (a + framebufferOffset) [(0, 8, i.frameBufferBase.toNat), (8, 4, i.horizontalResolution.toNat),
        (12, 4, i.verticalResolution.toNat), (16, 4, (i.pixelsPerScanLine * 4).toNat), (20, 4, 32)]
        (memzero m (a + framebufferOffset) 48))) a =
      { bootInfoAt m a with framebuffer := gopFramebuffer i } := by
  obtain ⟨c₀, c₁, c₂, c₃, c₄, c₅, hmasks⟩ : ∃ c₀ c₁ c₂ c₃ c₄ c₅, colourMasks i = [c₀, c₁, c₂, c₃, c₄, c₅] := by
    have hlen := length_colourMasks i
    generalize colourMasks i = l at hlen
    match l, hlen with
    | [c₀, c₁, c₂, c₃, c₄, c₅], _ => exact ⟨c₀, c₁, c₂, c₃, c₄, c₅, rfl⟩
  rw [gopFramebuffer, hmasks, storeFields_eq, storeFields_eq, writeFields_shift, writeFields_shift, ← writeFields_append]
  refine (bootInfoAt_writeFields _ a fun _ => rfl).trans ?_
  have hcleared : ∀ x, a ≤ x → x < a + Stage2.bootInfoSize → x < a + 48 ∨ a + 96 ≤ x →
      memzero m (a + framebufferOffset) 48 x = m x := fun x _ _ hx => memzero_outside m (by
    rw [show framebufferOffset = 48 from rfl]
    omega)
  rw [← bootInfoAt_framebuffer hcleared]
  show { bootInfoAt (memzero m (a + framebufferOffset) 48) a with
    framebuffer := {
      address := .ofNat (i.frameBufferBase.toNat % 256 ^ 8)
      width := .ofNat (i.horizontalResolution.toNat % 256 ^ 4)
      height := .ofNat (i.verticalResolution.toNat % 256 ^ 4)
      pitch := .ofNat ((i.pixelsPerScanLine * 4).toNat % 256 ^ 4)
      bpp := 32
      redMaskSize := .ofNat (c₀.toNat % 256 ^ 4)
      redMaskShift := .ofNat (c₁.toNat % 256 ^ 4)
      greenMaskSize := .ofNat (c₂.toNat % 256 ^ 4)
      greenMaskShift := .ofNat (c₃.toNat % 256 ^ 4)
      blueMaskSize := .ofNat (c₄.toNat % 256 ^ 4)
      blueMaskShift := .ofNat (c₅.toNat % 256 ^ 4) } } = _
  simp only [ofNat_mod_64, ofNat_mod_32]
  rfl

/-- A framebuffer that is found is told of; nothing else is written. -/
theorem fillFb_ok {fw : BootFirmware F} {metadata : UInt64} {u u' : Loader F} {st : EfiStatus}
    (h : fillFb fw (metadata.toNat + framebufferOffset) u = (st, u')) (hst : efiError st = false) :
    ∃ mode, (fw.graphicsOutput u.firmware).2.1 = some mode ∧
      bootInfoAt u'.mem metadata.toNat = { bootInfoAt u.mem metadata.toNat with framebuffer := gopFramebuffer mode } ∧
      ∀ x, x < metadata.toNat ∨ metadata.toNat + Stage2.bootInfoSize ≤ x → u'.mem x = u.mem x := by
  rw [fillFb] at h
  generalize fw.graphicsOutput u.firmware = r at h
  obtain ⟨s, mode, f⟩ := r
  cases mode with
  | none =>
    cases h
    exact absurd hst (by decide)
  | some mode =>
    simp only at h
    split at h
    · cases h
      exact absurd hst (by decide)
    · split at h
      · cases h
        exact absurd hst (by decide)
      · cases h
        refine ⟨mode, rfl, fillFb_bootInfo mode u.mem metadata.toNat, fun x hx => ?_⟩
        have hblock : Stage2.bootInfoSize = 224 := rfl
        have hfb : framebufferOffset = 48 := rfl
        have hmasks : (((colourMasks mode).zipIdx.map fun c => (24 + 4 * c.2, 4, c.1.toNat)).all fun f =>
            f.1 + f.2.1 ≤ 48) = true := by
          have hlen := length_colourMasks mode
          simp only [List.all_map, List.all_eq_true, Function.comp_apply, decide_eq_true_iff]
          intro c hc
          have := (List.mem_zipIdx' hc).1
          omega
        exact (writeFields_outside hmasks _ _ (by omega)).trans ((@writeFields_outside 24 _ rfl _ _ _ (by omega)).trans
          (memzero_outside _ (by omega)))

/-! ### The block at the end -/

/-- What the UEFI path says beyond the common parts. -/
structure UefiInfo (fw : BootFirmware F) (mode : GraphicsMode) (metadata kp : UInt64) (i : BootInfo) : Prop where
  firmware : i.firmwareType = 2 ∧ i.bootDrive = 0
  map : i.memoryMapAddress.toNat = metadata.toNat + memoryMapOffset
  tables : i.rsdpPhys = rsdpOf fw ∧ i.smbiosPhys = smbiosOf fw
  framebuffer : i.framebuffer = gopFramebuffer mode
  physical : i.kernelPhysStart = kp

/-- The block announces the kernel, whatever the number of map entries, if the texts are still there. -/
theorem uefiBootInfo_announces (fw : BootFirmware F) (mode : GraphicsMode) {metadata : UInt64} (s : Elf64.Summary) (kp : UInt64)
    {line : List UInt8} (n : UInt32) {m : Bytes} (hlow : metadata.toNat + metadataSize ≤ 2 ^ 32)
    (hlen : line.length ≤ Config.cmdlineMax)
    (hname : m.slice (metadata.toNat + loaderNameOffset) uefiLoaderName.length = uefiLoaderName)
    (hline : line ≠ [] → m.slice (metadata.toNat + commandLineOffset) line.length = line) {i : BootInfo}
    (hi : i = { uefiBootInfo fw metadata s kp line with framebuffer := gopFramebuffer mode, memoryMapEntries := n }) :
    i.Announces m s line uefiLoaderName ∧ UefiInfo fw mode metadata kp i := by
  have hsize : metadataSize = 3456 := rfl
  have haddr : ∀ o ≤ metadataSize, (UInt64.ofNat (metadata.toNat + o)).toNat = metadata.toNat + o := fun o ho => by
    rw [UInt64.toNat_ofNat', Nat.mod_eq_of_lt (by omega)]
  have hphys : kp + (s.virtualMax - s.virtualMin) - kp = s.virtualMax - s.virtualMin := by grind
  have hmap := haddr memoryMapOffset (by decide)
  rw [← haddr loaderNameOffset (by decide)] at hname
  rw [← haddr commandLineOffset (by decide)] at hline
  subst hi
  refine ⟨⟨rfl, ⟨rfl, rfl, rfl, rfl⟩, rfl, ⟨rfl, rfl, rfl⟩, hphys, ?_, ?_, hname, ⟨rfl, rfl, rfl⟩⟩,
    ⟨⟨rfl, rfl⟩, hmap, ⟨rfl, rfl⟩, rfl, rfl⟩⟩
  · simp only [uefiBootInfo]
    by_cases hnone : line = []
    · rw [hnone]
      rfl
    · have hmax : Config.cmdlineMax = 127 := rfl
      rw [if_pos hnone, if_pos hnone, UInt32.toNat_ofNat', Nat.mod_eq_of_lt (by omega)]
      exact hline hnone
  · intro hnone
    simp only [uefiBootInfo]
    rw [if_neg (not_not.2 hnone), if_neg (not_not.2 hnone)]
    exact ⟨rfl, rfl⟩

end Uefi

end JoshBios
