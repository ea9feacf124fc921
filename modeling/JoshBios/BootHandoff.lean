import JoshBios.BootInfo
import JoshBios.SharedDisk

/-! # The hand-over of the BIOS path

Every boot that ends in the kernel has loaded an image, filled in the block and built the page tables, in this order
(`stage2PmMain_handoff`). Loading stays out of the memory below the kernel, so the block still says what stage 2 found there
before it started, and the kernel can rely on all of it (`bios_handoff_info`). -/

namespace JoshBios.Stage2

open Config (BootConfig)
open Elf64 (Summary)

variable {D : Type} {drive : BiosDrive D}

/-! ### The memory below the kernel -/

theorem loadElfLoop_low (imageBytes : UInt32) (n : Nat) (i : UInt16) (s : Bios D) {x : Nat} (hx : x < kernelPhysBase.toNat) :
    (loadElfLoop imageBytes n i s).2.mem x = s.mem x := by
  induction n generalizing i s with
  | zero => rfl
  | succ n ih =>
    cases hseg : Elf64.loadSegmentOf (s.mem.from kernelImageAddr) imageBytes.toUInt64 i with
    | error status => simp only [loadElfLoop, hseg]
    | ok segment =>
      obtain ⟨p, rfl, hok, -⟩ := Elf64.loadSegmentOf_ok hseg
      by_cases hw : FitsWindow p
      · rw [loadElfLoop_fits hseg hok hw, ih]
        refine Chunk.place_outside fun hcov => ?_
        have hlow : kernelPhysBase.toNat ≤ physOf p := Nat.le_add_right _ _
        exact absurd (Nat.le_trans hlow hcov.1) (Nat.not_le_of_lt hx)
      · rw [loadElfLoop_unfit hseg hw]

theorem loadElf_low (imageBytes : UInt32) (s : Bios D) {x : Nat} (hx : x < kernelPhysBase.toNat) :
    (loadElf imageBytes s).2.mem x = s.mem x := by
  unfold loadElf
  split
  · rfl
  next summary _ =>
    split
    · rfl
    split
    · rfl
    have hloop := loadElfLoop_low imageBytes summary.loadSegmentCount.toNat 0 s hx
    generalize loadElfLoop imageBytes summary.loadSegmentCount.toNat 0 s = r at hloop ⊢
    obtain ⟨ok, t⟩ := r
    cases ok <;> exact hloop

theorem buildPageTables_from (m : Bytes) {x : Nat} (hx : bootInfoAddr ≤ x) : buildPageTables m x = m x := by
  simp only [bootInfoAddr] at hx
  simp only [buildPageTables, pml4Addr, pdptLowAddr, pdptHighAddr, pdHighAddr, pdLow0Addr]
  rw [storeEntries_above _ _ (by omega), store_above _ (by omega), store_above _ (by omega), foldl_above]
  · rw [store_above _ (by omega), memzero_outside _ (by omega)]
  · intro m gib hg
    have := List.mem_range.1 hg
    rw [storeEntries_above _ _ (by omega), store_above _ (by omega)]

/-- The block is not all that `fillBootInfo` writes, but the tables of the front end are spared. -/
theorem fillBootInfo_spares (machine : Machine) (summary : Summary) (config : Option BootConfig) (m : Bytes) {x : Nat}
    (hlow : bootInfoAddr + bootInfoSize ≤ x) (hhigh : x < loaderNameAddr) : fillBootInfo machine summary config m x = m x := by
  have hbasics : ∀ m, storeBasics machine summary m x = m x := fun m => storeInfo_elsewhere m rfl hlow
  have hname : x < cmdlineAddr := Nat.lt_trans hhigh (by decide)
  simp only [fillBootInfo]
  rw [storeLoaderName_elsewhere _ hlow, Bytes.write_of_lt _ _ hhigh, storeCommandLine_elsewhere _ _ hlow,
    Bytes.write_of_lt _ _ hname, storeTable_elsewhere (by decide) (by decide) _ _ _ hlow,
    storeTable_elsewhere (by decide) (by decide) _ _ _ hlow, hbasics, memzero_outside _ (.inr hlow)]

theorem loadKernelFile_outside (s : Bios D) {x : Nat} (hx : ¬ Staging x) : (loadKernelFile drive s).2.mem x = s.mem x := by
  unfold loadKernelFile
  generalize readBootFiles (biosDevice drive s.drive) s.serial = r
  obtain ⟨files, serial⟩ := r
  cases files with
  | none => rfl
  | some files =>
    have hstart : (bootHealth drive files.layoutSafe { s with serial }).2.mem x = s.mem x := by
      obtain ⟨-, hmem⟩ := bootHealth_mem drive files.layoutSafe { s with serial } (fun _ => 0)
      rw [hmem]
    have hend := selectKernel_keeps (w := biosWorld drive files.fs files.config) (I := fun t : Bios D => t.mem x = s.mem x)
      (fun _ _ h => h) (fun r t h => by rw [← h]; exact congrFun (healthPersist_mem_eq r t) x)
      (fun slot t h => ((readKernelCandidate_image files.fs (kernelPathForSlot files.config slot) t).outside x hx).symm.trans h)
      files.config (bootHealth drive files.layoutSafe { s with serial }).1 hstart
    simp only
    split <;> exact hend

/-! ### The way to the kernel -/

/-- The configuration of a boot, if it comes to that; a kernel image that is there already is booted without. -/
def bootConfig (drive : BiosDrive D) (machine : Machine) (s : Bios D) : Option BootConfig :=
  if machine.filesystemBoot && !hasElfMagic s.mem then
    (readBootFiles (biosDevice drive s.drive) s.serial).1.map BootFiles.config
  else none

/-- What `load_elf` is called with, by a boot that gets there: the size of the image, and the state. -/
def atLoad (drive : BiosDrive D) (machine : Machine) (s : Bios D) : UInt32 × Bios D :=
  let s := say "JOSHBOOT_CPU_LONG_MODE_OK\n" s
  if machine.filesystemBoot && !hasElfMagic s.mem then
    let (kernel, t) := loadKernelFile drive (say "JOSHBOOT_FS_LOAD_BEGIN\n" s)
    (kernel.elim 0 Prod.fst, say "JOSHBOOT_ELF64_DETECTED\n" t)
  else (kernelImageBytes, say "JOSHBOOT_ELF64_DETECTED\n" s)

/-- A boot that ends in the kernel. -/
structure Handover (drive : BiosDrive D) (machine : Machine) (s : Bios D) (entry : UInt64) (s' : Bios D)
    (imageBytes : UInt32) (summary : Summary) (s₁ s₂ : Bios D) : Prop where
  staged : atLoad drive machine s = (imageBytes, s₁)
  loaded : loadElf imageBytes s₁ = (some summary, s₂)
  entry_eq : summary.entry = entry
  ranges : s'.loaded = s₂.loaded
  mem : s'.mem = buildPageTables (fillBootInfo machine summary (bootConfig drive machine s) s₂.mem)
  outside : ∀ x, ¬ Staging x → s₁.mem x = s.mem x

theorem loadKernelFile_config {s t : Bios D} {imageBytes : UInt32} {config : BootConfig}
    (h : loadKernelFile drive s = (some (imageBytes, config), t)) :
    (readBootFiles (biosDevice drive s.drive) s.serial).1.map BootFiles.config = some config := by
  unfold loadKernelFile at h
  generalize readBootFiles (biosDevice drive s.drive) s.serial = r at h ⊢
  obtain ⟨files, serial⟩ := r
  cases files with
  | none => cases h
  | some files =>
    simp only at h
    split at h
    · cases h
    · cases h
      rfl

theorem accepted_bootConfig {machine : Machine} {s : Bios D} {config : BootConfig} (h : config ∈ bootConfig drive machine s) :
    Config.Accepted config := by
  unfold bootConfig at h
  split at h
  · cases hf : readBootFiles (biosDevice drive s.drive) s.serial with
    | mk files serial =>
      rw [hf] at h
      obtain ⟨files, rfl, rfl⟩ := Option.map_eq_some_iff.1 h
      exact readBootFiles_accepted hf
  · cases h

theorem length_bootConfig (machine : Machine) (s : Bios D) : (commandLineOf (bootConfig drive machine s)).length < 0x1000 := by
  cases hc : bootConfig drive machine s with
  | none => exact Nat.zero_lt_of_lt (by decide : 0 < 0x1000)
  | some config =>
    have hline := (accepted_bootConfig hc).commandLine
    have hle : (Config.cString config.commandLine).length ≤ config.commandLine.length :=
      (List.takeWhile_sublist _).length_le
    rw [hline] at hle
    exact Nat.lt_of_le_of_lt hle (by decide)

theorem say_mem (message : String) (s : Bios D) : (say message s).mem = s.mem := rfl

theorem say_loaded (message : String) (s : Bios D) : (say message s).loaded = s.loaded := rfl

theorem handOver_handoff {machine : Machine} {imageBytes : UInt32} {config : Option BootConfig} {t s' : Bios D}
    {entry : UInt64} (h : handOver machine imageBytes config t = (.handoff entry, s')) :
    ∃ summary s₂, loadElf imageBytes (say "JOSHBOOT_ELF64_DETECTED\n" t) = (some summary, s₂) ∧ summary.entry = entry ∧
      s'.loaded = s₂.loaded ∧ s'.mem = buildPageTables (fillBootInfo machine summary config s₂.mem) := by
  unfold handOver at h
  split at h
  · cases h
  next summary s₂ hload =>
    have hmem := fun mem : Bytes => say_mem "JOSHBOOT_HANDOFF_READY\n" { s₂ with mem }
    have hranges := fun mem : Bytes => say_loaded "JOSHBOOT_HANDOFF_READY\n" { s₂ with mem }
    simp only [Prod.mk.injEq, Ending.handoff.injEq] at h
    exact ⟨summary, s₂, hload, h.1, by rw [← h.2, hranges], by rw [← h.2, hmem]⟩

theorem stage2PmMain_handoff {machine : Machine} {s s' : Bios D} {entry : UInt64}
    (h : stage2PmMain drive machine s = (.handoff entry, s')) :
    ∃ imageBytes summary s₁ s₂, Handover drive machine s entry s' imageBytes summary s₁ s₂ := by
  unfold stage2PmMain at h
  split at h
  · cases h
  simp only at h
  split at h
  · cases h
  split at h
  next hmagic =>
    -- an image that is there already
    obtain ⟨summary, s₂, hload, hentry, hranges, hmem⟩ := handOver_handoff h
    refine ⟨_, summary, _, s₂, ?_, hload, hentry, hranges, ?_, fun x _ => rfl⟩
    · rw [atLoad]
      simp only [hmagic, Bool.not_true, Bool.and_false, Bool.false_eq_true, if_false]
    have hnone : bootConfig drive machine s = none := by
      rw [bootConfig, show hasElfMagic s.mem = true from hmagic, Bool.not_true, Bool.and_false, if_neg Bool.false_ne_true]
    rw [hnone]
    exact hmem
  next hmagic =>
  split at h
  · cases h
  next hfs =>
  split at h
  · cases h
  next imageBytes config t hload =>
  split at h
  · cases h
  rw [Bool.not_eq_true] at hmagic
  rw [Bool.not_eq_true, Bool.not_eq_false'] at hfs
  have hconfig : bootConfig drive machine s = some config := by
    rw [bootConfig, hfs, show hasElfMagic s.mem = false from hmagic, Bool.not_false, Bool.and_true, if_pos rfl,
      readBootFiles_fst _ s.serial ("JOSHBOOT_FS_LOAD_BEGIN\n" :: "JOSHBOOT_CPU_LONG_MODE_OK\n" :: s.serial)]
    exact loadKernelFile_config hload
  obtain ⟨summary, s₂, helf, hentry, hranges, hmem⟩ := handOver_handoff h
  refine ⟨imageBytes, summary, _, s₂, ?_, helf, hentry, hranges, ?_, fun x hx => ?_⟩
  · rw [atLoad]
    simp only [hfs, hmagic, hload, Bool.not_false, Bool.and_true, if_true]
    rfl
  · rw [hconfig]
    exact hmem
  · have hout := @loadKernelFile_outside D drive (say "JOSHBOOT_FS_LOAD_BEGIN\n" (say "JOSHBOOT_CPU_LONG_MODE_OK\n" s)) x hx
    rw [hload] at hout
    exact hout

/-- The block after the hand-over, with the texts in memory and the tables of the front end. -/
theorem Handover.info {machine : Machine} {s s' s₁ s₂ : Bios D} {entry : UInt64} {imageBytes : UInt32} {summary : Summary}
    (hand : Handover drive machine s entry s' imageBytes summary s₁ s₂) :
    (bootInfoAt s'.mem bootInfoAddr).Announces s'.mem summary (commandLineOf (bootConfig drive machine s)) loaderName ∧
      BiosInfo machine summary s.mem (bootInfoAt s'.mem bootInfoAddr) ∧
      ∀ x, memoryMapAddr ≤ x → x < loaderNameAddr → s'.mem x = s.mem x := by
  obtain ⟨hann, hinfo⟩ := fillBootInfo_announces machine summary (@length_bootConfig D drive machine s) s₂.mem
  have hspares := fun x => fillBootInfo_spares machine summary (bootConfig drive machine s) s₂.mem (x := x)
  have hmem := hand.mem
  generalize fillBootInfo machine summary (bootConfig drive machine s) s₂.mem = m at hann hinfo hspares hmem
  have hlow : ∀ x, x < kernelPhysBase.toNat → s₂.mem x = s.mem x := fun x hx => by
    have hload := loadElf_low imageBytes s₁ hx
    rw [hand.loaded] at hload
    have hstaging : ¬ Staging x := fun hst => absurd hst.1 (Nat.not_le_of_lt (Nat.lt_trans hx (by decide)))
    exact hload.trans (hand.outside x hstaging)
  have hfrom : ∀ x, bootInfoAddr ≤ x → m x = s'.mem x := fun x hx => by rw [hmem, buildPageTables_from m hx]
  have hblock : bootInfoAt m bootInfoAddr = bootInfoAt s'.mem bootInfoAddr := bootInfoAt_congr fun x hx _ => hfrom x hx
  rw [hblock] at hann hinfo
  have hfb : vbeFramebuffer s₂.mem = vbeFramebuffer s.mem :=
    vbeFramebuffer_congr fun x _ hx => hlow x (Nat.lt_trans hx (by decide))
  refine ⟨hann.congr (fun k hk => ?_) fun k _ => hfrom _ ?_,
    { hinfo with framebuffer := hinfo.framebuffer.trans hfb }, fun x h₁ h₂ => ?_⟩
  · -- the texts are above the page tables
    rcases hinfo.texts.2 with hnone | hsome
    · rw [hnone] at hk
      exact absurd hk (Nat.not_lt_zero k)
    · rw [hsome]
      exact hfrom _ (Nat.le_add_right_of_le (by decide))
  · rw [hinfo.texts.1]
    exact Nat.le_add_right_of_le (by decide)
  · rw [← hfrom x (Nat.le_trans (by decide) h₁), hspares x (Nat.le_trans (by decide) h₁) h₂]
    exact hlow x (Nat.lt_trans h₂ (by decide))

/-- What the kernel is told, whatever the disk, the machine and the memory were. When stage 2 enters a kernel, the block
announces the image that `load_elf` has loaded and the command line of the configuration, it repeats the mode block and the
number of entries of the memory map, and neither these nor the map has changed since stage 2 came out of real mode. -/
theorem bios_handoff_info {machine : Machine} {s s' : Bios D} {entry : UInt64}
    (h : stage2PmMain drive machine s = (.handoff entry, s')) :
    ∃ summary t, loadElf (atLoad drive machine s).1 (atLoad drive machine s).2 = (some summary, t) ∧
      (∀ x, kernelPhysBase.toNat ≤ x → s'.mem x = t.mem x) ∧ s'.loaded = t.loaded ∧
      summary.entry = entry ∧ summary.virtualMin ≤ entry ∧ entry < summary.virtualMax ∧
      (bootInfoAt s'.mem bootInfoAddr).Announces s'.mem summary (commandLineOf (bootConfig drive machine s)) loaderName ∧
      BiosInfo machine summary s.mem (bootInfoAt s'.mem bootInfoAddr) ∧
      ∀ x, memoryMapAddr ≤ x → x < loaderNameAddr → s'.mem x = s.mem x := by
  obtain ⟨imageBytes, summary, s₁, s₂, hand⟩ := stage2PmMain_handoff h
  have hsegments := Elf64.validateImage_ok (fits_of_loadElf hand.loaded).1
  obtain ⟨p, hp, -, hmin, hmax⟩ := hsegments.exec
  rw [hand.entry_eq] at hmin hmax
  have hline : ∀ c ∈ bootConfig drive machine s, c.commandLine.length ≤ 0x1000 := fun c hc => by
    rw [(accepted_bootConfig hc).commandLine]
    decide
  refine ⟨summary, s₂, by rw [hand.staged]; exact hand.loaded, fun x hx => ?_, hand.ranges, hand.entry_eq,
    UInt64.le_iff_toNat_le.2 (Nat.le_trans (hsegments.min_le p hp) hmin),
    UInt64.lt_iff_toNat_lt.2 (Nat.lt_of_lt_of_le hmax (hsegments.le_max p hp)), hand.info⟩
  rw [hand.mem]
  exact handOver_bytes machine summary hline s₂.mem (Nat.le_trans (by decide) hx)

theorem bios_handoff_info_installed :
    (stage2PmMain plainDrive pcMachine (pcPower.bios installedDisk)).1 = .handoff 0xffffffff80000000 ∧
    ∃ summary t, loadElf (atLoad plainDrive pcMachine (pcPower.bios installedDisk)).1
        (atLoad plainDrive pcMachine (pcPower.bios installedDisk)).2 = (some summary, t) ∧
      summary.entry = 0xffffffff80000000 ∧
      (bootInfoAt (stage2PmMain plainDrive pcMachine (pcPower.bios installedDisk)).2.mem bootInfoAddr).Announces
        (stage2PmMain plainDrive pcMachine (pcPower.bios installedDisk)).2.mem summary
        (commandLineOf (bootConfig plainDrive pcMachine (pcPower.bios installedDisk))) loaderName := by
  have hend : (stage2PmMain plainDrive pcMachine (pcPower.bios installedDisk)).1 = .handoff 0xffffffff80000000 := by
    decide +kernel
  obtain ⟨summary, t, hload, -, -, hentry, -, -, hann, -⟩ := bios_handoff_info (Prod.fst_eq_iff.1 hend)
  exact ⟨hend, summary, t, hload, hentry, hann⟩

end JoshBios.Stage2
