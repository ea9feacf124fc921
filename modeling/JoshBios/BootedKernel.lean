import JoshBios.BiosPaging
import JoshBios.BootHandoff
import JoshBios.ElfFormat

/-! # The kernel that runs is the file that was chosen

Between the file and the kernel there are the staging window, the move of the segments through the very memory that they
are staged in, and the page tables. `booted_kernel` puts them together: what the kernel finds at the addresses of its
segments is what its file has for them, when no segment is placed over the staged file. -/

namespace JoshBios.Stage2

open Health (HealthRecord BootSlot FailureStage)
open Config (BootConfig)
open Elf64 (ProgramHeader Summary segments)
open Uefi (translate)

/-! ### The choice and the read -/

section Choice
variable {S α : Type} {w : SlotWorld S α} {I : S → Prop} {Q : BootSlot → α → S → Prop}
  (hsay : ∀ message s, I s → I (w.say message s)) (hpersist : ∀ health s, I s → I (w.persist health s))
  (hread : ∀ slot s, I s → I (w.read slot s).2)
  (hmade : ∀ slot s a, I s → (w.read slot s).1 = some a → Q slot a (w.read slot s).2)
  (hkept : ∀ slot a message s, Q slot a s → Q slot a (w.say message s))
include hsay hpersist hread hmade hkept

/-- The slot that is chosen leaves what its own read made. -/
theorem candidateLoop_made (config : BootConfig) {n : Nat} {slot slot' : BootSlot} {health : HealthRecord} {s : S} {a : α}
    (h : I s) (hk : (candidateLoop w config n slot health s).kernel = some (slot', a)) :
    Q slot' a (candidateLoop w config n slot health s).world := by
  induction n generalizing slot health s with
  | zero => cases hk
  | succ n ih =>
    have hsaid := hsay (slotMarker slot) s h
    have hnext := hread slot _ hsaid
    have hthis := hmade slot _ (a := a) hsaid
    rw [candidateLoop_succ] at hk ⊢
    generalize w.read slot (w.say (slotMarker slot) s) = r at hk hnext hthis ⊢
    obtain ⟨kernel, t⟩ := r
    cases kernel with
    | some b =>
      cases hk
      exact hkept _ _ _ _ (hkept _ _ _ _ (hthis rfl))
    | none =>
      simp only at hk ⊢
      cases hf : fallbackSlot config slot with
      | none =>
        rw [hf] at hk
        cases hk
      | some next =>
        simp only [hf] at hk ⊢
        match hsel : Health.selectFallback health next.code FailureStage.kernelFile.code with
        | (false, health') =>
          rw [hsel] at hk
          cases hk
        | (true, health') =>
          rw [hsel] at hk
          exact ih (hsay _ _ (hpersist _ _ hnext)) hk

theorem selectKernel_made (config : BootConfig) {slot : BootSlot} {health : HealthRecord} {s : S} {a : α}
    (h : I s) (hk : (selectKernel w config health s).kernel = some (slot, a)) :
    Q slot a (selectKernel w config health s).world := by
  have hstart : I (attemptWorld w health (Health.prepareAttempt health Health.healthMaxAttempts) s) := by
    unfold attemptWorld
    simp only
    split
    · refine hsay _ _ ?_
      split
      · exact hpersist _ _ h
      · exact h
    · split
      · exact hpersist _ _ h
      · exact h
  have hloop := @candidateLoop_made S α w I Q hsay hpersist hread hmade hkept config 3
    (Health.prepareAttempt health Health.healthMaxAttempts).1 slot
    (Health.prepareAttempt health Health.healthMaxAttempts).2 _ a hstart
  rw [selectKernel_eq] at hk ⊢
  simp only at hk ⊢
  generalize candidateLoop w config 3 _ _ _ = r at hk hloop ⊢
  obtain ⟨kernel, health', t⟩ := r
  cases kernel with
  | none => cases hk
  | some k => exact hloop hk

end Choice

section
variable {D : Type} {drive : BiosDrive D}

/-- The image of a file, in the staging window. -/
structure Staged (device : BlockDevice) (files : BootFiles) (slot : BootSlot) (imageBytes : UInt32) (m : Bytes)
    (image : List UInt8) : Prop where
  file : kernelImage device files.fs (kernelPathForSlot files.config slot) = some image
  size : imageBytes = .ofNat image.length
  window : ∀ k < image.length, m (kernelImageAddr + k) = bytesOf image k

theorem loadKernelFile_staged (hs : Steady drive) {s t : Bios D} {imageBytes : UInt32} {config : BootConfig}
    (h : loadKernelFile drive s = (some (imageBytes, config), t)) :
    ∃ files slot image, (readBootFiles (biosDevice drive s.drive) s.serial).1 = some files ∧ files.config = config ∧
      t.slot = some slot ∧ Staged (biosDevice drive s.drive) files slot imageBytes t.mem image := by
  unfold loadKernelFile at h
  cases hf : readBootFiles (biosDevice drive s.drive) s.serial with
  | mk files serial =>
  rw [hf] at h
  cases files with
  | none => cases h
  | some files =>
  simp only at h
  have hstart : DriveKept drive s.drive (files.layoutSafe = false)
      (bootHealth drive files.layoutSafe { s with serial }).2 := .start files.layoutSafe { s with serial }
  -- the read that succeeds sees the disk as it was, the health sectors apart
  have hmade : ∀ (slot : BootSlot) (t : Bios D) (n : UInt32), DriveKept drive s.drive (files.layoutSafe = false) t →
      (readKernelCandidate drive files.fs (kernelPathForSlot files.config slot) t).1 = some n →
      ∃ image, Staged (biosDevice drive s.drive) files slot n
        (readKernelCandidate drive files.fs (kernelPathForSlot files.config slot) t).2.mem image := fun slot t n ht hn => by
    have hread := @readKernelCandidate_image D drive files.fs (kernelPathForSlot files.config slot) t
    have himage := ht.image hf (kernelPathForSlot files.config slot)
    have hsize := hn.symm.trans hread.size
    cases hk : kernelImage (biosDevice drive t.drive) files.fs (kernelPathForSlot files.config slot) with
    | none =>
      rw [hk] at hsize
      cases hsize
    | some image =>
      rw [hk] at hsize
      refine ⟨image, himage.trans hk, Option.some.inj hsize, fun k hlt => ?_⟩
      rw [hread.loaded image hk]
      exact Bytes.write_inside t.mem hlt
  have hsel := @selectKernel_made _ _ (biosWorld drive files.fs files.config)
    (DriveKept drive s.drive (files.layoutSafe = false))
    (fun slot n t => ∃ image, Staged (biosDevice drive s.drive) files slot n t.mem image)
    (fun _ _ h => ⟨h.files, h.unwritten⟩) (fun r t h => h.persist hs r)
    (fun slot t h => h.read files.fs (kernelPathForSlot files.config slot)) hmade (fun _ _ _ _ h => h) files.config
  have hout := fun slot n => @hsel slot (bootHealth drive files.layoutSafe { s with serial }).1 _ n hstart
  generalize selectKernel (biosWorld drive files.fs files.config) files.config _ _ = r at h hout
  obtain ⟨kernel, health, t'⟩ := r
  cases kernel with
  | none => cases h
  | some k =>
    cases h
    obtain ⟨image, himage⟩ := hout _ _ rfl
    exact ⟨files, k.1, image, rfl, rfl, rfl, himage⟩

end

/-! ### The image in the window -/

/-- No segment is placed over the staged file. -/
def Clear (image : List UInt8) : Prop :=
  ∀ p ∈ segments (bytesOf image),
    physOf p + p.memsz.toNat ≤ kernelImageAddr ∨ kernelImageAddr + image.length ≤ physOf p

/-- What the loader sees of a staged image. -/
structure StagedImage (m : Bytes) (image : List UInt8) (imageBytes : UInt32) (sum : Summary) : Prop where
  size : imageBytes.toUInt64.toNat = image.length
  window : ∀ k < image.length, m (kernelImageAddr + k) = bytesOf image k
  is_valid : Elf64.validateImage (m.from kernelImageAddr) imageBytes.toUInt64 = .ok sum
  same : segments (m.from kernelImageAddr) = segments (bytesOf image)
  entry : sum.entry = (Elf64.headerAt (bytesOf image)).entry
  magic : hasElfMagic m = true

theorem Staged.image {device : BlockDevice} {files : BootFiles} {slot : BootSlot} {imageBytes : UInt32} {m : Bytes}
    {image : List UInt8} (h : Staged device files slot imageBytes m image) : ∃ sum, StagedImage m image imageBytes sum := by
  obtain ⟨-, kernel, hfile⟩ := kernelImage_some h.file
  obtain ⟨sum, hvalid⟩ := hfile.is_valid
  have hbytes : imageBytes = kernel.size := h.size.trans hfile.toNat_length
  have hsize : imageBytes.toUInt64.toNat = image.length := by rw [hbytes, UInt32.toNat_toUInt64, hfile.size]
  rw [← hbytes] at hvalid
  have hwindow : ∀ j, Elf64.HeaderByte (bytesOf image) imageBytes.toUInt64 j → bytesOf image j = m.from kernelImageAddr j :=
    fun j hj => (h.window j (hsize ▸ hj.1)).symm
  have hok := (Elf64.validateImage_ok hvalid).header
  have hbyte : ∀ j < 4, m (kernelImageAddr + j) = bytesOf image j := fun j hj =>
    h.window j (by have := hok.size; omega)
  have hzero := hbyte 0 (by omega)
  rw [Nat.add_zero] at hzero
  refine ⟨sum, hsize, h.window, (Elf64.validateImage_congr hwindow).symm.trans hvalid, (Elf64.segments_congr hwindow hok).symm,
    Elf64.validateImage_entry hvalid, ?_⟩
  simp only [hasElfMagic, hzero, hbyte 1 (by omega), hbyte 2 (by omega), hbyte 3 (by omega), hok.magic]
  rfl

section
variable {m : Bytes} {image : List UInt8} {imageBytes : UInt32} {sum : Summary}

theorem StagedImage.segmentOk (h : StagedImage m image imageBytes sum) {p : ProgramHeader}
    (hp : p ∈ segments (bytesOf image)) : Elf64.SegmentOk imageBytes.toUInt64 p :=
  Elf64.validateLoadSegment_ok ((Elf64.validateImage_ok h.is_valid).ok p (h.same ▸ hp))

theorem StagedImage.outside (h : StagedImage m image imageBytes sum) (hclear : Clear image) {p : ProgramHeader}
    (hp : p ∈ segments (bytesOf image)) {i : Nat} (hcov : (segmentChunk p).Covers i) :
    i < kernelImageAddr ∨ kernelImageAddr + image.length ≤ i := by
  have hfile := (h.segmentOk hp).file_le
  have h₁ : physOf p ≤ i := hcov.1
  have h₂ : i < physOf p + p.filesz.toNat + (p.memsz.toNat - p.filesz.toNat) := hcov.2
  rcases hclear p hp with hlow | hhigh
  · exact .inl (by omega)
  · exact .inr (by omega)

theorem StagedImage.headersKept (h : StagedImage m image imageBytes sum) (hclear : Clear image) :
    HeadersKept m imageBytes := by
  refine headersKept_of_missed fun c hc i hcov hhead => ?_
  rw [chunks, h.same] at hc
  obtain ⟨p, hp, rfl⟩ := List.mem_map.1 (List.mem_of_mem_dropLast hc)
  have hlt := hhead.1
  rw [h.size] at hlt
  rcases h.outside hclear hp hcov with hout | hout <;> omega

theorem StagedImage.kept (h : StagedImage m image imageBytes sum) (hclear : Clear image) :
    Chunk.Kept m (chunks (m.from kernelImageAddr)) := by
  -- what a chunk reads is in the file, and no chunk covers that
  have hapart : ∀ p ∈ segments (bytesOf image), ∀ q ∈ segments (bytesOf image), ∀ i, (segmentChunk p).Covers i →
      ¬ (segmentChunk q).Reads i := fun p hp q hq i hcov hread => by
    have hinside := (h.segmentOk hq).inside
    rw [h.size] at hinside
    have h₁ : kernelImageAddr + q.offset.toNat ≤ i := hread.1
    have h₂ : i < kernelImageAddr + q.offset.toNat + q.filesz.toNat := hread.2
    rcases h.outside hclear hp hcov with hout | hout <;> omega
  rw [chunks, h.same]
  refine ⟨List.pairwise_map.2 (List.pairwise_of_forall_mem_list fun p hp q hq i hcov hread =>
    absurd hread (hapart p hp q hq i hcov)), ?_⟩
  rintro c hc hlt i hdest hread
  obtain ⟨p, hp, rfl⟩ := List.mem_map.1 hc
  refine absurd hread (hapart p hp p hp i ⟨hdest, ?_⟩)
  have := hread.2
  omega

end

/-! ### The kernel -/

/-- The byte of a segment's file image for the address `v`. -/
def segmentByte (image : List UInt8) (p : ProgramHeader) (v : UInt64) : UInt8 :=
  if v.toNat - p.vaddr.toNat < p.filesz.toNat then bytesOf image (p.offset.toNat + (v.toNat - p.vaddr.toNat)) else 0

/-- The kernel at its addresses, through the page tables. -/
def Mapped (image : List UInt8) (m : Bytes) : Prop :=
  ∀ p ∈ segments (bytesOf image), ∀ v : UInt64, p.vaddr.toNat ≤ v.toNat → v.toNat < p.vend →
    ∃ a, translate m (.ofNat pml4Addr) v = some a ∧ m a = segmentByte image p v

section
variable {D : Type} {image : List UInt8} {imageBytes : UInt32} {sum : Summary}

/-- A staged image that nothing is placed over is loaded just when it fits. -/
theorem StagedImage.loadElf_iff {s : Bios D} (h : StagedImage s.mem image imageBytes sum) (hclear : Clear image) :
    (∃ s', loadElf imageBytes s = (some sum, s')) ↔ ∀ p ∈ segments (bytesOf image), FitsWindow p := by
  constructor
  · rintro ⟨s', hload⟩
    have hfits := (fits_of_loadElf hload).2
    rwa [h.same] at hfits
  · intro hfits
    exact ⟨_, loadElf_eq h.is_valid (h.same ▸ hfits) (h.headersKept hclear)⟩

theorem StagedImage.loadElf_some {s s' : Bios D} {sum' : Summary} (h : StagedImage s.mem image imageBytes sum)
    (hload : loadElf imageBytes s = (some sum', s')) : sum' = sum :=
  Except.ok.inj ((fits_of_loadElf hload).1.symm.trans h.is_valid)

theorem StagedImage.mapped (machine : Machine) {config : Option BootConfig} {s s' : Bios D}
    (h : StagedImage s.mem image imageBytes sum) (hclear : Clear image)
    (hc : ∀ c ∈ config, c.commandLine.length ≤ 0x1000) (hload : loadElf imageBytes s = (some sum, s')) :
    Mapped image (buildPageTables (fillBootInfo machine sum config s'.mem)) := by
  obtain ⟨hv, hfits⟩ := fits_of_loadElf hload
  have hs := Elf64.validateImage_ok hv
  rw [loadElf_eq hv hfits (h.headersKept hclear)] at hload
  obtain ⟨-, rfl⟩ := Prod.mk.inj hload
  have hholds := (Chunk.placeAll_holds_iff s.mem (chunks_apart hs hfits)).2 (h.kept hclear)
  intro p hp v hlow hhigh
  have hfit := hfits p (h.same ▸ hp)
  have hbase : kernelVirtBase.toNat = 2 ^ 64 - 2 ^ 31 := rfl
  have hphys : kernelPhysBase.toNat = 0x200000 := rfl
  have hlimit : kernelPhysLimit.toNat = 0x8000000 := rfl
  have hplace : physOf p = kernelPhysBase.toNat + (p.vaddr.toNat - kernelVirtBase.toNat) := rfl
  have hvend : p.vend = p.vaddr.toNat + p.memsz.toNat := rfl
  obtain ⟨h₁, h₂⟩ := hfit
  have hsum : kernelPhysBase.toNat + (v.toNat - kernelVirtBase.toNat) = physOf p + (v.toNat - p.vaddr.toNat) := by omega
  refine ⟨physOf p + (v.toNat - p.vaddr.toNat), ?_, ?_⟩
  · rw [translate_buildPageTables _ (Or.inr (by omega)), if_neg (by omega), if_pos (by omega), hsum]
  · rw [handOver_bytes machine sum hc _ (by omega)]
    have hchunk := hholds (segmentChunk p) (by rw [chunks, h.same]; exact List.mem_map_of_mem hp)
    have hplaced := (segmentPlaced_iff (h.segmentOk hp)).2 hchunk
    unfold segmentByte
    split
    next hfile =>
      have hinside := (h.segmentOk hp).inside
      rw [h.size] at hinside
      refine (hplaced.1 _ hfile).trans ?_
      rw [Nat.add_assoc, h.window _ (by omega)]
    next hzero => exact hplaced.2 _ (Nat.le_of_not_lt hzero) (by omega)

end

section
variable {D : Type} {drive : BiosDrive D}

theorem loadKernelFile_none {s t : Bios D} (h : loadKernelFile drive s = (none, t)) : t.slot = s.slot := by
  unfold loadKernelFile at h
  generalize readBootFiles (biosDevice drive s.drive) s.serial = r at h
  obtain ⟨files, serial⟩ := r
  cases files with
  | none =>
    cases h
    rfl
  | some files =>
    have hstart : (bootHealth drive files.layoutSafe { s with serial }).2.slot = s.slot := by
      simp only [bootHealth, healthLoad]
      split
      · rfl
      · split <;> rfl
    have hend := selectKernel_keeps (w := biosWorld drive files.fs files.config) (I := fun t : Bios D => t.slot = s.slot)
      (fun _ _ h => h)
      (fun r t h => by
        rw [← h]
        show (healthPersist drive r t).slot = t.slot
        unfold healthPersist
        split
        · rfl
        · simp only
          split <;> rfl)
      (fun slot t h => by
        rw [← h]
        obtain ⟨-, hread⟩ | ⟨-, r, m, hread, -⟩ := readKernelCandidate_cases drive files.fs (kernelPathForSlot files.config slot) t
        · exact congrArg (fun r => r.2.slot) hread
        · exact congrArg (fun r => r.2.slot) hread)
      files.config (bootHealth drive files.layoutSafe { s with serial }).1 hstart
    simp only at h
    split at h
    · cases h
      exact hend
    · cases h

/-- A boot that settles on a slot has loaded its file. -/
theorem slot_loaded {machine : Machine} {s : Bios D} {slot : BootSlot}
    (hslot : (stage2PmMain drive machine s).2.slot = some slot) (hnone : s.slot = none) :
    ∃ imageBytes config t, loadKernelFile drive (say "JOSHBOOT_FS_LOAD_BEGIN\n" (say "JOSHBOOT_CPU_LONG_MODE_OK\n" s)) =
        (some (imageBytes, config), t) ∧ t.slot = some slot ∧
      stage2PmMain drive machine s =
        if !hasElfMagic t.mem then halt "JOSHBOOT_ERROR_KERNEL_NOT_ELF\n" t else handOver machine imageBytes (some config) t := by
  have hsame : ∀ t : Bios D, t.slot = none → t.slot ≠ some slot := fun t h h' => by cases h.symm.trans h'
  unfold stage2PmMain at hslot ⊢
  split at hslot
  · exact absurd hslot (hsame _ hnone)
  next hcpu =>
  simp only at hslot
  split at hslot
  · exact absurd hslot (hsame _ hnone)
  next hstaging =>
  split at hslot
  · rw [(handOver_facts machine kernelImageBytes none (say "JOSHBOOT_CPU_LONG_MODE_OK\n" s)).2] at hslot
    exact absurd hslot (hsame s hnone)
  next hmagic =>
  split at hslot
  · exact absurd hslot (hsame _ hnone)
  next hfs =>
  rw [if_neg hcpu]
  simp only
  rw [if_neg hstaging, if_neg hmagic, if_neg hfs]
  cases hload : loadKernelFile drive (say "JOSHBOOT_FS_LOAD_BEGIN\n" (say "JOSHBOOT_CPU_LONG_MODE_OK\n" s)) with
  | mk kernel t =>
  rw [hload] at hslot
  cases kernel with
  | none => exact absurd hslot (hsame _ ((loadKernelFile_none hload).trans hnone))
  | some k =>
    refine ⟨k.1, k.2, t, rfl, ?_, rfl⟩
    simp only at hslot
    split at hslot
    · exact hslot
    · rwa [(handOver_facts machine k.1 (some k.2) t).2] at hslot

/-- On a drive whose health writes stay in their sectors: when a boot settles on a slot, that slot's path names a
kernel image on the disk as it was. If no segment goes over the staged file, the boot ends at the entry of that file
just when its segments fit into the kernel's window; and when it ends in the kernel, all segments of the file are at
their virtual addresses, byte for byte, zeros included. -/
theorem booted_kernel (hs : Steady drive) (p : PowerOn) (d : D) {slot : BootSlot}
    (hslot : (stage2PmMain drive p.machine (p.bios d)).2.slot = some slot) :
    ∃ files image, (readBootFiles (biosDevice drive d) []).1 = some files ∧
      kernelImage (biosDevice drive d) files.fs (kernelPathForSlot files.config slot) = some image ∧
      (Clear image →
        ((stage2PmMain drive p.machine (p.bios d)).1 = .handoff (Elf64.headerAt (bytesOf image)).entry ↔
          ∀ q ∈ segments (bytesOf image), FitsWindow q) ∧
        ∀ entry, (stage2PmMain drive p.machine (p.bios d)).1 = .handoff entry →
          Mapped image (stage2PmMain drive p.machine (p.bios d)).2.mem) := by
  obtain ⟨imageBytes, config, t, hload, hloaded, hmain⟩ := slot_loaded hslot rfl
  obtain ⟨files, slot', image, hfiles, rfl, hslot', hstaged⟩ := loadKernelFile_staged hs hload
  obtain rfl : slot = slot' := Option.some.inj (hloaded.symm.trans hslot')
  obtain ⟨sum, himage⟩ := hstaged.image
  refine ⟨files, image, ?_, hstaged.file, fun hclear => ?_⟩
  · rw [← hfiles]
    exact readBootFiles_fst _ _ _
  have hsaid : StagedImage (say "JOSHBOOT_ELF64_DETECTED\n" t).mem image imageBytes sum := himage
  have hline : ∀ c ∈ some files.config, c.commandLine.length ≤ 0x1000 := by
    rintro c ⟨⟩
    rw [(readBootFiles_accepted (Prod.fst_eq_iff.1 hfiles)).commandLine]
    decide
  rw [himage.magic, Bool.not_true, if_neg Bool.false_ne_true] at hmain
  rw [hmain, ← hsaid.loadElf_iff hclear, ← himage.entry]
  refine ⟨⟨fun hend => ?_, fun hfits => ?_⟩, fun entry hend => ?_⟩
  · obtain ⟨sum', s₂, helf, -, -⟩ := handOver_handoff (Prod.fst_eq_iff.1 hend)
    exact ⟨s₂, hsaid.loadElf_some helf ▸ helf⟩
  · obtain ⟨s₂, helf⟩ := hfits
    rw [handOver, helf]
  · obtain ⟨sum', s₂, helf, -, -, hmem⟩ := handOver_handoff (Prod.fst_eq_iff.1 hend)
    obtain rfl := hsaid.loadElf_some helf
    rw [hmem]
    exact hsaid.mapped p.machine hclear hline helf

end

/-! ### The kernel of the installed disk -/

theorem slot_installed :
    (stage2PmMain plainDrive pcPower.machine (pcPower.bios installedDisk)).2.slot = some .current := by
  have hstores : Stores plainDrive id installedDisk 1 installedDisk Health.healthDefault := keeps_installed.stores (by decide)
  have hpolicy : Policy.boot twoKernelConfig (kernelLoads installedDevice installedFiles) .fresh = (some .current, .fresh) :=
    Policy.boot_loads rfl (kernelLoads_installed (by decide))
  have hready : pcPower.Ready := ready_pcMachine
  rw [(boot_oneDisk plainDrive_reliable plainDrive_steady hready hstores keeps_installed.toInstalled).1]
  exact congrArg Prod.fst hpolicy

set_option maxRecDepth 2000 in
theorem kernelImage_installed :
    kernelImage installedDevice installedFiles.fs (kernelPathForSlot installedFiles.config .current) = some lowKernel := by
  obtain ⟨image, himage⟩ := Option.isSome_iff_exists.1 (@kernelLoads_installed .current (by decide))
  obtain ⟨-, kernel, hfile⟩ := kernelImage_some himage
  have hopen : Fat32.openPath installedDevice Fat32.smallVolume
      (Config.cString (kernelPathForSlot twoKernelConfig .current)) = .ok ⟨6, 124, 0x20⟩ :=
    @openPath_installed _ (Config.ascii "new.elf") (Config.ascii "NEW     ELF") _ (by decide) (by decide) (by decide)
  obtain rfl : kernel = ⟨6, 124, 0x20⟩ := Except.ok.inj (hfile.opened.symm.trans hopen)
  have hout : (Fat32.readFile installedVolume Fat32.smallVolume ⟨6, 124, 0x20⟩ 0 124).out = lowKernel := by decide
  have hread := @readFile_installed ⟨6, 124, 0x20⟩ 2565 (by decide) (by decide) (by decide)
  rw [← hout, ← congrArg Fat32.ReadResult.out hread]
  exact himage.trans (congrArg some hfile.contents.symm)

set_option maxRecDepth 2000 in
theorem segments_lowKernel :
    Clear lowKernel ∧ (∀ q ∈ segments (bytesOf lowKernel), FitsWindow q) ∧
      (Elf64.headerAt (bytesOf lowKernel)).entry = 0xffffffff80000000 := by
  unfold Clear FitsWindow
  decide

theorem booted_kernel_installed :
    (stage2PmMain plainDrive pcPower.machine (pcPower.bios installedDisk)).1 = .handoff 0xffffffff80000000 ∧
      Mapped lowKernel (stage2PmMain plainDrive pcPower.machine (pcPower.bios installedDisk)).2.mem := by
  obtain ⟨files, image, hfiles, himage, hmapped⟩ := booted_kernel plainDrive_steady pcPower installedDisk slot_installed
  obtain rfl : installedFiles = files := Option.some.inj (readBootFiles_installed.symm.trans hfiles)
  rw [kernelImage_installed] at himage
  obtain rfl : lowKernel = image := Option.some.inj himage
  obtain ⟨hclear, hfits, hentry⟩ := segments_lowKernel
  obtain ⟨hending, hmem⟩ := hmapped hclear
  have hhandoff := hending.2 hfits
  rw [hentry] at hhandoff
  exact ⟨hhandoff, hmem _ hhandoff⟩

end JoshBios.Stage2
