import JoshBios.BootPartition
import JoshBios.KernelImage
import JoshBios.RawWrites

/-! # The files do not depend on the health sectors

The loader writes two raw sectors of the disk that it reads its files from. It does so only when the partition table says
that no partition has them (`LayoutSafe`), and everything it reads but the table is in the partition it boots from. So a
health write, however it ends, changes nothing that this boot or a later one reads from the disk (`health_keeps_files`). -/

namespace JoshBios

namespace Partition

variable {d d' : BlockDevice} {P : Nat → Prop} (ha : BlockDevice.AlikeOn P d d')
include ha

theorem rangeValid_alike (a n : UInt64) : rangeValid d a n = rangeValid d' a n := by
  simp only [rangeValid, ha.size]

theorem entriesAvoid_alike (mbr : Bytes) (a n : UInt64) (k i : Nat) :
    entriesAvoid d mbr a n k i = entriesAvoid d' mbr a n k i := by
  induction k generalizing i with
  | zero => rfl
  | succ k ih => simp only [entriesAvoid, rangeValid_alike ha, ih]

theorem rangeIsUnallocated_alike (h0 : P 0) (a n : UInt64) :
    rangeIsUnallocated d a n = rangeIsUnallocated d' a n := by
  simp only [rangeIsUnallocated, rangeValid_alike ha, entriesAvoid_alike ha, ha.read 0 h0]

theorem findMbrEntry_alike {mbr : Bytes} {n i : Nat}
    (hgpt : ∀ j, i ≤ j → j < i + n → (mbrEntry mbr j).Used → (mbrEntry mbr j).type ≠ 0xee) (fallback : Option MbrEntry) :
    findMbrEntry d mbr n i fallback = findMbrEntry d' mbr n i fallback := by
  induction n generalizing i fallback with
  | zero => rfl
  | succ n ih =>
    have hrest := fun fallback => ih (i := i + 1) (fun j h₁ h₂ => hgpt j (by omega) (by omega)) fallback
    rw [findMbrEntry, findMbrEntry]
    simp only [hrest, rangeValid_alike ha]
    split
    · rfl
    split
    · rfl
    next hused =>
      rw [← MbrEntry.not_used, not_not] at hused
      rw [if_neg (hgpt i (Nat.le_refl i) (by omega) hused), if_neg (hgpt i (Nat.le_refl i) (by omega) hused)]

theorem findBoot_alike {a n : UInt64} (hfree : rangeIsUnallocated d a n = true) (h0 : P 0) : findBoot d = findBoot d' := by
  obtain ⟨-, -, mbr, hread, -, havoid⟩ := rangeIsUnallocated_eq_true_iff.1 hfree
  have hgpt : ∀ j, 0 ≤ j → j < 0 + mbrPartitionCount → (mbrEntry mbr j).Used → (mbrEntry mbr j).type ≠ 0xee :=
    fun j _ hj => (havoid j (by omega)).noGpt
  have hread' := (ha.read 0 h0).symm.trans hread
  simp only [findBoot, ha.size, hread, hread', findMbrEntry_alike ha hgpt]

omit ha in
theorem findMbrEntry_noGpt {mbr : Bytes} {n i : Nat}
    (hgpt : ∀ j, i ≤ j → j < i + n → (mbrEntry mbr j).Used → (mbrEntry mbr j).type ≠ 0xee) (fallback : Option MbrEntry)
    (p : Partition) : findMbrEntry d mbr n i fallback ≠ .error (.ok p) := by
  induction n generalizing i fallback with
  | zero => exact fun heq => by cases heq
  | succ n ih =>
    have hrest := fun fallback => ih (i := i + 1) (fun j h₁ h₂ => hgpt j (by omega) (by omega)) fallback
    rw [findMbrEntry]
    split
    · exact fun heq => by cases heq
    split
    · exact hrest fallback
    next hused =>
      rw [← MbrEntry.not_used, not_not] at hused
      rw [if_neg (hgpt i (Nat.le_refl i) (by omega) hused)]
      split
      · exact fun heq => by cases heq
      split
      · exact fun heq => by cases heq
      · exact hrest _

omit ha in
/-- The partition to boot from has no sector of a range that is free. -/
theorem findBoot_avoids {a n : UInt64} (hfree : rangeIsUnallocated d a n = true) {p : Partition} (hp : findBoot d = .ok p)
    {i : Nat} (hlow : p.firstLba.toNat ≤ i) (hhigh : i < p.firstLba.toNat + p.sectorCount.toNat) :
    ¬ (a.toNat ≤ i ∧ i < a.toNat + n.toNat) := by
  obtain ⟨-, -, mbr, hread, -, havoid⟩ := rangeIsUnallocated_eq_true_iff.1 hfree
  have hstart : Passed d mbr 0 none := Passed.zero
  obtain ⟨hmbr, -⟩ := findMbrEntry_ok (Nat.zero_add mbrPartitionCount) hstart
  have hnone := findMbrEntry_noGpt (d := d) (n := mbrPartitionCount) (i := 0)
    (fun j _ hj => (havoid j (by omega)).noGpt) none p
  rw [findBoot, ite_error_eq_ok, hread] at hp
  obtain ⟨-, hp⟩ := ite_error_eq_ok.1 hp.2
  cases hfind : findMbrEntry d mbr mbrPartitionCount 0 none with
  | error result =>
    rw [hfind] at hp
    exact absurd (hfind.trans (congrArg Except.error hp)) hnone
  | ok chosen =>
    rw [hfind] at hp
    cases chosen with
    | none => cases hp
    | some entry =>
      obtain ⟨k, rfl, hk⟩ := hmbr entry hfind
      have hapart := (havoid k hk.lt).apart hk.used
      cases hp
      rw [UInt32.toNat_toUInt64] at hlow hhigh
      rw [UInt32.toNat_toUInt64] at hhigh
      omega

end Partition

namespace Stage2

open Config (BootConfig isSet cString)
open Health (HealthRecord)

variable {D : Type} {drive : BiosDrive D}

/-! ### The drive beside the health sectors -/

/-- Two states of the drive that read alike outside the health sectors. -/
def SameFiles (drive : BiosDrive D) (d d' : D) : Prop :=
  ∀ lba, lba ≠ Health.healthLbaA → lba ≠ Health.healthLbaB → drive.read d lba 1 = drive.read d' lba 1

/-- A health write is seen in its own sector only. -/
def Steady (drive : BiosDrive D) : Prop := ∀ d odd data, SameFiles drive d (drive.write d (cellLba odd) 1 data).2

theorem SameFiles.trans {d d' d'' : D} (h : SameFiles drive d d') (h' : SameFiles drive d' d'') : SameFiles drive d d'' :=
  fun lba ha hb => (h lba ha hb).trans (h' lba ha hb)

/-- The sectors that are in no partition of a safe layout, the table apart. -/
def Elsewhere (i : Nat) : Prop := ¬ (Health.healthLbaA.toNat ≤ i ∧ i < Health.healthLbaA.toNat + (2 : UInt64).toNat)

theorem SameFiles.device {d d' : D} (h : SameFiles drive d d') :
    BlockDevice.AlikeOn Elsewhere (biosDevice drive d) (biosDevice drive d') := by
  refine ⟨rfl, fun lba hlba => ?_⟩
  by_cases hlt : lba < biosDeviceSectors
  · rw [biosDevice_blockRead drive d hlt, biosDevice_blockRead drive d' hlt]
    refine h lba ?_ ?_
    · rintro rfl
      exact hlba (by decide)
    · rintro rfl
      exact hlba (by decide)
  · -- outside the device there is nothing to read
    have hout : ∀ d, (biosDevice drive d).blockRead lba 1 = none := fun d => by
      rw [BlockDevice.blockRead, if_neg (by decide),
        if_pos (show lba ≥ (biosDevice drive d).sectorCount from UInt64.not_lt.1 hlt)]
    rw [hout, hout]

/-! ### The files -/

section Files
variable {d d' : BlockDevice} (ha : BlockDevice.AlikeOn Elsewhere d d')
  (hfree : Partition.rangeIsUnallocated d Health.healthLbaA 2 = true)
include ha hfree

theorem mount_elsewhere {p : Partition} (hp : Partition.findBoot d = .ok p) :
    Fat32.mount d p = Fat32.mount d' p ∧ ∀ fs, Fat32.mount d p = .ok fs →
      BlockDevice.AlikeOn (Fat32.Sector fs) d d' ∧ Fat32.Sound d fs := by
  have havoid := fun i => @Partition.findBoot_avoids d _ _ hfree p hp i
  refine ⟨Fat32.mount_alike (fun i hlow hhigh => havoid i hlow hhigh) ha, fun fs hm => ?_⟩
  obtain ⟨boot, -, hg⟩ := Fat32.mount_ok hm
  exact ⟨ha.mono fun i hi => havoid i (hg.sector hi).1 (hg.sector hi).2, hg.sound⟩

/-- What the loader learns before it looks at the health record. -/
theorem readBootFiles_elsewhere (serial : List String) : readBootFiles d serial = readBootFiles d' serial := by
  have h0 : Elsewhere 0 := by unfold Elsewhere; decide
  have hfind := Partition.findBoot_alike ha hfree h0
  have hlayout := Partition.rangeIsUnallocated_alike ha h0 Health.healthLbaA 2
  unfold readBootFiles
  rw [← hfind, ← hlayout]
  cases hp : Partition.findBoot d with
  | error status => rfl
  | ok p =>
    obtain ⟨hmount, hin⟩ := mount_elsewhere ha hfree hp
    simp only
    rw [← hmount]
    cases hm : Fat32.mount d p with
    | error status => rfl
    | ok fs =>
      obtain ⟨hsame, hsound⟩ := hin fs hm
      simp only [Fat32.openPath_alike hsound hsame, Fat32.readFile_alike hsound hsame]

theorem readBootFiles_sound {serial serial' : List String} {files : BootFiles}
    (h : readBootFiles d serial = (some files, serial')) :
    BlockDevice.AlikeOn (Fat32.Sector files.fs) d d' ∧ Fat32.Sound d files.fs := by
  unfold readBootFiles at h
  split at h
  · cases h
  next p hp =>
  simp only at h
  split at h
  · cases h
  next fs hm =>
  split at h
  · cases h
  split at h
  · cases h
  split at h
  · cases h
  split at h
  · cases h
  · cases h
    exact (mount_elsewhere ha hfree hp).2 fs hm

end Files

/-- Two disks that a boot reads the same files from. -/
structure SameBootFiles (drive : BiosDrive D) (d d' : D) : Prop where
  files : ∀ serial, readBootFiles (biosDevice drive d) serial = readBootFiles (biosDevice drive d') serial
  image : ∀ serial serial' files, readBootFiles (biosDevice drive d) serial = (some files, serial') →
    ∀ path, kernelImage (biosDevice drive d) files.fs path = kernelImage (biosDevice drive d') files.fs path

theorem SameBootFiles.refl (d : D) : SameBootFiles drive d d := ⟨fun _ => rfl, fun _ _ _ _ _ => rfl⟩

theorem SameBootFiles.trans {d d' d'' : D} (h : SameBootFiles drive d d') (h' : SameBootFiles drive d' d'') :
    SameBootFiles drive d d'' := by
  refine ⟨fun serial => (h.files serial).trans (h'.files serial), fun serial serial' files hf path => ?_⟩
  exact (h.image _ _ _ hf path).trans (h'.image _ _ _ ((h.files serial).symm.trans hf) path)

theorem SameFiles.bootFiles {d d' : D} (h : SameFiles drive d d')
    (hfree : Partition.rangeIsUnallocated (biosDevice drive d) Health.healthLbaA 2 = true) : SameBootFiles drive d d' := by
  refine ⟨readBootFiles_elsewhere h.device hfree, fun serial serial' files hf path => ?_⟩
  obtain ⟨halike, hsound⟩ := readBootFiles_sound h.device hfree hf
  exact kernelImage_alike hsound halike path

/-! ### A boot -/

theorem healthPersist_sameFiles (hs : Steady drive) (r : HealthRecord) (s : Bios D) :
    SameFiles drive s.drive (healthPersist drive r s).drive := by
  have hwrite := hs s.drive (TwoCopy.home version r) r.bytes
  rw [← healthLba_eq] at hwrite
  have hcopy : (healthWriteCopy drive s.drive (healthLba r) r).2 = (drive.write s.drive (healthLba r) 1 r.bytes).2 := by
    unfold healthWriteCopy
    generalize drive.write s.drive (healthLba r) 1 r.bytes = w
    obtain ⟨ok, d⟩ := w
    cases ok <;> rfl
  unfold healthPersist
  split
  · exact fun _ _ _ => rfl
  simp only
  split
  · rw [← hcopy] at hwrite
    exact hwrite
  · rw [← hcopy] at hwrite
    exact hwrite

theorem healthPersist_off {s : Bios D} (h : s.healthPersistentEnabled = false) (r : HealthRecord) :
    healthPersist drive r s = say "JOSHBOOT_HEALTH_VOLATILE_NO_WRITE\n" s := by
  rw [healthPersist, h]
  rfl

/-- The drive during a boot that started on `d`; nothing is written unless persisting is enabled. -/
structure DriveKept (drive : BiosDrive D) (d : D) (off : Prop) (s : Bios D) : Prop where
  files : SameFiles drive d s.drive
  unwritten : off → s.drive = d ∧ s.healthPersistentEnabled = false

theorem DriveKept.start (layoutSafe : Bool) (s : Bios D) :
    DriveKept drive s.drive (layoutSafe = false) (bootHealth drive layoutSafe s).2 := by
  have hd := bootHealth_drive drive layoutSafe s
  refine ⟨?_, fun hoff => ⟨hd, ?_⟩⟩
  · rw [hd]
    exact fun _ _ _ => rfl
  · rw [hoff]
    rfl

theorem DriveKept.persist (hs : Steady drive) {d : D} {off : Prop} {s : Bios D} (h : DriveKept drive d off s)
    (r : HealthRecord) : DriveKept drive d off (healthPersist drive r s) := by
  refine ⟨h.files.trans (healthPersist_sameFiles hs r s), fun hoff => ?_⟩
  obtain ⟨hd, hdis⟩ := h.unwritten hoff
  rw [healthPersist_off hdis]
  exact ⟨hd, hdis⟩

theorem DriveKept.read {d : D} {off : Prop} {s : Bios D} (h : DriveKept drive d off s) (fs : Fat32) (path : List UInt8) :
    DriveKept drive d off (readKernelCandidate drive fs path s).2 := by
  obtain ⟨hd, -, hon⟩ := readKernelCandidate_frame drive fs path s
  refine ⟨?_, fun hoff => ?_⟩
  · rw [hd]
    exact h.files
  · rw [hd, hon]
    exact h.unwritten hoff

theorem DriveKept.image {d : D} {s : Bios D} {files : BootFiles} {serial serial' : List String}
    (h : DriveKept drive d (files.layoutSafe = false) s)
    (hf : readBootFiles (biosDevice drive d) serial = (some files, serial')) (path : List UInt8) :
    kernelImage (biosDevice drive d) files.fs path = kernelImage (biosDevice drive s.drive) files.fs path := by
  cases hlayout : files.layoutSafe with
  | false => rw [(h.unwritten hlayout).1]
  | true => exact (h.files.bootFiles ((readBootFiles_layout hf).symm.trans hlayout)).image _ _ _ hf path

theorem loadKernelFile_bootFiles (hs : Steady drive) (s : Bios D) :
    SameBootFiles drive s.drive (loadKernelFile drive s).2.drive := by
  cases hf : readBootFiles (biosDevice drive s.drive) s.serial with
  | mk files serial =>
  cases files with
  | none =>
    have hd : (loadKernelFile drive s).2.drive = s.drive := by
      unfold loadKernelFile
      rw [hf]
    rw [hd]
    exact .refl _
  | some files =>
    have hstart : DriveKept drive s.drive (files.layoutSafe = false)
        (bootHealth drive files.layoutSafe { s with serial }).2 := .start files.layoutSafe { s with serial }
    have hend := selectKernel_keeps (w := biosWorld drive files.fs files.config)
      (I := DriveKept drive s.drive (files.layoutSafe = false)) (fun _ _ h => ⟨h.files, h.unwritten⟩)
      (fun r t h => h.persist hs r) (fun slot t h => h.read files.fs (kernelPathForSlot files.config slot)) files.config
      (bootHealth drive files.layoutSafe { s with serial }).1 hstart
    rw [loadKernelFile_drive drive hf]
    cases hlayout : files.layoutSafe with
    | false =>
      rw [hlayout] at hend
      rw [(hend.unwritten rfl).1]
      exact .refl _
    | true => exact (hlayout ▸ hend.files).bootFiles ((readBootFiles_layout hf).symm.trans hlayout)

theorem loadElfLoop_rest (imageBytes : UInt32) (n : Nat) (i : UInt16) (s : Bios D) :
    ∃ mem loaded, (loadElfLoop imageBytes n i s).2 = { s with mem, loaded } := by
  induction n generalizing i s with
  | zero => exact ⟨s.mem, s.loaded, rfl⟩
  | succ n ih =>
    rw [loadElfLoop]
    split
    · exact ⟨s.mem, s.loaded, rfl⟩
    simp only
    split
    · exact ⟨s.mem, s.loaded, rfl⟩
    split
    · exact ⟨s.mem, s.loaded, rfl⟩
    · obtain ⟨mem, loaded, hrest⟩ := ih (i + 1) _
      exact ⟨mem, loaded, hrest⟩

theorem loadElf_rest (imageBytes : UInt32) (s : Bios D) : ∃ mem loaded, (loadElf imageBytes s).2 = { s with mem, loaded } := by
  unfold loadElf
  split
  · exact ⟨s.mem, s.loaded, rfl⟩
  next summary _ =>
    split
    · exact ⟨s.mem, s.loaded, rfl⟩
    split
    · exact ⟨s.mem, s.loaded, rfl⟩
    have hloop := loadElfLoop_rest imageBytes summary.loadSegmentCount.toNat 0 s
    generalize loadElfLoop imageBytes summary.loadSegmentCount.toNat 0 s = r at hloop
    obtain ⟨ok, t⟩ := r
    cases ok with
    | false => exact hloop
    | true => exact hloop

theorem handOver_rest (machine : Machine) (imageBytes : UInt32) (config : Option BootConfig) (s : Bios D) :
    ∃ mem loaded serial, (handOver machine imageBytes config s).2 = { s with mem, loaded, serial } := by
  obtain ⟨mem, loaded, hload⟩ := loadElf_rest imageBytes (say "JOSHBOOT_ELF64_DETECTED\n" s)
  unfold handOver
  generalize loadElf imageBytes (say "JOSHBOOT_ELF64_DETECTED\n" s) = r at hload
  obtain ⟨sum, t⟩ := r
  simp only at hload
  subst hload
  cases sum with
  | none => exact ⟨_, _, _, rfl⟩
  | some sum => exact ⟨_, _, _, rfl⟩

theorem handOver_drive (machine : Machine) (imageBytes : UInt32) (config : Option BootConfig) (s : Bios D) :
    (handOver machine imageBytes config s).2.drive = s.drive := by
  obtain ⟨mem, loaded, serial, h⟩ := handOver_rest machine imageBytes config s
  rw [h]

/-- The disk and the health writes of a boot are those of `load_kernel_file`, if it gets that far. -/
theorem stage2PmMain_store (machine : Machine) (s : Bios D) :
    let r := (stage2PmMain drive machine s).2
    let k := (loadKernelFile drive (say "JOSHBOOT_FS_LOAD_BEGIN\n" (say "JOSHBOOT_CPU_LONG_MODE_OK\n" s))).2
    (r.drive = s.drive ∧ r.writes = s.writes) ∨ (r.drive = k.drive ∧ r.writes = k.writes) := by
  unfold stage2PmMain
  split
  · exact .inl ⟨rfl, rfl⟩
  simp only
  split
  · exact .inl ⟨rfl, rfl⟩
  split
  · obtain ⟨mem, loaded, serial, h⟩ := handOver_rest machine kernelImageBytes none (say "JOSHBOOT_CPU_LONG_MODE_OK\n" s)
    rw [h]
    exact .inl ⟨rfl, rfl⟩
  split
  · exact .inl ⟨rfl, rfl⟩
  refine .inr ?_
  generalize loadKernelFile drive (say "JOSHBOOT_FS_LOAD_BEGIN\n" (say "JOSHBOOT_CPU_LONG_MODE_OK\n" s)) = r
  obtain ⟨k, t⟩ := r
  cases k with
  | none => exact ⟨rfl, rfl⟩
  | some k =>
    simp only
    split
    · exact ⟨rfl, rfl⟩
    · obtain ⟨mem, loaded, serial, h⟩ := handOver_rest machine k.1 (some k.2) t
      rw [h]
      exact ⟨rfl, rfl⟩

theorem stage2PmMain_bootFiles (hs : Steady drive) (machine : Machine) (s : Bios D) :
    SameBootFiles drive s.drive (stage2PmMain drive machine s).2.drive := by
  rcases @stage2PmMain_store D drive machine s with ⟨hd, -⟩ | ⟨hd, -⟩
  · rw [hd]
    exact .refl _
  · rw [hd]
    exact loadKernelFile_bootFiles hs (say "JOSHBOOT_FS_LOAD_BEGIN\n" (say "JOSHBOOT_CPU_LONG_MODE_OK\n" s))

/-- The machine at power on, without its disk: what the firmware says, and what is in memory. -/
structure PowerOn where
  machine : Machine
  mem : Bytes

def PowerOn.bios (p : PowerOn) (d : D) : Bios D where
  drive := d
  mem := p.mem
  healthPersistentEnabled := false
  serial := []
  writes := []
  opened := []
  slot := none
  loaded := []

/-- The disk after some boots, the first of them first. -/
def boots (drive : BiosDrive D) (ps : List PowerOn) (d : D) : D :=
  ps.foldl (fun d p => (stage2PmMain drive p.machine (p.bios d)).2.drive) d

/-- On a drive whose health writes are seen in their own sector only, finished or not: after any number of boots on
any machines, the loader finds the configuration and the kernel images that it found before the first one, on whatever
disk that was. -/
theorem boots_keep_files (hs : Steady drive) (ps : List PowerOn) (d : D) : SameBootFiles drive d (boots drive ps d) := by
  induction ps generalizing d with
  | nil => exact .refl d
  | cons p ps ih => exact (stage2PmMain_bootFiles hs p.machine (p.bios d)).trans (ih _)

theorem plainDrive_steady : Steady plainDrive := by
  intro d odd data lba hA hB
  have hne : lba ≠ cellLba odd := by
    cases odd with
    | false => exact hA
    | true => exact hB
  simp [plainDrive, hne]

end Stage2

end JoshBios
