import JoshBios.HealthStore
import JoshBios.PartitionTable

/-! # Raw writes stay off user data

A boot writes to the drive without a file system, so what it writes, and where, must not depend on luck. `logged drive`
is `drive` with a log of every write that reaches it. Whatever is on the disk, `load_kernel_file` writes health records
to the two health sectors only, and that only when the partition table says that they are nobody's and one of them is a
health record already (`raw_writes_safe`). -/

namespace JoshBios

namespace Stage2

open Health (HealthRecord valid recordAt)
open JoshBios.Partition (hasSignature mbrEntry mbrPartitionCount)

variable {D : Type}

/-- One `bios_block_write`. -/
structure DriveWrite where
  lba : UInt64
  count : UInt32
  data : Bytes

/-- The drive with a log of the writes, newest first. -/
def logged (drive : BiosDrive D) : BiosDrive (D × List DriveWrite) where
  read d lba count := drive.read d.1 lba count
  write d lba count data :=
    ((drive.write d.1 lba count data).1, (drive.write d.1 lba count data).2, ⟨lba, count, data⟩ :: d.2)

/-- A health record, and zeros after it, to one of the two health sectors. -/
structure DriveWrite.IsHealth (w : DriveWrite) : Prop where
  lba : w.lba = Health.healthLbaA ∨ w.lba = Health.healthLbaB
  count : w.count = 1
  record : valid (recordAt w.data) = true
  zeros : ∀ i, 56 ≤ i → w.data i = 0

/-- The table on the disk is in order, and the two health sectors are in no partition. -/
structure LayoutSafe (drive : BiosDrive D) (d : D) : Prop where
  not_mbr : 0 < Health.healthLbaA.toNat
  table : ∃ mbr, drive.read d 0 1 = some mbr ∧ hasSignature mbr = true ∧
    ∀ j < mbrPartitionCount, (mbrEntry mbr j).Avoids biosDeviceSectors.toNat Health.healthLbaA.toNat 2

/-- One of the two sectors is a health record. -/
def Provisioned (drive : BiosDrive D) (d : D) : Prop :=
  ∃ odd sector, drive.read d (cellLba odd) 1 = some sector ∧ valid (recordAt sector) = true

/-! ### What is read -/

theorem biosDevice_blockRead (drive : BiosDrive D) (d : D) {lba : UInt64} (h : lba < biosDeviceSectors) :
    (biosDevice drive d).blockRead lba 1 = drive.read d lba 1 := by
  have hbounce : biosBlockReadBounced drive d lba 1 = drive.read d lba 1 := by
    show bounceLoop drive d 1 lba 1 0 (fun _ => 0) = _
    rw [bounceLoop, if_neg (by decide)]
    simp only [show (if (1 : UInt32) > biosBounceSectors then biosBounceSectors else 1) = 1 from rfl]
    cases drive.read d lba 1 with
    | none => rfl
    | some bytes => simp [bounceLoop]
  rw [Partition.blockRead_of_lt (UInt64.lt_iff_toNat_lt.1 h)]
  exact hbounce

theorem layoutSafe_of_unallocated {drive : BiosDrive D} {d : D}
    (h : Partition.rangeIsUnallocated (biosDevice drive d) Health.healthLbaA 2 = true) : LayoutSafe drive d := by
  obtain ⟨-, hpos, mbr, hread, hsig, havoid⟩ := Partition.rangeIsUnallocated_eq_true_iff.1 h
  rw [biosDevice_blockRead drive d (by decide)] at hread
  exact ⟨hpos, mbr, hread, hsig, havoid⟩

theorem readBootFiles_layout {device : BlockDevice} {serial serial' : List String} {files : BootFiles}
    (h : readBootFiles device serial = (some files, serial')) :
    files.layoutSafe = Partition.rangeIsUnallocated device Health.healthLbaA 2 := by
  unfold readBootFiles at h
  split at h
  · cases h
  simp only at h
  split at h
  · cases h
  split at h
  · cases h
  split at h
  · cases h
  split at h
  · cases h
  split at h
  · cases h
  · cases h
    rfl

theorem bootHealth_valid (drive : BiosDrive D) (layoutSafe : Bool) (s : Bios D) :
    valid (bootHealth drive layoutSafe s).1 = true := by
  unfold bootHealth
  split
  · exact Health.valid_healthDefault
  unfold healthLoad
  simp only
  split
  · exact Health.valid_healthDefault
  · exact Health.valid_choose _ _

theorem bootHealth_enabled {drive : BiosDrive D} {layoutSafe : Bool} {s : Bios D}
    (h : (bootHealth drive layoutSafe s).2.healthPersistentEnabled = true) :
    layoutSafe = true ∧ Provisioned drive s.drive := by
  -- a copy counts when it was read and is valid
  have hread : ∀ odd, (healthReadCopy drive s.drive (cellLba odd) zeroRecord).1 = true → Provisioned drive s.drive := by
    intro odd hok
    unfold healthReadCopy at hok
    split at hok
    · cases hok
    next sector hsec => exact ⟨odd, sector, hsec, hok⟩
  cases layoutSafe with
  | false => cases h
  | true =>
    refine ⟨rfl, ?_⟩
    simp only [bootHealth, healthLoad, Bool.not_true, Bool.false_eq_true, if_false] at h
    split at h
    · cases h
    next hsome =>
      simp only [Bool.and_eq_true, Bool.not_eq_true', not_and, Bool.not_eq_false] at hsome
      by_cases ha : (healthReadCopy drive s.drive Health.healthLbaA zeroRecord).1 = true
      · exact hread false ha
      · exact hread true (hsome (Bool.eq_false_iff.2 ha))

theorem bootHealth_drive (drive : BiosDrive D) (layoutSafe : Bool) (s : Bios D) :
    (bootHealth drive layoutSafe s).2.drive = s.drive := by
  cases layoutSafe with
  | false => rfl
  | true => exact (healthLoad_frame drive s).1

/-! ### What is written -/

section Log
variable (drive : BiosDrive D)

theorem isHealth_bytes {r : HealthRecord} (hv : valid r = true) : DriveWrite.IsHealth ⟨healthLba r, 1, r.bytes⟩ := by
  refine ⟨?_, rfl, ?_, fun i hi => ?_⟩
  · show healthLba r = _ ∨ healthLba r = _
    unfold healthLba
    split
    · exact Or.inr rfl
    · exact Or.inl rfl
  · show valid (recordAt r.bytes) = true
    rw [Health.recordAt_bytes]
    exact hv
  · have hlen : (packBytes (r.fields ++ [(4, r.checksum.toNat)])).length = Health.checksumOffset + 4 := by
      rw [packBytes_append, List.length_append, r.length_fields]
      rfl
    exact List.getD_eq_default _ _ (by rw [hlen]; exact hi)

theorem healthWriteCopy_log (d : D × List DriveWrite) (lba : UInt64) (r : HealthRecord) :
    (healthWriteCopy (logged drive) d lba r).2.2 = ⟨lba, 1, r.bytes⟩ :: d.2 := by
  have hlog : ((logged drive).write d lba 1 r.bytes).2.2 = ⟨lba, 1, r.bytes⟩ :: d.2 := rfl
  unfold healthWriteCopy
  split
  next d' hw =>
    rw [hw] at hlog
    exact hlog
  next d' hw =>
    rw [hw] at hlog
    exact hlog

theorem healthPersist_log (r : HealthRecord) (s : Bios (D × List DriveWrite)) :
    (healthPersist (logged drive) r s).drive.2 =
      if s.healthPersistentEnabled then ⟨healthLba r, 1, r.bytes⟩ :: s.drive.2 else s.drive.2 := by
  have hlog := healthWriteCopy_log drive s.drive (healthLba r) r
  unfold healthPersist
  cases s.healthPersistentEnabled with
  | false => rfl
  | true =>
    simp only [Bool.not_true, Bool.false_eq_true, if_false, if_true]
    split
    · exact hlog
    · exact hlog

/-- The writes since the log was `log`. -/
def Since (log : List DriveWrite) (s : Bios (D × List DriveWrite)) : Prop :=
  ∃ new, s.drive.2 = new ++ log ∧ ∀ w ∈ new, w.IsHealth

theorem Since.persist {log : List DriveWrite} {s : Bios (D × List DriveWrite)} (h : Since log s) {r : HealthRecord}
    (hv : valid r = true) : Since log (healthPersist (logged drive) r s) := by
  obtain ⟨new, hnew, hall⟩ := h
  have hlog := healthPersist_log drive r s
  rw [hnew] at hlog
  split at hlog
  · refine ⟨⟨healthLba r, 1, r.bytes⟩ :: new, hlog, fun w hw => ?_⟩
    rcases List.mem_cons.1 hw with rfl | hw
    · exact isHealth_bytes hv
    · exact hall w hw
  · exact ⟨new, hlog, hall⟩

theorem healthPersist_disabled {s : Bios (D × List DriveWrite)} (h : s.healthPersistentEnabled = false) (r : HealthRecord) :
    (healthPersist (logged drive) r s).drive = s.drive ∧
      (healthPersist (logged drive) r s).healthPersistentEnabled = false := by
  simp only [healthPersist, h, Bool.not_false, if_true]
  exact ⟨rfl, h⟩

theorem selectKernel_disabled {s : Bios (D × List DriveWrite)} (h : s.healthPersistentEnabled = false) (fs : Fat32)
    (config : Config.BootConfig) (health : HealthRecord) :
    (selectKernel (biosWorld (logged drive) fs config) config health s).world.drive = s.drive := by
  have hkeep := selectKernel_keeps (w := biosWorld (logged drive) fs config)
    (I := fun s' => s'.drive = s.drive ∧ s'.healthPersistentEnabled = false) ?_ ?_ ?_ config health ⟨rfl, h⟩
  · exact hkeep.1
  · rintro message s' hs'
    exact hs'
  · rintro r s' ⟨hd, hoff⟩
    obtain ⟨h₁, h₂⟩ := healthPersist_disabled drive hoff r
    exact ⟨h₁.trans hd, h₂⟩
  · rintro slot s' ⟨hd, hoff⟩
    obtain ⟨h₁, -, h₃⟩ := readKernelCandidate_frame (logged drive) fs (kernelPathForSlot config slot) s'
    exact ⟨h₁.trans hd, h₃.trans hoff⟩

theorem selectKernel_since (s : Bios (D × List DriveWrite)) (fs : Fat32) (config : Config.BootConfig)
    {health : HealthRecord} (hv : valid health = true) :
    Since s.drive.2 (selectKernel (biosWorld (logged drive) fs config) config health s).world := by
  refine selectKernel_valid (w := biosWorld (logged drive) fs config) (I := Since s.drive.2) ?_ ?_ ?_ config hv
    ⟨[], (List.nil_append _).symm, nofun⟩
  · rintro message s' hs'
    exact hs'
  · rintro r s' hr hs'
    exact hs'.persist drive hr
  · rintro slot s' ⟨new, hnew, hall⟩
    obtain ⟨h₁, -, -⟩ := readKernelCandidate_frame (logged drive) fs (kernelPathForSlot config slot) s'
    refine ⟨new, ?_, hall⟩
    rw [← hnew]
    exact congrArg Prod.snd h₁

theorem loadKernelFile_drive {s : Bios D} {files : BootFiles} {serial : List String}
    (h : readBootFiles (biosDevice drive s.drive) s.serial = (some files, serial)) :
    (loadKernelFile drive s).2.drive =
      (selectKernel (biosWorld drive files.fs files.config) files.config (bootHealth drive files.layoutSafe { s with serial }).1
        (bootHealth drive files.layoutSafe { s with serial }).2).world.drive := by
  unfold loadKernelFile
  rw [h]
  simp only
  generalize selectKernel (biosWorld drive files.fs files.config) files.config _ _ = r
  split
  · rfl
  · rfl

/-- A boot that does not come to a health record to persist leaves the drive alone. -/
theorem loadKernelFile_disabled {s : Bios (D × List DriveWrite)}
    (h : ∀ files serial, readBootFiles (biosDevice (logged drive) s.drive) s.serial = (some files, serial) →
      (bootHealth (logged drive) files.layoutSafe { s with serial }).2.healthPersistentEnabled = false) :
    (loadKernelFile (logged drive) s).2.drive = s.drive := by
  match hfiles : readBootFiles (biosDevice (logged drive) s.drive) s.serial with
  | (none, serial) =>
    unfold loadKernelFile
    rw [hfiles]
  | (some files, serial) =>
    rw [loadKernelFile_drive (logged drive) hfiles, selectKernel_disabled drive (h files serial hfiles),
      bootHealth_drive (logged drive) files.layoutSafe { s with serial }]

/-- On every disk, every write of `load_kernel_file` is a health record to one of the two health sectors; and there is
a write only if the partition table is in order, the two sectors are in no partition, and one of them was a health
record before. -/
theorem raw_writes_safe (s : Bios (D × List DriveWrite)) :
    ∃ new, (loadKernelFile (logged drive) s).2.drive.2 = new ++ s.drive.2 ∧ (∀ w ∈ new, w.IsHealth) ∧
      (new ≠ [] → LayoutSafe drive s.drive.1 ∧ Provisioned drive s.drive.1) := by
  by_cases hoff : ∀ files serial, readBootFiles (biosDevice (logged drive) s.drive) s.serial = (some files, serial) →
      (bootHealth (logged drive) files.layoutSafe { s with serial }).2.healthPersistentEnabled = false
  · refine ⟨[], ?_, nofun, fun h => absurd rfl h⟩
    rw [loadKernelFile_disabled drive hoff]
    rfl
  · push Not at hoff
    obtain ⟨files, serial, hfiles, hon⟩ := hoff
    obtain ⟨hsafe, odd, sector, hread, hsector⟩ := bootHealth_enabled ((Bool.not_eq_false _).mp hon)
    obtain ⟨hpos, htable⟩ := layoutSafe_of_unallocated ((readBootFiles_layout hfiles).symm.trans hsafe)
    obtain ⟨new, hnew, hall⟩ := selectKernel_since drive (bootHealth (logged drive) files.layoutSafe { s with serial }).2
      files.fs files.config (bootHealth_valid (logged drive) files.layoutSafe { s with serial })
    rw [bootHealth_drive (logged drive) files.layoutSafe { s with serial }] at hnew
    rw [loadKernelFile_drive (logged drive) hfiles]
    exact ⟨new, hnew, hall, fun _ => ⟨⟨hpos, htable⟩, odd, sector, hread, hsector⟩⟩

end Log

end Stage2

end JoshBios
