import JoshBios.BootPartition
import JoshBios.FatErrors
import JoshBios.FatPath
import JoshBios.FirstAttempt
import JoshBios.RawWrites

/-! # GPT media

A GPT keeps metadata outside its protective MBR entry, so raw health sectors are not to be written on media with such an
entry. Both scans of the MBR skip an entry without sectors before they look at its type: an entry of type `0xee` keeps
`load_kernel_file` from writing iff it has sectors, or a status that no entry may have (`gpt_media_not_written_iff`). -/

namespace JoshBios.Stage2

open JoshBios.Partition (MbrEntry mbrEntry mbrPartitionCount)
open Health (BootSlot)

variable {D : Type}

/-! ### Entries that keep a boot from writing -/

/-- A boot writes only if the layout is safe. -/
theorem loadKernelFile_unwritten {drive : BiosDrive D} {s : Bios (D × List DriveWrite)}
    (h : ¬ LayoutSafe drive s.drive.1) : (loadKernelFile (logged drive) s).2.drive.2 = s.drive.2 := by
  refine congrArg Prod.snd (loadKernelFile_disabled drive fun files serial hfiles => ?_)
  by_contra hon
  obtain ⟨hsafe, -⟩ := bootHealth_enabled ((Bool.not_eq_false _).mp hon)
  obtain ⟨hpos, htable⟩ := layoutSafe_of_unallocated ((readBootFiles_layout hfiles).symm.trans hsafe)
  exact h ⟨hpos, htable⟩

theorem not_layoutSafe {drive : BiosDrive D} {d : D} {mbr : Bytes} (hread : drive.read d 0 1 = some mbr) {j : Nat}
    (hj : j < mbrPartitionCount) (htype : (mbrEntry mbr j).type = 0xee)
    (h : (mbrEntry mbr j).count ≠ 0 ∨ (mbrEntry mbr j).status ≠ 0x00 ∧ (mbrEntry mbr j).status ≠ 0x80) :
    ¬ LayoutSafe drive d := by
  rintro ⟨-, mbr', hread', -, havoids⟩
  obtain rfl : mbr = mbr' := Option.some.inj (hread.symm.trans hread')
  have havoid := havoids j hj
  rcases h with hcount | ⟨h00, h80⟩
  · exact havoid.noGpt ⟨by rw [htype]; decide, hcount⟩ htype
  · exact havoid.status.elim h00 h80

theorem bootHealth_of_valid {drive : BiosDrive D} {s : Bios D} {a b : Bytes}
    (ha : drive.read s.drive Health.healthLbaA 1 = some a) (hb : drive.read s.drive Health.healthLbaB 1 = some b)
    (hvalid : Health.valid (Health.recordAt b) = true) :
    (bootHealth drive true s).1 = (Health.choose (Health.recordAt a) (Health.recordAt b)).2 ∧
      (bootHealth drive true s).2.healthPersistentEnabled = true := by
  simp only [bootHealth, healthLoad, healthReadCopy, ha, hb, hvalid, Bool.not_true, Bool.and_false, Bool.false_eq_true,
    if_false]
  exact ⟨trivial, rfl⟩

/-- An attempt that changes the record is written, whatever happens to it afterwards. -/
theorem selectKernel_written (drive : BiosDrive D) (fs : Fat32) (config : Config.BootConfig)
    {health : Health.HealthRecord} {s : Bios (D × List DriveWrite)} (hon : s.healthPersistentEnabled = true)
    (hgen : (Health.prepareAttempt health Health.healthMaxAttempts).2.generation ≠ health.generation) :
    (selectKernel (biosWorld (logged drive) fs config) config health s).world.drive.2 ≠ [] := by
  have hkeep (r : Health.HealthRecord) (s : Bios (D × List DriveWrite)) (h : s.drive.2 ≠ []) :
      (healthPersist (logged drive) r s).drive.2 ≠ [] := by
    rw [healthPersist_log]
    split
    · exact List.cons_ne_nil _ _
    · exact h
  match hp : Health.prepareAttempt health Health.healthMaxAttempts with
  | (slot, prepared) =>
    rw [hp] at hgen
    have hstart : (if prepared.generation ≠ health.generation then healthPersist (logged drive) prepared s
        else s).drive.2 ≠ [] := by
      rw [if_pos hgen, healthPersist_log, if_pos hon]
      exact List.cons_ne_nil _ _
    obtain ⟨-, -, hne⟩ := selectKernel_rule (w := biosWorld (logged drive) fs config) config
      (I := fun _ _ s => s.drive.2 ≠ []) (fun _ _ _ _ h => h)
      (fun slot _ s h => (readKernelCandidate_frame (logged drive) fs (kernelPathForSlot config slot) s).1.symm ▸ h)
      (fun _ _ _ _ s _ h _ => hkeep _ s h) hp hstart
    exact hne

theorem loadKernelFile_written {drive : BiosDrive D} {s : Bios (D × List DriveWrite)} {files : BootFiles}
    {serial : List String}
    (hfiles : readBootFiles (biosDevice (logged drive) s.drive) s.serial = (some files, serial))
    {health : Health.HealthRecord}
    (hhealth : ∀ t : Bios (D × List DriveWrite), t.drive = s.drive →
      (bootHealth (logged drive) files.layoutSafe t).1 = health ∧
        (bootHealth (logged drive) files.layoutSafe t).2.healthPersistentEnabled = true)
    (hgen : (Health.prepareAttempt health Health.healthMaxAttempts).2.generation ≠ health.generation) :
    (loadKernelFile (logged drive) s).2.drive.2 ≠ [] := by
  obtain ⟨hrecord, hon⟩ := hhealth { s with serial } rfl
  rw [← hrecord] at hgen
  rw [loadKernelFile_drive (logged drive) hfiles]
  exact selectKernel_written drive files.fs files.config hon hgen

/-! ### A disk that is written

The disk boots from its other entry, whatever the one of type `0xee` says; its health record is on trial, so the boot has
an attempt to record. -/

def entryBytes (e : MbrEntry) : List UInt8 :=
  packBytes [(1, e.status.toNat), (3, 0), (1, e.type.toNat), (3, 0), (4, e.first.toNat), (4, e.count.toNat)]

/-- The MBR with entry `j` replaced. -/
def setEntry (mbr : Bytes) (j : Nat) (e : MbrEntry) : Bytes := mbr.write (446 + j * 16) (entryBytes e)

theorem length_entryBytes (e : MbrEntry) : (entryBytes e).length = 16 := length_packBytes _

theorem setEntry_inside {mbr : Bytes} {j k : Nat} {e : MbrEntry} (hk : k < 16) :
    setEntry mbr j e (446 + j * 16 + k) = bytesOf (entryBytes e) k :=
  Bytes.write_inside _ (by rw [length_entryBytes]; exact hk)

theorem mbrEntry_congr {mbr mbr' : Bytes} {i o : Nat} (h : ∀ k < 16, mbr (446 + i * 16 + k) = mbr' (o + k)) :
    mbrEntry mbr i = { status := mbr' o, type := mbr' (o + 4), first := le32 mbr' (o + 8), count := le32 mbr' (o + 12) } := by
  have hle (n : Nat) (hn : n + 4 ≤ 16) : le32 mbr (446 + i * 16 + n) = le32 mbr' (o + n) :=
    congrArg UInt32.ofNat (leNat_of_window fun k hk => by
      rw [Nat.add_assoc _ n k, Nat.add_assoc o n k, h _ (by omega)])
  rw [mbrEntry]
  simp only [Partition.mbrPartitionOffset, Partition.mbrPartitionSize]
  rw [hle 8 (by decide), hle 12 (by decide), show mbr (446 + i * 16) = mbr' o from h 0 (by decide), h 4 (by decide)]

theorem mbrEntry_setEntry_self (mbr : Bytes) (j : Nat) (e : MbrEntry) : mbrEntry (setEntry mbr j e) j = e := by
  have hbytes (k : Nat) (hk : k < 16) :
      setEntry mbr j e (446 + j * 16 + k) = bytesOf (entryBytes e) (0 + k) := by
    rw [Nat.zero_add]
    exact setEntry_inside hk
  have hstatus : bytesOf (entryBytes e) 0 = e.status := UInt8.ofNat_toNat
  have htype : bytesOf (entryBytes e) (0 + 4) = e.type := UInt8.ofNat_toNat
  have hfirst : le32 (bytesOf (entryBytes e)) (0 + 8) = e.first :=
    le32_packBytes [(1, e.status.toNat), (3, 0), (1, e.type.toNat), (3, 0)] e.first _ rfl
  have hcount : le32 (bytesOf (entryBytes e)) (0 + 12) = e.count :=
    le32_packBytes [(1, e.status.toNat), (3, 0), (1, e.type.toNat), (3, 0), (4, e.first.toNat)] e.count _ rfl
  rw [mbrEntry_congr hbytes, hstatus, htype, hfirst, hcount]

theorem mbrEntry_setEntry_ne (mbr : Bytes) {i j : Nat} (h : i ≠ j) (e : MbrEntry) :
    mbrEntry (setEntry mbr j e) i = mbrEntry mbr i := by
  have hout (k : Nat) (hk : k < 16) : setEntry mbr j e (446 + i * 16 + k) = mbr (446 + i * 16 + k) := by
    have hlen := length_entryBytes e
    rcases Nat.lt_or_gt_of_ne h with hlt | hgt
    · exact Bytes.write_of_lt _ _ (by omega)
    · exact Bytes.write_of_le _ _ (by omega)
  rw [mbrEntry_congr hout]
  rfl

/-- The entry that the disk boots from: the partition of the smallest volume. -/
def volumeEntry : MbrEntry := ⟨0x80, 0x0c, 2048, 66038⟩

/-- The place of `volumeEntry`, next to an entry `j`. -/
def volumeIndex (j : Nat) : Nat := if j = 0 then 1 else 0

def blankMbr : Bytes := fun i => if i = 510 then 0x55 else if i = 511 then 0xaa else 0

/-- An MBR with `e` as its entry `j`. -/
def mbrWith (j : Nat) (e : MbrEntry) : Bytes := setEntry (setEntry blankMbr (volumeIndex j) volumeEntry) j e

def directoryEntry (name : String) (attributes cluster size : Nat) : Bytes :=
  bytesOf (Config.ascii name ++ packBytes [(1, attributes), (14, 0), (2, cluster), (4, size)])

/-- The sectors of the disk after the first one: the health record, and a volume with a configuration. -/
def volumeSector (lba : UInt64) : Bytes :=
  if lba = Health.healthLbaB then begunUpdate.bytes
  else if lba = 2048 then Fat32.bootSector
  else if lba = 2561 then directoryEntry "BOOT       " 0x10 3 0
  else if lba = 2562 then directoryEntry "JOSH       " 0x10 4 0
  else if lba = 2563 then directoryEntry "BOOT    CFG" 0 5 loneKernelText.length
  else if lba = 2564 then bytesOf loneKernelText
  else fun _ => 0

def gptDisk (j : Nat) (e : MbrEntry) : Sectors := fun lba => if lba = 0 then mbrWith j e else volumeSector lba

def gptBios (j : Nat) (e : MbrEntry) : Bios (Sectors × List DriveWrite) where
  drive := (gptDisk j e, [])
  mem := fun _ => 0
  healthPersistentEnabled := false
  serial := []
  writes := []
  opened := []
  slot := none
  loaded := []

abbrev gptDevice (j : Nat) (e : MbrEntry) : BlockDevice := biosDevice (logged plainDrive) (gptBios j e).drive

/-- The device without an MBR. -/
def volumeDevice : BlockDevice where
  sectorCount := biosDeviceSectors
  read lba _ := some (volumeSector lba)

section
variable {j : Nat} {e : MbrEntry}

theorem gptDevice_mbr : (gptDevice j e).blockRead 0 1 = some (mbrWith j e) := biosDevice_blockRead _ _ (by decide)

theorem gptDevice_volume {lba : UInt64} (h0 : lba ≠ 0) (h : lba < biosDeviceSectors) :
    (gptDevice j e).blockRead lba 1 = volumeDevice.blockRead lba 1 := by
  have hdisk : (logged plainDrive).read (gptBios j e).drive lba 1 = some (volumeSector lba) :=
    congrArg some (if_neg h0)
  rw [biosDevice_blockRead _ _ h, hdisk, Partition.blockRead_of_lt (UInt64.lt_iff_toNat_lt.1 h)]
  rfl

theorem mbrEntry_mbrWith {i : Nat} (hi : i < 4) : mbrEntry (mbrWith j e) i =
    if i = j then e else if i = volumeIndex j then volumeEntry else ⟨0, 0, 0, 0⟩ := by
  have hzero (k : Nat) (hk : k < 16) : blankMbr (446 + i * 16 + k) = (fun _ => 0 : Bytes) (0 + k) := by
    rw [blankMbr, if_neg (by omega), if_neg (by omega)]
  have hblank : mbrEntry blankMbr i = ⟨0, 0, 0, 0⟩ := by
    rw [@mbrEntry_congr blankMbr (fun _ => 0) i 0 hzero]
    rfl
  rw [mbrWith]
  by_cases hij : i = j
  · rw [if_pos hij, hij, mbrEntry_setEntry_self]
  rw [if_neg hij, mbrEntry_setEntry_ne _ hij]
  by_cases hiv : i = volumeIndex j
  · rw [if_pos hiv, hiv, mbrEntry_setEntry_self]
  · rw [if_neg hiv, mbrEntry_setEntry_ne _ hiv, hblank]

theorem hasSignature_mbrWith (hj : j < 4) : Partition.hasSignature (mbrWith j e) = true := by
  have hout (i : Nat) (hi : i = 510 ∨ i = 511) : mbrWith j e i = blankMbr i := by
    have hlen := length_entryBytes e
    have hlen' := length_entryBytes volumeEntry
    have hv : volumeIndex j ≤ 1 := by
      rw [volumeIndex]
      split <;> omega
    rw [mbrWith, setEntry, Bytes.write_of_le _ _ (by omega), setEntry, Bytes.write_of_le _ _ (by omega)]
  rw [Partition.hasSignature]
  change (mbrWith j e 510 == 0x55 && mbrWith j e 511 == 0xaa) = true
  rw [hout 510 (Or.inl rfl), hout 511 (Or.inr rfl)]
  rfl

/-! ### Its boot -/

section
variable (hj : j < 4) (hcount : e.count = 0) (hstatus : e.status = 0x00 ∨ e.status = 0x80)
include hj hcount hstatus

theorem findMbrEntry_gptDevice :
    Partition.findMbrEntry (gptDevice j e) (mbrWith j e) 4 0 none = .ok (some volumeEntry) := by
  -- the scan stops at `volumeEntry`
  have hvolume (n i : Nat) (hi : mbrEntry (mbrWith j e) i = volumeEntry) :
      Partition.findMbrEntry (gptDevice j e) (mbrWith j e) (n + 1) i none = .ok (some volumeEntry) := by
    have hvalid : Partition.rangeValid (gptDevice j e) volumeEntry.first.toUInt64 volumeEntry.count.toUInt64 = true :=
      Partition.rangeValid_iff.2 ⟨by decide, show _ ≤ biosDeviceSectors.toNat by decide⟩
    rw [Partition.findMbrEntry, hi, if_neg (by decide), if_neg (by decide), if_neg (by decide), hvalid]
    rfl
  by_cases hzero : j = 0
  · subst hzero
    have he : mbrEntry (mbrWith 0 e) 0 = e := mbrEntry_mbrWith (by decide)
    have hskip : ¬ (e.status ≠ 0x00 ∧ e.status ≠ 0x80) := fun h => hstatus.elim h.1 h.2
    rw [Partition.findMbrEntry, he]
    simp only [if_neg hskip, hcount, or_true, if_true]
    exact hvolume 2 1 ((mbrEntry_mbrWith (by decide)).trans rfl)
  · refine hvolume 3 0 ((mbrEntry_mbrWith (by decide)).trans ?_)
    rw [if_neg (Ne.symm hzero), volumeIndex, if_neg hzero]
    rfl

theorem findBoot_gptDevice : Partition.findBoot (gptDevice j e) = .ok (Partition.mbrPartition volumeEntry) := by
  have hsectors : (gptDevice j e).sectorCount = biosDeviceSectors := rfl
  rw [Partition.findBoot, hsectors, if_neg (by decide), gptDevice_mbr]
  simp only [hasSignature_mbrWith hj, Bool.not_true, Bool.false_eq_true, if_false]
  rw [show mbrPartitionCount = 4 from rfl, findMbrEntry_gptDevice hj hcount hstatus]
  rfl

theorem layoutSafe_gptDevice : Partition.rangeIsUnallocated (gptDevice j e) Health.healthLbaA 2 = true := by
  have hsectors : (gptDevice j e).sectorCount = biosDeviceSectors := rfl
  refine Partition.rangeIsUnallocated_eq_true_iff.2 ⟨?_, by decide, mbrWith j e, gptDevice_mbr, hasSignature_mbrWith hj,
    fun i hi => ?_⟩ <;> rw [hsectors]
  · decide
  rw [mbrEntry_mbrWith hi]
  split
  · exact ⟨hstatus, fun hused => absurd hcount hused.2, fun hused => absurd hcount hused.2, fun hused => absurd hcount hused.2⟩
  · split
    · exact ⟨by decide, fun _ => by decide, fun _ => by decide, fun _ => by decide⟩
    · exact ⟨by decide, fun hused => absurd rfl hused.2, fun hused => absurd rfl hused.2, fun hused => absurd rfl hused.2⟩

end

theorem mount_gptDevice : Fat32.mount (gptDevice j e) (Partition.mbrPartition volumeEntry) = .ok Fat32.smallVolume := by
  have hboot : (gptDevice j e).blockRead 2048 1 = volumeDevice.blockRead 2048 1 :=
    gptDevice_volume (by decide) (by decide)
  have hsame : Fat32.mount (gptDevice j e) (Partition.mbrPartition volumeEntry) =
      Fat32.mount volumeDevice (Partition.mbrPartition volumeEntry) := Fat32.mount_congr rfl hboot
  rw [hsame]
  exact eq_ok_of_toOption (by decide +kernel)

theorem findInDirectory_first {device : BlockDevice} {fs : Fat32} {directory : UInt32} {name : List UInt8} {lba : UInt64}
    {sector : Bytes} {file : Fat32.File} {n : Nat} (hlba : Fat32.clusterLba fs directory = .ok lba)
    (hn : fs.sectorsPerCluster.toNat = n + 1) (hread : device.blockRead lba 1 = some sector)
    (hscan : Fat32.scanSector sector name 16 0 = some (.ok file)) :
    Fat32.findInDirectory device fs directory name = .ok file := by
  rw [Fat32.findInDirectory, Fat32.findInClusters, hlba, hn]
  simp only [Fat32.scanCluster, hread, hscan]

theorem openPath_gptDevice : Fat32.openPath (gptDevice j e) Fat32.smallVolume configPath =
    .ok { firstCluster := 5, size := UInt32.ofNat loneKernelText.length, attributes := 0 } := by
  have hread (lba : UInt64) (h0 : lba ≠ 0) (h : lba < biosDeviceSectors) :
      (gptDevice j e).blockRead lba 1 = some (volumeSector lba) := by
    rw [gptDevice_volume h0 h, Partition.blockRead_of_lt (UInt64.lt_iff_toNat_lt.1 h)]
    rfl
  have hboot : Fat32.findInDirectory (gptDevice j e) Fat32.smallVolume 2 (Config.ascii "BOOT       ") = .ok ⟨3, 0, 0x10⟩ :=
    findInDirectory_first (eq_ok_of_toOption (by decide)) rfl (hread 2561 (by decide) (by decide)) (by decide)
  have hjosh : Fat32.findInDirectory (gptDevice j e) Fat32.smallVolume 3 (Config.ascii "JOSH       ") = .ok ⟨4, 0, 0x10⟩ :=
    findInDirectory_first (eq_ok_of_toOption (by decide)) rfl (hread 2562 (by decide) (by decide)) (by decide)
  have hconfig : Fat32.findInDirectory (gptDevice j e) Fat32.smallVolume 4 (Config.ascii "BOOT    CFG") =
      .ok ⟨5, UInt32.ofNat loneKernelText.length, 0⟩ :=
    findInDirectory_first (eq_ok_of_toOption (by decide)) rfl (hread 2563 (by decide) (by decide)) (by decide)
  have hsegments : Fat32.segments configPath = [Config.ascii "boot", Config.ascii "josh", Config.ascii "boot.cfg"] := by
    decide
  have hnames : Fat32.shortNameFromSegment (Config.ascii "boot") = .ok (Config.ascii "BOOT       ") ∧
      Fat32.shortNameFromSegment (Config.ascii "josh") = .ok (Config.ascii "JOSH       ") ∧
      Fat32.shortNameFromSegment (Config.ascii "boot.cfg") = .ok (Config.ascii "BOOT    CFG") := by decide
  have hvalid : Fat32.clusterValid Fat32.smallVolume 3 = true ∧ Fat32.clusterValid Fat32.smallVolume 4 = true := by
    decide
  obtain ⟨hname, hname', hname''⟩ := hnames
  rw [Fat32.openPath_eq, hsegments]
  simp only [Fat32.resolve, hname, hname', hname'', show Fat32.smallVolume.rootCluster = 2 from rfl, hboot, hjosh, hconfig,
    hvalid.1, hvalid.2, Bool.not_true, Bool.false_eq_true, if_false]
  rfl

theorem readFile_gptDevice :
    let r := Fat32.readFile (gptDevice j e) Fat32.smallVolume ⟨5, UInt32.ofNat loneKernelText.length, 0⟩ 0
      (UInt32.ofNat loneKernelText.length)
    r.status = .ok ∧ r.bytesRead = UInt32.ofNat loneKernelText.length ∧ r.out = loneKernelText := by
  have hreads : Fat32.readFileReads volumeDevice Fat32.smallVolume ⟨5, UInt32.ofNat loneKernelText.length, 0⟩ 0
      (UInt32.ofNat loneKernelText.length) = [2564] := by decide
  have hagree : Fat32.Agree volumeDevice (gptDevice j e) [2564] := by
    intro lba hlba
    rw [List.mem_singleton] at hlba
    rw [hlba]
    exact (gptDevice_volume (by decide) (by decide)).symm
  rw [← Fat32.readFile_congr (hreads ▸ hagree)]
  decide

section
variable (hj : j < 4) (hcount : e.count = 0) (hstatus : e.status = 0x00 ∨ e.status = 0x80)
include hj hcount hstatus

theorem readBootFiles_gptDevice : ∃ serial, readBootFiles (gptDevice j e) [] =
    (some { layoutSafe := true, fs := Fat32.smallVolume, config := loneKernelConfig }, serial) := by
  obtain ⟨hstatus', hbytes, hout⟩ := @readFile_gptDevice j e
  have hsize : (UInt32.ofNat loneKernelText.length = 0 || (UInt32.ofNat loneKernelText.length).toNat > Config.configMaxBytes) =
      false := by
    rw [length_loneKernelText]
    rfl
  rw [readBootFiles, findBoot_gptDevice hj hcount hstatus]
  simp only [layoutSafe_gptDevice hj hcount hstatus, mount_gptDevice, openPath_gptDevice, hsize, hstatus', hbytes, hout,
    parse_loneKernelText]
  exact ⟨_, rfl⟩

omit hj hcount hstatus in
theorem bootHealth_gptDisk {s : Bios (Sectors × List DriveWrite)} (hs : s.drive.1 = gptDisk j e) :
    (bootHealth (logged plainDrive) true s).1 = begunUpdate ∧
      (bootHealth (logged plainDrive) true s).2.healthPersistentEnabled = true := by
  have hA : s.drive.1 Health.healthLbaA = fun _ => 0 := by
    rw [hs, gptDisk, if_neg (by decide)]
    rfl
  have hB : s.drive.1 Health.healthLbaB = begunUpdate.bytes := by
    rw [hs, gptDisk, if_neg (by decide)]
    rfl
  have hrecord : Health.recordAt begunUpdate.bytes = begunUpdate := Health.recordAt_bytes _
  have hvalid : Health.valid begunUpdate = true := by
    rw [begunUpdate]
    exact Health.valid_beginUpdate Health.valid_healthDefault _
  have hzero : Health.valid (Health.recordAt fun _ => 0) = false := by decide
  have hchoose : (Health.choose (Health.recordAt fun _ => 0) begunUpdate).2 = begunUpdate := by
    simp only [Health.choose, hvalid, hzero, Bool.not_true, Bool.and_false, Bool.false_and, Bool.false_eq_true, if_false]
  have hload := @bootHealth_of_valid _ (logged plainDrive) s (fun _ => 0) begunUpdate.bytes (congrArg some hA)
    (congrArg some hB) (by rw [hrecord]; exact hvalid)
  rw [hrecord, hchoose] at hload
  exact hload

/-- The boot records the attempt, as it would without the entry. -/
theorem gptDisk_written : (loadKernelFile (logged plainDrive) (gptBios j e)).2.drive.2 ≠ [] := by
  obtain ⟨serial, hfiles⟩ := readBootFiles_gptDevice hj hcount hstatus
  have hgen : (Health.prepareAttempt begunUpdate Health.healthMaxAttempts).2.generation ≠ begunUpdate.generation := by
    have hbegin := Health.beginUpdate_eq Health.valid_healthDefault .previous (by decide)
    have hvalid := Health.valid_beginUpdate Health.valid_healthDefault BootSlot.previous.code
    have hspec := Health.prepareAttempt_spec hvalid Health.healthMaxAttempts
    rw [hbegin] at hspec
    rw [begunUpdate, hbegin, hspec.trial (by decide)]
    decide
  exact loadKernelFile_written hfiles (fun t ht => @bootHealth_gptDisk j e t (congrArg Prod.fst ht)) hgen

end

end

/-- An entry of type `0xee` keeps every boot from every disk with that entry from writing iff the entry has sectors,
or a status that no entry may have. -/
theorem gpt_media_not_written_iff {j : Nat} (hj : j < mbrPartitionCount) (e : MbrEntry) (htype : e.type = 0xee) :
    (∀ {D : Type} (drive : BiosDrive D) (s : Bios (D × List DriveWrite)) (mbr : Bytes),
        drive.read s.drive.1 0 1 = some mbr → mbrEntry mbr j = e →
        (loadKernelFile (logged drive) s).2.drive.2 = s.drive.2) ↔
      e.count ≠ 0 ∨ e.status ≠ 0x00 ∧ e.status ≠ 0x80 := by
  constructor
  · intro hall
    by_contra hskipped
    rw [not_or, not_not, not_and_or, not_not, not_not] at hskipped
    obtain ⟨hcount, hstatus⟩ := hskipped
    exact gptDisk_written hj hcount hstatus (hall plainDrive (gptBios j e) (mbrWith j e) rfl (mbrEntry_setEntry_self _ j e))
  · rintro h D drive s mbr hread rfl
    exact loadKernelFile_unwritten (not_layoutSafe hread hj htype h)

/-- The usual protective entry. -/
def protectiveEntry : MbrEntry := ⟨0, 0xee, 1, 0xffffffff⟩

theorem gpt_media_not_written_protective : (loadKernelFile (logged plainDrive) (gptBios 0 protectiveEntry)).2.drive.2 = [] :=
  (gpt_media_not_written_iff (by decide) protectiveEntry rfl).mpr (.inl (by decide)) plainDrive (gptBios 0 protectiveEntry)
    (mbrWith 0 protectiveEntry) rfl (mbrEntry_setEntry_self _ 0 protectiveEntry)

/-- A disk with an empty entry of type `0xee` is written. -/
theorem gpt_media_written : ¬ ∀ {D : Type} (drive : BiosDrive D) (s : Bios (D × List DriveWrite)) (mbr : Bytes),
    drive.read s.drive.1 0 1 = some mbr → (∃ j < mbrPartitionCount, (mbrEntry mbr j).type = 0xee) →
    (loadKernelFile (logged drive) s).2.drive.2 = s.drive.2 := by
  intro hall
  have hentry : (mbrEntry (mbrWith 0 ⟨0, 0xee, 1, 0⟩) 0).type = 0xee :=
    congrArg MbrEntry.type (mbrEntry_setEntry_self _ 0 ⟨0, 0xee, 1, 0⟩)
  exact @gptDisk_written 0 ⟨0, 0xee, 1, 0⟩ (by decide) rfl (.inl rfl)
    (hall plainDrive (gptBios 0 ⟨0, 0xee, 1, 0⟩) (mbrWith 0 ⟨0, 0xee, 1, 0⟩) rfl ⟨0, by decide, hentry⟩)

end JoshBios.Stage2
