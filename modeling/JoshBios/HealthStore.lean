import JoshBios.Lib.TwoCopy
import JoshBios.SlotLoop

/-! # The two health sectors survive a crash

The boot-health record lives in two sectors, by the parity of its generation. `healthPersist` writes one of them
and reads it back; after one failure it writes no more in this boot. That is what keeps the other sector safe: a
later record would go to the sector of the only good copy.

`contents d` is what the sectors of the drive state `d` hold. A drive may fail any read and any write; a write,
finished or cut short, reported as done or not, leaves its sector old, new or as no valid record (`Written`).
`StoreInv` follows a boot: as long as persisting is enabled the sectors hold the last persisted record, and its
generation is the one of the record in memory. -/

namespace JoshBios.Stage2

open Health (HealthRecord BootSlot FailureStage valid recordAt)
open TwoCopy (Holds Placed Torn)

abbrev Sectors := UInt64 → Bytes

structure Written (c : Sectors) (lba : UInt64) (data : Bytes) (c' : Sectors) : Prop where
  others : ∀ l, l ≠ lba → ∀ i < sectorSize, c' l i = c l i
  sector : (∀ i < sectorSize, c' lba i = c lba i) ∨ (∀ i < sectorSize, c' lba i = data i) ∨
    valid (recordAt (c' lba)) = false

structure DriveOk {D : Type} (drive : BiosDrive D) (contents : D → Sectors) : Prop where
  read : ∀ d lba sector, drive.read d lba 1 = some sector → ∀ i < sectorSize, sector i = contents d lba i
  write : ∀ d lba data, Written (contents d) lba data (contents (drive.write d lba 1 data).2)

def version (r : HealthRecord) : Nat := r.generation.toNat

def cellLba (odd : Bool) : UInt64 := if odd then Health.healthLbaB else Health.healthLbaA

/-- The two records in the health sectors. -/
def cells (c : Sectors) (odd : Bool) : HealthRecord := recordAt (c (cellLba odd))

/-- The newest valid copy is in the sector that its generation's parity asks for. -/
def ParityPlaced (c : Sectors) : Prop := Placed valid version (cells c)

/-- The copy that `choose` picks. -/
def newestCopy (c : Sectors) : HealthRecord := (Health.choose (cells c false) (cells c true)).2

/-- The disk `d` is good to boot from again, and a boot that can read both sectors starts from `r`. -/
structure Recovers {D : Type} (drive : BiosDrive D) (contents : D → Sectors) (d : D) (r : HealthRecord) : Prop where
  placed : ParityPlaced (contents d)
  load : ∀ s : Bios D, s.drive = d → (drive.read d Health.healthLbaA 1).isSome →
    (drive.read d Health.healthLbaB 1).isSome →
    (healthLoad drive s).1 = r ∧ (healthLoad drive s).2.healthPersistentEnabled = true

/-- The last record that was persisted, `loaded` when none was. -/
def lastPersisted {D : Type} (loaded : HealthRecord) : List (HealthWrite D) → HealthRecord
  | [] => loaded
  | w :: ws => if w.persisted then w.record else lastPersisted loaded ws

def driveAfter {D : Type} (d : D) : List (HealthWrite D) → D
  | [] => d
  | w :: _ => w.after

/-! ### Records and sectors -/

theorem home_version (r : HealthRecord) : TwoCopy.home version r = decide (r.generation &&& 1 ≠ 0) := by
  have hn : (r.generation &&& 1).toNat = r.generation.toNat % 2 := by
    rw [UInt64.toNat_and]
    exact Nat.and_one_is_mod _
  unfold TwoCopy.home version
  rcases Nat.mod_two_eq_zero_or_one r.generation.toNat with h | h
  · have h0 : r.generation &&& 1 = 0 := UInt64.toNat_inj.1 (by rw [hn, h]; rfl)
    rw [h, h0]
    rfl
  · have h1 : r.generation &&& 1 ≠ 0 := by
      intro h0
      rw [h0, h] at hn
      cases hn
    rw [h]
    simp [h1]

theorem healthLba_eq (r : HealthRecord) : healthLba r = cellLba (TwoCopy.home version r) := by
  rw [home_version, healthLba, cellLba]
  by_cases h : r.generation &&& 1 = 0 <;> simp [h]

theorem cellLba_inj {b b' : Bool} (h : cellLba b = cellLba b') : b = b' := by
  cases b <;> cases b' <;> first | rfl | exact absurd h (by decide)

theorem recordAt_sector {b b' : Bytes} (h : ∀ i < sectorSize, b i = b' i) : recordAt b = recordAt b' :=
  Health.recordAt_congr fun i hi => h i (by simp only [sectorSize]; omega)

/-- A write of a record to its sector is a torn write of the pair of cells. -/
theorem Written.torn {c c' : Sectors} {r : HealthRecord} (h : Written c (healthLba r) r.bytes c') :
    Torn valid version (cells c) r (cells c') := by
  rw [healthLba_eq] at h
  refine ⟨?_, ?_⟩
  · refine recordAt_sector (h.others _ fun heq => ?_)
    have := cellLba_inj heq
    simp at this
  · rcases h.sector with hold | hnew | hbad
    · exact Or.inl (recordAt_sector hold)
    · refine Or.inr (Or.inl ?_)
      rw [cells, recordAt_sector hnew, Health.recordAt_bytes]
    · exact Or.inr (Or.inr hbad)

theorem choose_of_holds {c : Bool → HealthRecord} {r : HealthRecord} (h : Holds valid version c r) :
    Health.choose (c false) (c true) = (true, r) := by
  have hv : ¬ (valid (c false) = false ∧ valid (c true) = false) := by
    rintro ⟨h₁, h₂⟩
    rcases h.placed.some_valid with hs | hs
    · rw [h₁] at hs; cases hs
    · rw [h₂] at hs; cases hs
  have hr := h.read
  have hc := h.cell
  have hg : (c false).generation ≥ (c true).generation ↔ version (c false) ≥ version (c true) := UInt64.le_iff_toNat_le
  unfold Health.choose
  unfold TwoCopy.newest at hr
  rw [if_neg (by simpa using hv)]
  simp only [hg]
  split at hr
  · next hn =>
    rw [← hr] at hc
    rw [if_pos hn, hc]
  · next hn =>
    rw [← hr] at hc
    rw [if_neg hn, hc]

theorem newestCopy_eq {c : Sectors} {r : HealthRecord} (h : Holds valid version (cells c) r) : newestCopy c = r := by
  rw [newestCopy, choose_of_holds h]

/-! ### A boot -/

/-- The writes of a boot that started on the disk `d` with the record `loaded`: each went to its own sector, on a
disk that held the last persisted record, one generation older. -/
inductive LogOk {D : Type} (contents : D → Sectors) (d : D) (loaded : HealthRecord) : List (HealthWrite D) → Prop where
  | nil : LogOk contents d loaded []
  | cons {w : HealthWrite D} {ws : List (HealthWrite D)} : LogOk contents d loaded ws →
      w.lba = healthLba w.record → valid w.record = true →
      version w.record = version (lastPersisted loaded ws) + 1 → w.before = driveAfter d ws →
      Holds valid version (cells (contents w.before)) (lastPersisted loaded ws) →
      Written (contents w.before) w.lba w.record.bytes (contents w.after) →
      (w.persisted = true → Holds valid version (cells (contents w.after)) w.record) →
      LogOk contents d loaded (w :: ws)

/-- The store during a boot, `health` being the record in memory. -/
structure StoreInv {D : Type} (contents : D → Sectors) (d : D) (loaded health : HealthRecord) (s : Bios D) : Prop where
  log : LogOk contents d loaded s.writes
  drive_eq : s.drive = driveAfter d s.writes
  enabled : s.healthPersistentEnabled = true →
    Holds valid version (cells (contents s.drive)) (lastPersisted loaded s.writes) ∧
    version health = version (lastPersisted loaded s.writes)

section Store
variable {D : Type} {drive : BiosDrive D} {contents : D → Sectors} (hd : DriveOk drive contents)
include hd

theorem healthLoad_of_holds {s : Bios D} {r : HealthRecord} (hr : Holds valid version (cells (contents s.drive)) r)
    (ha : (drive.read s.drive Health.healthLbaA 1).isSome) (hb : (drive.read s.drive Health.healthLbaB 1).isSome) :
    (healthLoad drive s).1 = r ∧ (healthLoad drive s).2.healthPersistentEnabled = true := by
  obtain ⟨a, ha⟩ := Option.isSome_iff_exists.1 ha
  obtain ⟨b, hb⟩ := Option.isSome_iff_exists.1 hb
  have hca : recordAt a = cells (contents s.drive) false := recordAt_sector (hd.read _ _ _ ha)
  have hcb : recordAt b = cells (contents s.drive) true := recordAt_sector (hd.read _ _ _ hb)
  have hv : (!valid (cells (contents s.drive) false) && !valid (cells (contents s.drive) true)) = false := by
    rcases hr.placed.some_valid with hs | hs <;> simp [hs]
  have hn := newestCopy_eq hr
  simp only [healthLoad, healthReadCopy, ha, hb, hca, hcb, hv, Bool.false_eq_true, if_false, say]
  exact ⟨hn, trivial⟩

theorem recovers_of_holds {d : D} {r : HealthRecord} (hr : Holds valid version (cells (contents d)) r) :
    Recovers drive contents d r := by
  refine ⟨hr.placed, ?_⟩
  rintro s rfl ha hb
  exact healthLoad_of_holds hd hr ha hb

theorem healthWriteCopy_spec {d d' : D} {r stored : HealthRecord} {ok : Bool}
    (hw : healthWriteCopy drive d (healthLba r) r = (ok, d')) (hh : Holds valid version (cells (contents d)) stored)
    (hv : valid r = true) (hn : version r = version stored + 1) :
    Written (contents d) (healthLba r) r.bytes (contents d') ∧
      (ok = true → Holds valid version (cells (contents d')) r) := by
  have hwr := hd.write d (healthLba r) r.bytes
  unfold healthWriteCopy at hw
  split at hw
  next d₁ h₁ =>
    rw [h₁] at hwr
    cases hw
    exact ⟨hwr, nofun⟩
  next d₁ h₁ =>
    rw [h₁] at hwr
    simp only [healthReadCopy] at hw
    split at hw
    · cases hw
      exact ⟨hwr, nofun⟩
    next sector hsec =>
      cases hw
      refine ⟨hwr, fun hok => ?_⟩
      simp only [Bool.and_eq_true, beq_iff_eq] at hok
      -- what was read back is what the sector holds
      have hcell : recordAt sector = cells (contents d') (TwoCopy.home version r) := by
        rw [recordAt_sector (hd.read _ _ _ hsec), cells, healthLba_eq]
      rw [hcell] at hok
      have hversion : version (cells (contents d') (TwoCopy.home version r)) = version r := by
        rw [version, hok.1.2, version]
      exact hh.verified hv hn hwr.torn hok.1.1 hversion

theorem StoreInv.persist {d : D} {loaded health r : HealthRecord} {s : Bios D}
    (h : StoreInv contents d loaded health s) (hv : valid r = true) (hn : version r = version health + 1) :
    StoreInv contents d loaded r (healthPersist drive r s) := by
  unfold healthPersist
  split
  · next hoff =>
    refine ⟨h.log, h.drive_eq, fun hon => ?_⟩
    rw [show s.healthPersistentEnabled = true from hon] at hoff
    cases hoff
  next hon =>
    obtain ⟨hh, hver⟩ := h.enabled (by simpa using hon)
    rw [hver] at hn
    match hw : healthWriteCopy drive s.drive (healthLba r) r with
    | (ok, d') =>
      obtain ⟨hwr, hok⟩ := healthWriteCopy_spec hd hw hh hv hn
      have hlog : LogOk contents d loaded (⟨healthLba r, r, s.drive, d', ok⟩ :: s.writes) :=
        .cons h.log rfl hv hn h.drive_eq hh hwr hok
      simp only [hw]
      cases ok with
      | false => exact ⟨hlog, rfl, nofun⟩
      | true => exact ⟨hlog, rfl, fun _ => ⟨hok rfl, rfl⟩⟩

omit hd in
theorem StoreInv.congr {d : D} {loaded health : HealthRecord} {s s' : Bios D}
    (h : StoreInv contents d loaded health s) (h₁ : s'.drive = s.drive) (h₂ : s'.writes = s.writes)
    (h₃ : s'.healthPersistentEnabled = s.healthPersistentEnabled) : StoreInv contents d loaded health s' := by
  refine ⟨h₂ ▸ h.log, by rw [h₁, h₂, h.drive_eq], fun hon => ?_⟩
  rw [h₁, h₂]
  exact h.enabled (h₃ ▸ hon)

omit hd in
theorem readKernelCandidate_frame (drive : BiosDrive D) (fs : Fat32) (path : List UInt8) (s : Bios D) :
    (readKernelCandidate drive fs path s).2.drive = s.drive ∧
      (readKernelCandidate drive fs path s).2.writes = s.writes ∧
      (readKernelCandidate drive fs path s).2.healthPersistentEnabled = s.healthPersistentEnabled := by
  obtain ⟨-, h⟩ | ⟨-, r, m, h, -⟩ := readKernelCandidate_cases drive fs path s
  · rw [h]
    exact ⟨rfl, rfl, rfl⟩
  · rw [h]
    exact ⟨rfl, rfl, rfl⟩

theorem StoreInv.selectKernel {d : D} {loaded health : HealthRecord} {s : Bios D}
    (h : StoreInv contents d loaded health s) (hv : valid health = true) (hn : version health + 3 < 2 ^ 64)
    (fs : Fat32) (config : Config.BootConfig) :
    ∃ health', StoreInv contents d loaded health'
      (selectKernel (biosWorld drive fs config) config health s).world := by
  refine selectKernel_next ?_ ?_ ?_ config hv hn h
  · intro health message s hI
    exact hI.congr rfl rfl rfl
  · intro health slot s hI
    obtain ⟨h₁, h₂, h₃⟩ := readKernelCandidate_frame drive fs (kernelPathForSlot config slot) s
    exact hI.congr h₁ h₂ h₃
  · intro health health' s hI hv hver
    exact StoreInv.persist hd hI hv hver

omit hd in
theorem healthLoad_frame (drive : BiosDrive D) (s : Bios D) :
    (healthLoad drive s).2.drive = s.drive ∧ (healthLoad drive s).2.writes = s.writes := by
  simp only [healthLoad]
  split <;> exact ⟨rfl, rfl⟩

theorem bootHealth_store {s : Bios D} {r : HealthRecord} (hw : s.writes = [])
    (ha : (drive.read s.drive Health.healthLbaA 1).isSome) (hb : (drive.read s.drive Health.healthLbaB 1).isSome)
    (hh : Holds valid version (cells (contents s.drive)) r) (hn : version r + 3 < 2 ^ 64) (layoutSafe : Bool) :
    valid (bootHealth drive layoutSafe s).1 = true ∧ version (bootHealth drive layoutSafe s).1 + 3 < 2 ^ 64 ∧
      StoreInv contents s.drive r (bootHealth drive layoutSafe s).1 (bootHealth drive layoutSafe s).2 := by
  cases layoutSafe with
  | false =>
    refine ⟨Health.valid_healthDefault, ?_, ?_, ?_, nofun⟩
    · show version Health.healthDefault + 3 < 2 ^ 64
      decide
    · show LogOk contents s.drive r s.writes
      rw [hw]
      exact .nil
    · show s.drive = driveAfter s.drive s.writes
      rw [hw]
      rfl
  | true =>
    obtain ⟨hr, -⟩ := healthLoad_of_holds hd hh ha hb
    obtain ⟨hdrive, hwrites⟩ := healthLoad_frame drive s
    simp only [bootHealth, Bool.not_true, Bool.false_eq_true, if_false]
    rw [hr]
    refine ⟨hh.is_valid, hn, ?_, ?_, fun _ => ?_⟩
    · rw [hwrites, hw]
      exact .nil
    · rw [hdrive, hwrites, hw]
      rfl
    · rw [hdrive, hwrites, hw]
      exact ⟨hh, rfl⟩

/-- What a boot does to the store: nothing, or a log of writes that are in order. -/
theorem loadKernelFile_store {s : Bios D} (hw : s.writes = [])
    (ha : (drive.read s.drive Health.healthLbaA 1).isSome) (hb : (drive.read s.drive Health.healthLbaB 1).isSome)
    (hp : ParityPlaced (contents s.drive)) (hn : version (newestCopy (contents s.drive)) + 3 < 2 ^ 64) :
    LogOk contents s.drive (newestCopy (contents s.drive)) (loadKernelFile drive s).2.writes ∧
      (loadKernelFile drive s).2.drive = driveAfter s.drive (loadKernelFile drive s).2.writes := by
  have hh := hp.holds
  have hnew := newestCopy_eq hh
  rw [← hnew] at hh
  unfold loadKernelFile
  split
  · simp only [hw]
    exact ⟨.nil, rfl⟩
  next files serial _ =>
    obtain ⟨hv, hroom, hstore⟩ := bootHealth_store hd (s := { s with serial }) hw ha hb hh hn files.layoutSafe
    obtain ⟨health', hfinal⟩ := StoreInv.selectKernel hd hstore hv hroom files.fs files.config
    simp only
    split
    · exact ⟨hfinal.log, hfinal.drive_eq⟩
    · exact ⟨hfinal.log, hfinal.drive_eq⟩

omit hd in
theorem LogOk.of_suffix {d : D} {loaded : HealthRecord} {ws ws' : List (HealthWrite D)}
    (h : LogOk contents d loaded ws) (hs : ws' <:+ ws) : LogOk contents d loaded ws' := by
  induction h with
  | nil =>
    rw [List.suffix_nil.1 hs]
    exact .nil
  | @cons w ws h₀ h₁ h₂ h₃ h₄ h₅ h₆ h₇ ih =>
    rcases List.suffix_cons_iff.1 hs with rfl | hs
    · exact .cons h₀ h₁ h₂ h₃ h₄ h₅ h₆ h₇
    · exact ih hs

/-- A boot on a disk whose newest copy is placed by its parity, whose two sectors can be read, and whose generation
has room for the boot's three steps. Before the first write, the disk recovers the loaded record. A crash while `w` is
being written, with `older` before it, leaves a disk that recovers `w`'s record or the last one that was persisted; so
does the disk after the write, and it recovers `w`'s record if `w` was persisted. Between the writes the disk does not
change. -/
theorem health_store_crash_safe {s : Bios D} (hw : s.writes = [])
    (ha : (drive.read s.drive Health.healthLbaA 1).isSome) (hb : (drive.read s.drive Health.healthLbaB 1).isSome)
    (hp : ParityPlaced (contents s.drive)) (hn : version (newestCopy (contents s.drive)) + 3 < 2 ^ 64) :
    Recovers drive contents s.drive (newestCopy (contents s.drive)) ∧
    (loadKernelFile drive s).2.drive = driveAfter s.drive (loadKernelFile drive s).2.writes ∧
    ∀ w older, (w :: older) <:+ (loadKernelFile drive s).2.writes →
      w.before = driveAfter s.drive older ∧
      Written (contents w.before) w.lba w.record.bytes (contents w.after) ∧
      (∀ d, Written (contents w.before) w.lba w.record.bytes (contents d) →
        Recovers drive contents d w.record ∨
        Recovers drive contents d (lastPersisted (newestCopy (contents s.drive)) older)) ∧
      (w.persisted = true → Recovers drive contents w.after w.record) := by
  have hh := hp.holds
  rw [← newestCopy_eq hh] at hh
  obtain ⟨hlog, hdrive⟩ := loadKernelFile_store hd hw ha hb hp hn
  refine ⟨recovers_of_holds hd hh, hdrive, fun w older hs => ?_⟩
  rcases hlog.of_suffix hs with _ | ⟨h₀, hlba, hv, hver, hbefore, hholds, hwritten, hok⟩
  refine ⟨hbefore, hwritten, fun d hwd => ?_, fun hpers => recovers_of_holds hd (hok hpers)⟩
  rw [hlba] at hwd
  rcases hholds.torn hv hver hwd.torn with hold | hnew
  · exact Or.inr (recovers_of_holds hd hold)
  · exact Or.inl (recovers_of_holds hd hnew)

end Store

/-! ### A disk for the theorem -/

/-- A drive that never fails. -/
def plainDrive : BiosDrive Sectors where
  read d lba _ := some (d lba)
  write d lba _ data := (true, fun l => if l = lba then data else d l)

theorem plainDrive_ok : DriveOk plainDrive id := by
  refine ⟨?_, ?_⟩
  · intro d lba sector h i _
    rw [← Option.some.inj h]
    rfl
  · intro d lba data
    refine ⟨fun l hl i _ => ?_, Or.inr (Or.inl fun i _ => ?_)⟩
    · simp [plainDrive, hl]
    · simp [plainDrive]

/-- The default record in the even sector, zeros elsewhere. -/
def freshDisk : Sectors := fun lba => if lba = Health.healthLbaA then Health.healthDefault.bytes else fun _ => 0

def freshBios : Bios Sectors where
  drive := freshDisk
  mem := fun _ => 0
  healthPersistentEnabled := false
  serial := []
  writes := []
  opened := []
  slot := none
  loaded := []

end JoshBios.Stage2
