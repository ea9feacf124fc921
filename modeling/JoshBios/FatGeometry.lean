import JoshBios.Fat32

/-! # The geometry of a mounted volume

`josh_fat32_mount` computes with 8-, 16-, 32- and 64-bit fields of a boot sector that may hold anything. `Geometry` says of
a volume that it accepted what the same fields give as natural numbers, so that nothing has wrapped around; from it the
clusters are where they should be (`ClusterLayout`). -/

namespace JoshBios.Fat32

/-- The sectors before the first FAT, of both FATs, and of the volume, as the boot sector has them. -/
def reservedOf (boot : Bytes) : Nat := (le16 boot 14).toNat
def fatAreaOf (boot : Bytes) : Nat := (boot 16).toNat * (le32 boot 36).toNat
def totalOf (boot : Bytes) : Nat := if le16 boot 19 ≠ 0 then (le16 boot 19).toNat else (le32 boot 32).toNat

structure Geometry (device : BlockDevice) (partition : Partition) (boot : Bytes) (fs : Fat32) : Prop where
  partitionLba : fs.partitionLba = partition.firstLba
  partitionSectors : fs.partitionSectors.toNat = totalOf boot
  fatLba : fs.fatLba.toNat = reservedOf boot
  dataLba : fs.dataLba.toNat = reservedOf boot + fatAreaOf boot
  sectorsPerFat : fs.sectorsPerFat = le32 boot 36
  fatCount : fs.fatCount = boot 16 ∧ 0 < fs.fatCount.toNat
  sectorsPerCluster : fs.sectorsPerCluster = boot 13 ∧ 0 < fs.sectorsPerCluster.toNat ∧ fs.sectorsPerCluster.toNat ≤ 128
  clusters : fs.clusterCount.toNat = (totalOf boot - reservedOf boot - fatAreaOf boot) / fs.sectorsPerCluster.toNat
  clusters_lt : fs.clusterCount.toNat + 2 < 2 ^ 32
  fats_lt : reservedOf boot + fatAreaOf boot < totalOf boot
  inPartition : totalOf boot ≤ partition.sectorCount.toNat
  inDevice : fs.partitionLba.toNat + fs.partitionSectors.toNat ≤ device.sectorCount.toNat
  inVolume : fs.dataLba.toNat + fs.clusterCount.toNat * fs.sectorsPerCluster.toNat ≤ fs.partitionSectors.toNat
  root : clusterValid fs fs.rootCluster = true

/-! ### The checks as statements about numbers -/

theorem toNat_succ_succ {n : UInt32} (h : n.toNat + 2 < 2 ^ 32) : (n + 2).toNat = n.toNat + 2 := by
  rw [UInt32.toNat_add, show (2 : UInt32).toNat = 2 from rfl, Nat.mod_eq_of_lt h]

theorem clusterValid_iff {fs : Fat32} (h : fs.clusterCount.toNat + 2 < 2 ^ 32) {c : UInt32} :
    clusterValid fs c = true ↔ 2 ≤ c.toNat ∧ c.toNat < fs.clusterCount.toNat + 2 := by
  rw [clusterValid, Bool.and_eq_true, decide_eq_true_iff, decide_eq_true_iff, ge_iff_le, UInt32.le_iff_toNat_le,
    UInt32.lt_iff_toNat_lt, toNat_succ_succ h]
  rfl

theorem toNat_pos_iff {a : UInt8} : a ≠ 0 ↔ 0 < a.toNat := by
  rw [Nat.pos_iff_ne_zero]
  exact not_congr UInt8.toNat_inj.symm

theorem toNat_mul_fat (count : UInt8) (size : UInt32) :
    (count.toUInt64 * size.toUInt64).toNat = count.toNat * size.toNat := by
  have h₁ := count.toNat_lt
  have h₂ := size.toNat_lt
  have h₃ : count.toNat * size.toNat ≤ 2 ^ 8 * 2 ^ 32 := Nat.mul_le_mul (Nat.le_of_lt h₁) (Nat.le_of_lt h₂)
  rw [UInt64.toNat_mul, UInt8.toNat_toUInt64, UInt32.toNat_toUInt64, Nat.mod_eq_of_lt (by omega)]

theorem toNat_total (boot : Bytes) :
    (if le16 boot 19 ≠ 0 then (le16 boot 19).toUInt32 else le32 boot 32).toNat = totalOf boot := by
  rw [totalOf]
  split
  · exact UInt16.toNat_toUInt32 _
  · rfl

theorem layout_exact {reserved : UInt16} {area : UInt64} {total : UInt32}
    (h : ¬ reserved.toUInt64 + area ≥ total.toUInt64) (harea : area.toNat < 2 ^ 63) :
    reserved.toNat + area.toNat < total.toNat ∧
      (reserved.toUInt64 + area).toUInt32.toNat = reserved.toNat + area.toNat ∧
      (total.toUInt64 - reserved.toUInt64 - area).toUInt32.toNat = total.toNat - reserved.toNat - area.toNat := by
  have hr := reserved.toNat_lt
  have ht := total.toNat_lt
  have hsum : (reserved.toUInt64 + area).toNat = reserved.toNat + area.toNat := by
    rw [UInt64.toNat_add, UInt16.toNat_toUInt64, Nat.mod_eq_of_lt (by omega)]
  rw [ge_iff_le, UInt64.not_le, UInt64.lt_iff_toNat_lt, hsum, UInt32.toNat_toUInt64] at h
  have hsub : (total.toUInt64 - reserved.toUInt64).toNat = total.toNat - reserved.toNat := by
    rw [UInt64.toNat_sub_of_le _ _ (UInt64.le_iff_toNat_le.2 (by rw [UInt16.toNat_toUInt64, UInt32.toNat_toUInt64]; omega)),
      UInt16.toNat_toUInt64, UInt32.toNat_toUInt64]
  refine ⟨h, ?_, ?_⟩
  · rw [UInt64.toNat_toUInt32, hsum, Nat.mod_eq_of_lt (by omega)]
  · rw [UInt64.toNat_toUInt32, UInt64.toNat_sub_of_le _ _ (UInt64.le_iff_toNat_le.2 (by rw [hsub]; omega)), hsub,
      Nat.mod_eq_of_lt (by omega)]

theorem mount_ok {device : BlockDevice} {partition : Partition} {fs : Fat32} (h : mount device partition = .ok fs) :
    ∃ boot, device.blockRead partition.firstLba 1 = some boot ∧ Geometry device partition boot fs := by
  simp only [mount, ite_error_eq_ok] at h
  obtain ⟨-, hrange, h⟩ := h
  split at h
  · cases h
  next boot hboot =>
    refine ⟨boot, hboot, ?_⟩
    simp only [ite_error_eq_ok] at h
    obtain ⟨-, -, hspc, hfields, htotal, harea, -, hroot, h⟩ := h
    simp only [Bool.or_eq_true, decide_eq_true_iff, not_or, Bool.not_eq_true', Bool.not_eq_false, gt_iff_lt, ge_iff_le,
      UInt64.not_lt, UInt64.not_le, UInt32.not_lt, UInt32.not_le, UInt8.not_lt] at hrange hspc hfields htotal hroot
    obtain ⟨⟨⟨⟨⟨hres, hfats⟩, -⟩, -⟩, -⟩, hfat⟩ := hfields
    -- the fields as numbers
    have hres' : 0 < (le16 boot 14).toNat := Nat.pos_iff_ne_zero.2 fun h0 => hres (UInt16.toNat_inj.1 h0)
    have hfat' : 0 < (le32 boot 36).toNat := Nat.pos_iff_ne_zero.2 fun h0 => hfat (UInt32.toNat_inj.1 h0)
    have hfats' : 0 < (boot 16).toNat := toNat_pos_iff.1 hfats
    have hspc₀ : 0 < (boot 13).toNat := by
      refine toNat_pos_iff.1 fun h0 => ?_
      rw [h0] at hspc
      exact absurd hspc.1 (by decide)
    have hspc₁ : (boot 13).toNat ≤ 128 := UInt8.le_iff_toNat_le.1 hspc.2
    have hmul := toNat_mul_fat (boot 16) (le32 boot 36)
    have hpos : 0 < (boot 16).toNat * (le32 boot 36).toNat := Nat.mul_pos hfats' hfat'
    have hmax : (boot 16).toNat * (le32 boot 36).toNat ≤ 2 ^ 8 * 2 ^ 32 :=
      Nat.mul_le_mul (Nat.le_of_lt (boot 16).toNat_lt) (Nat.le_of_lt (le32 boot 36).toNat_lt)
    obtain ⟨hlt, hdata, hsectors⟩ := layout_exact harea (by rw [hmul]; omega)
    have htot := toNat_total boot
    generalize htt : (if le16 boot 19 ≠ 0 then (le16 boot 19).toUInt32 else le32 boot 32) = total at *
    have htotlt := total.toNat_lt
    rw [hmul] at hlt hdata hsectors
    -- the clusters fill what is left
    have hcount : ((total.toUInt64 - (le16 boot 14).toUInt64 - (boot 16).toUInt64 * (le32 boot 36).toUInt64).toUInt32 /
        (boot 13).toUInt32).toNat =
          (totalOf boot - reservedOf boot - fatAreaOf boot) / (boot 13).toNat := by
      rw [UInt32.toNat_div, hsectors, UInt8.toNat_toUInt32, htot]
      rfl
    have hle := Nat.div_mul_le_self (totalOf boot - reservedOf boot - fatAreaOf boot) (boot 13).toNat
    have hle' := Nat.div_le_self (totalOf boot - reservedOf boot - fatAreaOf boot) (boot 13).toNat
    have hreserved : reservedOf boot = (le16 boot 14).toNat := rfl
    have hfatArea : fatAreaOf boot = (boot 16).toNat * (le32 boot 36).toNat := rfl
    have hfirst := UInt64.lt_iff_toNat_lt.1 hrange.1
    have hcountle := UInt64.le_iff_toNat_le.1 hrange.2
    have htotle := UInt64.le_iff_toNat_le.1 htotal.2
    rw [UInt64.toNat_sub_of_le _ _ (UInt64.le_iff_toNat_le.2 (Nat.le_of_lt hfirst))] at hcountle
    rw [UInt32.toNat_toUInt64] at htotle
    have hclusters : ((totalOf boot - reservedOf boot - fatAreaOf boot) / (boot 13).toNat) + 2 < 2 ^ 32 := by omega
    obtain rfl := Except.ok.inj h
    refine ⟨rfl, ?_, UInt16.toNat_toUInt32 _, hdata, rfl, ⟨rfl, hfats'⟩, ⟨rfl, hspc₀, hspc₁⟩, hcount, ?_, ?_, ?_, ?_, ?_, ?_⟩
    · rw [UInt32.toNat_toUInt64, htot]
    · rw [hcount]
      exact hclusters
    · omega
    · omega
    · simp only [UInt32.toNat_toUInt64]
      omega
    · simp only [hcount, hdata, UInt32.toNat_toUInt64]
      omega
    · rw [clusterValid, Bool.and_eq_true, decide_eq_true_iff, decide_eq_true_iff]
      exact hroot

/-! ### Where the clusters are -/

/-- What reading from a mounted volume rests on. -/
structure Sound (device : BlockDevice) (fs : Fat32) : Prop where
  spc_pos : 0 < fs.sectorsPerCluster.toNat
  spc_le : fs.sectorsPerCluster.toNat ≤ 128
  clusters_lt : fs.clusterCount.toNat + 2 < 2 ^ 32
  inDevice : fs.partitionLba.toNat + fs.partitionSectors.toNat ≤ device.sectorCount.toNat
  inVolume : fs.dataLba.toNat + fs.clusterCount.toNat * fs.sectorsPerCluster.toNat ≤ fs.partitionSectors.toNat
  fats : fs.fatLba.toNat + fs.sectorsPerFat.toNat ≤ fs.dataLba.toNat

theorem Geometry.sound {device : BlockDevice} {partition : Partition} {boot : Bytes} {fs : Fat32}
    (h : Geometry device partition boot fs) : Sound device fs := by
  refine ⟨h.sectorsPerCluster.2.1, h.sectorsPerCluster.2.2, h.clusters_lt, h.inDevice, h.inVolume, ?_⟩
  have hmul := Nat.le_mul_of_pos_left (le32 boot 36).toNat h.fatCount.2
  rw [h.fatCount.1] at hmul
  rw [h.fatLba, h.dataLba, h.sectorsPerFat, fatAreaOf]
  omega

/-- The first sector of a cluster. -/
def lbaOf (fs : Fat32) (c : UInt32) : Nat :=
  fs.partitionLba.toNat + fs.dataLba.toNat + (c.toNat - 2) * fs.sectorsPerCluster.toNat

section Sound
variable {device : BlockDevice} {fs : Fat32} (h : Sound device fs) {c : UInt32} (hc : clusterValid fs c = true)
include h hc

theorem Sound.lbaOf_le :
    lbaOf fs c + fs.sectorsPerCluster.toNat ≤ fs.partitionLba.toNat + fs.partitionSectors.toNat := by
  obtain ⟨h₁, h₂⟩ := (clusterValid_iff h.clusters_lt).1 hc
  have hmul : (c.toNat - 2 + 1) * fs.sectorsPerCluster.toNat ≤ fs.clusterCount.toNat * fs.sectorsPerCluster.toNat :=
    Nat.mul_le_mul_right _ (by omega)
  have hvol := h.inVolume
  rw [Nat.add_mul, Nat.one_mul] at hmul
  rw [lbaOf]
  omega

theorem Sound.clusterLba : ∃ lba, clusterLba fs c = .ok lba ∧ lba.toNat = lbaOf fs c := by
  have hle := h.lbaOf_le hc
  have hdev := h.inDevice
  have hpos := h.spc_pos
  have hsec := device.sectorCount.toNat_lt
  obtain ⟨h₁, h₂⟩ := (clusterValid_iff h.clusters_lt).1 hc
  rw [lbaOf] at hle
  have hsub : (c - 2).toNat = c.toNat - 2 := UInt32.toNat_sub_of_le _ _ (UInt32.le_iff_toNat_le.2 h₁)
  have hrel : (fs.dataLba.toUInt64 + (c - 2).toUInt64 * fs.sectorsPerCluster.toUInt64).toNat =
      fs.dataLba.toNat + (c.toNat - 2) * fs.sectorsPerCluster.toNat := by
    rw [UInt64.toNat_add, UInt64.toNat_mul, UInt32.toNat_toUInt64, UInt32.toNat_toUInt64, UInt8.toNat_toUInt64, hsub,
      Nat.mod_eq_of_lt (a := (c.toNat - 2) * fs.sectorsPerCluster.toNat) (by omega), Nat.mod_eq_of_lt (by omega)]
  generalize hr : fs.dataLba.toUInt64 + (c - 2).toUInt64 * fs.sectorsPerCluster.toUInt64 = relative at hrel
  have hlt : relative < fs.partitionSectors := UInt64.lt_iff_toNat_lt.2 (by omega)
  have hroom : fs.sectorsPerCluster.toUInt64 ≤ fs.partitionSectors - relative := by
    rw [UInt64.le_iff_toNat_le, UInt8.toNat_toUInt64, UInt64.toNat_sub_of_le _ _ (UInt64.le_of_lt hlt)]
    omega
  refine ⟨fs.partitionLba + relative, ?_, ?_⟩
  · simp only [Fat32.clusterLba, hc, Bool.not_true, Bool.false_eq_true, if_false, hr, ge_iff_le, gt_iff_lt,
      UInt64.not_le.2 hlt, UInt64.not_lt.2 hroom, decide_false, Bool.or_self]
  · rw [UInt64.toNat_add, hrel, lbaOf, Nat.mod_eq_of_lt (by omega)]
    omega

end Sound

theorem lbaOf_apart {fs : Fat32} {c c' : UInt32} (hc : 2 ≤ c.toNat) (hlt : c.toNat < c'.toNat) :
    lbaOf fs c + fs.sectorsPerCluster.toNat ≤ lbaOf fs c' := by
  have hmul : (c.toNat - 2 + 1) * fs.sectorsPerCluster.toNat ≤ (c'.toNat - 2) * fs.sectorsPerCluster.toNat :=
    Nat.mul_le_mul_right _ (by omega)
  rw [Nat.add_mul, Nat.one_mul] at hmul
  rw [lbaOf, lbaOf]
  omega

/-- Every cluster of the volume is in the data area and inside the device, and no two share a sector. -/
structure ClusterLayout (device : BlockDevice) (fs : Fat32) : Prop where
  placed : ∀ c, clusterValid fs c = true → ∃ lba, clusterLba fs c = .ok lba ∧
    fs.partitionLba.toNat + fs.dataLba.toNat ≤ lba.toNat ∧
    lba.toNat + fs.sectorsPerCluster.toNat ≤ fs.partitionLba.toNat + fs.partitionSectors.toNat ∧
    lba.toNat + fs.sectorsPerCluster.toNat ≤ device.sectorCount.toNat
  apart : ∀ c c' lba lba', clusterLba fs c = .ok lba → clusterLba fs c' = .ok lba' → c ≠ c' →
    Disjoint (Set.Ico lba.toNat (lba.toNat + fs.sectorsPerCluster.toNat))
      (Set.Ico lba'.toNat (lba'.toNat + fs.sectorsPerCluster.toNat))

theorem clusterLba_valid {fs : Fat32} {c : UInt32} {lba : UInt64} (h : clusterLba fs c = .ok lba) :
    clusterValid fs c = true := by
  simp only [clusterLba, ite_error_eq_ok] at h
  simpa using h.1

theorem Sound.layout {device : BlockDevice} {fs : Fat32} (h : Sound device fs) : ClusterLayout device fs := by
  refine ⟨fun c hc => ?_, fun c c' lba lba' hl hl' hne => ?_⟩
  · obtain ⟨lba, hlba, heq⟩ := h.clusterLba hc
    have hle := h.lbaOf_le hc
    have hdev := h.inDevice
    have hlow : fs.partitionLba.toNat + fs.dataLba.toNat ≤ lbaOf fs c := Nat.le_add_right _ _
    exact ⟨lba, hlba, by omega, by omega, by omega⟩
  · have hc := clusterLba_valid hl
    have hc' := clusterLba_valid hl'
    obtain ⟨l, hl₁, heq⟩ := h.clusterLba hc
    obtain ⟨l', hl₁', heq'⟩ := h.clusterLba hc'
    obtain rfl : l = lba := Except.ok.inj (hl₁.symm.trans hl)
    obtain rfl : l' = lba' := Except.ok.inj (hl₁'.symm.trans hl')
    obtain ⟨h₂, -⟩ := (clusterValid_iff h.clusters_lt).1 hc
    obtain ⟨h₂', -⟩ := (clusterValid_iff h.clusters_lt).1 hc'
    rw [Set.Ico_disjoint_Ico, heq, heq']
    rcases Nat.lt_or_gt_of_ne fun h0 => hne (UInt32.toNat_inj.1 h0) with hlt | hlt
    · have := @lbaOf_apart fs _ _ h₂ hlt
      omega
    · have := @lbaOf_apart fs _ _ h₂' hlt
      omega

/-! ### `josh_fat32_mount` with its pointers -/

/-- `josh_fat32_mount`: the status, and what the structure holds afterwards. It is written after the last check. -/
def mountInto (device : Option BlockDevice) (partition : Option Partition) (fs : Option Fat32) : Status × Option Fat32 :=
  match device, partition, fs with
  | some device, some partition, some before =>
    match mount device partition with
    | .error status => (status, some before)
    | .ok after => (.ok, some after)
  | _, _, fs => (.notFat32, fs)

theorem mount_error {device : BlockDevice} {partition : Partition} {status : Status}
    (h : mount device partition = .error status) : status ≠ .ok := by
  rintro rfl
  simp only [mount, ite_error_eq_error, reduceCtorEq, and_false, false_or] at h
  obtain ⟨-, -, h⟩ := h
  split at h
  · cases h
  · simp only [ite_error_eq_error, reduceCtorEq, and_false, false_or] at h

/-- Whatever the boot sector holds: if mounting returns OK, none of its numbers has wrapped around, the volume is
inside the device, and its clusters are apart from each other and from the areas before them. Otherwise the structure
is as it was. -/
theorem mount_geometry (device : Option BlockDevice) (partition : Option Partition) (before : Option Fat32) :
    (∀ after, mountInto device partition before = (.ok, after) →
      ∃ d p fs boot, device = some d ∧ partition = some p ∧ after = some fs ∧ d.blockRead p.firstLba 1 = some boot ∧
        Geometry d p boot fs ∧ ClusterLayout d fs) ∧
    ((mountInto device partition before).1 ≠ .ok → (mountInto device partition before).2 = before) := by
  rcases device with - | device
  · exact ⟨nofun, fun _ => rfl⟩
  rcases partition with - | partition
  · exact ⟨nofun, fun _ => rfl⟩
  rcases before with - | before
  · exact ⟨nofun, fun _ => rfl⟩
  cases hm : mount device partition with
  | error status =>
    have hinto : mountInto (some device) (some partition) (some before) = (status, some before) := by
      simp only [mountInto, hm]
    rw [hinto]
    exact ⟨fun after h => absurd (congrArg Prod.fst h) (mount_error hm), fun _ => rfl⟩
  | ok fs =>
    have hinto : mountInto (some device) (some partition) (some before) = (.ok, some fs) := by
      simp only [mountInto, hm]
    rw [hinto]
    refine ⟨fun after h => ?_, fun h => absurd rfl h⟩
    obtain rfl : some fs = after := congrArg Prod.snd h
    obtain ⟨boot, hboot, hg⟩ := mount_ok hm
    exact ⟨device, partition, fs, boot, rfl, rfl, rfl, hboot, hg, hg.sound.layout⟩

/-! ### The smallest volume -/

def bootSector : Bytes :=
  bytesOf (packBytes [(11, 0), (2, 512), (1, 1), (2, 1), (1, 1), (4, 0), (1, 0xf8), (2, 0), (8, 0), (4, 66038), (4, 512),
    (4, 0), (4, 2), (462, 0), (1, 0x55), (1, 0xaa)])

def smallPartition : Partition where
  scheme := .mbr
  firstLba := 2048
  sectorCount := 66038
  mbrType := 0x0c
  gptTypeGuid := []
  gptUniqueGuid := []

/-- A disk with `smallVolume` on it; what the other sectors hold is given by their numbers in the volume. -/
def smallDisk (sector : Nat → Option Bytes) : BlockDevice where
  sectorCount := 68086
  read lba _ := if lba = 2048 then some bootSector else sector (lba.toNat - 2048)

/-- Mounting looks at the size of the device and at the boot sector. -/
theorem mount_congr {d d' : BlockDevice} {p : Partition} (hsize : d.sectorCount = d'.sectorCount)
    (hboot : d.blockRead p.firstLba 1 = d'.blockRead p.firstLba 1) : mount d p = mount d' p := by
  simp only [mount, hsize, hboot]

theorem smallDisk_mounts (sector : Nat → Option Bytes) :
    mount (smallDisk sector) smallPartition = .ok smallVolume := by
  have hsame : mount (smallDisk sector) smallPartition = mount (smallDisk fun _ => none) smallPartition :=
    mount_congr rfl rfl
  rw [hsame]
  exact eq_ok_of_toOption (by decide +kernel)

end JoshBios.Fat32
