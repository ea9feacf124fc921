import JoshBios.FatGeometry
import JoshBios.PartitionTable

/-! # What the file system looks at

Everything the loader knows about a volume it has from one-sector reads inside the volume: from the FAT, whose sectors are
counted against `sectorsPerFat` before each read, and from clusters, which are placed below `partitionSectors`. So two
devices that serve the sectors of a volume alike have the same files in it, whatever else is different
(`volume_decides`). -/

namespace JoshBios

/-- Two devices of one size that answer alike for the sectors with `P`. -/
structure BlockDevice.AlikeOn (P : Nat → Prop) (d d' : BlockDevice) : Prop where
  size : d.sectorCount = d'.sectorCount
  read : ∀ lba : UInt64, P lba.toNat → d.blockRead lba 1 = d'.blockRead lba 1

theorem BlockDevice.AlikeOn.mono {P Q : Nat → Prop} {d d' : BlockDevice} (h : BlockDevice.AlikeOn P d d')
    (hQ : ∀ i, Q i → P i) : BlockDevice.AlikeOn Q d d' :=
  ⟨h.size, fun lba hlba => h.read lba (hQ _ hlba)⟩

namespace Fat32

/-- The sectors of a volume. -/
def Sector (fs : Fat32) (i : Nat) : Prop :=
  fs.partitionLba.toNat ≤ i ∧ i < fs.partitionLba.toNat + fs.partitionSectors.toNat

variable {d d' : BlockDevice} {fs : Fat32}

section Sound
variable (h : Sound d fs)
include h

theorem Sound.fat_sector {index : UInt64} (hi : index < fs.sectorsPerFat.toUInt64) :
    Sector fs (fs.partitionLba + fs.fatLba.toUInt64 + index).toNat := by
  have hlt := UInt64.lt_iff_toNat_lt.1 hi
  have hvol := h.inVolume
  have hfat := h.fats
  have hdev := h.inDevice
  have hbound := d.sectorCount.toNat_lt
  rw [UInt32.toNat_toUInt64] at hlt
  have hsum : (fs.partitionLba + fs.fatLba.toUInt64 + index).toNat =
      fs.partitionLba.toNat + fs.fatLba.toNat + index.toNat := by
    rw [UInt64.toNat_add, UInt64.toNat_add, UInt32.toNat_toUInt64,
      Nat.mod_eq_of_lt (a := fs.partitionLba.toNat + fs.fatLba.toNat) (by omega), Nat.mod_eq_of_lt (by omega)]
  rw [hsum]
  constructor <;> omega

end Sound

/-- `n` sectors from `lba` on are in the volume. -/
def Run (fs : Fat32) (lba : UInt64) (n : Nat) : Prop :=
  fs.partitionLba.toNat ≤ lba.toNat ∧ lba.toNat + n ≤ fs.partitionLba.toNat + fs.partitionSectors.toNat

theorem Sound.volume_lt (h : Sound d fs) : fs.partitionLba.toNat + fs.partitionSectors.toNat < 2 ^ 64 :=
  Nat.lt_of_le_of_lt h.inDevice d.sectorCount.toNat_lt

theorem Run.toNat_add (hvol : fs.partitionLba.toNat + fs.partitionSectors.toNat < 2 ^ 64) {lba k : UInt64} {n : Nat}
    (hr : Run fs lba n) (hk : k.toNat ≤ n) : (lba + k).toNat = lba.toNat + k.toNat := by
  have hend := hr.2
  rw [UInt64.toNat_add, Nat.mod_eq_of_lt (by omega)]

theorem Run.head {lba : UInt64} {n : Nat} (hr : Run fs lba (n + 1)) : Sector fs lba.toNat :=
  ⟨hr.1, by have := hr.2; omega⟩

theorem Run.drop (hvol : fs.partitionLba.toNat + fs.partitionSectors.toNat < 2 ^ 64) {lba k : UInt64} {n : Nat}
    (hr : Run fs lba n) (hk : k.toNat ≤ n) : Run fs (lba + k) (n - k.toNat) := by
  obtain ⟨hlow, hhigh⟩ := hr
  unfold Run
  rw [Run.toNat_add hvol ⟨hlow, hhigh⟩ hk]
  omega

theorem Run.tail (hvol : fs.partitionLba.toNat + fs.partitionSectors.toNat < 2 ^ 64) {lba : UInt64} {n : Nat}
    (hr : Run fs lba (n + 1)) : Run fs (lba + 1) n :=
  hr.drop hvol (Nat.le_add_left 1 n)

theorem Sound.cluster_run (h : Sound d fs) {c : UInt32} {lba : UInt64} (hlba : Fat32.clusterLba fs c = .ok lba) :
    Run fs lba fs.sectorsPerCluster.toNat := by
  obtain ⟨lba', hlba', hlow, hhigh, -⟩ := h.layout.placed c (clusterLba_valid hlba)
  obtain rfl : lba' = lba := Except.ok.inj (hlba'.symm.trans hlba)
  exact ⟨by omega, hhigh⟩

/-! ### One function after the other -/

section Alike
variable (h : Sound d fs) (ha : BlockDevice.AlikeOn (Sector fs) d d')
include h ha

theorem nextCluster_alike (c : UInt32) : nextCluster d fs c = nextCluster d' fs c := by
  simp only [nextCluster]
  split
  · rfl
  split
  · rfl
  next hin =>
    rw [Bool.or_eq_true, decide_eq_true_iff, not_or, ge_iff_le, UInt64.not_le] at hin
    rw [ha.read _ (h.fat_sector hin.1)]

theorem scanCluster_alike (shortName : List UInt8) {n : Nat} {lba : UInt64} (hr : Run fs lba n) :
    scanCluster d shortName n lba = scanCluster d' shortName n lba := by
  induction n generalizing lba with
  | zero => rfl
  | succ n ih => rw [scanCluster, scanCluster, ha.read _ hr.head, ih (hr.tail h.volume_lt)]

theorem findInClusters_alike (shortName : List UInt8) (n : Nat) (c : UInt32) :
    findInClusters d fs shortName n c = findInClusters d' fs shortName n c := by
  induction n generalizing c with
  | zero => rfl
  | succ n ih =>
    rw [findInClusters, findInClusters]
    cases hlba : Fat32.clusterLba fs c with
    | error status => rfl
    | ok lba => simp only [scanCluster_alike h ha shortName (h.cluster_run hlba), nextCluster_alike h ha, ih]

theorem openSegments_alike (n : Nat) (directory : UInt32) (path : List UInt8) :
    openSegments d fs n directory path = openSegments d' fs n directory path := by
  induction n generalizing directory path with
  | zero => rfl
  | succ n ih => simp only [openSegments, findInDirectory, findInClusters_alike h ha, ih]

theorem openPath_alike (path : List UInt8) : openPath d fs path = openPath d' fs path := by
  simp only [openPath, openSegments_alike h ha]

theorem readSectors_alike {n : Nat} {lba : UInt64} (hr : Run fs lba n) (byteOffset : UInt32) (r : Reading) :
    readSectors d n lba byteOffset r = readSectors d' n lba byteOffset r := by
  induction n generalizing lba byteOffset r with
  | zero => rfl
  | succ n ih => simp only [readSectors, ha.read _ hr.head, ih (hr.tail h.volume_lt)]

/-- A read starts inside its cluster, as `offsetInCluster` is below the size of one. -/
theorem readClusters_alike (n : Nat) (visited c : UInt32) {offset : UInt32}
    (hoffset : offset.toNat / 512 ≤ fs.sectorsPerCluster.toNat) (r : Reading) :
    readClusters d fs n visited c offset r = readClusters d' fs n visited c offset r := by
  induction n generalizing visited c offset r with
  | zero => rfl
  | succ n ih =>
    rw [readClusters, readClusters]
    cases hlba : Fat32.clusterLba fs c with
    | error status => rfl
    | ok lba =>
      have hfirst : (offset / 512).toNat = offset.toNat / 512 := UInt32.toNat_div _ _
      have hrun := (h.cluster_run hlba).drop h.volume_lt (k := (offset / 512).toUInt64)
        (by rw [UInt32.toNat_toUInt64, hfirst]; exact hoffset)
      rw [UInt32.toNat_toUInt64] at hrun
      have hrest := fun visited c r => ih visited c (show (0 : UInt32).toNat / 512 ≤ _ from Nat.zero_le _) r
      simp only [readSectors_alike h ha hrun, nextCluster_alike h ha, hrest]

theorem skipClusters_alike (n : Nat) (c : UInt32) : skipClusters d fs n c = skipClusters d' fs n c := by
  induction n generalizing c with
  | zero => rfl
  | succ n ih => simp only [skipClusters, nextCluster_alike h ha, ih]

theorem readFile_alike (file : File) (offset length : UInt32) :
    readFile d fs file offset length = readFile d' fs file offset length := by
  have hbytes : (fs.sectorsPerCluster.toUInt32 * 512).toNat = fs.sectorsPerCluster.toNat * 512 := by
    have hle := h.spc_le
    rw [UInt32.toNat_mul, UInt8.toNat_toUInt32]
    exact Nat.mod_eq_of_lt (by change fs.sectorsPerCluster.toNat * 512 < 2 ^ 32; omega)
  have hoffset : (offset % (fs.sectorsPerCluster.toUInt32 * 512)).toNat / 512 ≤ fs.sectorsPerCluster.toNat := by
    have hlt : offset.toNat % (fs.sectorsPerCluster.toNat * 512) < fs.sectorsPerCluster.toNat * 512 :=
      Nat.mod_lt _ (Nat.mul_pos h.spc_pos (by decide))
    rw [UInt32.toNat_mod, hbytes]
    omega
  simp only [readFile, skipClusters_alike h ha, readClusters_alike h ha _ _ _ hoffset]

end Alike

/-- Mounting looks at the first sector of the partition, and the volume does not reach over its end. -/
theorem mount_alike {p : Partition} {P : Nat → Prop} (hp : ∀ i, p.firstLba.toNat ≤ i →
    i < p.firstLba.toNat + p.sectorCount.toNat → P i) (ha : BlockDevice.AlikeOn P d d') : mount d p = mount d' p := by
  by_cases hzero : p.sectorCount = 0
  · rw [mount, mount, if_pos hzero, if_pos hzero]
  · have hpos := Partition.toNat_pos.2 hzero
    exact mount_congr ha.size (ha.read _ (hp _ (Nat.le_refl _) (by omega)))

theorem Geometry.sector {p : Partition} {boot : Bytes} (h : Geometry d p boot fs) {i : Nat} (hi : Sector fs i) :
    p.firstLba.toNat ≤ i ∧ i < p.firstLba.toNat + p.sectorCount.toNat := by
  obtain ⟨hlow, hhigh⟩ := hi
  have hin := h.inPartition
  rw [h.partitionSectors] at hhigh
  rw [h.partitionLba] at hlow hhigh
  omega

/-- Two devices of one size that serve the sectors of a partition alike, each sector or its failure, mount it alike;
and every path and every read in the volume gives the same on both. -/
theorem volume_decides {p : Partition}
    (ha : BlockDevice.AlikeOn (fun i => p.firstLba.toNat ≤ i ∧ i < p.firstLba.toNat + p.sectorCount.toNat) d d') :
    mount d p = mount d' p ∧ ∀ fs, mount d p = .ok fs →
      (∀ path, openPath d fs path = openPath d' fs path) ∧
      ∀ file offset length, readFile d fs file offset length = readFile d' fs file offset length := by
  refine ⟨mount_alike (fun i hlow hhigh => ⟨hlow, hhigh⟩) ha, fun fs hm => ?_⟩
  obtain ⟨boot, -, hg⟩ := mount_ok hm
  have hin := ha.mono fun i (hi : Sector fs i) => hg.sector hi
  exact ⟨openPath_alike hg.sound hin, readFile_alike hg.sound hin⟩

/-- A disk with a volume in its partition, and the same disk unreadable before the partition. -/
theorem volume_decides_small :
    let d := smallDisk fun _ => some fun _ => 0x61
    let d' := smallDisk fun i => if i = 0 then none else some fun _ => 0x61
    mount d smallPartition = mount d' smallPartition ∧
      ∀ fs, mount d smallPartition = .ok fs →
        (∀ path, openPath d fs path = openPath d' fs path) ∧
        ∀ file offset length, readFile d fs file offset length = readFile d' fs file offset length := by
  intro d d'
  refine volume_decides ⟨rfl, fun lba hlba => ?_⟩
  obtain ⟨hlow, hhigh⟩ : 2048 ≤ lba.toNat ∧ lba.toNat < 2048 + 66038 := hlba
  rw [Partition.blockRead_of_lt hhigh, Partition.blockRead_of_lt hhigh]
  simp only [d, d', smallDisk]
  by_cases hboot : lba = 2048
  · rw [if_pos hboot, if_pos hboot]
  · have hne : lba.toNat ≠ 2048 := fun h => hboot (UInt64.toNat_inj.1 h)
    rw [if_neg hboot, if_neg hboot, if_neg (by omega)]

end Fat32

end JoshBios
