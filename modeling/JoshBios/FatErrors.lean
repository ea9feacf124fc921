import JoshBios.FatServe
import JoshBios.PartitionTable

/-! # The errors of a read

`readFileReads` lists the sectors that one call of `josh_fat32_read_file` asks the device for, in their order; each of the
functions on the way has such a list, with the branches of the function itself. Both loops of the call walk along the FAT.
The one that reads hands on the status of a step, the one that skips to the offset does not, and
`readFile_truthful_iff` says what follows from the difference. -/

namespace JoshBios.Fat32

open Lib (follow nodeAt)

def nextClusterReads (fs : Fat32) (cluster : UInt32) : List UInt64 :=
  if !clusterValid fs cluster then [] else
  let fatOffset := cluster.toUInt64 * 4
  let sectorIndex := fatOffset / 512
  let byteOffset := (fatOffset % 512).toUInt32
  if sectorIndex ≥ fs.sectorsPerFat.toUInt64 || byteOffset > 512 - 4 then []
  else [fs.partitionLba + fs.fatLba.toUInt64 + sectorIndex]

def skipClustersReads (device : BlockDevice) (fs : Fat32) : (n : Nat) → (cluster : UInt32) → List UInt64
  | 0, _ => []
  | n + 1, cluster =>
    nextClusterReads fs cluster ++
      match nextCluster device fs cluster with
      | .error _ => []
      | .ok next => if next ≥ eocMin then [] else skipClustersReads device fs n next

def readSectorsReads (device : BlockDevice) : (n : Nat) → (lba : UInt64) → (byteOffset : UInt32) → Reading → List UInt64
  | 0, _, _, _ => []
  | n + 1, lba, byteOffset, r =>
    if r.remaining = 0 then [] else
    lba :: match device.blockRead lba 1 with
      | none => []
      | some sector =>
        let take := if 512 - byteOffset > r.remaining then r.remaining else 512 - byteOffset
        readSectorsReads device n (lba + 1) 0
          { out := r.out ++ sector.slice byteOffset.toNat take.toNat, remaining := r.remaining - take }

def readClustersReads (device : BlockDevice) (fs : Fat32) :
    (n : Nat) → (visited cluster offsetInCluster : UInt32) → Reading → List UInt64
  | 0, _, _, _, _ => []
  | n + 1, visited, cluster, offsetInCluster, r =>
    if r.remaining = 0 then []
    else if visited > fs.clusterCount then []
    else
    match clusterLba fs cluster with
    | .error _ => []
    | .ok baseLba =>
      let firstSector := offsetInCluster / 512
      let byteOffset := offsetInCluster % 512
      let n' := fs.sectorsPerCluster.toNat - firstSector.toNat
      let lba := baseLba + firstSector.toUInt64
      readSectorsReads device n' lba byteOffset r ++
        match readSectors device n' lba byteOffset r with
        | (.ok, r) =>
          if r.remaining = 0 then [] else
          nextClusterReads fs cluster ++
            match nextCluster device fs cluster with
            | .error _ => []
            | .ok next => if next ≥ eocMin then [] else readClustersReads device fs n (visited + 1) next 0 r
        | _ => []

/-- The sectors that a call asks for. -/
def readFileReads (device : BlockDevice) (fs : Fat32) (file : File) (offset length : UInt32) : List UInt64 :=
  if file.attributes &&& attrDirectory ≠ 0 then []
  else if offset > file.size then []
  else
  let available := file.size - offset
  let length := if length > available then available else length
  if length = 0 then []
  else if !clusterValid fs file.firstCluster then []
  else
  let clusterBytes := fs.sectorsPerCluster.toUInt32 * 512
  let skip := offset / clusterBytes
  skipClustersReads device fs skip.toNat file.firstCluster ++
    match skipClusters device fs skip.toNat file.firstCluster with
    | none => []
    | some cluster =>
      readClustersReads device fs (fs.clusterCount.toNat + 2) skip cluster (offset % clusterBytes) ⟨[], length⟩

/-- Some read of the list fails. -/
def Fails (device : BlockDevice) (reads : List UInt64) : Prop := ∃ lba ∈ reads, device.blockRead lba 1 = none

section
variable {device : BlockDevice} {fs : Fat32}

@[simp] theorem not_fails_nil : ¬ Fails device [] := by
  rintro ⟨lba, hlba, -⟩
  cases hlba

theorem fails_append {reads reads' : List UInt64} :
    Fails device (reads ++ reads') ↔ Fails device reads ∨ Fails device reads' := by
  simp only [Fails, List.mem_append, or_and_right, exists_or]

theorem fails_cons {lba : UInt64} {reads : List UInt64} :
    Fails device (lba :: reads) ↔ device.blockRead lba 1 = none ∨ Fails device reads := by
  simp only [Fails, List.exists_mem_cons_iff]

/-! ### The loops -/

theorem nextCluster_ioError (c : UInt32) :
    nextCluster device fs c = .error .ioError ↔ Fails device (nextClusterReads fs c) := by
  rw [nextCluster, nextClusterReads]
  split
  · exact iff_of_false (by rintro ⟨⟩) not_fails_nil
  simp only
  split
  · exact iff_of_false (by rintro ⟨⟩) not_fails_nil
  rw [fails_cons]
  cases hread : device.blockRead (fs.partitionLba + fs.fatLba.toUInt64 + c.toUInt64 * 4 / 512) 1 with
  | none => exact iff_of_true rfl (Or.inl rfl)
  | some sector =>
    refine iff_of_false (fun h => ?_) (not_or.2 ⟨Option.some_ne_none sector, not_fails_nil⟩)
    simp only at h
    split at h <;> cases h

theorem not_fails_of_link {c next : UInt32} (h : link device fs c = some next) : ¬ Fails device (nextClusterReads fs c) := by
  rw [← nextCluster_ioError]
  intro hio
  rw [link, hio] at h
  cases h

theorem skipClustersReads_of_some {c next : UInt32} (h : link device fs c = some next) (n : Nat) :
    skipClustersReads device fs (n + 1) c = nextClusterReads fs c ++ skipClustersReads device fs n next := by
  rw [link] at h
  rw [skipClustersReads]
  cases hn : nextCluster device fs c with
  | error status => rw [hn] at h; cases h
  | ok next' =>
    rw [hn] at h
    simp only at h ⊢
    split at h
    · cases h
    next heoc => rw [if_neg heoc, Option.some.inj h]

theorem skipClustersReads_of_none {c : UInt32} (h : link device fs c = none) (n : Nat) :
    skipClustersReads device fs (n + 1) c = nextClusterReads fs c := by
  rw [link] at h
  rw [skipClustersReads]
  cases hn : nextCluster device fs c with
  | error status => exact List.append_nil _
  | ok next =>
    rw [hn] at h
    simp only at h ⊢
    split at h
    next heoc => rw [if_pos heoc, List.append_nil]
    · cases h

/-- The skipping fails to read a sector of the FAT for one of the clusters that it comes to. -/
theorem skipClusters_fails (n : Nat) (c : UInt32) :
    Fails device (skipClustersReads device fs n c) ↔ ∃ x ∈ chain device fs n c, Fails device (nextClusterReads fs x) := by
  induction n generalizing c with
  | zero => exact iff_of_false not_fails_nil fun ⟨x, hx, _⟩ => absurd hx List.not_mem_nil
  | succ n ih =>
    cases hl : link device fs c with
    | none =>
      rw [skipClustersReads_of_none hl, chain, Lib.follow_of_none hl]
      simp only [List.mem_singleton, exists_eq_left]
    | some next =>
      rw [skipClustersReads_of_some hl, fails_append, ih, chain, chain, Lib.follow_of_some hl, List.exists_mem_cons_iff]

theorem skipClusters_some {n : Nat} {c c' : UInt32} (h : nodeAt (link device fs) n c = some c') :
    ¬ Fails device (skipClustersReads device fs n c) := by
  induction n generalizing c with
  | zero => exact not_fails_nil
  | succ n ih =>
    rw [nodeAt] at h
    cases hl : link device fs c with
    | none => rw [hl] at h; cases h
    | some next =>
      rw [hl] at h
      rw [skipClustersReads_of_some hl, fails_append]
      exact not_or.2 ⟨not_fails_of_link hl, ih h⟩

theorem skipClusters_invalid {c : UInt32} (hc : clusterValid fs c = false) (n : Nat) :
    ¬ Fails device (skipClustersReads device fs n c) := by
  cases n with
  | zero => exact not_fails_nil
  | succ n =>
    have hl : link device fs c = none := Option.eq_none_iff_forall_ne_some.2 fun next hnext => by
      rw [link_valid hnext] at hc
      cases hc
    rw [skipClustersReads_of_none hl, nextClusterReads, hc]
    exact not_fails_nil

theorem readSectors_status (n : Nat) (lba : UInt64) (byteOffset : UInt32) (r : Reading) :
    ((readSectors device n lba byteOffset r).1 = .ioError ∧ Fails device (readSectorsReads device n lba byteOffset r)) ∨
      ((readSectors device n lba byteOffset r).1 = .ok ∧ ¬ Fails device (readSectorsReads device n lba byteOffset r)) := by
  induction n generalizing lba byteOffset r with
  | zero => exact Or.inr ⟨rfl, not_fails_nil⟩
  | succ n ih =>
    rw [readSectors, readSectorsReads]
    split
    · exact Or.inr ⟨rfl, not_fails_nil⟩
    rw [fails_cons]
    cases hread : device.blockRead lba 1 with
    | none => exact Or.inl ⟨rfl, Or.inl rfl⟩
    | some sector =>
      simp only [reduceCtorEq, false_or]
      exact ih ..

/-- The loop that reads reports a failed read as such, and nothing else. -/
theorem readClusters_ioError (n : Nat) (visited c offsetInCluster : UInt32) (r : Reading) :
    (readClusters device fs n visited c offsetInCluster r).1 = .ioError ↔
      Fails device (readClustersReads device fs n visited c offsetInCluster r) := by
  induction n generalizing visited c offsetInCluster r with
  | zero => exact iff_of_false (by rintro ⟨⟩) not_fails_nil
  | succ n ih =>
    rw [readClusters, readClustersReads]
    split
    · exact iff_of_false (by rintro ⟨⟩) not_fails_nil
    split
    · exact iff_of_false (by rintro ⟨⟩) not_fails_nil
    cases hlba : clusterLba fs c with
    | error status =>
      refine iff_of_false ?_ not_fails_nil
      rintro rfl
      simp only [clusterLba, ite_error_eq_error, reduceCtorEq, and_false, or_self] at hlba
    | ok lba =>
      simp only
      have hsectors := @readSectors_status device (fs.sectorsPerCluster.toNat - (offsetInCluster / 512).toNat)
        (lba + (offsetInCluster / 512).toUInt64) (offsetInCluster % 512) r
      generalize readSectorsReads device (fs.sectorsPerCluster.toNat - (offsetInCluster / 512).toNat)
        (lba + (offsetInCluster / 512).toUInt64) (offsetInCluster % 512) r = sectorReads at hsectors ⊢
      generalize readSectors device (fs.sectorsPerCluster.toNat - (offsetInCluster / 512).toNat)
        (lba + (offsetInCluster / 512).toUInt64) (offsetInCluster % 512) r = result at hsectors ⊢
      obtain ⟨status, r'⟩ := result
      rw [fails_append]
      rcases hsectors with ⟨rfl, hfails⟩ | ⟨rfl, hfine⟩
      · exact iff_of_true rfl (Or.inl hfails)
      · simp only [hfine, false_or]
        split
        · exact iff_of_false (by rintro ⟨⟩) not_fails_nil
        rw [fails_append, ← nextCluster_ioError]
        cases nextCluster device fs c with
        | error status => simp
        | ok next =>
          simp only [reduceCtorEq, false_or]
          split
          · exact iff_of_false (by rintro ⟨⟩) not_fails_nil
          · exact ih ..

end

/-! ### The lists miss nothing

Two devices that agree on the sectors that a call asks the first for are the same to the call. -/

def Agree (device device' : BlockDevice) (reads : List UInt64) : Prop :=
  ∀ lba ∈ reads, device.blockRead lba 1 = device'.blockRead lba 1

section
variable {device device' : BlockDevice} {fs : Fat32}

theorem agree_append {reads reads' : List UInt64} :
    Agree device device' (reads ++ reads') ↔ Agree device device' reads ∧ Agree device device' reads' :=
  List.forall_mem_append

theorem nextCluster_congr {c : UInt32} (h : Agree device device' (nextClusterReads fs c)) :
    nextCluster device fs c = nextCluster device' fs c := by
  rw [nextClusterReads] at h
  rw [nextCluster, nextCluster]
  split
  · rfl
  next hc =>
    simp only
    split
    · rfl
    next hindex =>
      rw [if_neg hc] at h
      simp only [if_neg hindex] at h
      rw [h _ (List.mem_singleton_self _)]

theorem skipClusters_congr {n : Nat} {c : UInt32} (h : Agree device device' (skipClustersReads device fs n c)) :
    skipClusters device fs n c = skipClusters device' fs n c := by
  induction n generalizing c with
  | zero => rfl
  | succ n ih =>
    rw [skipClustersReads, agree_append] at h
    rw [skipClusters, skipClusters, ← nextCluster_congr h.1]
    cases hn : nextCluster device fs c with
    | error status => rfl
    | ok next =>
      rw [hn] at h
      simp only at h ⊢
      split
      · rfl
      next heoc => exact ih (by simpa only [if_neg heoc] using h.2)

theorem readSectors_congr {n : Nat} {lba : UInt64} {byteOffset : UInt32} {r : Reading}
    (h : Agree device device' (readSectorsReads device n lba byteOffset r)) :
    readSectors device n lba byteOffset r = readSectors device' n lba byteOffset r := by
  induction n generalizing lba byteOffset r with
  | zero => rfl
  | succ n ih =>
    rw [readSectorsReads] at h
    rw [readSectors, readSectors]
    split
    · rfl
    next hz =>
      rw [if_neg hz] at h
      have hread := h lba (List.mem_cons_self ..)
      rw [← hread]
      cases hb : device.blockRead lba 1 with
      | none => rfl
      | some sector =>
        rw [hb] at h
        exact ih fun x hx => h x (List.mem_cons_of_mem _ hx)

theorem readClusters_congr {n : Nat} {visited c offsetInCluster : UInt32} {r : Reading}
    (h : Agree device device' (readClustersReads device fs n visited c offsetInCluster r)) :
    readClusters device fs n visited c offsetInCluster r = readClusters device' fs n visited c offsetInCluster r := by
  induction n generalizing visited c offsetInCluster r with
  | zero => rfl
  | succ n ih =>
    rw [readClustersReads] at h
    rw [readClusters, readClusters]
    split
    · rfl
    next hz =>
      rw [if_neg hz] at h
      split
      · rfl
      next hv =>
        rw [if_neg hv] at h
        cases hlba : clusterLba fs c with
        | error status => rfl
        | ok lba =>
          rw [hlba] at h
          simp only [agree_append] at h ⊢
          rw [← readSectors_congr h.1]
          have hrest := h.2
          generalize readSectors device (fs.sectorsPerCluster.toNat - (offsetInCluster / 512).toNat)
            (lba + (offsetInCluster / 512).toUInt64) (offsetInCluster % 512) r = result at hrest ⊢
          obtain ⟨status, r'⟩ := result
          cases status with
          | ok =>
            simp only at hrest ⊢
            split
            · rfl
            next hz' =>
              rw [if_neg hz', agree_append] at hrest
              rw [← nextCluster_congr hrest.1]
              cases hn : nextCluster device fs c with
              | error status => rfl
              | ok next =>
                rw [hn] at hrest
                simp only at hrest ⊢
                split
                · rfl
                next heoc => exact ih (by simpa only [if_neg heoc] using hrest.2)
          | _ => rfl

/-- What a call returns is decided by the sectors that it asks for. -/
theorem readFile_congr {file : File} {offset length : UInt32}
    (h : Agree device device' (readFileReads device fs file offset length)) :
    readFile device fs file offset length = readFile device' fs file offset length := by
  rw [readFileReads] at h
  rw [readFile, readFile]
  split
  · rfl
  next hdir =>
    rw [if_neg hdir] at h
    split
    · rfl
    next hoff =>
      rw [if_neg hoff] at h
      simp only at h ⊢
      generalize (if length > file.size - offset then file.size - offset else length) = served at h ⊢
      split
      · rfl
      next hz =>
        rw [if_neg hz] at h
        split
        · rfl
        next hv =>
          rw [if_neg hv, agree_append] at h
          rw [← skipClusters_congr h.1]
          have hrest := h.2
          cases hs : skipClusters device fs (offset / (fs.sectorsPerCluster.toUInt32 * 512)).toNat file.firstCluster with
          | none => rfl
          | some c =>
            rw [hs] at hrest
            simp only
            rw [← readClusters_congr hrest]

end

/-! ### Where the reads are -/

section
variable {device : BlockDevice} {fs : Fat32}

theorem nextClusterReads_inDevice (h : Sound device fs) (c : UInt32) :
    ∀ lba ∈ nextClusterReads fs c, lba.toNat < device.sectorCount.toNat := by
  intro lba hlba
  simp only [nextClusterReads] at hlba
  split at hlba
  · cases hlba
  split at hlba
  · cases hlba
  next hindex =>
    rw [List.mem_singleton] at hlba
    simp only [Bool.or_eq_true, decide_eq_true_iff, not_or, ge_iff_le, UInt64.not_le] at hindex
    have hlt := UInt64.lt_iff_toNat_lt.1 hindex.1
    generalize c.toUInt64 * 4 / 512 = sectorIndex at hlba hlt
    have hdev := h.inDevice
    have hvol := h.inVolume
    have hfats := h.fats
    have hmax := device.sectorCount.toNat_lt
    rw [UInt32.toNat_toUInt64] at hlt
    rw [hlba, UInt64.toNat_add, UInt64.toNat_add, UInt32.toNat_toUInt64]
    omega

theorem readSectorsReads_inDevice {n : Nat} {lba : UInt64} (byteOffset : UInt32) (r : Reading)
    (h : lba.toNat + n ≤ device.sectorCount.toNat) :
    ∀ x ∈ readSectorsReads device n lba byteOffset r, x.toNat < device.sectorCount.toNat := by
  induction n generalizing lba byteOffset r with
  | zero => exact fun x hx => absurd hx List.not_mem_nil
  | succ n ih =>
    intro x hx
    rw [readSectorsReads] at hx
    split at hx
    · cases hx
    rcases List.mem_cons.1 hx with rfl | hx
    · omega
    split at hx
    · cases hx
    · have hmax := device.sectorCount.toNat_lt
      have hsucc : (lba + 1).toNat ≤ lba.toNat + 1 := by
        rw [UInt64.toNat_add]
        exact Nat.mod_le _ _
      exact ih _ _ (by omega) x hx

theorem readClustersReads_inDevice (h : Sound device fs) (n : Nat) (visited c : UInt32) {offsetInCluster : UInt32}
    (ho : offsetInCluster.toNat < clusterBytes fs) (r : Reading) :
    ∀ x ∈ readClustersReads device fs n visited c offsetInCluster r, x.toNat < device.sectorCount.toNat := by
  have hzero : (0 : UInt32).toNat < clusterBytes fs := h.clusterBytes_pos
  induction n generalizing visited c offsetInCluster r with
  | zero => exact fun x hx => absurd hx List.not_mem_nil
  | succ n ih =>
    intro x hx
    rw [readClustersReads] at hx
    split at hx
    · cases hx
    split at hx
    · cases hx
    split at hx
    · cases hx
    next baseLba hlba =>
      have hc := clusterLba_valid hlba
      obtain ⟨lba, hlba', heq⟩ := h.clusterLba hc
      obtain rfl : lba = baseLba := Except.ok.inj (hlba'.symm.trans hlba)
      have hle := h.lbaOf_le hc
      have hdev := h.inDevice
      have hdiv : (offsetInCluster / 512).toNat = offsetInCluster.toNat / 512 := UInt32.toNat_div _ _
      rw [clusterBytes] at ho
      rcases List.mem_append.1 hx with hx | hx
      · refine readSectorsReads_inDevice _ _ ?_ x hx
        have hsum : (lba + (offsetInCluster / 512).toUInt64).toNat ≤ lba.toNat + offsetInCluster.toNat / 512 := by
          rw [UInt64.toNat_add, UInt32.toNat_toUInt64, hdiv]
          exact Nat.mod_le _ _
        omega
      split at hx
      · split at hx
        · cases hx
        rcases List.mem_append.1 hx with hx | hx
        · exact nextClusterReads_inDevice h c x hx
        split at hx
        · cases hx
        split at hx
        · cases hx
        · exact ih _ _ hzero _ x hx
      · cases hx

theorem skipClustersReads_inDevice (h : Sound device fs) (n : Nat) (c : UInt32) :
    ∀ x ∈ skipClustersReads device fs n c, x.toNat < device.sectorCount.toNat := by
  induction n generalizing c with
  | zero => exact fun x hx => absurd hx List.not_mem_nil
  | succ n ih =>
    intro x hx
    cases hl : link device fs c with
    | none =>
      rw [skipClustersReads_of_none hl] at hx
      exact nextClusterReads_inDevice h c x hx
    | some next =>
      rw [skipClustersReads_of_some hl] at hx
      rcases List.mem_append.1 hx with hx | hx
      · exact nextClusterReads_inDevice h c x hx
      · exact ih next x hx

end

/-! ### The whole call -/

/-- A failed read is reported as one, and corruption only when no read failed. -/
def ErrorsTruthful (device : BlockDevice) (fs : Fat32) (file : File) (offset length : UInt32) : Prop :=
  let reads := readFileReads device fs file offset length
  let status := (readFile device fs file offset length).status
  ((∃ lba ∈ reads, device.read lba 1 = none) → status = .ioError) ∧
    (status = .corrupt → ∀ lba ∈ reads, device.read lba 1 ≠ none)

/-- The clusters of the chain that a read skips. -/
def clustersSkipped (fs : Fat32) (file : File) (offset length : UInt32) : Nat :=
  if file.attributes &&& attrDirectory ≠ 0 ∨ wanted file offset length = 0 then 0 else offset.toNat / clusterBytes fs

section
variable {device : BlockDevice} {fs : Fat32} {file : File} {offset length : UInt32}

theorem fails_iff_read {reads : List UInt64} (h : ∀ x ∈ reads, x.toNat < device.sectorCount.toNat) :
    Fails device reads ↔ ∃ lba ∈ reads, device.read lba 1 = none := by
  refine exists_congr fun lba => and_congr_right fun hlba => ?_
  rw [Partition.blockRead_of_lt (h lba hlba)]

theorem readFileReads_rejected (h : ¬ (file.attributes &&& attrDirectory = 0 ∧ offset ≤ file.size ∧
    wanted file offset length ≠ 0 ∧ clusterValid fs file.firstCluster = true)) :
    readFileReads device fs file offset length = [] := by
  rw [readFileReads]
  split
  · rfl
  next hdir =>
    split
    · rfl
    next hoff =>
      have hserved := toNat_served length (UInt32.not_lt.1 hoff)
      simp only
      generalize (if length > file.size - offset then file.size - offset else length) = served at hserved
      split
      · rfl
      next hz =>
        split
        · rfl
        next hv =>
          refine absurd ⟨not_not.1 hdir, UInt32.not_lt.1 hoff, fun hn => ?_, by simpa using hv⟩ h
          exact hz (UInt32.toNat_inj.1 (hserved.trans hn))

/-- A call that gets to the FAT: what it asks for, and its status. -/
theorem readFile_walk (h : Sound device fs) (hfile : file.attributes &&& attrDirectory = 0) (hoff : offset ≤ file.size)
    (hn : wanted file offset length ≠ 0) (hv : clusterValid fs file.firstCluster = true) :
    let skipReads := skipClustersReads device fs (offset.toNat / clusterBytes fs) file.firstCluster
    (nodeAt (link device fs) (offset.toNat / clusterBytes fs) file.firstCluster = none ∧
      (readFile device fs file offset length).status = .corrupt ∧
      readFileReads device fs file offset length = skipReads) ∨
    ∃ n visited c inCluster r,
      nodeAt (link device fs) (offset.toNat / clusterBytes fs) file.firstCluster = some c ∧
      inCluster.toNat < clusterBytes fs ∧
      (readFile device fs file offset length).status = (readClusters device fs n visited c inCluster r).1 ∧
      readFileReads device fs file offset length = skipReads ++ readClustersReads device fs n visited c inCluster r := by
  have hmod : (offset % (fs.sectorsPerCluster.toUInt32 * 512)).toNat < clusterBytes fs := by
    rw [toNat_inCluster h]
    exact Nat.mod_lt _ h.clusterBytes_pos
  simp only [readFile, readFileReads, if_neg (not_not.2 hfile), if_neg (UInt32.not_lt.2 hoff),
    if_neg (served_ne_zero hoff hn), hv, Bool.not_true, Bool.false_eq_true, if_false, skipClusters_eq, toNat_skip h]
  cases nodeAt (link device fs) (offset.toNat / clusterBytes fs) file.firstCluster with
  | none => exact Or.inl ⟨rfl, rfl, List.append_nil _⟩
  | some c =>
    refine Or.inr ⟨_, _, c, _, _, rfl, hmod, ?_, rfl⟩
    simp only
    split
    next hres => rw [hres]
    next hres => rw [hres]

end

/-- The errors are truthful exactly when no sector of the FAT fails while the call skips to its offset: in the loop
that skips, every failed step is reported as corruption. -/
theorem readFile_truthful_iff {device : BlockDevice} {partition : Partition} {fs : Fat32}
    (hm : mount device partition = .ok fs) (file : File) (offset length : UInt32) :
    ErrorsTruthful device fs file offset length ↔
      ∀ c ∈ chain device fs (clustersSkipped fs file offset length) file.firstCluster,
        ∀ lba ∈ nextClusterReads fs c, device.read lba 1 ≠ none := by
  obtain ⟨boot, -, hgeometry⟩ := mount_ok hm
  have h := hgeometry.sound
  -- the condition, in terms of the reads of the loop that skips
  have hcond : (∀ c ∈ chain device fs (clustersSkipped fs file offset length) file.firstCluster,
      ∀ lba ∈ nextClusterReads fs c, device.read lba 1 ≠ none) ↔
      ¬ Fails device (skipClustersReads device fs (clustersSkipped fs file offset length) file.firstCluster) := by
    rw [skipClusters_fails]
    push Not
    refine forall₂_congr fun c _ => ?_
    rw [fails_iff_read (nextClusterReads_inDevice h c)]
    push Not
    rfl
  rw [hcond]
  by_cases hall : file.attributes &&& attrDirectory = 0 ∧ offset ≤ file.size ∧ wanted file offset length ≠ 0 ∧
      clusterValid fs file.firstCluster = true
  · obtain ⟨hfile, hoff, hn, hv⟩ := hall
    rw [clustersSkipped, if_neg (not_or.2 ⟨not_not.2 hfile, hn⟩)]
    have hskip := skipClustersReads_inDevice h (offset.toNat / clusterBytes fs) file.firstCluster
    rcases readFile_walk h hfile hoff hn hv with ⟨-, hstatus, hreads⟩ | ⟨n, visited, c, inCluster, r, hc, ho, hstatus, hreads⟩
    · rw [ErrorsTruthful, hstatus, hreads, fails_iff_read hskip]
      simp only [reduceCtorEq, imp_false, forall_const, ne_eq]
      push Not
      exact and_iff_left_of_imp id
    · have hread := readClustersReads_inDevice h n visited c ho r
      have hfails := @fails_append device (skipClustersReads device fs (offset.toNat / clusterBytes fs) file.firstCluster)
        (readClustersReads device fs n visited c inCluster r)
      rw [or_iff_right (skipClusters_some hc), ← readClusters_ioError, ← hreads, ← hstatus, fails_iff_read] at hfails
      · refine iff_of_true ⟨hfails.1, fun hcorrupt lba hlba hnone => ?_⟩ (skipClusters_some hc)
        have hio := hfails.1 ⟨lba, hlba, hnone⟩
        rw [hcorrupt] at hio
        cases hio
      · intro x hx
        rw [hreads] at hx
        rcases List.mem_append.1 hx with hx | hx
        · exact hskip x hx
        · exact hread x hx
  · rw [ErrorsTruthful, readFileReads_rejected hall]
    refine iff_of_true ⟨?_, fun _ lba hlba => absurd hlba List.not_mem_nil⟩ ?_
    · rintro ⟨lba, hlba, -⟩
      cases hlba
    · rw [clustersSkipped]
      split
      · exact not_fails_nil
      next hor =>
        rw [not_or, not_not] at hor
        refine skipClusters_invalid (Bool.eq_false_iff.2 fun hv => ?_) _
        exact hall ⟨hor.1, offset_le_of_wanted hor.2, hor.2, hv⟩

theorem readFile_truthful_one : ErrorsTruthful (diskWithLink 4) smallVolume ⟨3, 1024, 0⟩ 512 512 := by
  refine (readFile_truthful_iff (smallDisk_mounts _) ⟨3, 1024, 0⟩ 512 512).2 fun c hc lba hlba => ?_
  rw [show clustersSkipped smallVolume ⟨3, 1024, 0⟩ 512 512 = 1 by decide, chain_one, List.mem_singleton] at hc
  rw [hc, show nextClusterReads smallVolume 3 = [2049] by decide, List.mem_singleton] at hlba
  simp [hlba, smallDisk]

/-- The volume without its FAT: no sector of it can be read. -/
def diskWithoutFat : BlockDevice := smallDisk fun i => if i < 513 then none else some fun _ => 0x61

/-- The same sector of the FAT fails: met while reading it is an I/O error, met while skipping it is corruption. -/
theorem failed_skip_reported_corrupt :
    mount diskWithoutFat smallPartition = .ok smallVolume ∧
      readFileReads diskWithoutFat smallVolume ⟨3, 1024, 0⟩ 0 1024 = [2562, 2049] ∧
      (readFile diskWithoutFat smallVolume ⟨3, 1024, 0⟩ 0 1024).status = .ioError ∧
      readFileReads diskWithoutFat smallVolume ⟨3, 1024, 0⟩ 512 512 = [2049] ∧ diskWithoutFat.read 2049 1 = none ∧
      (readFile diskWithoutFat smallVolume ⟨3, 1024, 0⟩ 512 512).status = .corrupt ∧
      ¬ ErrorsTruthful diskWithoutFat smallVolume ⟨3, 1024, 0⟩ 512 512 := by
  have hreads : readFileReads diskWithoutFat smallVolume ⟨3, 1024, 0⟩ 512 512 = [2049] := by decide
  have hstatus : (readFile diskWithoutFat smallVolume ⟨3, 1024, 0⟩ 512 512).status = .corrupt := by decide
  have hfat : diskWithoutFat.read 2049 1 = none := by simp [diskWithoutFat, smallDisk]
  refine ⟨smallDisk_mounts _, by decide, by decide, hreads, hfat, hstatus, fun htruth => ?_⟩
  have hio := htruth.1 ⟨2049, by rw [hreads]; exact List.mem_singleton_self _, hfat⟩
  rw [hstatus] at hio
  cases hio

end JoshBios.Fat32
