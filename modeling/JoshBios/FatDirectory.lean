import JoshBios.FatChain

/-! # Looking up a name (`find_in_directory`)

A directory is the list of the entries in the clusters of its chain, one after the other; an entry is none when its sector
cannot be read. Three loops go through it and stop in five ways. `DirectoryScan` says what they come to: the first entry that
decides, and if there is none, how the chain ends. -/

namespace JoshBios.Fat32

open Lib (follow nodeAt)

/-- The entry at an offset of a sector. -/
def entryAt (sector : Bytes) (offset : Nat) : Bytes := fun i => sector (offset + i)

def sectorEntries (device : BlockDevice) (lba : UInt64) : List (Option Bytes) :=
  match device.blockRead lba 1 with
  | none => .replicate 16 none
  | some sector => (List.range' 0 16 32).map fun offset => some (entryAt sector offset)

/-- The entries of `n` sectors from `lba` on. -/
def runEntries (device : BlockDevice) : (n : Nat) → (lba : UInt64) → List (Option Bytes)
  | 0, _ => []
  | n + 1, lba => sectorEntries device lba ++ runEntries device n (lba + 1)

def clusterEntries (device : BlockDevice) (fs : Fat32) (c : UInt32) : List (Option Bytes) :=
  match clusterLba fs c with
  | .error _ => []
  | .ok lba => runEntries device fs.sectorsPerCluster.toNat lba

/-- The entries of the first `k` clusters of the directory at `c`. -/
def entries (device : BlockDevice) (fs : Fat32) (k : Nat) (c : UInt32) : List (Option Bytes) :=
  (chain device fs k c).flatMap (clusterEntries device fs)

/-- The entry of a file or directory of the name: not deleted, and neither a volume label nor a part of a long name. -/
def isNamed (shortName : List UInt8) (entry : Bytes) : Bool :=
  entry 0 ≠ 0xe5 && entry 11 ≠ attrLfn && entry 11 &&& attrVolume = 0 && entry.slice 0 11 = shortName

def fileOf (entry : Bytes) : File where
  firstCluster := ((le16 entry 20).toUInt32 <<< 16) ||| (le16 entry 26).toUInt32
  size := le32 entry 28
  attributes := entry 11

/-- What an entry makes of the search; none if the search goes on. -/
def verdict (shortName : List UInt8) : Option Bytes → Option (Except Status File)
  | none => some (.error .ioError)
  | some entry =>
    if entry 0 = 0x00 then some (.error .notFound)
    else if isNamed shortName entry then
      if (fileOf entry).firstCluster < 2 ∧ (fileOf entry).size ≠ 0 then some (.error .corrupt) else some (.ok (fileOf entry))
    else none

/-- The first entry that decides. -/
def firstVerdict (device : BlockDevice) (fs : Fat32) (shortName : List UInt8) (k : Nat) (c : UInt32) :
    Option (Except Status File) :=
  (entries device fs k c).findSome? (verdict shortName)

/-- What the search comes to where the chain ends: at the end mark, or at a cluster that cannot be gone on from. -/
def endStatus (device : BlockDevice) (fs : Fat32) (c : UInt32) : Status :=
  match nextCluster device fs c with
  | .error status => status
  | .ok _ => .notFound

/-- What looking up a name in the directory at `directory` comes to. -/
structure DirectoryScan (device : BlockDevice) (fs : Fat32) (directory : UInt32) (shortName : List UInt8)
    (result : Except Status File) : Prop where
  decided : ∀ k r, firstVerdict device fs shortName k directory = some r → result = r
  ended : (∀ k, firstVerdict device fs shortName k directory = none) → ∀ m last,
    nodeAt (link device fs) m directory = some last → link device fs last = none →
    result = .error (endStatus device fs last)
  cyclic : (∀ k, firstVerdict device fs shortName k directory = none) → ∀ k,
    ¬ (chain device fs k directory).Nodup → result = .error .corrupt

/-! ### The loops of the search -/

section
variable {device : BlockDevice} {fs : Fat32} {shortName : List UInt8}

theorem scanSector_eq (sector : Bytes) (n offset : Nat) :
    scanSector sector shortName n offset =
      ((List.range' offset n 32).map fun i => some (entryAt sector i)).findSome? (verdict shortName) := by
  induction n generalizing offset with
  | zero => rfl
  | succ n ih =>
    rw [List.range'_succ, List.map_cons, List.findSome?_cons, ← ih, scanSector]
    have hslice : (entryAt sector offset).slice 0 11 = sector.slice offset 11 := by
      simp only [Bytes.slice, entryAt, Nat.zero_add]
    have h16 : ∀ i, le16 (entryAt sector offset) i = le16 sector (offset + i) := fun i => rfl
    have h32 : ∀ i, le32 (entryAt sector offset) i = le32 sector (offset + i) := fun i => rfl
    have h0 : entryAt sector offset 0 = sector offset := rfl
    have h11 : entryAt sector offset 11 = sector (offset + 11) := rfl
    simp only [verdict, isNamed, fileOf, hslice, h16, h32, h0, h11]
    by_cases hend : sector offset = 0x00
    · simp [hend]
    by_cases hdel : sector offset = 0xe5
    · simp [hdel]
    by_cases hlfn : sector (offset + 11) = attrLfn
    · simp [hend, hdel, hlfn]
    by_cases hvol : sector (offset + 11) &&& attrVolume = 0
    · by_cases hname : sector.slice offset 11 = shortName
      · simp [hend, hdel, hlfn, hvol, hname]
        split <;> rfl
      · simp [hend, hdel, hlfn, hvol, hname]
    · simp [hend, hdel, hlfn, hvol]

theorem scanCluster_eq (n : Nat) (lba : UInt64) :
    scanCluster device shortName n lba = (runEntries device n lba).findSome? (verdict shortName) := by
  induction n generalizing lba with
  | zero => rfl
  | succ n ih =>
    rw [scanCluster, runEntries, sectorEntries, List.findSome?_append]
    cases device.blockRead lba 1 with
    | none => rfl
    | some sector =>
      simp only
      rw [scanSector_eq, ← ih]
      cases ((List.range' 0 16 32).map fun i => some (entryAt sector i)).findSome? (verdict shortName) with
      | none => rfl
      | some r => rfl

theorem clusterEntries_invalid {c : UInt32} (hc : clusterValid fs c = false) : clusterEntries device fs c = [] := by
  rw [clusterEntries, clusterLba, if_pos (by simp [hc])]

theorem nextCluster_invalid {c : UInt32} (hc : clusterValid fs c = false) : nextCluster device fs c = .error .corrupt := by
  rw [nextCluster, if_pos (by simp [hc])]

theorem firstVerdict_succ (k : Nat) (c : UInt32) :
    firstVerdict device fs shortName (k + 1) c =
      ((clusterEntries device fs c).findSome? (verdict shortName)).or
        ((link device fs c).bind fun next => firstVerdict device fs shortName k next) := by
  cases hl : link device fs c with
  | none =>
    rw [firstVerdict, entries, chain, Lib.follow_of_none hl, List.flatMap_singleton]
    exact (Option.or_none ..).symm
  | some next =>
    rw [firstVerdict, entries, chain, Lib.follow_of_some hl, List.flatMap_cons, List.findSome?_append]
    rfl

/-- What `n` rounds of the cluster loop come to. -/
inductive Search (device : BlockDevice) (fs : Fat32) (shortName : List UInt8) (n : Nat) (c : UInt32) :
    Except Status File → Prop
  | decided {r : Except Status File} : firstVerdict device fs shortName n c = some r → Search device fs shortName n c r
  | ended {m : Nat} {last : UInt32} : firstVerdict device fs shortName n c = none → m < n →
      nodeAt (link device fs) m c = some last → link device fs last = none →
      Search device fs shortName n c (.error (endStatus device fs last))
  | out {next : UInt32} : firstVerdict device fs shortName n c = none → nodeAt (link device fs) n c = some next →
      Search device fs shortName n c (.error .corrupt)

theorem findInClusters_search (h : Sound device fs) (n : Nat) (c : UInt32) :
    Search device fs shortName n c (findInClusters device fs shortName n c) := by
  induction n generalizing c with
  | zero => exact .out rfl rfl
  | succ n ih =>
    have hsucc := @firstVerdict_succ device fs shortName n c
    rw [findInClusters]
    by_cases hc : clusterValid fs c = true
    · obtain ⟨lba, hlba, -⟩ := h.clusterLba hc
      rw [hlba]
      simp only
      rw [scanCluster_eq]
      rw [clusterEntries, hlba] at hsucc
      simp only at hsucc
      cases hv : (runEntries device fs.sectorsPerCluster.toNat lba).findSome? (verdict shortName) with
      | some r =>
        rw [hv, Option.some_or] at hsucc
        exact .decided hsucc
      | none =>
        rw [hv, Option.none_or] at hsucc
        simp only
        cases hnext : nextCluster device fs c with
        | error status =>
          have hl : link device fs c = none := by rw [link, hnext]
          have hend : endStatus device fs c = status := by rw [endStatus, hnext]
          rw [hl] at hsucc
          simp only
          rw [← hend]
          exact .ended hsucc (Nat.succ_pos n) rfl hl
        | ok next =>
          simp only
          by_cases heoc : next ≥ eocMin
          · have hl : link device fs c = none := by rw [link, hnext]; exact if_pos heoc
            have hend : endStatus device fs c = .notFound := by rw [endStatus, hnext]
            rw [hl] at hsucc
            rw [if_pos heoc, ← hend]
            exact .ended hsucc (Nat.succ_pos n) rfl hl
          · have hl : link device fs c = some next := by rw [link, hnext]; exact if_neg heoc
            rw [hl] at hsucc
            have hnode : ∀ m, nodeAt (link device fs) (m + 1) c = nodeAt (link device fs) m next := fun m => by
              rw [nodeAt, hl]
              rfl
            rw [if_neg heoc]
            have hrec := ih next
            generalize findInClusters device fs shortName n next = result at hrec
            cases hrec with
            | decided hr => exact .decided (hsucc.trans hr)
            | ended hr hm hlast hnone => exact .ended (hsucc.trans hr) (Nat.succ_lt_succ hm) ((hnode _).trans hlast) hnone
            | out hr hnode' => exact .out (hsucc.trans hr) ((hnode _).trans hnode')
    · have hinv : clusterValid fs c = false := by simpa using hc
      have hl : link device fs c = none := by rw [link, nextCluster_invalid hinv]
      have hend : endStatus device fs c = .corrupt := by rw [endStatus, nextCluster_invalid hinv]
      rw [clusterEntries_invalid hinv, hl] at hsucc
      rw [clusterLba, if_pos (by simp [hinv]), ← hend]
      exact .ended hsucc (Nat.succ_pos n) rfl hl

/-! ### The bound on the rounds -/

theorem firstVerdict_mono {k k' : Nat} (hk : k ≤ k') {c : UInt32} {r : Except Status File}
    (hr : firstVerdict device fs shortName k c = some r) : firstVerdict device fs shortName k' c = some r := by
  induction k generalizing k' c with
  | zero => cases hr
  | succ k ih =>
    obtain ⟨k', rfl⟩ : ∃ m, k' = m + 1 := ⟨k' - 1, by omega⟩
    rw [firstVerdict_succ] at hr ⊢
    generalize (clusterEntries device fs c).findSome? (verdict shortName) = first at hr ⊢
    cases first with
    | some r' => exact hr
    | none =>
      rw [Option.none_or] at hr ⊢
      cases hl : link device fs c with
      | none => rw [hl] at hr; cases hr
      | some next =>
        rw [hl] at hr
        exact ih (Nat.le_of_succ_le_succ hk) hr

theorem firstVerdict_eq_none {k : Nat} {c : UInt32} :
    firstVerdict device fs shortName k c = none ↔
      ∀ x ∈ chain device fs k c, ∀ e ∈ clusterEntries device fs x, verdict shortName e = none := by
  rw [firstVerdict, List.findSome?_eq_none_iff]
  simp only [entries, List.mem_flatMap, forall_exists_index, and_imp]
  exact ⟨fun h x hx e he => h e x hx he, fun h e x hx he => h x hx e he⟩

theorem chain_cyclic (h : Sound device fs) {next c : UInt32}
    (hnode : nodeAt (link device fs) (fs.clusterCount.toNat + 1) c = some next) :
    ¬ (chain device fs (fs.clusterCount.toNat + 1) c).Nodup := by
  intro hnodup
  have hle := validClusters_card h (chain_valid hnode) hnodup
  rw [chain, Lib.length_follow_of_nodeAt hnode] at hle
  omega

/-- A search that has gone through more clusters than the volume has will not find anything any more. -/
theorem firstVerdict_exhausted (h : Sound device fs) {next c : UInt32}
    (hnode : nodeAt (link device fs) (fs.clusterCount.toNat + 1) c = some next)
    (hnone : firstVerdict device fs shortName (fs.clusterCount.toNat + 1) c = none) (k : Nat) :
    firstVerdict device fs shortName k c = none := by
  rw [firstVerdict_eq_none] at hnone ⊢
  exact fun x hx => hnone x (Lib.mem_follow_of_cycle (chain_cyclic h hnode) hx)

/-- Looking up a name is one flat scan: the bound on the clusters stops every search, and none too early. -/
theorem findInDirectory_scan (h : Sound device fs) (directory : UInt32) (shortName : List UInt8) :
    DirectoryScan device fs directory shortName (findInDirectory device fs directory shortName) := by
  have hsearch := @findInClusters_search device fs shortName h (fs.clusterCount.toNat + 1) directory
  rw [← findInDirectory] at hsearch
  generalize findInDirectory device fs directory shortName = result at hsearch
  cases hsearch with
  | decided hr =>
    refine ⟨fun k r' hr' => ?_, fun hnone => ?_, fun hnone => ?_⟩
    · have h₁ := firstVerdict_mono (Nat.le_max_left k (fs.clusterCount.toNat + 1)) hr'
      have h₂ := firstVerdict_mono (Nat.le_max_right k (fs.clusterCount.toNat + 1)) hr
      exact Option.some.inj (h₂.symm.trans h₁)
    · rw [hnone] at hr
      cases hr
    · rw [hnone] at hr
      cases hr
  | @ended m last hnone hm hlast hl =>
    refine ⟨fun k r hr => ?_, fun _ m' last' hlast' hl' => ?_, fun _ k hcycle => ?_⟩
    · -- beyond the end there are no more entries
      have hr' := firstVerdict_mono (Nat.le_max_left k (fs.clusterCount.toNat + 1)) hr
      have hsame := Lib.follow_end hlast hl (Nat.lt_of_lt_of_le hm (Nat.le_max_right k (fs.clusterCount.toNat + 1)))
      rw [← Lib.follow_end hlast hl hm] at hsame
      rw [firstVerdict, entries, chain, hsame] at hr'
      rw [firstVerdict, entries, chain, hr'] at hnone
      cases hnone
    · rw [Lib.end_unique hlast hl hlast' hl']
    · obtain ⟨c, hc⟩ := Lib.endless_of_cycle hcycle (m + 1)
      rw [Lib.nodeAt_end hlast hl (Nat.lt_succ_self m)] at hc
      cases hc
  | @out next hnone hnode =>
    have hexhausted := firstVerdict_exhausted h hnode hnone
    refine ⟨fun k r hr => ?_, fun _ m last hlast hl => ?_, fun _ _ _ => rfl⟩
    · rw [hexhausted] at hr
      cases hr
    · obtain ⟨c, hc⟩ := Lib.endless_of_cycle (chain_cyclic h hnode) (m + 1)
      rw [Lib.nodeAt_end hlast hl (Nat.lt_succ_self m)] at hc
      cases hc

end

end JoshBios.Fat32
