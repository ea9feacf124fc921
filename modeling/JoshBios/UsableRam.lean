import JoshBios.Leftovers
import JoshBios.Candidates

/-! # Is the kernel loaded into usable memory?

`stagingRangeIsUsable` looks for the staging window in the E820 map; `loadElf` does not look at the map, but holds the
segments against fixed limits. So the staged file always goes to usable memory, and the segments do just when their
own ranges are usable. They are the segments of the staged image, unless one of them was placed over the headers:
`foundSegments` reads each header when the segments before it are in place, as the loop does. -/

namespace JoshBios.Stage2

open Elf64 (ProgramHeader Summary segments)
open Config (isSet cString)

/-- The byte `i` is in an entry of the E820 map that is usable memory. -/
def Usable (machine : Machine) (m : Bytes) (i : Nat) : Prop :=
  ∃ k < machine.e820Count.toNat, le32 m (memoryMapAddr + memoryMapEntrySize * k + 16) = memoryUsable ∧
    (le64 m (memoryMapAddr + memoryMapEntrySize * k)).toNat ≤ i ∧
    i < (le64 m (memoryMapAddr + memoryMapEntrySize * k)).toNat +
      (le64 m (memoryMapAddr + memoryMapEntrySize * k + 8)).toNat

/-- What `josh_fat32_read_file` delivers into the staging window for a candidate. -/
def stagedBytes {D : Type} (drive : BiosDrive D) (fs : Fat32) (path : List UInt8) (s : Bios D) : List UInt8 :=
  if !isSet path then [] else
  match Fat32.openPath (biosDevice drive s.drive) fs (cString path) with
  | .error _ => []
  | .ok kernel =>
    if kernel.size = 0 || kernel.size > kernelImageBytes then []
    else (Fat32.readFile (biosDevice drive s.drive) fs kernel 0 kernel.size).out

/-- The bytes written for a kernel: those that are staged, and those in the ranges of `load_elf`. -/
def KernelByte (image : List UInt8) (loaded : List (Nat × Nat)) (i : Nat) : Prop :=
  (kernelImageAddr ≤ i ∧ i < kernelImageAddr + image.length) ∨ ∃ range ∈ loaded, range.1 ≤ i ∧ i < range.1 + range.2

/-- The first `n` segments, each as its header is when the segments before it are in place. -/
def foundSegments (m : Bytes) : (n : Nat) → List ProgramHeader
  | 0 => []
  | n + 1 =>
    let found := foundSegments m n
    found ++ ((segments ((Chunk.placeAll m (found.map segmentChunk)).from kernelImageAddr))[n]?).toList

/-! ### The staging window -/

theorem usable_staging {machine : Machine} {m : Bytes} (h : stagingRangeIsUsable machine m = true) {i : Nat}
    (hi : Staging i) : Usable machine m i := by
  obtain ⟨k, hk, hentry⟩ := List.any_eq_true.1 h
  simp only [Bool.and_eq_true, Bool.not_eq_true', decide_eq_true_iff, decide_eq_false_iff_not, beq_iff_eq,
    UInt64.not_lt, ge_iff_le] at hentry
  obtain ⟨⟨⟨htype, hwrap⟩, hstart⟩, hend⟩ := hentry
  refine ⟨k, List.mem_range.1 hk, htype, ?_, ?_⟩
  · have hbase := UInt64.le_iff_toNat_le.1 hstart
    have hi₁ : (UInt64.ofNat kernelImageAddr).toNat ≤ i := hi.1
    omega
  · have hlow := UInt64.le_iff_toNat_le.1 hwrap
    have hi₂ : i < (UInt64.ofNat kernelImageAddr + kernelImageBytes.toUInt64).toNat := hi.2
    have htop := Nat.lt_of_lt_of_le hi₂ (UInt64.le_iff_toNat_le.1 hend)
    rw [UInt64.toNat_add] at hlow htop
    have hmod := Nat.mod_le ((le64 m (memoryMapAddr + memoryMapEntrySize * k)).toNat +
      (le64 m (memoryMapAddr + memoryMapEntrySize * k + 8)).toNat) (2 ^ 64)
    omega

section
variable {D : Type} {drive : BiosDrive D}

theorem readKernelCandidate_mem (fs : Fat32) (path : List UInt8) (s : Bios D) :
    (readKernelCandidate drive fs path s).2.mem = s.mem.write kernelImageAddr (stagedBytes drive fs path s) := by
  have hnil : s.mem = s.mem.write kernelImageAddr [] := by
    funext i
    rw [Bytes.write, if_neg (by simp only [List.length_nil]; omega)]
  unfold readKernelCandidate stagedBytes
  split
  · exact hnil
  simp only
  cases Fat32.openPath (biosDevice drive s.drive) fs (cString path) with
  | error status => exact hnil
  | ok kernel =>
    simp only
    split
    · exact hnil
    split
    · rfl
    split <;> rfl

theorem length_stagedBytes (fs : Fat32) (path : List UInt8) (s : Bios D) :
    (stagedBytes drive fs path s).length ≤ kernelImageBytes.toNat := by
  unfold stagedBytes
  split
  · exact Nat.zero_le _
  split
  · exact Nat.zero_le _
  next kernel _ =>
    split
    · exact Nat.zero_le _
    next hsize =>
      simp only [Bool.or_eq_true, decide_eq_true_iff, not_or] at hsize
      have hle := UInt32.le_iff_toNat_le.1 (UInt32.not_lt.1 hsize.2)
      exact Nat.le_trans (Fat32.readFile_out_le _ _ _ _ _) hle

/-! ### The segments -/

/-- The loop before its `k`-th round. -/
structure RoundInv (m : Bytes) (ranges : List (Nat × Nat)) (k : Nat) (s : Bios D) : Prop where
  length : (foundSegments m k).length = k
  mem : s.mem = Chunk.placeAll m ((foundSegments m k).map segmentChunk)
  loaded : s.loaded = ((foundSegments m k).map fun p => (physOf p, p.memsz.toNat)).reverse ++ ranges
  file_le : ∀ p ∈ foundSegments m k, p.filesz.toNat ≤ p.memsz.toNat

theorem loadElfLoop_found {imageBytes : UInt32} {m : Bytes} {ranges : List (Nat × Nat)} {n : Nat} {i : UInt16}
    {s s' : Bios D} (hn : i.toNat + n ≤ 128) (h : RoundInv m ranges i.toNat s)
    (hl : loadElfLoop imageBytes n i s = (true, s')) : RoundInv m ranges (i.toNat + n) s' := by
  induction n generalizing i s with
  | zero =>
    cases hl
    exact h
  | succ n ih =>
    have hnext := Elf64.toNat_succ (i := i) (by omega)
    cases hseg : Elf64.loadSegmentOf (s.mem.from kernelImageAddr) imageBytes.toUInt64 i with
    | error status =>
      simp only [loadElfLoop, hseg] at hl
      cases hl
    | ok segment =>
      obtain ⟨p, rfl, hok, hfound⟩ := Elf64.loadSegmentOf_ok hseg
      by_cases hw : FitsWindow p
      · rw [loadElfLoop_fits hseg hok hw] at hl
        rw [h.mem] at hfound
        have hsucc : foundSegments m (i.toNat + 1) = foundSegments m i.toNat ++ [p] := by
          rw [foundSegments, hfound]
          rfl
        rw [show i.toNat + (n + 1) = (i + 1).toNat + n by omega]
        refine ih (by omega) ⟨?_, ?_, ?_, ?_⟩ hl
        · rw [hnext, hsucc, List.length_append, h.length, List.length_singleton]
        · rw [hnext, hsucc]
          simp [Chunk.placeAll, h.mem]
        · rw [hnext, hsucc]
          simp [h.loaded]
        · rw [hnext, hsucc]
          intro q hq
          rcases List.mem_append.1 hq with hq | hq
          · exact h.file_le q hq
          · rw [List.mem_singleton.1 hq]
            exact hok.file_le
      · rw [loadElfLoop_unfit hseg hw] at hl
        cases hl

/-- A loaded kernel, whatever its segments do to the headers. -/
theorem loadElf_found {imageBytes : UInt32} {s s' : Bios D} {sum : Summary}
    (h : loadElf imageBytes s = (some sum, s')) :
    RoundInv s.mem s.loaded (segments (s.mem.from kernelImageAddr)).length s' := by
  obtain ⟨hv, hw⟩ := fits_of_loadElf h
  have hs := Elf64.validateImage_ok hv
  obtain ⟨h₁, h₂⟩ := (limits_iff hs).2 hw
  have hlen : (segments (s.mem.from kernelImageAddr)).length ≤ 128 :=
    Nat.le_trans (Elf64.length_segmentsUpTo_le _ _) hs.header.phnum
  simp only [loadElf, hv, if_neg h₁, if_neg h₂] at h
  split at h
  · cases h
  next s'' hloop =>
    cases h
    rw [hs.count] at hloop
    have hstart : RoundInv s.mem s.loaded (0 : UInt16).toNat s := ⟨rfl, rfl, rfl, List.forall_mem_nil _⟩
    have hend := loadElfLoop_found (by rw [show (0 : UInt16).toNat = 0 from rfl]; omega) hstart hloop
    rw [show (0 : UInt16).toNat = 0 from rfl, Nat.zero_add] at hend
    exact hend

theorem foundSegments_eq {imageBytes : UInt32} {m : Bytes} {sum : Summary}
    (hv : Elf64.validateImage (m.from kernelImageAddr) imageBytes.toUInt64 = .ok sum)
    (hk : HeadersKept m imageBytes) {n : Nat} (hn : n ≤ (segments (m.from kernelImageAddr)).length) :
    foundSegments m n = (segments (m.from kernelImageAddr)).take n := by
  have hs := Elf64.validateImage_ok hv
  induction n with
  | zero => rfl
  | succ n ih =>
    have hfound := ih (by omega)
    have hsplit : chunks (m.from kernelImageAddr) = ((segments (m.from kernelImageAddr)).take n).map segmentChunk ++
        segmentChunk (segments (m.from kernelImageAddr))[n] ::
          ((segments (m.from kernelImageAddr)).drop (n + 1)).map segmentChunk := by
      rw [chunks, ← List.map_cons, ← List.map_append, List.cons_getElem_drop_succ, List.take_append_drop]
    have hhead : ∀ j, Elf64.HeaderByte (m.from kernelImageAddr) imageBytes.toUInt64 j → m.from kernelImageAddr j =
        (Chunk.placeAll m (((segments (m.from kernelImageAddr)).take n).map segmentChunk)).from kernelImageAddr j := by
      intro j hj
      exact (hk _ _ _ hsplit j hj).symm
    rw [foundSegments, hfound, ← Elf64.segments_congr hhead hs.header, List.getElem?_eq_getElem (by omega), List.take_add_one,
      List.getElem?_eq_getElem (by omega)]

/-- For an E820 map with a usable staging window and a candidate that is read and loaded: nothing but its kernel bytes
is written, and these are all usable just when the range of each segment is. If the headers are kept, the segments are
those of the staged image. -/
theorem kernel_usable_iff {machine : Machine} {fs : Fat32} {path : List UInt8} {s s₁ s₂ : Bios D} {size : UInt32}
    {sum : Summary} (hl : s.loaded = []) (husable : stagingRangeIsUsable machine s.mem = true)
    (hread : readKernelCandidate drive fs path s = (some size, s₁)) (hload : loadElf size s₁ = (some sum, s₂)) :
    (∀ i, ¬ KernelByte (stagedBytes drive fs path s) s₂.loaded i → s₂.mem i = s.mem i) ∧
    ((∀ i, KernelByte (stagedBytes drive fs path s) s₂.loaded i → Usable machine s.mem i) ↔
      ∀ p ∈ foundSegments s₁.mem (segments (s₁.mem.from kernelImageAddr)).length,
        ∀ i, physOf p ≤ i → i < physOf p + p.memsz.toNat → Usable machine s.mem i) ∧
    (HeadersKept s₁.mem size →
      foundSegments s₁.mem (segments (s₁.mem.from kernelImageAddr)).length = segments (s₁.mem.from kernelImageAddr)) := by
  have hmem : s₁.mem = s.mem.write kernelImageAddr (stagedBytes drive fs path s) := by
    rw [← readKernelCandidate_mem, hread]
  have hempty : s₁.loaded = [] := by
    have hlog : (readKernelCandidate drive fs path s).2.loaded = s.loaded := readKernelCandidate_loaded fs path s
    rw [hread, hl] at hlog
    exact hlog
  have hend := loadElf_found hload
  have hloaded : s₂.loaded = ((foundSegments s₁.mem (segments (s₁.mem.from kernelImageAddr)).length).map
      fun p => (physOf p, p.memsz.toNat)).reverse := by
    rw [hend.loaded, hempty, List.append_nil]
  have hranges : ∀ i, (∃ range ∈ s₂.loaded, range.1 ≤ i ∧ i < range.1 + range.2) ↔
      ∃ p ∈ foundSegments s₁.mem (segments (s₁.mem.from kernelImageAddr)).length,
        physOf p ≤ i ∧ i < physOf p + p.memsz.toNat := by
    intro i
    rw [hloaded]
    simp
  refine ⟨fun i hi => ?_, ⟨fun h p hp i h₁ h₂ => ?_, fun h i hi => ?_⟩, fun hk => ?_⟩
  · rw [KernelByte, hranges, not_or] at hi
    rw [hend.mem, Chunk.placeAll_outside, hmem]
    · have hout : i < kernelImageAddr ∨ kernelImageAddr + (stagedBytes drive fs path s).length ≤ i := by
        by_contra hn
        exact hi.1 ⟨by omega, by omega⟩
      rcases hout with hlt | hle
      · exact Bytes.write_of_lt _ _ hlt
      · exact Bytes.write_of_le _ _ hle
    · intro c hc hcov
      obtain ⟨p, hp, rfl⟩ := List.mem_map.1 hc
      have hfile := hend.file_le p hp
      have h₂ : i < physOf p + p.filesz.toNat + (p.memsz.toNat - p.filesz.toNat) := hcov.2
      exact hi.2 ⟨p, hp, hcov.1, by omega⟩
  · exact h i (Or.inr ((hranges i).2 ⟨p, hp, h₁, h₂⟩))
  · rcases hi with ⟨h₁, h₂⟩ | hi
    · have hlen : (stagedBytes drive fs path s).length ≤ kernelImageBytes.toNat := length_stagedBytes fs path s
      exact usable_staging husable ⟨h₁, by omega⟩
    · obtain ⟨p, hp, h₁, h₂⟩ := (hranges i).1 hi
      exact h p hp i h₁ h₂
  · obtain ⟨hv, -⟩ := fits_of_loadElf hload
    rw [foundSegments_eq hv hk (Nat.le_refl _), List.take_length]

end

/-! ### Machines with and without a hole in their memory -/

/-- Before a candidate is read from a disk with one small kernel. -/
def beforeRead (m : Bytes) (vaddr : Nat) : Bios Sectors :=
  { freshBios with drive := kernelDisk (sampleKernel vaddr), mem := m }

def readCandidateOn (m : Bytes) (vaddr : Nat) : Option UInt32 × Bios Sectors :=
  readKernelCandidate plainDrive Fat32.smallVolume (Config.ascii "/kernel.elf") (beforeRead m vaddr)

/-- What is staged there. -/
def stagedOn (m : Bytes) (vaddr : Nat) : List UInt8 :=
  stagedBytes plainDrive Fat32.smallVolume (Config.ascii "/kernel.elf") (beforeRead m vaddr)

theorem usable_pcMemory {i : Nat} (h : i < 0x8000000) : Usable pcMachine pcMemory i := by
  have hbase : (le64 pcMemory (memoryMapAddr + memoryMapEntrySize * 0)).toNat = 0 := by decide
  have hlength : (le64 pcMemory (memoryMapAddr + memoryMapEntrySize * 0 + 8)).toNat = 0x8000000 := by decide
  refine ⟨0, by decide, by decide, ?_, ?_⟩
  · rw [hbase]
    exact Nat.zero_le _
  · rw [hbase, hlength]
    omega

theorem kernel_usable_iff_pc :
    stagingRangeIsUsable pcMachine pcMemory = true ∧
    (readCandidateOn pcMemory 0xffffffff80000000).1 = some 124 ∧
    (loadElf 124 (readCandidateOn pcMemory 0xffffffff80000000).2).1 = some lowKernelSummary ∧
    ∀ i, KernelByte (stagedOn pcMemory 0xffffffff80000000)
      (loadElf 124 (readCandidateOn pcMemory 0xffffffff80000000).2).2.loaded i → Usable pcMachine pcMemory i := by
  have husable : stagingRangeIsUsable pcMachine pcMemory = true := by decide
  obtain ⟨hsize, hsum⟩ : (readCandidateOn pcMemory 0xffffffff80000000).1 = some 124 ∧
      (loadElf 124 (readCandidateOn pcMemory 0xffffffff80000000).2).1 = some lowKernelSummary := by
    decide +kernel
  have hread : readKernelCandidate plainDrive Fat32.smallVolume (Config.ascii "/kernel.elf")
      (beforeRead pcMemory 0xffffffff80000000) = (some 124, (readCandidateOn pcMemory 0xffffffff80000000).2) :=
    Prod.fst_eq_iff.1 hsize
  have hload : loadElf 124 (readCandidateOn pcMemory 0xffffffff80000000).2 =
      (some lowKernelSummary, (loadElf 124 (readCandidateOn pcMemory 0xffffffff80000000).2).2) :=
    Prod.fst_eq_iff.1 hsum
  have hfound : ∀ p ∈ foundSegments (readCandidateOn pcMemory 0xffffffff80000000).2.mem
      (segments ((readCandidateOn pcMemory 0xffffffff80000000).2.mem.from kernelImageAddr)).length,
      physOf p + p.memsz.toNat ≤ 0x8000000 := by
    decide +kernel
  have hempty : (beforeRead pcMemory 0xffffffff80000000).loaded = [] := rfl
  obtain ⟨-, hiff, -⟩ := kernel_usable_iff hempty husable hread hload
  refine ⟨husable, hsize, hsum, hiff.2 fun p hp i _ hi => usable_pcMemory ?_⟩
  exact Nat.lt_of_lt_of_le hi (hfound p hp)

/-- Two entries of usable memory, with the hole that old machines have at 15 MiB between them. -/
def holeMemory : Bytes :=
  Bytes.write (fun _ => 0) memoryMapAddr
    (packBytes [(8, 0x100000), (8, 0xe00000), (4, 1), (4, 0), (8, 0x1000000), (8, 0x3000000), (4, 1), (4, 0)])

def holeMachine : Machine := { pcMachine with e820Count := 2 }

theorem not_usable_holeMemory : ¬ Usable holeMachine holeMemory 0xf00000 := by
  have htop₀ : (le64 holeMemory (memoryMapAddr + memoryMapEntrySize * 0)).toNat +
      (le64 holeMemory (memoryMapAddr + memoryMapEntrySize * 0 + 8)).toNat = 0xf00000 := by
    decide
  have hlow₁ : (le64 holeMemory (memoryMapAddr + memoryMapEntrySize * 1)).toNat = 0x1000000 := by decide
  rintro ⟨k, hk, -, hlow, htop⟩
  have hk' : k < 2 := hk
  obtain rfl | rfl : k = 0 ∨ k = 1 := by omega
  · rw [htop₀] at htop
    omega
  · rw [hlow₁] at hlow
    omega

/-- A kernel that is linked for 15 MiB is loaded into the hole. -/
theorem load_fills_hole :
    stagingRangeIsUsable holeMachine holeMemory = true ∧
    (readCandidateOn holeMemory 0xffffffff80d00000).1 = some 124 ∧
    (loadElf 124 (readCandidateOn holeMemory 0xffffffff80d00000).2).1.isSome = true ∧
    ¬ ∀ i, KernelByte (stagedOn holeMemory 0xffffffff80d00000)
      (loadElf 124 (readCandidateOn holeMemory 0xffffffff80d00000).2).2.loaded i → Usable holeMachine holeMemory i := by
  obtain ⟨hsize, hsome, hloaded⟩ : (readCandidateOn holeMemory 0xffffffff80d00000).1 = some 124 ∧
      (loadElf 124 (readCandidateOn holeMemory 0xffffffff80d00000).2).1.isSome = true ∧
      (loadElf 124 (readCandidateOn holeMemory 0xffffffff80d00000).2).2.loaded = [(0xf00000, 8)] := by
    decide +kernel
  refine ⟨by decide, hsize, hsome, fun h => not_usable_holeMemory ?_⟩
  refine h 0xf00000 (Or.inr ⟨(0xf00000, 8), ?_, by decide, by decide⟩)
  rw [hloaded]
  exact List.mem_singleton_self _

end JoshBios.Stage2
