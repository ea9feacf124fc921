import JoshBios.Stage2
import JoshBios.ElfSpec
import JoshBios.Lib.Chunks

/-! # What `load_elf` of the BIOS path leaves in memory

The image is staged in the memory that it is loaded into: the staging window lies inside the range that segments
may go to, and every round of the loop reads the headers from it again. As long as these still have their first
values then, the loop places the segments of the staged image, one after the other (`loadElf_eq`), and they are all
right just when no file data is overwritten before it is copied (`segments_placed_iff`). -/

namespace JoshBios.Stage2

open Elf64 (ProgramHeader Summary segments)

/-- The physical address a segment goes to. -/
def physOf (p : ProgramHeader) : Nat := kernelPhysBase.toNat + (p.vaddr.toNat - kernelVirtBase.toNat)

/-- A segment of the staged image, as a move within physical memory. -/
def segmentChunk (p : ProgramHeader) : Chunk where
  dest := physOf p
  src := kernelImageAddr + p.offset.toNat
  size := p.filesz.toNat
  zeros := p.memsz.toNat - p.filesz.toNat

def chunks (image : Bytes) : List Chunk := (segments image).map segmentChunk

/-- The segment's addresses are mapped, and their place in memory is below `kernelPhysLimit`. -/
def FitsWindow (p : ProgramHeader) : Prop :=
  kernelVirtBase.toNat ≤ p.vaddr.toNat ∧
    p.vend ≤ kernelVirtBase.toNat + (kernelPhysLimit.toNat - kernelPhysBase.toNat)

/-- Whenever a segment is due, the headers still have the values that they had at first: those placed before it
either missed them, or wrote what was already there. -/
def HeadersKept (m : Bytes) (imageBytes : UInt32) : Prop :=
  ∀ done c rest, chunks (m.from kernelImageAddr) = done ++ c :: rest →
    ∀ i, Elf64.HeaderByte (m.from kernelImageAddr) imageBytes.toUInt64 i →
      Chunk.placeAll m done (kernelImageAddr + i) = m (kernelImageAddr + i)

section
variable {D : Type} {imageBytes : UInt32}

/-! ### One segment -/

theorem toNat_physical {p : ProgramHeader} (hw : FitsWindow p) :
    (kernelPhysBase.toUInt64 + (p.vaddr - kernelVirtBase)).toNat = physOf p := by
  have hv := p.vaddr.toNat_lt
  have hsub : (p.vaddr - kernelVirtBase).toNat = p.vaddr.toNat - kernelVirtBase.toNat :=
    UInt64.toNat_sub_of_le _ _ (UInt64.le_iff_toNat_le.2 hw.1)
  have hbase : kernelVirtBase.toNat = 0xffffffff80000000 := rfl
  have hphys : kernelPhysBase.toUInt64.toNat = 0x200000 := rfl
  rw [Elf64.toNat_add_of_lt (by omega), hsub]
  rfl

theorem physOf_add_le {p : ProgramHeader} (hw : FitsWindow p) : physOf p + p.memsz.toNat ≤ 0x8000000 := by
  have h₁ := hw.1
  have h₂ : p.vaddr.toNat + p.memsz.toNat ≤ kernelVirtBase.toNat + (0x8000000 - 0x200000) := hw.2
  have h₃ : physOf p = 0x200000 + (p.vaddr.toNat - kernelVirtBase.toNat) := rfl
  omega

theorem placeSegment_eq {p : ProgramHeader} (hw : FitsWindow p) (hok : Elf64.SegmentOk imageBytes.toUInt64 p)
    (m : Bytes) :
    placeSegment p.loadSegment (kernelPhysBase.toUInt64 + (p.vaddr - kernelVirtBase)) m =
      Chunk.place m (segmentChunk p) := by
  have hphys := toNat_physical hw
  have hlimit := physOf_add_le hw
  have hfile := hok.file_le
  have hin := hok.inside
  have himage : imageBytes.toUInt64.toNat < 2 ^ 32 := imageBytes.toNat_lt
  -- nothing is cut off when the code goes down to 32 bits
  have hd : (kernelPhysBase.toUInt64 + (p.vaddr - kernelVirtBase)).toUInt32.toNat = physOf p := by
    rw [UInt64.toNat_toUInt32, hphys, Nat.mod_eq_of_lt (by omega)]
  have hs : p.offset.toUInt32.toNat = p.offset.toNat := by
    rw [UInt64.toNat_toUInt32, Nat.mod_eq_of_lt (by omega)]
  have hn : p.filesz.toUInt32.toNat = p.filesz.toNat := by
    rw [UInt64.toNat_toUInt32, Nat.mod_eq_of_lt (by omega)]
  have hz : (kernelPhysBase.toUInt64 + (p.vaddr - kernelVirtBase) + p.filesz).toUInt32.toNat =
      physOf p + p.filesz.toNat := by
    rw [UInt64.toNat_toUInt32, Elf64.toNat_add_of_lt (by omega), hphys, Nat.mod_eq_of_lt (by omega)]
  have hzn : (p.memsz - p.filesz).toUInt32.toNat = p.memsz.toNat - p.filesz.toNat := by
    rw [UInt64.toNat_toUInt32, UInt64.toNat_sub_of_le _ _ (UInt64.le_iff_toNat_le.2 hfile),
      Nat.mod_eq_of_lt (by omega)]
  simp only [placeSegment, ProgramHeader.loadSegment, Chunk.place, segmentChunk, hd, hs, hn, hz, hzn]
  split
  · rfl
  · next hle =>
    have := UInt64.le_iff_toNat_le.1 (UInt64.not_lt.1 hle)
    rw [show p.memsz.toNat - p.filesz.toNat = 0 by omega]
    rfl

theorem loadElfLoop_fits {s : Bios D} {i : UInt16} {p : ProgramHeader}
    (hseg : Elf64.loadSegmentOf (s.mem.from kernelImageAddr) imageBytes.toUInt64 i = .ok p.loadSegment)
    (hok : Elf64.SegmentOk imageBytes.toUInt64 p) (hw : FitsWindow p) (n : Nat) :
    loadElfLoop imageBytes (n + 1) i s =
      loadElfLoop imageBytes n (i + 1)
        { s with
          mem := Chunk.place s.mem (segmentChunk p)
          loaded := (physOf p, p.memsz.toNat) :: s.loaded } := by
  have hphys := toNat_physical hw
  have hlimit := physOf_add_le hw
  have htop : kernelPhysLimit.toUInt64.toNat = 0x8000000 := rfl
  have hlow : ¬ p.loadSegment.virtualAddress < kernelVirtBase := UInt64.not_lt.2 (UInt64.le_iff_toNat_le.2 hw.1)
  have hle : kernelPhysBase.toUInt64 + (p.vaddr - kernelVirtBase) ≤ kernelPhysLimit.toUInt64 := by
    rw [UInt64.le_iff_toNat_le, hphys, htop]
    omega
  have hsize : p.memsz ≤ kernelPhysLimit.toUInt64 - (kernelPhysBase.toUInt64 + (p.vaddr - kernelVirtBase)) := by
    rw [UInt64.le_iff_toNat_le, UInt64.toNat_sub_of_le _ _ hle, hphys, htop]
    omega
  have hlimits : (decide (kernelPhysBase.toUInt64 + (p.loadSegment.virtualAddress - kernelVirtBase) >
      kernelPhysLimit.toUInt64) || decide (p.loadSegment.memorySize > kernelPhysLimit.toUInt64 -
        (kernelPhysBase.toUInt64 + (p.loadSegment.virtualAddress - kernelVirtBase)))) = false := by
    rw [Bool.or_eq_false_iff, decide_eq_false_iff_not, decide_eq_false_iff_not]
    exact ⟨UInt64.not_lt.2 hle, UInt64.not_lt.2 hsize⟩
  rw [loadElfLoop, hseg]
  simp only [if_neg hlow, hlimits, Bool.false_eq_true, if_false]
  rw [show p.loadSegment.virtualAddress = p.vaddr from rfl, placeSegment_eq hw hok, hphys]
  rfl

theorem loadElfLoop_unfit {s : Bios D} {i : UInt16} {p : ProgramHeader}
    (hseg : Elf64.loadSegmentOf (s.mem.from kernelImageAddr) imageBytes.toUInt64 i = .ok p.loadSegment)
    (hw : ¬ FitsWindow p) (n : Nat) : loadElfLoop imageBytes (n + 1) i s = (false, s) := by
  rw [loadElfLoop, hseg]
  simp only
  split
  · rfl
  next hlow =>
    split
    · rfl
    next hlimits =>
      refine absurd ?_ hw
      have hv := p.vaddr.toNat_lt
      have hbase := UInt64.le_iff_toNat_le.1 (UInt64.not_lt.1 hlow)
      have hbase' : kernelVirtBase.toNat ≤ p.vaddr.toNat := hbase
      have hvirt : kernelVirtBase.toNat = 0xffffffff80000000 := rfl
      have hphys : (kernelPhysBase.toUInt64 + (p.vaddr - kernelVirtBase)).toNat =
          0x200000 + (p.vaddr.toNat - kernelVirtBase.toNat) := by
        rw [UInt64.toNat_add, UInt64.toNat_sub_of_le _ _ (UInt64.le_iff_toNat_le.2 hbase'),
          show kernelPhysBase.toUInt64.toNat = 0x200000 from rfl, Nat.mod_eq_of_lt (by omega)]
      have htop : kernelPhysLimit.toUInt64.toNat = 0x8000000 := rfl
      simp only [Bool.or_eq_true, decide_eq_true_iff, not_or, UInt64.not_lt, gt_iff_lt] at hlimits
      have h₁ : kernelPhysBase.toUInt64 + (p.vaddr - kernelVirtBase) ≤ kernelPhysLimit.toUInt64 := hlimits.1
      have h₂ : p.memsz ≤ kernelPhysLimit.toUInt64 - (kernelPhysBase.toUInt64 + (p.vaddr - kernelVirtBase)) := hlimits.2
      rw [UInt64.le_iff_toNat_le, UInt64.toNat_sub_of_le _ _ h₁, htop, hphys] at h₂
      rw [UInt64.le_iff_toNat_le, htop, hphys] at h₁
      refine ⟨hbase', ?_⟩
      show p.vaddr.toNat + p.memsz.toNat ≤ kernelVirtBase.toNat + (0x8000000 - 0x200000)
      omega

/-! ### All segments -/

/-- The headers are kept if no segment but the last is placed over them. -/
theorem headersKept_of_missed {m : Bytes}
    (h : ∀ c ∈ (chunks (m.from kernelImageAddr)).dropLast, ∀ i, c.Covers (kernelImageAddr + i) →
      ¬ Elf64.HeaderByte (m.from kernelImageAddr) imageBytes.toUInt64 i) : HeadersKept m imageBytes := by
  intro done c rest hsplit i hi
  refine Chunk.placeAll_outside fun d hd hcov => h d ?_ i hcov hi
  rw [hsplit, List.dropLast_append_of_ne_nil (List.cons_ne_nil c rest)]
  exact List.mem_append_left _ hd

section
variable {m : Bytes}
  (hbelow : ∀ c ∈ chunks (m.from kernelImageAddr), c.dest + c.size + c.zeros ≤ kernelImageAddr)
include hbelow

/-- A kernel whose place is below the staging window keeps its headers and its file data. -/
theorem headersKept_of_below : HeadersKept m imageBytes := by
  refine headersKept_of_missed fun c hc i hcov _ => ?_
  have hend := hbelow c (List.mem_of_mem_dropLast hc)
  have hlt := hcov.2
  omega

theorem kept_of_below : Chunk.Kept m (chunks (m.from kernelImageAddr)) := by
  have hsource : ∀ c ∈ chunks (m.from kernelImageAddr), kernelImageAddr ≤ c.src := by
    intro c hc
    obtain ⟨p, -, rfl⟩ := List.mem_map.1 hc
    exact Nat.le_add_right _ _
  refine ⟨List.pairwise_of_forall_mem_list fun c hc d hd i hcov hread => ?_, fun c hc hlt => ?_⟩
  · have h₁ := hbelow c hc
    have h₂ := hsource d hd
    have h₃ := hcov.2
    have h₄ := hread.1
    omega
  · have h₁ := hbelow c hc
    have h₂ := hsource c hc
    omega

end

/-- The loop from the segments `rest` on, when those before them are placed. -/
theorem loadElfLoop_eq {m : Bytes} {sum : Summary}
    (hv : Elf64.validateImage (m.from kernelImageAddr) imageBytes.toUInt64 = .ok sum)
    (hw : ∀ p ∈ segments (m.from kernelImageAddr), FitsWindow p) (hk : HeadersKept m imageBytes)
    {done rest : List ProgramHeader} {i : UInt16} (hall : segments (m.from kernelImageAddr) = done ++ rest)
    (hrest : (segments (m.from kernelImageAddr)).drop i.toNat = rest) {s : Bios D}
    (hmem : s.mem = Chunk.placeAll m (done.map segmentChunk)) :
    loadElfLoop imageBytes rest.length i s =
      (true, { s with
        mem := Chunk.placeAll s.mem (rest.map segmentChunk)
        loaded := (rest.map fun p => (physOf p, p.memsz.toNat)).reverse ++ s.loaded }) := by
  induction rest generalizing done i s with
  | nil => rfl
  | cons p rest ih =>
    have hsegs := Elf64.validateImage_ok hv
    obtain ⟨hp, hin, hnext⟩ := hsegs.next hrest
    have hsplit : chunks (m.from kernelImageAddr) =
        done.map segmentChunk ++ segmentChunk p :: rest.map segmentChunk := by
      rw [chunks, hall, List.map_append, List.map_cons]
    -- this round reads the headers of the staged image
    have hhead : ∀ j, Elf64.HeaderByte (m.from kernelImageAddr) imageBytes.toUInt64 j →
        m.from kernelImageAddr j = s.mem.from kernelImageAddr j := by
      intro j hj
      rw [hmem]
      exact (hk _ _ _ hsplit j hj).symm
    have hseg : Elf64.loadSegmentOf (s.mem.from kernelImageAddr) imageBytes.toUInt64 i = .ok p.loadSegment := by
      rw [← Elf64.loadSegmentOf_congr hhead, Elf64.loadSegmentOf_eq hv, hp]
    have hok := Elf64.validateLoadSegment_ok (hsegs.ok p hin)
    rw [List.length_cons, loadElfLoop_fits hseg hok (hw p hin), @ih (done ++ [p]) _ ?_ hnext _ ?_]
    · simp [Chunk.placeAll]
    · rw [hall, List.append_assoc]
      rfl
    · simp [Chunk.placeAll, hmem]

/-- The limits of `load_elf` on the summary say that every segment fits. -/
theorem limits_iff {image : Bytes} {sum : Summary} (hs : Elf64.Segments image imageBytes.toUInt64 sum) :
    (¬ (sum.virtualMin < kernelVirtBase || sum.virtualMax ≤ sum.virtualMin) = true ∧
      ¬ sum.virtualMax - kernelVirtBase > (kernelPhysLimit - kernelPhysBase).toUInt64) ↔
      ∀ p ∈ segments image, FitsWindow p := by
  have hroom : (kernelPhysLimit - kernelPhysBase).toUInt64.toNat = kernelPhysLimit.toNat - kernelPhysBase.toNat := rfl
  obtain ⟨pmin, hpmin, hmin⟩ := hs.min_mem
  obtain ⟨pmax, hpmax, hmax⟩ := hs.max_mem
  have hspan := hs.nonempty
  simp only [Bool.or_eq_true, decide_eq_true_iff, not_or, UInt64.not_lt, UInt64.not_le, gt_iff_lt]
  constructor
  · rintro ⟨⟨hbase, -⟩, hlimit⟩ p hp
    have hbase' := UInt64.le_iff_toNat_le.1 hbase
    have h₁ := hs.min_le p hp
    have h₂ := hs.le_max p hp
    rw [UInt64.le_iff_toNat_le, hroom, UInt64.toNat_sub_of_le _ _ (UInt64.le_iff_toNat_le.2 (by omega))] at hlimit
    exact ⟨by omega, by omega⟩
  · intro hw
    have hbase := (hw pmin hpmin).1
    have hlimit := (hw pmax hpmax).2
    rw [hmin] at hbase
    rw [hmax] at hlimit
    refine ⟨⟨UInt64.le_iff_toNat_le.2 hbase, UInt64.lt_iff_toNat_lt.2 hspan⟩, ?_⟩
    rw [UInt64.le_iff_toNat_le, hroom, UInt64.toNat_sub_of_le _ _ (UInt64.le_iff_toNat_le.2 (by omega))]
    omega

theorem loadElf_eq {s : Bios D} {sum : Summary}
    (hv : Elf64.validateImage (s.mem.from kernelImageAddr) imageBytes.toUInt64 = .ok sum)
    (hw : ∀ p ∈ segments (s.mem.from kernelImageAddr), FitsWindow p)
    (hk : HeadersKept s.mem imageBytes) :
    loadElf imageBytes s =
      (some sum, { s with
        mem := Chunk.placeAll s.mem (chunks (s.mem.from kernelImageAddr))
        loaded := ((segments (s.mem.from kernelImageAddr)).map fun p => (physOf p, p.memsz.toNat)).reverse ++
          s.loaded }) := by
  have hs := Elf64.validateImage_ok hv
  obtain ⟨h₁, h₂⟩ := (limits_iff hs).2 hw
  have hall : segments (s.mem.from kernelImageAddr) = [] ++ segments (s.mem.from kernelImageAddr) := rfl
  have hrest : (segments (s.mem.from kernelImageAddr)).drop (0 : UInt16).toNat =
    segments (s.mem.from kernelImageAddr) := rfl
  have hmem : s.mem = Chunk.placeAll s.mem (([] : List ProgramHeader).map segmentChunk) := rfl
  have hloop := loadElfLoop_eq hv hw hk hall hrest hmem
  rw [← hs.count] at hloop
  simp only [loadElf, hv, if_neg h₁, if_neg h₂, hloop]
  rfl

theorem fits_of_loadElf {s s' : Bios D} {sum : Summary} (h : loadElf imageBytes s = (some sum, s')) :
    Elf64.validateImage (s.mem.from kernelImageAddr) imageBytes.toUInt64 = .ok sum ∧
      ∀ p ∈ segments (s.mem.from kernelImageAddr), FitsWindow p := by
  unfold loadElf at h
  split at h
  · cases h
  next sum' hv =>
    split at h
    · cases h
    next h₁ =>
      split at h
      · cases h
      next h₂ =>
        split at h
        · cases h
        · cases h
          exact ⟨hv, (limits_iff (Elf64.validateImage_ok hv)).1 ⟨h₁, h₂⟩⟩

/-! ### The segments in place -/

/-- The segment `p` of the image staged in `m₀` is in place in `m`. -/
def SegmentPlaced (m₀ m : Bytes) (p : ProgramHeader) : Prop :=
  (∀ j < p.filesz.toNat, m (physOf p + j) = m₀ (kernelImageAddr + p.offset.toNat + j)) ∧
    ∀ j, p.filesz.toNat ≤ j → j < p.memsz.toNat → m (physOf p + j) = 0

theorem segmentPlaced_iff {p : ProgramHeader} (hok : Elf64.SegmentOk imageBytes.toUInt64 p) {m₀ m : Bytes} :
    SegmentPlaced m₀ m p ↔ (segmentChunk p).Holds m₀ m := by
  have hfile := hok.file_le
  have hcover : ∀ j, (segmentChunk p).Covers (physOf p + j) ↔ j < p.memsz.toNat := by
    intro j
    simp only [Chunk.Covers, segmentChunk]
    omega
  constructor
  · rintro ⟨hdata, hzero⟩ i hi
    obtain ⟨j, rfl⟩ := Nat.exists_eq_add_of_le hi.1
    have hj := (hcover j).1 hi
    rw [Chunk.content]
    split
    · next hlt =>
      rw [Nat.add_sub_cancel_left]
      exact hdata j (by simp only [segmentChunk] at hlt; omega)
    · next hlt => exact hzero j (by simp only [segmentChunk] at hlt; omega) hj
  · intro h
    refine ⟨fun j hj => ?_, fun j h₁ h₂ => ?_⟩
    · rw [h _ ((hcover j).2 (by omega))]
      exact Chunk.content_file (segmentChunk p) m₀ hj
    · rw [h _ ((hcover j).2 h₂), Chunk.content, if_neg]
      simp only [segmentChunk]
      omega

theorem chunks_apart {image : Bytes} {sum : Summary} (hs : Elf64.Segments image imageBytes.toUInt64 sum)
    (hw : ∀ p ∈ segments image, FitsWindow p) : (chunks image).Pairwise Chunk.Apart := by
  refine List.pairwise_map.2 (hs.disjoint.imp_of_mem fun {p q} hp hq hpq => ?_)
  have h₁ := (hw p hp).1
  have h₂ := (hw q hq).1
  have h₃ := (Elf64.validateLoadSegment_ok (hs.ok p hp)).file_le
  have h₄ := (Elf64.validateLoadSegment_ok (hs.ok q hq)).file_le
  simp only [Chunk.Apart, segmentChunk, physOf, ProgramHeader.vend] at *
  omega

/-- Every segment of the staged image is in place after `load_elf`, just when no byte of file data is overwritten with
another value before it is copied. -/
theorem segments_placed_iff {s s' : Bios D} {sum : Summary} (h : loadElf imageBytes s = (some sum, s'))
    (hk : HeadersKept s.mem imageBytes) :
    (∀ p ∈ segments (s.mem.from kernelImageAddr), SegmentPlaced s.mem s'.mem p) ↔
      Chunk.Kept s.mem (chunks (s.mem.from kernelImageAddr)) := by
  obtain ⟨hv, hw⟩ := fits_of_loadElf h
  have hs := Elf64.validateImage_ok hv
  rw [loadElf_eq hv hw hk] at h
  obtain ⟨-, rfl⟩ := Prod.mk.inj h
  rw [← Chunk.placeAll_holds_iff s.mem (chunks_apart hs hw)]
  constructor
  · intro hp c hc
    obtain ⟨p, hmem, rfl⟩ := List.mem_map.1 hc
    exact (segmentPlaced_iff (Elf64.validateLoadSegment_ok (hs.ok p hmem))).1 (hp p hmem)
  · intro hc p hmem
    exact (segmentPlaced_iff (Elf64.validateLoadSegment_ok (hs.ok p hmem))).2 (hc _ (List.mem_map_of_mem hmem))

end

/-- A machine with the image in the staging window and zeros elsewhere. -/
def staged (image : List UInt8) : Bios Unit where
  drive := ()
  mem := Bytes.write (fun _ => 0) kernelImageAddr image
  healthPersistentEnabled := false
  serial := []
  writes := []
  opened := []
  slot := none
  loaded := []

/-- A kernel at the bottom of the window, with four bytes of data and four zeros. -/
def lowKernel : List UInt8 := Elf64.oneSegment 0xffffffff80000000 [1, 2, 3, 4] 8

def lowKernelSummary : Summary where
  entry := 0xffffffff80000000
  virtualMin := 0xffffffff80000000
  virtualMax := 0xffffffff80000008
  loadSegmentCount := 1

/-- A kernel of two segments, with three bytes of data and five zeros in the second. -/
def pairKernel : List UInt8 := Elf64.twoSegments 0xffffffff80000000 [1, 2, 3, 4] [5, 6, 7] 8

def pairSummary : Summary where
  entry := 0xffffffff80000000
  virtualMin := 0xffffffff80000000
  virtualMax := 0xffffffff80001008
  loadSegmentCount := 2

theorem segments_placed_iff_pair :
    loadElf 183 (staged pairKernel) = (some pairSummary, (loadElf 183 (staged pairKernel)).2) ∧
    ∀ p ∈ segments ((staged pairKernel).mem.from kernelImageAddr),
      SegmentPlaced (staged pairKernel).mem (loadElf 183 (staged pairKernel)).2.mem p := by
  have hsum : (loadElf 183 (staged pairKernel)).1 = some pairSummary := by decide +kernel
  have hload : loadElf 183 (staged pairKernel) = (some pairSummary, (loadElf 183 (staged pairKernel)).2) :=
    Prod.fst_eq_iff.1 hsum
  have hbelow : ∀ c ∈ chunks ((staged pairKernel).mem.from kernelImageAddr), c.dest + c.size + c.zeros ≤ kernelImageAddr := by
    decide +kernel
  exact ⟨hload, (segments_placed_iff hload (headersKept_of_below hbelow)).2 (kept_of_below hbelow)⟩

/-- A kernel whose place in memory begins one byte above its own file data. -/
def smearedKernel : List UInt8 := Elf64.oneSegment 0xffffffff80e00079 [1, 2, 3, 4] 4

def smearedSegment : ProgramHeader where
  type := 1
  flags := 5
  offset := 120
  vaddr := 0xffffffff80e00079
  filesz := 4
  memsz := 4
  align := 1

/-- It is loaded, but the copy runs over its own source: the second byte is the first again. -/
theorem load_smears :
    (loadElf 124 (staged smearedKernel)).1.isSome = true ∧
    ¬ ∀ p ∈ segments ((staged smearedKernel).mem.from kernelImageAddr),
      SegmentPlaced (staged smearedKernel).mem (loadElf 124 (staged smearedKernel)).2.mem p := by
  refine ⟨by decide +kernel, fun h => ?_⟩
  have hmem : smearedSegment ∈ segments ((staged smearedKernel).mem.from kernelImageAddr) := by decide +kernel
  have hsource : (staged smearedKernel).mem (kernelImageAddr + 120 + 1) = 2 := by decide +kernel
  have hcopied : (loadElf 124 (staged smearedKernel)).2.mem (0x1000079 + 1) = 1 := by decide +kernel
  have hbyte := (h smearedSegment hmem).1 1
  rw [show physOf smearedSegment = 0x1000079 by decide, show smearedSegment.offset.toNat = 120 by decide, hcopied,
    hsource] at hbyte
  exact absurd (hbyte (by decide)) (by decide)

end JoshBios.Stage2
