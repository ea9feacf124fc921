import JoshBios.UefiPaging
import JoshBios.ElfSpec

/-! # The kernel on the UEFI path, loaded and mapped

`load_elf` puts the byte for the virtual address `v` at `kp + (v - virtual_min)`, bytewise; `build_tables` maps whole
pages, from the page of `virtual_min` on. The two agree if `virtual_min` begins a page, and only then. -/

namespace JoshBios.Uefi

open Elf64 (ProgramHeader Summary LoadSegment segments)
open Tables (walk)

variable {F : Type} {fw : Firmware F}

/-! ### `load_elf` -/

/-- The kernel lies in the upper 2 GiB, and is not too long. -/
structure Fits (sum : Summary) : Prop where
  floor : kernelVirtFloor.toNat ≤ sum.virtualMin.toNat
  nonempty : sum.virtualMin.toNat < sum.virtualMax.toNat
  span : sum.virtualMax.toNat - sum.virtualMin.toNat ≤ maxKernelBytes.toNat

/-- Where a segment goes. -/
def placeOf (sum : Summary) (kp : UInt64) (p : ProgramHeader) : Nat := (kp + (p.vaddr - sum.virtualMin)).toNat

/-- The file data of a segment, copied to its place. -/
def copySegment (image : Bytes) (sum : Summary) (kp : UInt64) (m : Bytes) (p : ProgramHeader) : Bytes :=
  m.write (placeOf sum kp p) (image.slice p.offset.toNat p.filesz.toNat)

theorem toNat_span {sum : Summary} (h : sum.virtualMin.toNat < sum.virtualMax.toNat) :
    (sum.virtualMax - sum.virtualMin).toNat = sum.virtualMax.toNat - sum.virtualMin.toNat :=
  UInt64.toNat_sub_of_le _ _ (UInt64.le_iff_toNat_le.2 (Nat.le_of_lt h))

section
variable {image : Bytes} {size : UInt64} {sum : Summary}

theorem toNat_offset (hs : Elf64.Segments image size sum) {p : ProgramHeader} (hp : p ∈ segments image) :
    (p.vaddr - sum.virtualMin).toNat = p.vaddr.toNat - sum.virtualMin.toNat :=
  UInt64.toNat_sub_of_le _ _ (UInt64.le_iff_toNat_le.2 (hs.min_le p hp))

/-- The loop copies one segment after the other; the image is not in the memory that it writes to. -/
theorem loadElfLoop_eq (hv : Elf64.validateImage image size = .ok sum) (kp : UInt64) {rest : List ProgramHeader}
    {i : UInt16} (hrest : (segments image).drop i.toNat = rest) (seg : LoadSegment) (m : Bytes) :
    loadElfLoop (some image) size sum (sum.virtualMax - sum.virtualMin) kp seg rest.length i m =
      (efiSuccess, rest.foldl (copySegment image sum kp) m) := by
  induction rest generalizing i seg m with
  | nil => rfl
  | cons p rest ih =>
    have hs := Elf64.validateImage_ok hv
    obtain ⟨hp, hmem, hnext⟩ := hs.next hrest
    have hseg : Elf64.loadSegment (some image) size i (some seg) = (.ok, some p.loadSegment) := by
      rw [Elf64.loadSegment_some, Elf64.loadSegmentOf_eq hv, hp]
    have hmin := hs.min_le p hmem
    have hmax : p.vaddr.toNat + p.memsz.toNat ≤ sum.virtualMax.toNat := hs.le_max p hmem
    have hlow : ¬ p.vaddr < sum.virtualMin := UInt64.not_lt.2 (UInt64.le_iff_toNat_le.2 hmin)
    have hoff := toNat_offset hs hmem
    have hspan := toNat_span hs.nonempty
    have hin : ¬ p.vaddr - sum.virtualMin > sum.virtualMax - sum.virtualMin := by
      rw [gt_iff_lt, UInt64.lt_iff_toNat_lt, hoff, hspan]
      omega
    have hsize : ¬ p.memsz > sum.virtualMax - sum.virtualMin - (p.vaddr - sum.virtualMin) := by
      rw [gt_iff_lt, UInt64.lt_iff_toNat_lt, UInt64.toNat_sub_of_le _ _ (UInt64.not_lt.1 hin), hoff, hspan]
      omega
    rw [List.length_cons, loadElfLoop, hseg]
    simp only [Option.getD_some, ProgramHeader.loadSegment, hlow, hin, hsize, ne_eq, not_true, decide_false,
      Bool.or_self, Bool.false_eq_true, if_false, copyImage]
    rw [ih hnext]
    rfl

/-- The limits of `load_elf` on the summary. -/
theorem limits_iff : (¬ (sum.virtualMin < kernelVirtFloor || sum.virtualMax ≤ sum.virtualMin) = true ∧
    ¬ (sum.virtualMax - sum.virtualMin = 0 || sum.virtualMax - sum.virtualMin > maxKernelBytes) = true) ↔ Fits sum := by
  simp only [Bool.or_eq_true, decide_eq_true_iff, not_or, UInt64.not_lt, UInt64.not_le, gt_iff_lt]
  constructor
  · rintro ⟨⟨hfloor, hne⟩, -, hspan⟩
    have hne' := UInt64.lt_iff_toNat_lt.1 hne
    rw [UInt64.le_iff_toNat_le, toNat_span hne'] at hspan
    exact ⟨UInt64.le_iff_toNat_le.1 hfloor, hne', hspan⟩
  · intro h
    have hspan := toNat_span h.nonempty
    refine ⟨⟨UInt64.le_iff_toNat_le.2 h.floor, UInt64.lt_iff_toNat_lt.2 h.nonempty⟩, fun h0 => ?_, ?_⟩
    · have := h.nonempty
      rw [h0, show (0 : UInt64).toNat = 0 from rfl] at hspan
      omega
    · rw [UInt64.le_iff_toNat_le, hspan]
      exact h.span

theorem loadElf_eq (hv : Elf64.validateImage image size = .ok sum) (hfit : Fits sum) (sum₀ : Summary) (seg₀ : LoadSegment)
    (u : Loader F) :
    loadElf fw (some image) size sum₀ seg₀ u =
      match allocLow fw (pagesFor (sum.virtualMax - sum.virtualMin)) u with
      | ((s, kp), u) =>
        if efiError s then ((s, sum, kp), u)
        else ((efiSuccess, sum, kp), say "JOSHUEFI_ELF64_LOADED\r\n" { u with
          mem := (segments image).foldl (copySegment image sum kp)
            (memzero u.mem kp.toNat (pagesFor (sum.virtualMax - sum.virtualMin) * pageSize).toNat) }) := by
  obtain ⟨h₁, h₂⟩ := limits_iff.2 hfit
  have hs := Elf64.validateImage_ok hv
  have hall : (segments image).drop (0 : UInt16).toNat = segments image := rfl
  simp only [loadElf, Elf64.validate_some, hv, Option.getD_some, ne_eq, not_true, if_false, h₁, h₂, hs.count,
    loadElfLoop_eq hv _ hall, efiError_efiSuccess, Bool.false_eq_true]

theorem loadElf_unfit (hv : Elf64.validateImage image size = .ok sum) (hfit : ¬ Fits sum) (sum₀ : Summary)
    (seg₀ : LoadSegment) (u : Loader F) : (loadElf fw (some image) size sum₀ seg₀ u).1.1 ≠ efiSuccess := by
  simp only [loadElf, Elf64.validate_some, hv, Option.getD_some, ne_eq, not_true, if_false]
  split
  · simp only
    decide
  next h₁ =>
    split
    · simp only
      decide
    next h₂ => exact absurd (limits_iff.1 ⟨h₁, h₂⟩) hfit

theorem fits_of_loadElf {sum₀ : Summary} {seg₀ : LoadSegment} {u u' : Loader F} {kp : UInt64}
    (h : loadElf fw (some image) size sum₀ seg₀ u = ((efiSuccess, sum, kp), u')) :
    Elf64.validateImage image size = .ok sum ∧ Fits sum := by
  cases hv : Elf64.validateImage image size with
  | error status =>
    have hne : status ≠ .ok := Elf64.validateImage_error hv
    simp only [loadElf, Elf64.validate_some, hv, ne_eq, hne, not_false_iff, if_true] at h
    have hst : efiLoadError = efiSuccess := congrArg (fun r => r.1.1) h
    exact absurd hst (by decide)
  | ok sum' =>
    by_cases hfit : Fits sum'
    · have hsum : sum' = sum := by
        rw [loadElf_eq hv hfit] at h
        generalize allocLow fw (pagesFor (sum'.virtualMax - sum'.virtualMin)) u = r at h
        obtain ⟨⟨s, kp'⟩, u₁⟩ := r
        simp only at h
        split at h
        · exact congrArg (fun r => r.1.2.1) h
        · exact congrArg (fun r => r.1.2.1) h
      rw [← hsum]
      exact ⟨rfl, hfit⟩
    · exact absurd (congrArg (fun r => r.1.1) h) (loadElf_unfit hv hfit sum₀ seg₀ u)

/-! ### The bytes in place -/

/-- Every segment of the image is at its distance from `kp`, with zeros after its file data. -/
def Placed (image : Bytes) (sum : Summary) (kp : UInt64) (m : Bytes) : Prop :=
  ∀ p ∈ segments image,
    (∀ j < p.filesz.toNat,
      m (kp.toNat + (p.vaddr.toNat - sum.virtualMin.toNat) + j) = image (p.offset.toNat + j)) ∧
    ∀ j, p.filesz.toNat ≤ j → j < p.memsz.toNat → m (kp.toNat + (p.vaddr.toNat - sum.virtualMin.toNat) + j) = 0

/-- The file data of `p` do not reach the address `i`. -/
def Misses (sum : Summary) (kp : UInt64) (i : Nat) (p : ProgramHeader) : Prop :=
  i < placeOf sum kp p ∨ placeOf sum kp p + p.filesz.toNat ≤ i

theorem copySegment_misses {kp : UInt64} (m : Bytes) {p : ProgramHeader} {i : Nat} (h : Misses sum kp i p) :
    copySegment image sum kp m p i = m i := by
  rcases h with h | h
  · exact Bytes.write_of_lt m _ h
  · exact Bytes.write_of_le m _ (by rw [Bytes.length_slice]; exact h)

theorem copySegments_miss {kp : UInt64} {ps : List ProgramHeader} (m : Bytes) {i : Nat} (h : ∀ p ∈ ps, Misses sum kp i p) :
    ps.foldl (copySegment image sum kp) m i = m i := by
  induction ps generalizing m with
  | nil => rfl
  | cons p ps ih =>
    rw [List.foldl_cons, ih _ fun q hq => h q (List.mem_cons_of_mem p hq)]
    exact copySegment_misses m (h p (List.mem_cons_self ..))

theorem copySegments_hit {kp : UInt64} {ps : List ProgramHeader} (m : Bytes) {p : ProgramHeader} {j : Nat} (hp : p ∈ ps)
    (hj : j < p.filesz.toNat)
    (h : ps.Pairwise fun q q' => q = p → Misses sum kp (placeOf sum kp p + j) q') :
    ps.foldl (copySegment image sum kp) m (placeOf sum kp p + j) = image (p.offset.toNat + j) := by
  induction ps generalizing m with
  | nil => cases hp
  | cons q ps ih =>
    obtain ⟨hq, hps⟩ := List.pairwise_cons.1 h
    rw [List.foldl_cons]
    by_cases hmem : p ∈ ps
    · exact ih _ hmem hps
    · obtain rfl : p = q := (List.mem_cons.1 hp).resolve_right hmem
      rw [copySegments_miss _ fun q' hq' => hq q' hq' rfl, copySegment, Bytes.write_inside m (by simpa using hj)]
      simp [Bytes.slice, hj]

theorem toNat_pagesFor {n : UInt64} (h : n.toNat ≤ maxKernelBytes.toNat) : (pagesFor n).toNat = (n.toNat + 4095) / 4096 := by
  have hmax : maxKernelBytes.toNat = 0x4000000 := rfl
  rw [pagesFor, UInt64.toNat_div, UInt64.toNat_sub_of_le, UInt64.toNat_add, show pageSize.toNat = 4096 from rfl,
    show (1 : UInt64).toNat = 1 from rfl, Nat.mod_eq_of_lt (by omega)]
  · omega
  · rw [UInt64.le_iff_toNat_le, UInt64.toNat_add, show pageSize.toNat = 4096 from rfl,
      show (1 : UInt64).toNat = 1 from rfl, Nat.mod_eq_of_lt (by omega)]
    omega

theorem placeOf_eq (hs : Elf64.Segments image size sum) {kp : UInt64}
    (htop : kp.toNat + (sum.virtualMax.toNat - sum.virtualMin.toNat) < 2 ^ 64) {p : ProgramHeader}
    (hp : p ∈ segments image) : placeOf sum kp p = kp.toNat + (p.vaddr.toNat - sum.virtualMin.toNat) := by
  have hoff := toNat_offset hs hp
  have hmax : p.vaddr.toNat + p.memsz.toNat ≤ sum.virtualMax.toNat := hs.le_max p hp
  rw [placeOf, Elf64.toNat_add_of_lt (by omega), hoff]

theorem misses_of_apart (hs : Elf64.Segments image size sum) {kp : UInt64}
    (htop : kp.toNat + (sum.virtualMax.toNat - sum.virtualMin.toNat) < 2 ^ 64) {p q : ProgramHeader}
    (hp : p ∈ segments image) (hq : q ∈ segments image) {j : Nat} (hj : j < p.memsz.toNat)
    (hpq : p.vend ≤ q.vaddr.toNat ∨ q.vend ≤ p.vaddr.toNat) : Misses sum kp (placeOf sum kp p + j) q := by
  have h₁ := hs.min_le p hp
  have h₂ := hs.min_le q hq
  have h₃ := (Elf64.validateLoadSegment_ok (hs.ok q hq)).file_le
  simp only [Misses, placeOf_eq hs htop hp, placeOf_eq hs htop hq, ProgramHeader.vend] at *
  omega

/-- No later copy overwrites the file data of a segment. -/
theorem copySegments_data (hs : Elf64.Segments image size sum) {kp : UInt64}
    (htop : kp.toNat + (sum.virtualMax.toNat - sum.virtualMin.toNat) < 2 ^ 64) {p : ProgramHeader}
    (hp : p ∈ segments image) {j : Nat} (hj : j < p.filesz.toNat) (m : Bytes) :
    (segments image).foldl (copySegment image sum kp) m (placeOf sum kp p + j) = image (p.offset.toNat + j) := by
  have hfile := (Elf64.validateLoadSegment_ok (hs.ok p hp)).file_le
  refine copySegments_hit _ hp hj (hs.disjoint.imp_of_mem fun {q q'} hq hq' hd heq => ?_)
  rw [heq] at hd
  exact misses_of_apart hs htop hp hq' (by omega) hd

/-- What `load_elf` leaves in memory. -/
theorem loadElf_mem {sum₀ : Summary} {seg₀ : LoadSegment} {u u' : Loader F} {kp : UInt64}
    (h : loadElf fw (some image) size sum₀ seg₀ u = ((efiSuccess, sum, kp), u')) :
    u'.mem = (segments image).foldl (copySegment image sum kp)
      (memzero u.mem kp.toNat (pagesFor (sum.virtualMax - sum.virtualMin) * pageSize).toNat) := by
  obtain ⟨hv, hfit⟩ := fits_of_loadElf h
  rw [loadElf_eq hv hfit] at h
  have hmem : (allocLow fw (pagesFor (sum.virtualMax - sum.virtualMin)) u).2.mem = u.mem := by
    rw [allocLow]
    split
    · rfl
    · rfl
  generalize allocLow fw (pagesFor (sum.virtualMax - sum.virtualMin)) u = r at h hmem
  obtain ⟨⟨s, kp'⟩, u₁⟩ := r
  simp only at h hmem
  split at h
  next herr =>
    have hs : s = efiSuccess := congrArg (fun r => r.1.1) h
    rw [hs, efiError_efiSuccess] at herr
    cases herr
  · have hkp : kp' = kp := congrArg (fun r => r.1.2.2) h
    have hu : _ = u'.mem := congrArg (fun r => r.2.mem) h
    rw [← hu, ← hkp, ← hmem]
    rfl

theorem placed_of_loadElf {sum₀ : Summary} {seg₀ : LoadSegment} {u u' : Loader F} {kp : UInt64}
    (h : loadElf fw (some image) size sum₀ seg₀ u = ((efiSuccess, sum, kp), u'))
    (htop : kp.toNat + 4096 * (pagesFor (sum.virtualMax - sum.virtualMin)).toNat ≤ 2 ^ 52) :
    Placed image sum kp u'.mem := by
  obtain ⟨hv, hfit⟩ := fits_of_loadElf h
  have hs := Elf64.validateImage_ok hv
  have hspan := toNat_span hs.nonempty
  have hmax := hfit.span
  have hpages := toNat_pagesFor (n := sum.virtualMax - sum.virtualMin) (by rw [hspan]; exact hmax)
  have hbound : maxKernelBytes.toNat = 0x4000000 := rfl
  have hclear : (pagesFor (sum.virtualMax - sum.virtualMin) * pageSize).toNat =
      (pagesFor (sum.virtualMax - sum.virtualMin)).toNat * 4096 := by
    rw [UInt64.toNat_mul, show pageSize.toNat = 4096 from rfl, Nat.mod_eq_of_lt (by omega)]
  have htop' : kp.toNat + (sum.virtualMax.toNat - sum.virtualMin.toNat) < 2 ^ 64 := by omega
  rw [loadElf_mem h]
  intro p hp
  have hplace := placeOf_eq hs htop' hp
  have hvend : p.vaddr.toNat + p.memsz.toNat ≤ sum.virtualMax.toNat := hs.le_max p hp
  have hvmin := hs.min_le p hp
  rw [← hplace]
  refine ⟨fun j hj => copySegments_data hs htop' hp hj _, fun j h₁ h₂ => ?_⟩
  rw [copySegments_miss _ fun q hq => ?_]
  · refine memzero_inside _ ?_ ?_
    · rw [hplace]
      omega
    · rw [hplace, hclear, hpages, hspan]
      omega
  · by_cases heq : q = p
    · rw [heq]
      exact Or.inr (by omega)
    · exact misses_of_apart hs htop' hp hq h₂ (hs.apart hp hq (Ne.symm heq))

/-! ### The mapping -/

/-- What the processor makes of the virtual address `v`, with the tables at `root`. -/
def translate (m : Bytes) (root v : UInt64) : Option Nat :=
  (walk (tablesOf m) 3 (root.toNat / 4096) (pageOf v)).map fun f => f * 4096 + v.toNat % 4096

/-- Every address of the kernel is mapped to where its byte was put, `entry` among them. -/
structure Mapped (sum : Summary) (kp : UInt64) (m : Bytes) (root : UInt64) : Prop where
  all : ∀ v : UInt64, sum.virtualMin ≤ v → v < sum.virtualMax →
    translate m root v = some (kp.toNat + (v.toNat - sum.virtualMin.toNat))
  entry : translate m root sum.entry = some (kp.toNat + (sum.entry.toNat - sum.virtualMin.toNat))

theorem entry_inside (hs : Elf64.Segments image size sum) :
    sum.virtualMin ≤ sum.entry ∧ sum.entry < sum.virtualMax := by
  obtain ⟨p, hp, -, hle, hlt⟩ := hs.exec
  have h₁ := hs.min_le p hp
  have h₂ := hs.le_max p hp
  exact ⟨UInt64.le_iff_toNat_le.2 (by omega), UInt64.lt_iff_toNat_lt.2 (by omega)⟩

theorem fits_pages (hfit : Fits sum) {n : Nat} (hn : (pagesFor (sum.virtualMax - sum.virtualMin)).toNat = n) :
    n ≤ 16384 ∧ 2 ^ 36 - 2 ^ 19 ≤ pageOf sum.virtualMin ∧ pageOf sum.virtualMin + n ≤ 2 ^ 36 ∧
      (∀ j < n, (sum.virtualMin + UInt64.ofNat j * pageSize).toNat = sum.virtualMin.toNat + j * 4096) ∧
      ∀ j < n, pageOf (sum.virtualMin + UInt64.ofNat j * pageSize) = pageOf sum.virtualMin + j := by
  have hfloor : 0xffffffff80000000 ≤ sum.virtualMin.toNat := hfit.floor
  have hspan : sum.virtualMax.toNat - sum.virtualMin.toNat ≤ 0x4000000 := hfit.span
  have hne := hfit.nonempty
  have hvmax := sum.virtualMax.toNat_lt
  have hpages := toNat_pagesFor (n := sum.virtualMax - sum.virtualMin) (by rw [toNat_span hne]; exact hspan)
  rw [toNat_span hne, hn] at hpages
  have hj : ∀ j < n, (sum.virtualMin + UInt64.ofNat j * pageSize).toNat = sum.virtualMin.toNat + j * 4096 := by
    intro j hj
    have hmul : (UInt64.ofNat j * pageSize).toNat = j * 4096 := by
      rw [UInt64.toNat_mul, UInt64.toNat_ofNat', show pageSize.toNat = 4096 from rfl]
      omega
    rw [UInt64.toNat_add, hmul]
    omega
  refine ⟨by omega, ?_, ?_, hj, fun j hlt => ?_⟩
  · rw [pageOf]
    omega
  · rw [pageOf]
    omega
  · rw [pageOf, pageOf, hj j hlt]
    omega

theorem buildTables_pages {u : Loader F} {kp pa sp : UInt64} (hal : Allocates fw u.firmware pa sp) (hfit : Fits sum)
    (hkp : kp.toNat % 4096 = 0)
    (htop : kp.toNat + 4096 * (pagesFor (sum.virtualMax - sum.virtualMin)).toNat ≤ 2 ^ 52) :
    ∃ u', buildTables fw kp sum u = ((efiSuccess, pa, sp + 4 * pageSize - 16), u') ∧
      ∀ j, 4096 * j < sum.virtualMax.toNat - sum.virtualMin.toNat →
        walk (tablesOf u'.mem) 3 (pa.toNat / 4096) (pageOf sum.virtualMin + j) = some (kp.toNat / 4096 + j) := by
  have hpages := toNat_pagesFor (n := sum.virtualMax - sum.virtualMin) (by rw [toNat_span hfit.nonempty]; exact hfit.span)
  rw [toNat_span hfit.nonempty] at hpages
  generalize hn : (pagesFor (sum.virtualMax - sum.virtualMin)).toNat = n at hpages htop
  obtain ⟨hsize, hlow, hhigh, -, hpage⟩ := fits_pages hfit hn
  have hframe : ∀ j < n, Tables.frame (kp + UInt64.ofNat j * pageSize) = kp.toNat / 4096 + j := by
    intro j hj
    have hmul : (UInt64.ofNat j * pageSize).toNat = 4096 * j := by
      rw [UInt64.toNat_mul, UInt64.toNat_ofNat', show pageSize.toNat = 4096 from rfl]
      omega
    rw [Tables.frame_eq, UInt64.toNat_add, hmul]
    omega
  obtain ⟨u', hbuild, hwalk⟩ := buildTables_walk hal hn hsize hlow hhigh hpage hframe
  exact ⟨u', hbuild, fun j hlt => hwalk j (by omega)⟩

/-- `load_elf` leaves every byte at its distance from `kp`, and `build_tables` maps every address there just when the
lowest one begins a page. -/
theorem kernel_mapped_iff {sum₀ : Summary} {seg₀ : LoadSegment} {u u₁ u₂ : Loader F} {kp pa sp : UInt64}
    (hload : loadElf fw (some image) size sum₀ seg₀ u = ((efiSuccess, sum, kp), u₁)) (hkp : kp.toNat % 4096 = 0)
    (htop : kp.toNat + 4096 * (pagesFor (sum.virtualMax - sum.virtualMin)).toNat ≤ 2 ^ 52)
    (hal : Allocates fw u₂.firmware pa sp) :
    Placed image sum kp u₁.mem ∧
      ∃ u₃, buildTables fw kp sum u₂ = ((efiSuccess, pa, sp + 4 * pageSize - 16), u₃) ∧
        (Mapped sum kp u₃.mem pa ↔ sum.virtualMin.toNat % 4096 = 0) := by
  obtain ⟨hv, hfit⟩ := fits_of_loadElf hload
  obtain ⟨u₃, hbuild, hwalk⟩ := buildTables_pages hal hfit hkp htop
  refine ⟨placed_of_loadElf hload htop, u₃, hbuild, fun h => ?_, fun haligned => ?_⟩
  · have hne := hfit.nonempty
    have hfirst := h.all sum.virtualMin (UInt64.le_refl _) (UInt64.lt_iff_toNat_lt.2 hne)
    rw [translate, ← Nat.add_zero (pageOf sum.virtualMin), hwalk 0 (by omega), Option.map_some] at hfirst
    have := Option.some.inj hfirst
    omega
  · have hfloor : 0xffffffff80000000 ≤ sum.virtualMin.toNat := hfit.floor
    have hall : ∀ v : UInt64, sum.virtualMin ≤ v → v < sum.virtualMax →
        translate u₃.mem pa v = some (kp.toNat + (v.toNat - sum.virtualMin.toNat)) := by
      intro v hmin hmax
      have h₁ := UInt64.le_iff_toNat_le.1 hmin
      have h₂ := UInt64.lt_iff_toNat_lt.1 hmax
      have hlt := v.toNat_lt
      have hpage : pageOf v = pageOf sum.virtualMin + (v.toNat - sum.virtualMin.toNat) / 4096 := by
        rw [pageOf, pageOf]
        omega
      rw [translate, hpage, hwalk _ (by omega), Option.map_some]
      congr 1
      omega
    obtain ⟨h₁, h₂⟩ := entry_inside (Elf64.validateImage_ok hv)
    exact ⟨hall, hall sum.entry h₁ h₂⟩

end

/-- A kernel of eight bytes at `vaddr`, four of them zeros. -/
def smallKernel (vaddr : UInt64) : Bytes := bytesOf (Elf64.oneSegment vaddr.toNat [1, 2, 3, 4] 8)

def smallSummary (vaddr : UInt64) : Summary where
  entry := vaddr
  virtualMin := vaddr
  virtualMax := vaddr + 8
  loadSegmentCount := 1

/-- `load_elf` on it, with a firmware that allocates upwards. The variables it fills are zero before. -/
def loadSmall (vaddr : UInt64) : (EfiStatus × Summary × UInt64) × Loader UInt64 :=
  loadElf (oneFileFirmware (smallKernel vaddr) 124) (some (smallKernel vaddr)) 124 ⟨0, 0, 0, 0⟩ ⟨0, 0, 0, 0, 0, 0⟩
    freshLoader

theorem allocates_small (vaddr : UInt64) {f : UInt64} (hf : f = 0x401000) :
    Allocates (oneFileFirmware (smallKernel vaddr) 124) f 0x401000 0x431000 := by
  subst hf
  exact ⟨⟨efiError_efiSuccess, rfl⟩, ⟨efiError_efiSuccess, rfl⟩, by decide, by decide, by decide, Or.inr (by decide)⟩

theorem kernel_mapped_iff_floor :
    Placed (smallKernel 0xffffffff80000000) (smallSummary 0xffffffff80000000) 0x400000
      (loadSmall 0xffffffff80000000).2.mem ∧
    ∃ u₃, buildTables (oneFileFirmware (smallKernel 0xffffffff80000000) 124) 0x400000
        (smallSummary 0xffffffff80000000) (loadSmall 0xffffffff80000000).2 =
          ((efiSuccess, 0x401000, 0x434ff0), u₃) ∧
      Mapped (smallSummary 0xffffffff80000000) 0x400000 u₃.mem 0x401000 := by
  have hst : (loadSmall 0xffffffff80000000).1 = (efiSuccess, smallSummary 0xffffffff80000000, 0x400000) := by
    decide
  have hfirm : (loadSmall 0xffffffff80000000).2.firmware = 0x401000 := by decide
  have hload : loadSmall 0xffffffff80000000 =
      ((efiSuccess, smallSummary 0xffffffff80000000, 0x400000), (loadSmall 0xffffffff80000000).2) := by
    rw [← hst]
  have hal := allocates_small 0xffffffff80000000 hfirm
  obtain ⟨hplaced, u₃, hbuild, hmap⟩ := kernel_mapped_iff hload (by decide) (by decide) hal
  exact ⟨hplaced, u₃, hbuild, hmap.2 (by decide)⟩

/-- In the middle of a page it is loaded to `0x400000`, but its first address is mapped 2 KiB above that. -/
theorem off_page_kernel_misplaced :
    (loadSmall 0xffffffff80000800).1 = (efiSuccess, smallSummary 0xffffffff80000800, 0x400000) ∧
    ∃ u₃, buildTables (oneFileFirmware (smallKernel 0xffffffff80000800) 124) 0x400000
        (smallSummary 0xffffffff80000800) (loadSmall 0xffffffff80000800).2 =
          ((efiSuccess, 0x401000, 0x434ff0), u₃) ∧
      translate u₃.mem 0x401000 0xffffffff80000800 = some 0x400800 ∧
      ¬ Mapped (smallSummary 0xffffffff80000800) 0x400000 u₃.mem 0x401000 := by
  have hst : (loadSmall 0xffffffff80000800).1 = (efiSuccess, smallSummary 0xffffffff80000800, 0x400000) := by
    decide
  have hfirm : (loadSmall 0xffffffff80000800).2.firmware = 0x401000 := by decide
  have hal := allocates_small 0xffffffff80000800 hfirm
  have hfit : Fits (smallSummary 0xffffffff80000800) := ⟨by decide, by decide, by decide⟩
  have hkp : (0x400000 : UInt64).toNat % 4096 = 0 := by decide
  obtain ⟨u₃, hbuild, hwalk⟩ := buildTables_pages hal hfit hkp (by decide)
  have hfirst : translate u₃.mem 0x401000 0xffffffff80000800 = some 0x400800 := by
    have h0 := hwalk 0 (by decide)
    rw [Nat.add_zero] at h0
    rw [translate, show pageOf 0xffffffff80000800 = pageOf (smallSummary 0xffffffff80000800).virtualMin from rfl, h0]
    rfl
  refine ⟨hst, u₃, hbuild, hfirst, fun h => ?_⟩
  have hentry := h.entry
  rw [show (smallSummary 0xffffffff80000800).entry = 0xffffffff80000800 from rfl, hfirst] at hentry
  exact absurd (Option.some.inj hentry) (by decide)

end JoshBios.Uefi
