import JoshBios.UefiKernel
import JoshBios.ElfSegments

/-! # The region that `load_elf` fills

`loadElfIn` is `load_elf` with the image where the firmware has put it: in a buffer of the same memory that the segments
are copied to, so that every round of the loop reads the headers and the file data as the rounds before it left them.
While the pages that `AllocatePages` gives do not overlap the buffer, that is `loadElf` on the image
(`loadElfIn_eq`). -/

namespace JoshBios.Uefi

open Elf64 (ProgramHeader Summary LoadSegment segments loadHeaders)

variable {F : Type}

/-- The image in the buffer at `buf`, of which a null pointer is none. -/
def imageAt (m : Bytes) (buf : UInt64) : Option Bytes := if buf = 0 then none else some (m.from buf.toNat)

def loadElfLoopIn (buf bytes : UInt64) (sum : Summary) (span phys : UInt64) (seg : LoadSegment) :
    (n : Nat) → (i : UInt16) → Bytes → EfiStatus × Bytes
  | 0, _, m => (efiSuccess, m)
  | n + 1, i, m =>
    match Elf64.loadSegment (imageAt m buf) bytes i (some seg) with
    | (status, after) =>
      let seg := after.getD seg
      if status ≠ .ok || seg.virtualAddress < sum.virtualMin then (efiLoadError, m) else
      let off := seg.virtualAddress - sum.virtualMin
      if off > span || seg.memorySize > span - off then (efiLoadError, m) else
      loadElfLoopIn buf bytes sum span phys seg n (i + 1)
        (memcopy m (phys + off).toNat (buf + seg.fileOffset).toNat seg.fileSize.toNat)

def loadElfIn (fw : Firmware F) (buf bytes : UInt64) (sum : Summary) (seg : LoadSegment) (u : Loader F) :
    (EfiStatus × Summary × UInt64) × Loader F :=
  match Elf64.validate (imageAt u.mem buf) bytes (some sum) with
  | (status, after) =>
    let sum := after.getD sum
    if status ≠ .ok then ((efiLoadError, sum, 0), u)
    else if sum.virtualMin < kernelVirtFloor || sum.virtualMax ≤ sum.virtualMin then ((efiUnsupported, sum, 0), u) else
    let span := sum.virtualMax - sum.virtualMin
    if span = 0 || span > maxKernelBytes then ((efiBadBufferSize, sum, 0), u) else
    let ((s, phys), u) := allocLow fw (pagesFor span) u
    if efiError s then ((s, sum, phys), u) else
    let m := memzero u.mem phys.toNat (pagesFor span * pageSize).toNat
    let (s, m) := loadElfLoopIn buf bytes sum span phys seg sum.loadSegmentCount.toNat 0 m
    let u := { u with mem := m }
    if efiError s then ((s, sum, phys), u) else ((efiSuccess, sum, phys), say "JOSHUEFI_ELF64_LOADED\r\n" u)

theorem memcopy_eq_write (m : Bytes) {d s n : Nat} (h : d + n ≤ s ∨ s + n ≤ d) :
    memcopy m d s n = m.write d (m.slice s n) := by
  funext i
  by_cases hi : d ≤ i ∧ i < d + n
  · obtain ⟨k, rfl⟩ := Nat.exists_eq_add_of_le hi.1
    have hk : k < n := by omega
    rw [memcopy_at m (by omega) hk, Bytes.write_inside m (by simpa using hk)]
    simp [Bytes.slice, hk]
  · rw [memcopy_outside m (by omega)]
    by_cases hlt : i < d
    · rw [Bytes.write_of_lt m _ hlt]
    · rw [Bytes.write_of_le m _ (by rw [Bytes.length_slice]; omega)]

section Buffer
variable {m₀ : Bytes} {buf bytes : UInt64} {sum : Summary} {kp : UInt64}

/-- The buffer and the region do not overlap, and neither wraps around. -/
structure RegionApart (buf bytes kp : UInt64) (pages : Nat) : Prop where
  notNull : buf ≠ 0
  buffer : buf.toNat + bytes.toNat ≤ 2 ^ 64
  region : kp.toNat + 4096 * pages ≤ 2 ^ 32
  apart : buf.toNat + bytes.toNat ≤ kp.toNat ∨ kp.toNat + 4096 * pages ≤ buf.toNat

/-- The image is still in its buffer. -/
def Intact (m₀ : Bytes) (buf bytes : UInt64) (m : Bytes) : Prop :=
  ∀ i < bytes.toNat, m (buf.toNat + i) = m₀ (buf.toNat + i)

theorem Intact.loadSegment {m : Bytes} (h : Intact m₀ buf bytes m) (i : UInt16) (before : LoadSegment) :
    Elf64.loadSegment (some (m.from buf.toNat)) bytes i (some before) =
      Elf64.loadSegment (some (m₀.from buf.toNat)) bytes i (some before) := by
  have hc : Elf64.loadSegmentOf (m₀.from buf.toNat) bytes i = Elf64.loadSegmentOf (m.from buf.toNat) bytes i :=
    Elf64.loadSegmentOf_congr (fun j hj => (h j hj.1).symm) i
  rw [Elf64.loadSegment_some, Elf64.loadSegment_some, hc]

theorem placeOf_inside (hs : Elf64.Segments (m₀.from buf.toNat) bytes sum) (hfit : Fits sum)
    (hr : RegionApart buf bytes kp (pagesFor (sum.virtualMax - sum.virtualMin)).toNat) {p : ProgramHeader}
    (hp : p ∈ segments (m₀.from buf.toNat)) :
    placeOf sum kp p = kp.toNat + (p.vaddr.toNat - sum.virtualMin.toNat) ∧
      placeOf sum kp p + p.memsz.toNat ≤ kp.toNat + 4096 * (pagesFor (sum.virtualMax - sum.virtualMin)).toNat := by
  have hspan := toNat_span hfit.nonempty
  have hpages := toNat_pagesFor (n := sum.virtualMax - sum.virtualMin) (by rw [hspan]; exact hfit.span)
  have htop := hr.region
  have hmin := hs.min_le p hp
  have hmax : p.vaddr.toNat + p.memsz.toNat ≤ sum.virtualMax.toNat := hs.le_max p hp
  have htop' : kp.toNat + (sum.virtualMax.toNat - sum.virtualMin.toNat) < 2 ^ 64 := by omega
  have hplace := placeOf_eq hs htop' hp
  exact ⟨hplace, by omega⟩

theorem loadElfLoopIn_eq (hv : Elf64.validateImage (m₀.from buf.toNat) bytes = .ok sum) (hfit : Fits sum)
    (hr : RegionApart buf bytes kp (pagesFor (sum.virtualMax - sum.virtualMin)).toNat) {rest : List ProgramHeader}
    {i : UInt16} (hrest : (segments (m₀.from buf.toNat)).drop i.toNat = rest) (seg : LoadSegment) {m : Bytes}
    (hm : Intact m₀ buf bytes m) :
    loadElfLoopIn buf bytes sum (sum.virtualMax - sum.virtualMin) kp seg rest.length i m =
      loadElfLoop (some (m₀.from buf.toNat)) bytes sum (sum.virtualMax - sum.virtualMin) kp seg rest.length i m := by
  induction rest generalizing i seg m with
  | nil => rfl
  | cons p rest ih =>
    have hs := Elf64.validateImage_ok hv
    obtain ⟨hp, hmem, hnext⟩ := hs.next hrest
    have hok := Elf64.validateLoadSegment_ok (hs.ok p hmem)
    obtain ⟨-, hin⟩ := placeOf_inside hs hfit hr hmem
    have hlow : kp.toNat ≤ placeOf sum kp p := (placeOf_inside hs hfit hr hmem).1 ▸ Nat.le_add_right _ _
    have hseg : Elf64.loadSegment (some (m₀.from buf.toNat)) bytes i (some seg) = (.ok, some p.loadSegment) := by
      rw [Elf64.loadSegment_some, Elf64.loadSegmentOf_eq hv, hp]
    -- the file data are in the buffer, and their place is in the region
    have hfile := hok.inside
    have hle := hok.file_le
    have hend := hr.buffer
    have hbuf := hr.apart
    have hpos : 0 < p.memsz.toNat := Elf64.ProgramHeader.memsz_pos_iff.1 (Elf64.memsz_ne_zero hmem)
    have hcopy : memcopy m (kp + (p.vaddr - sum.virtualMin)).toNat (buf + p.offset).toNat p.filesz.toNat =
        m.write (placeOf sum kp p) ((m₀.from buf.toNat).slice p.offset.toNat p.filesz.toNat) := by
      by_cases hz : p.filesz.toNat = 0
      · rw [hz]
        funext a
        simp [memcopy, Bytes.write, Bytes.slice]
      · have hsrc : (buf + p.offset).toNat = buf.toNat + p.offset.toNat := Elf64.toNat_add_of_lt (by omega)
        rw [hsrc, memcopy_eq_write m (by change placeOf sum kp p + _ ≤ _ ∨ _ ≤ placeOf sum kp p; omega)]
        congr 1
        refine List.map_congr_left fun j hj => ?_
        have hj := List.mem_range.1 hj
        rw [Nat.add_assoc, hm (p.offset.toNat + j) (by omega), Bytes.from]
    have hm' : Intact m₀ buf bytes
        (m.write (placeOf sum kp p) ((m₀.from buf.toNat).slice p.offset.toNat p.filesz.toNat)) := by
      intro j hj
      rw [← hm j hj]
      have hlen := Bytes.length_slice (m₀.from buf.toNat) p.offset.toNat p.filesz.toNat
      by_cases hlt : buf.toNat + j < placeOf sum kp p
      · exact Bytes.write_of_lt m _ hlt
      · exact Bytes.write_of_le m _ (by omega)
    rw [List.length_cons, loadElfLoopIn, loadElfLoop, imageAt, if_neg hr.notNull, hm.loadSegment, hseg]
    simp only [Option.getD_some, ProgramHeader.loadSegment, copyImage, hcopy]
    rw [ih hnext _ hm']
    rfl

theorem intact_memzero {pages : Nat} (hr : RegionApart buf bytes kp pages) (m₀ : Bytes) :
    Intact m₀ buf bytes (memzero m₀ kp.toNat (4096 * pages)) := by
  intro j hj
  have hapart := hr.apart
  exact memzero_outside m₀ (by omega)

end Buffer

/-! ### The region afterwards -/

/-- `AllocatePages` gives the pages, below 4 GiB and away from the buffer of the image. -/
structure GivesRegion (fw : Firmware F) (f : F) (buf bytes pages kp : UInt64) : Prop where
  ok : efiError (fw.allocatePages pages f).1 = false
  address : (fw.allocatePages pages f).2.1 = kp
  apart : RegionApart buf bytes kp pages.toNat

theorem RegionApart.toNat_size {buf bytes kp pages : UInt64} (h : RegionApart buf bytes kp pages.toNat) :
    (pages * pageSize).toNat = 4096 * pages.toNat := by
  have := h.region
  rw [UInt64.toNat_mul, show pageSize.toNat = 4096 from rfl, Nat.mod_eq_of_lt (by omega), Nat.mul_comm]

theorem pagesFor_ne_zero {sum : Summary} (hfit : Fits sum) : pagesFor (sum.virtualMax - sum.virtualMin) ≠ 0 := by
  intro h0
  have hspan := toNat_span hfit.nonempty
  have hpages := toNat_pagesFor (n := sum.virtualMax - sum.virtualMin) (by rw [hspan]; exact hfit.span)
  have := hfit.nonempty
  rw [h0, show (0 : UInt64).toNat = 0 from rfl] at hpages
  omega

/-- `load_elf` from memory is `load_elf` on the image. -/
theorem loadElfIn_eq {fw : Firmware F} {u : Loader F} {buf bytes kp : UInt64} {sum : Summary}
    (hv : Elf64.validateImage (u.mem.from buf.toNat) bytes = .ok sum)
    (hr : RegionApart buf bytes kp (pagesFor (sum.virtualMax - sum.virtualMin)).toNat)
    (hkp : (fw.allocatePages (pagesFor (sum.virtualMax - sum.virtualMin)) u.firmware).2.1 = kp) (before : Summary)
    (seg₀ : LoadSegment) :
    loadElfIn fw buf bytes before seg₀ u = loadElf fw (some (u.mem.from buf.toNat)) bytes before seg₀ u := by
  rw [loadElfIn, loadElf, imageAt, if_neg hr.notNull, Elf64.validate_some, hv]
  simp only [Option.getD_some]
  by_cases hfit : Fits sum
  · have hs := Elf64.validateImage_ok hv
    have hall : (segments (u.mem.from buf.toNat)).drop (0 : UInt16).toNat = segments (u.mem.from buf.toNat) := rfl
    have hm := intact_memzero hr u.mem
    rw [← hr.toNat_size] at hm
    simp only [allocLow, if_neg (pagesFor_ne_zero hfit), hkp, hs.count, loadElfLoopIn_eq hv hfit hr hall seg₀ hm]
  · rw [← limits_iff, not_and_or, not_not, not_not] at hfit
    rcases hfit with h | h
    · simp only [h, if_true]
    · simp only [h, if_true]

/-- What the region at `kp` holds, and what the rest of the memory does. -/
structure RegionHolds (image : Bytes) (sum : Summary) (kp : UInt64) (pages : Nat) (m m' : Bytes) : Prop where
  data : ∀ p ∈ loadHeaders image, ∀ j < p.filesz.toNat,
    m' (kp.toNat + (p.vaddr.toNat - sum.virtualMin.toNat + j)) = image (p.offset.toNat + j)
  zero : ∀ i < 4096 * pages,
    (∀ p ∈ loadHeaders image, ∀ j < p.filesz.toNat, i ≠ p.vaddr.toNat - sum.virtualMin.toNat + j) →
    m' (kp.toNat + i) = 0
  writes : ∀ p ∈ loadHeaders image,
    kp.toNat ≤ placeOf sum kp p ∧ placeOf sum kp p + p.filesz.toNat ≤ kp.toNat + 4096 * pages
  frame : ∀ a, a < kp.toNat ∨ kp.toNat + 4096 * pages ≤ a → m' a = m a

theorem regionHolds {m₀ : Bytes} {buf bytes kp : UInt64} {sum : Summary}
    (hs : Elf64.Segments (m₀.from buf.toNat) bytes sum) (hfit : Fits sum)
    (hr : RegionApart buf bytes kp (pagesFor (sum.virtualMax - sum.virtualMin)).toNat) :
    RegionHolds (m₀.from buf.toNat) sum kp (pagesFor (sum.virtualMax - sum.virtualMin)).toNat m₀
      ((segments (m₀.from buf.toNat)).foldl (copySegment (m₀.from buf.toNat) sum kp)
        (memzero m₀ kp.toNat (4096 * (pagesFor (sum.virtualMax - sum.virtualMin)).toNat))) := by
  have hheaders := Elf64.segments_eq_loadHeaders hs.header
  have hinside := fun p (hp : p ∈ loadHeaders (m₀.from buf.toNat)) => placeOf_inside hs hfit hr (hheaders ▸ hp)
  have hfile := fun p (hp : p ∈ loadHeaders (m₀.from buf.toNat)) =>
    (Elf64.validateLoadSegment_ok (hs.ok p (hheaders ▸ hp))).file_le
  have hspan := toNat_span hfit.nonempty
  have hpages := toNat_pagesFor (n := sum.virtualMax - sum.virtualMin) (by rw [hspan]; exact hfit.span)
  have hregion := hr.region
  have htop : kp.toNat + (sum.virtualMax.toNat - sum.virtualMin.toNat) < 2 ^ 64 := by omega
  refine ⟨fun p hp j hj => ?_, fun i hi hmiss => ?_, fun p hp => ?_, fun a ha => ?_⟩
  · rw [← Nat.add_assoc, ← (hinside p hp).1]
    exact copySegments_data hs htop (hheaders ▸ hp) hj _
  · rw [copySegments_miss _ fun p hp => ?_]
    · exact memzero_inside _ (by omega) (by omega)
    · rw [hheaders] at hp
      rw [Misses, (hinside p hp).1]
      by_contra hin
      obtain ⟨j, hj⟩ := Nat.exists_eq_add_of_le (show p.vaddr.toNat - sum.virtualMin.toNat ≤ i by omega)
      exact hmiss p hp j (by omega) hj
  · have h₁ := (hinside p hp).1
    have h₂ := (hinside p hp).2
    have h₃ := hfile p hp
    exact ⟨by omega, by omega⟩
  · rw [copySegments_miss _ fun p hp => ?_]
    · exact memzero_outside _ (by omega)
    · rw [hheaders] at hp
      have h₁ := (hinside p hp).1
      have h₂ := (hinside p hp).2
      have h₃ := hfile p hp
      rw [Misses]
      omega

theorem loadElfIn_places {fw : Firmware F} {u : Loader F} {buf bytes kp : UInt64} {sum : Summary}
    (hv : Elf64.validateImage (u.mem.from buf.toNat) bytes = .ok sum) (hfit : Fits sum)
    (hg : GivesRegion fw u.firmware buf bytes (pagesFor (sum.virtualMax - sum.virtualMin)) kp) (before : Summary)
    (seg₀ : LoadSegment) :
    ∃ u', loadElfIn fw buf bytes before seg₀ u = ((efiSuccess, sum, kp), u') ∧
      RegionHolds (u.mem.from buf.toNat) sum kp (pagesFor (sum.virtualMax - sum.virtualMin)).toNat u.mem u'.mem := by
  have hs := Elf64.validateImage_ok hv
  have hsize := hg.apart.toNat_size
  have hholds := regionHolds hs hfit hg.apart
  rw [← hsize] at hholds
  rw [loadElfIn_eq hv hg.apart hg.address, loadElf_eq hv hfit, allocLow, if_neg (pagesFor_ne_zero hfit)]
  simp only [hg.ok, hg.address, Bool.false_eq_true, if_false]
  exact ⟨_, rfl, hholds⟩

/-- With pages that do not overlap the buffer, `load_elf` accepts an image if and only if it is valid and its
addresses are within the limits: none of the range checks in its loop fails. Then the region holds the file data of
every segment at its distance from the lowest address, and zeros elsewhere, and nothing outside the region is
written. -/
theorem load_elf_places {fw : Firmware F} {u : Loader F} {buf bytes kp : UInt64} {before : Summary} {seg₀ : LoadSegment}
    (hbuf : buf ≠ 0)
    (hal : ∀ sum, Elf64.validate (imageAt u.mem buf) bytes (some before) = (.ok, some sum) →
      GivesRegion fw u.firmware buf bytes (pagesFor (sum.virtualMax - sum.virtualMin)) kp) :
    ((loadElfIn fw buf bytes before seg₀ u).1.1 = efiSuccess ↔
      ∃ sum, Elf64.validate (imageAt u.mem buf) bytes (some before) = (.ok, some sum) ∧ Fits sum) ∧
    ∀ sum, Elf64.validate (imageAt u.mem buf) bytes (some before) = (.ok, some sum) → Fits sum →
      ∃ u', loadElfIn fw buf bytes before seg₀ u = ((efiSuccess, sum, kp), u') ∧
        RegionHolds (u.mem.from buf.toNat) sum kp (pagesFor (sum.virtualMax - sum.virtualMin)).toNat u.mem u'.mem := by
  have himage : imageAt u.mem buf = some (u.mem.from buf.toNat) := by rw [imageAt, if_neg hbuf]
  rw [himage, Elf64.validate_some] at hal ⊢
  cases hv : Elf64.validateImage (u.mem.from buf.toNat) bytes with
  | error status =>
    have hne : status ≠ .ok := Elf64.validateImage_error hv
    rw [hv] at hal
    refine ⟨iff_of_false ?_ ?_, fun sum h => ?_⟩
    · simp only [loadElfIn, himage, Elf64.validate_some, hv, ne_eq, hne, not_false_iff, if_true]
      decide
    · rintro ⟨sum, h, -⟩
      exact hne (congrArg Prod.fst h)
    · exact absurd (congrArg Prod.fst h) hne
  | ok sum =>
    rw [hv] at hal
    have hg := hal sum rfl
    have hplaces := fun hfit => loadElfIn_places hv hfit hg before seg₀
    refine ⟨⟨fun h => ⟨sum, rfl, ?_⟩, ?_⟩, ?_⟩
    · by_contra hfit
      rw [loadElfIn_eq hv hg.apart hg.address] at h
      exact loadElf_unfit hv hfit before seg₀ u h
    · rintro ⟨sum', h, hfit⟩
      obtain rfl : sum = sum' := Option.some.inj (congrArg Prod.snd h)
      obtain ⟨u', hu', -⟩ := hplaces hfit
      rw [hu']
    · intro sum' h hfit
      obtain rfl : sum = sum' := Option.some.inj (congrArg Prod.snd h)
      exact hplaces hfit

/-- A kernel of two segments in two pages. -/
def pairKernel (vaddr : UInt64) : Bytes := bytesOf (Elf64.twoSegments vaddr.toNat [1, 2, 3, 4] [5, 6, 7] 8)

def pairSummary (vaddr : UInt64) : Summary where
  entry := vaddr
  virtualMin := vaddr
  virtualMax := vaddr + 0x1008
  loadSegmentCount := 2

/-- It is in a buffer at `0x1000`. -/
def bufferedLoader : Loader UInt64 :=
  { freshLoader with mem := fun a => pairKernel 0xffffffff80000800 (a - 0x1000) }

theorem load_elf_places_pair :
    ∃ u', loadElfIn (oneFileFirmware (pairKernel 0xffffffff80000800) 183) 0x1000 183 ⟨0, 0, 0, 0⟩ ⟨0, 0, 0, 0, 0, 0⟩
        bufferedLoader = ((efiSuccess, pairSummary 0xffffffff80000800, 0x400000), u') ∧
      RegionHolds (bufferedLoader.mem.from 0x1000) (pairSummary 0xffffffff80000800) 0x400000 2 bufferedLoader.mem
        u'.mem := by
  have hv : Elf64.validate (imageAt bufferedLoader.mem 0x1000) 183 (some ⟨0, 0, 0, 0⟩) =
      (.ok, some (pairSummary 0xffffffff80000800)) := by decide
  have hfit : Fits (pairSummary 0xffffffff80000800) := ⟨by decide, by decide, by decide⟩
  refine (load_elf_places (by decide) fun sum h => ?_).2 _ hv hfit
  obtain rfl := Option.some.inj (congrArg Prod.snd (hv.symm.trans h))
  exact ⟨efiError_efiSuccess, rfl, by decide, by decide, by decide, Or.inl (by decide)⟩

end JoshBios.Uefi
