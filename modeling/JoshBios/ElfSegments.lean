import JoshBios.ElfFormat

/-! # The two entry points of `boot/elf64.c` side by side

`josh_elf64_validate` checks the empty `PT_LOAD` headers too, `josh_elf64_load_segment` passes over them, and each
counts the others for itself. `loadHeaders` is what both count. What the entry points leave in the caller's structure is
`Reports`: it fails for a null image alone, of which `header_if_basic_valid` returns without setting a status. -/

namespace JoshBios.Elf64

/-- The non-empty `PT_LOAD` headers, in the order of the table. -/
def loadHeaders (image : Bytes) : List ProgramHeader :=
  ((List.range (headerAt image).phnum.toNat).map (phdr image)).filter isLoad

theorem segments_eq_loadHeaders {image : Bytes} {n : UInt64} (hh : HeaderOk image n) :
    segments image = loadHeaders image := by
  have hmap : (List.range (headerAt image).phnum.toNat).map (programHeader image (headerAt image)) =
      (List.range (headerAt image).phnum.toNat).map (phdr image) :=
    List.map_congr_left fun i hi => programHeader_eq hh (List.mem_range.1 hi)
  rw [segments, segmentsUpTo, hmap, loadHeaders]

theorem disjoint_addresses_of_apart {p q : ProgramHeader} (h : p.vend ≤ q.vaddr.toNat ∨ q.vend ≤ p.vaddr.toNat) :
    Disjoint p.addresses q.addresses := by
  rw [Set.disjoint_left]
  rintro v ⟨h₁, h₂⟩ ⟨h₃, h₄⟩
  omega

/-- Loading by index, of an image with the summary `sum`. -/
structure LoadsBy (image : Bytes) (n : UInt64) (sum : Summary) : Prop where
  count : (loadHeaders image).length = sum.loadSegmentCount.toNat
  below : ∀ (i : UInt16) (p : ProgramHeader), (loadHeaders image)[i.toNat]? = some p →
    ∀ before, loadSegment (some image) n i (some before) = (.ok, some p.loadSegment)
  above : ∀ i : UInt16, sum.loadSegmentCount ≤ i →
    ∀ before, loadSegment (some image) n i (some before) = (.errSegment, some before)
  file : ∀ p ∈ loadHeaders image, p.offset.toNat + p.filesz.toNat ≤ n.toNat ∧ p.filesz.toNat ≤ p.memsz.toNat
  inside : ∀ p ∈ loadHeaders image, p.addresses ⊆ Set.Ico sum.virtualMin.toNat sum.virtualMax.toNat
  disjoint : (loadHeaders image).Pairwise fun p q => Disjoint p.addresses q.addresses

/-- After a validation that returned OK with the count `k`, the load segments `0 … k - 1` are the non-empty `PT_LOAD`
headers in table order, and there are no others. -/
theorem load_segments_agree (image : Bytes) (n : UInt64) (before sum : Summary)
    (h : validate (some image) n (some before) = (.ok, some sum)) : LoadsBy image n sum := by
  rw [validate_some] at h
  cases hv : validateImage image n with
  | error status =>
    rw [hv] at h
    exact absurd (congrArg Prod.fst h) (validateImage_error hv)
  | ok sum' =>
    rw [hv] at h
    obtain rfl : sum' = sum := Option.some.inj (congrArg Prod.snd h)
    have hs := validateImage_ok hv
    have hseg := segments_eq_loadHeaders hs.header
    refine ⟨?_, ?_, ?_, ?_, ?_, ?_⟩
    · rw [← hseg, hs.count]
    · intro i p hp before
      rw [loadSegment_some, loadSegmentOf_eq hv, hseg, hp]
    · intro i hi before
      have hi' := UInt16.le_iff_toNat_le.1 hi
      rw [loadSegment_some, loadSegmentOf_eq hv, List.getElem?_eq_none (by rw [← hs.count]; exact hi')]
    · intro p hp
      have hok := validateLoadSegment_ok (hs.ok p (hseg ▸ hp))
      exact ⟨hok.inside, hok.file_le⟩
    · rintro p hp v ⟨h₁, h₂⟩
      have hmin := hs.min_le p (hseg ▸ hp)
      have hmax := hs.le_max p (hseg ▸ hp)
      exact ⟨by omega, by omega⟩
    · rw [← hseg]
      exact hs.disjoint.imp disjoint_addresses_of_apart

theorem load_segments_agree_two : LoadsBy (bytesOf (twoSegments 0x100000 [1, 2, 3, 4] [5, 6, 7] 8)) 183
    { entry := 0x100000, virtualMin := 0x100000, virtualMax := 0x101008, loadSegmentCount := 2 } :=
  load_segments_agree _ _ ⟨0, 0, 0, 0⟩ _ (by decide)

/-! ### What is in the out-structure -/

section Reports
variable {α : Type}

/-- What a caller may build on, of a call as a function of its out pointer: OK means that there is an image and that the
structure, whatever it held, now holds something read `From` the image; otherwise the structure is as it was. -/
structure Reports (image : Option Bytes) (From : Bytes → α → Prop) (call : Option α → Status × Option α)
    (out : Option α) : Prop where
  ok : (call out).1 = .ok → out ≠ none ∧ ∃ b a, image = some b ∧ From b a ∧
    ∀ before, call (some before) = (.ok, some a)
  error : (call out).1 ≠ .ok → (call out).2 = out

/-- A load segment is that of one of the load headers. -/
def IsLoadHeader (image : Bytes) (seg : LoadSegment) : Prop := ∃ p ∈ loadHeaders image, seg = p.loadSegment

/-- A call that returns what its body does, or an error of the body with the structure as it was. -/
theorem Reports.of_body {image : Bytes} {From : Bytes → α → Prop} {call : Option α → Status × Option α}
    (body : Except Status α) (hnull : call none = (.errArgument, none))
    (hok : ∀ a, body = .ok a → From image a ∧ ∀ before, call (some before) = (.ok, some a))
    (herr : ∀ status, body = .error status → status ≠ .ok ∧ ∀ before, call (some before) = (status, some before))
    (out : Option α) : Reports (some image) From call out := by
  cases out with
  | none =>
    refine ⟨fun h => ?_, fun _ => by rw [hnull]⟩
    rw [hnull] at h
    cases h
  | some before =>
    cases hb : body with
    | error status =>
      obtain ⟨hne, hc⟩ := herr status hb
      refine ⟨fun h => ?_, fun _ => by rw [hc]⟩
      rw [hc] at h
      exact absurd h hne
    | ok a =>
      obtain ⟨hfrom, hc⟩ := hok a hb
      refine ⟨fun _ => ⟨nofun, image, a, rfl, hfrom, hc⟩, fun h => ?_⟩
      rw [hc] at h
      exact absurd rfl h

theorem reports_null_iff {From : Bytes → α → Prop} {call : Option α → Status × Option α}
    (hnull : call none = (.errArgument, none)) (hcall : ∀ before, call (some before) = (.ok, some before)) (out : Option α) :
    Reports none From call out ↔ out = none := by
  constructor
  · intro h
    cases out with
    | none => rfl
    | some before =>
      obtain ⟨-, b, a, hb, -⟩ := h.ok (by rw [hcall])
      cases hb
  · rintro rfl
    refine ⟨fun h => ?_, fun _ => by rw [hnull]⟩
    rw [hnull] at h
    cases h

end Reports

theorem loadSegmentLoop_error {image : Bytes} {n : UInt64} {h : Header} {k : UInt16} {m i : Nat} {current : UInt16}
    {status : Status} (hl : loadSegmentLoop image n h k m i current = .error status) : status ≠ .ok := by
  induction m generalizing i current with
  | zero =>
    rw [← Except.error.inj hl]
    decide
  | succ m ih =>
    rw [loadSegmentLoop_succ] at hl
    split at hl
    · split at hl
      next hne =>
        rw [← Except.error.inj hl]
        exact hne
      split at hl
      · exact ih hl
      · cases hl
    · exact ih hl

theorem loadSegmentOf_error {image : Bytes} {n : UInt64} {k : UInt16} {status : Status}
    (h : loadSegmentOf image n k = .error status) : status ≠ .ok := by
  unfold loadSegmentOf at h
  split at h
  next hb =>
    rw [← Except.error.inj h]
    exact basicHeader_error hb
  · exact loadSegmentLoop_error h

theorem loadSegmentOf_isLoadHeader {image : Bytes} {n : UInt64} {k : UInt16} {seg : LoadSegment}
    (h : loadSegmentOf image n k = .ok seg) : IsLoadHeader image seg := by
  obtain ⟨p, hp, -, hk⟩ := loadSegmentOf_ok h
  unfold loadSegmentOf at h
  split at h
  · cases h
  next hd hb =>
    obtain ⟨-, hh⟩ := basicHeader_ok hb
    rw [segments_eq_loadHeaders hh] at hk
    exact ⟨p, List.mem_of_getElem? hk, hp⟩

/-- The two null images that are taken for valid. -/
theorem validate_null (n : UInt64) (out : Option Summary) :
    Reports none Summarizes (validate none n) out ↔ out = none :=
  reports_null_iff (show validate none n none = _ from rfl) (fun _ => rfl) out

theorem loadSegment_null (n : UInt64) (i : UInt16) (out : Option LoadSegment) :
    Reports none IsLoadHeader (loadSegment none n i) out ↔ out = none :=
  reports_null_iff (show loadSegment none n i none = _ from rfl) (fun _ => rfl) out

/-- For any image pointer, size, index and out pointer, that OK means a structure filled from the image, and any other
status one left alone, holds if and only if the image pointer is not null or the out pointer is. -/
theorem reports_iff_image (image : Option Bytes) (n : UInt64) :
    (∀ out, Reports image Summarizes (validate image n) out ↔ image ≠ none ∨ out = none) ∧
    ∀ i out, Reports image IsLoadHeader (loadSegment image n i) out ↔ image ≠ none ∨ out = none := by
  cases image with
  | none =>
    refine ⟨fun out => ?_, fun i out => ?_⟩
    · rw [validate_null]
      simp
    · rw [loadSegment_null]
      simp
  | some image =>
    refine ⟨fun out => iff_of_true ?_ (Or.inl nofun), fun i out => iff_of_true ?_ (Or.inl nofun)⟩
    · refine Reports.of_body (validateImage image n) (show validate (some image) n none = _ from rfl) ?_ ?_ out
      · exact fun sum hv => ⟨summarizes hv, fun before => by rw [validate_some, hv]⟩
      · exact fun status hv => ⟨validateImage_error hv, fun before => by rw [validate_some, hv]⟩
    · refine Reports.of_body (loadSegmentOf image n i) (show loadSegment (some image) n i none = _ from rfl) ?_ ?_ out
      · exact fun seg hl => ⟨loadSegmentOf_isLoadHeader hl, fun before => by rw [loadSegment_some, hl]⟩
      · exact fun status hl => ⟨loadSegmentOf_error hl, fun before => by rw [loadSegment_some, hl]⟩

/-- `josh_elf64_validate(NULL, 64, &summary)` returns OK and leaves the summary as it was. -/
theorem null_image_not_reported :
    validate none 64 (some ⟨1, 2, 3, 4⟩) = (.ok, some ⟨1, 2, 3, 4⟩) ∧
    ¬ Reports none Summarizes (validate none 64) (some ⟨1, 2, 3, 4⟩) ∧
    loadSegment none 64 9 (some ⟨1, 2, 3, 4, 5, 6⟩) = (.ok, some ⟨1, 2, 3, 4, 5, 6⟩) ∧
    ¬ Reports none IsLoadHeader (loadSegment none 64 9) (some ⟨1, 2, 3, 4, 5, 6⟩) := by
  refine ⟨rfl, fun h => ?_, rfl, fun h => ?_⟩
  · cases (validate_null _ _).1 h
  · cases (loadSegment_null _ _ _).1 h

end JoshBios.Elf64
