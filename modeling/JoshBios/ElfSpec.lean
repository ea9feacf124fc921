import JoshBios.Elf64

/-! # What a validated image holds

`segments image` is the list of the non-empty `PT_LOAD` headers of an image, in program-header order. A
validated image has a program-header table inside it, and `Segments` says of the list what the loaders build
on: every segment's file data is inside the image, no two segments overlap, and the summary's bounds are the
least and the greatest address of them. `loadSegmentOf_eq` is the other half: the `k`-th load segment is the
`k`-th entry of the list.

Both entry points look at the headers only (`validateImage_congr`, `loadSegmentOf_congr`). -/

namespace JoshBios.Elf64

def isLoad (p : ProgramHeader) : Bool := p.type = ptLoad && p.memsz ≠ 0

/-- The load segments among the first `n` program headers. -/
def segmentsUpTo (image : Bytes) (n : Nat) : List ProgramHeader :=
  ((List.range n).map (programHeader image (headerAt image))).filter isLoad

def segments (image : Bytes) : List ProgramHeader := segmentsUpTo image (headerAt image).phnum.toNat

def ProgramHeader.loadSegment (p : ProgramHeader) : LoadSegment where
  fileOffset := p.offset
  virtualAddress := p.vaddr
  fileSize := p.filesz
  memorySize := p.memsz
  alignment := p.align
  flags := p.flags

/-- The first address after the segment. -/
def ProgramHeader.vend (p : ProgramHeader) : Nat := p.vaddr.toNat + p.memsz.toNat

/-! ### The checks as statements about numbers -/

theorem addOverflows_eq_false {a b : UInt64} : addOverflows a b = false ↔ a.toNat + b.toNat < 2 ^ 64 := by
  have ha := a.toNat_lt
  have hb := b.toNat_lt
  have hn : (~~~a).toNat = 2 ^ 64 - 1 - a.toNat := UInt64.toNat_not a
  rw [addOverflows, decide_eq_false_iff_not, UInt64.lt_iff_toNat_lt, hn]
  omega

theorem toNat_add_of_lt {a b : UInt64} (h : a.toNat + b.toNat < 2 ^ 64) : (a + b).toNat = a.toNat + b.toNat := by
  rw [UInt64.toNat_add, Nat.mod_eq_of_lt h]

theorem rangeInside_iff {offset length total : UInt64} :
    rangeInside offset length total = true ↔ offset.toNat + length.toNat ≤ total.toNat := by
  have ht := total.toNat_lt
  rw [rangeInside, Bool.and_eq_true, Bool.not_eq_true', addOverflows_eq_false, decide_eq_true_iff,
    UInt64.le_iff_toNat_le]
  constructor
  · rintro ⟨h₁, h₂⟩
    rwa [toNat_add_of_lt h₁] at h₂
  · intro h
    have h₁ : offset.toNat + length.toNat < 2 ^ 64 := by omega
    exact ⟨h₁, by rwa [toNat_add_of_lt h₁]⟩

/-- What `validateLoadSegment` promises of a segment, the alignment aside. -/
structure SegmentOk (imageSize : UInt64) (p : ProgramHeader) : Prop where
  file_le : p.filesz.toNat ≤ p.memsz.toNat
  inside : p.offset.toNat + p.filesz.toNat ≤ imageSize.toNat
  noWrap : p.memsz ≠ 0 → p.vend < 2 ^ 64

theorem validateLoadSegment_ok {p : ProgramHeader} {imageSize : UInt64}
    (h : validateLoadSegment p imageSize = .ok) : SegmentOk imageSize p := by
  unfold validateLoadSegment at h
  split at h
  · cases h
  next h₁ =>
    split at h
    · cases h
    next h₂ =>
      split at h
      · cases h
      next h₃ =>
        refine ⟨UInt64.le_iff_toNat_le.1 (UInt64.not_lt.1 h₁), rangeInside_iff.1 (by simpa using h₂), ?_⟩
        intro hm
        have h₄ : addOverflows p.vaddr p.memsz = false := by simpa [hm] using h₃
        exact addOverflows_eq_false.1 h₄

/-- What the basic checks promise. -/
structure HeaderOk (image : Bytes) (imageSize : UInt64) : Prop where
  size : 64 ≤ imageSize.toNat
  magic : image 0 = 0x7f ∧ image 1 = 0x45 ∧ image 2 = 0x4c ∧ image 3 = 0x46
  phentsize : (headerAt image).phentsize = programHeaderSize
  phnum : (headerAt image).phnum.toNat ≤ 128
  table : (headerAt image).phoff.toNat + 56 * (headerAt image).phnum.toNat ≤ imageSize.toNat

theorem toNat_tableSize {phnum : UInt16} (h : phnum.toNat ≤ 128) :
    (phnum.toUInt64 * programHeaderSize.toUInt64).toNat = 56 * phnum.toNat := by
  rw [UInt64.toNat_mul, UInt16.toNat_toUInt64, UInt16.toNat_toUInt64, show programHeaderSize.toNat = 56 from rfl,
    Nat.mod_eq_of_lt (by omega), Nat.mul_comm]

theorem basicHeader_ok {image : Bytes} {imageSize : UInt64} {h : Header} (hb : basicHeader image imageSize = .ok h) :
    h = headerAt image ∧ HeaderOk image imageSize := by
  simp only [basicHeader, ite_error_eq_ok] at hb
  obtain ⟨h₁, h₂, -, -, -, -, -, -, h₃, h₄, hb⟩ := hb
  obtain rfl := Except.ok.inj hb
  simp only [Bool.or_eq_true, decide_eq_true_iff, not_or, not_not, UInt16.not_lt, gt_iff_lt] at h₂ h₃
  refine ⟨rfl, ?_, ⟨h₂.1.1.1, h₂.1.1.2, h₂.1.2, h₂.2⟩, h₃.1.1.2, UInt16.le_iff_toNat_le.1 h₃.2, ?_⟩
  · exact UInt64.le_iff_toNat_le.1 (UInt64.not_lt.1 h₁)
  · have hn : (headerAt image).phnum.toNat ≤ 128 := UInt16.le_iff_toNat_le.1 h₃.2
    have ht := rangeInside_iff.1 (by simpa using h₄)
    rw [h₃.1.1.2, toNat_tableSize hn] at ht
    exact ht

theorem programHeader_eq {image : Bytes} {imageSize : UInt64} (hh : HeaderOk image imageSize) {i : Nat}
    (hi : i < (headerAt image).phnum.toNat) :
    programHeader image (headerAt image) i = programHeaderAt image ((headerAt image).phoff.toNat + 56 * i) := by
  have hs := imageSize.toNat_lt
  have hn := hh.phnum
  have ht := hh.table
  have hm : (UInt64.ofNat i * (headerAt image).phentsize.toUInt64).toNat = 56 * i := by
    have hi64 : i < UInt64.size := by change i < 2 ^ 64; omega
    rw [hh.phentsize, UInt64.toNat_mul, UInt64.toNat_ofNat_of_lt' hi64, UInt16.toNat_toUInt64,
      show programHeaderSize.toNat = 56 from rfl, Nat.mod_eq_of_lt (by omega)]
    omega
  rw [programHeader, toNat_add_of_lt (by omega), hm]

/-! ### The validation loop -/

theorem segmentsUpTo_succ (image : Bytes) (i : Nat) :
    segmentsUpTo image (i + 1) = segmentsUpTo image i ++
      (if isLoad (programHeader image (headerAt image) i) then [programHeader image (headerAt image) i] else []) := by
  rw [segmentsUpTo, segmentsUpTo, List.range_succ, List.map_append, List.filter_append, List.map_singleton,
    List.filter_singleton, cond_eq_ite]

theorem length_segmentsUpTo_le (image : Bytes) (n : Nat) : (segmentsUpTo image n).length ≤ n := by
  exact Nat.le_trans (List.length_filter_le _ _) (by simp)

/-- The segments `P` seen so far, as the loop variables have them. -/
structure ScanInv (imageSize entry : UInt64) (P : List ProgramHeader) (s : Scan) : Prop where
  ok : ∀ p ∈ P, validateLoadSegment p imageSize = .ok
  disjoint : P.Pairwise fun p q => p.vend ≤ q.vaddr.toNat ∨ q.vend ≤ p.vaddr.toNat
  count : s.loadCount.toNat = P.length
  min_le : ∀ p ∈ P, s.virtualMin.toNat ≤ p.vaddr.toNat
  le_max : ∀ p ∈ P, p.vend ≤ s.virtualMax.toNat
  min_mem : P ≠ [] → ∃ p ∈ P, p.vaddr = s.virtualMin
  max_mem : P ≠ [] → ∃ p ∈ P, p.vend = s.virtualMax.toNat
  exec : s.entryIsExecutable = true →
    ∃ p ∈ P, p.flags &&& pfX ≠ 0 ∧ p.vaddr.toNat ≤ entry.toNat ∧ entry.toNat < p.vend
  start : P = [] → s.virtualMin.toNat = 2 ^ 64 - 1 ∧ s.virtualMax.toNat = 0

theorem ScanInv.push {imageSize entry : UInt64} {P : List ProgramHeader} {s : Scan} {p : ProgramHeader}
    (h : ScanInv imageSize entry P s) (hv : validateLoadSegment p imageSize = .ok) (hm : p.memsz ≠ 0) (hlen : P.length < 128)
    (hd : ∀ q ∈ P, q.vend ≤ p.vaddr.toNat ∨ p.vend ≤ q.vaddr.toNat) :
    ScanInv imageSize entry (P ++ [p])
      { virtualMin := if p.vaddr < s.virtualMin then p.vaddr else s.virtualMin
        virtualMax := if p.vaddr + p.memsz > s.virtualMax then p.vaddr + p.memsz else s.virtualMax
        loadCount := s.loadCount + 1
        entryIsExecutable := s.entryIsExecutable ||
          (p.flags &&& pfX ≠ 0 && entry ≥ p.vaddr && entry < p.vaddr + p.memsz) } := by
  have hw := (validateLoadSegment_ok hv).noWrap hm
  have hend : (p.vaddr + p.memsz).toNat = p.vend := toNat_add_of_lt hw
  have hpos : 0 < p.memsz.toNat := by
    rcases Nat.eq_zero_or_pos p.memsz.toNat with h0 | h0
    · exact absurd (UInt64.toNat_inj.1 h0) hm
    · exact h0
  have hvend : p.vend = p.vaddr.toNat + p.memsz.toNat := rfl
  -- the two bounds, as numbers
  have hmin : (if p.vaddr < s.virtualMin then p.vaddr else s.virtualMin).toNat =
      min p.vaddr.toNat s.virtualMin.toNat := by
    split
    · next hlt => have := UInt64.lt_iff_toNat_lt.1 hlt; omega
    · next hlt => have := UInt64.le_iff_toNat_le.1 (UInt64.not_lt.1 hlt); omega
  have hmax : (if p.vaddr + p.memsz > s.virtualMax then p.vaddr + p.memsz else s.virtualMax).toNat =
      max p.vend s.virtualMax.toNat := by
    split
    · next hlt => have := UInt64.lt_iff_toNat_lt.1 hlt; omega
    · next hlt => have := UInt64.le_iff_toNat_le.1 (UInt64.not_lt.1 hlt); omega
  refine ⟨?_, ?_, ?_, ?_, ?_, ?_, ?_, ?_, ?_⟩
  · intro q hq
    rcases List.mem_append.1 hq with hq | hq
    · exact h.ok q hq
    · rw [List.mem_singleton.1 hq]; exact hv
  · refine List.pairwise_append.2 ⟨h.disjoint, List.pairwise_singleton _ _, ?_⟩
    intro q hq p' hp'
    rw [List.mem_singleton.1 hp']
    exact hd q hq
  · have hc := h.count
    rw [UInt16.toNat_add, hc, List.length_append, List.length_singleton]
    exact Nat.mod_eq_of_lt (by simp; omega)
  · intro q hq
    rw [hmin]
    rcases List.mem_append.1 hq with hq | hq
    · have := h.min_le q hq; omega
    · rw [List.mem_singleton.1 hq]; omega
  · intro q hq
    rw [hmax]
    rcases List.mem_append.1 hq with hq | hq
    · have := h.le_max q hq; omega
    · rw [List.mem_singleton.1 hq]; omega
  · intro _
    by_cases hlt : p.vaddr < s.virtualMin
    · exact ⟨p, by simp, by rw [if_pos hlt]⟩
    · rw [if_neg hlt]
      have hne : P ≠ [] := by
        intro h0
        have := (h.start h0).1
        have := UInt64.le_iff_toNat_le.1 (UInt64.not_lt.1 hlt)
        omega
      obtain ⟨q, hq, hqe⟩ := h.min_mem hne
      exact ⟨q, by simp [hq], hqe⟩
  · intro _
    by_cases hlt : p.vaddr + p.memsz > s.virtualMax
    · exact ⟨p, by simp, by rw [if_pos hlt, hend]⟩
    · rw [if_neg hlt]
      have hne : P ≠ [] := by
        intro h0
        have := (h.start h0).2
        have := UInt64.le_iff_toNat_le.1 (UInt64.not_lt.1 hlt)
        omega
      obtain ⟨q, hq, hqe⟩ := h.max_mem hne
      exact ⟨q, by simp [hq], hqe⟩
  · intro he
    rcases Bool.or_eq_true _ _ ▸ he with he | he
    · obtain ⟨q, hq, hqe⟩ := h.exec he
      exact ⟨q, by simp [hq], hqe⟩
    · simp only [Bool.and_eq_true, decide_eq_true_iff] at he
      refine ⟨p, by simp, he.1.1, UInt64.le_iff_toNat_le.1 he.1.2, ?_⟩
      have := UInt64.lt_iff_toNat_lt.1 he.2
      omega
  · intro h0
    simp at h0

theorem overlapsEarlier_eq_false {image : Bytes} {p q : ProgramHeader} {i : Nat} {imageSize : UInt64}
    (ho : overlapsEarlier image (headerAt image) p i = false) (hp : SegmentOk imageSize p) (hm : p.memsz ≠ 0)
    (hq : q ∈ segmentsUpTo image i) (hqs : SegmentOk imageSize q) :
    q.vend ≤ p.vaddr.toNat ∨ p.vend ≤ q.vaddr.toNat := by
  obtain ⟨hmem, hload⟩ := List.mem_filter.1 hq
  obtain ⟨j, hj, rfl⟩ := List.mem_map.1 hmem
  simp only [isLoad, Bool.and_eq_true, decide_eq_true_iff] at hload
  have h₁ := List.any_eq_false.1 ho j hj
  simp only [hload.1, hload.2, ne_eq, not_true, decide_false, Bool.or_self, Bool.not_false,
    Bool.true_and, Bool.and_eq_true, decide_eq_true_iff, not_and, UInt64.lt_iff_toNat_lt,
    toNat_add_of_lt (hp.noWrap hm), toNat_add_of_lt (hqs.noWrap hload.2)] at h₁
  unfold ProgramHeader.vend
  omega

theorem validateLoop_inv {image : Bytes} {imageSize : UInt64} {n i : Nat} {s s' : Scan} (hn : i + n ≤ 128)
    (h : validateLoop image imageSize (headerAt image) n i s = .ok s')
    (hs : ScanInv imageSize (headerAt image).entry (segmentsUpTo image i) s) :
    ScanInv imageSize (headerAt image).entry (segmentsUpTo image (i + n)) s' := by
  induction n generalizing i s with
  | zero => cases h; exact hs
  | succ n ih =>
    rw [show i + (n + 1) = i + 1 + n by omega]
    simp only [validateLoop] at h
    have hsucc := segmentsUpTo_succ image i
    split at h
    · next ht =>
      have hl : isLoad (programHeader image (headerAt image) i) = false := by simp [isLoad, ht]
      rw [hl] at hsucc
      exact ih (by omega) h (by rw [hsucc]; simpa using hs)
    next ht =>
    split at h
    · cases h
    next hv =>
    rw [not_not] at hv
    have hok := validateLoadSegment_ok hv
    split at h
    · next hm =>
      have hl : isLoad (programHeader image (headerAt image) i) = false := by simp [isLoad, hm]
      rw [hl] at hsucc
      exact ih (by omega) h (by rw [hsucc]; simpa using hs)
    next hm =>
    split at h
    · cases h
    next ho =>
    have hl : isLoad (programHeader image (headerAt image) i) = true := by simp [isLoad, hm, not_not.1 ht]
    rw [hl, if_pos rfl] at hsucc
    refine ih (by omega) h ?_
    rw [hsucc]
    have hlen := length_segmentsUpTo_le image i
    exact hs.push hv hm (by omega) fun q hq =>
      overlapsEarlier_eq_false (by simpa using ho) hok hm hq (validateLoadSegment_ok (hs.ok q hq))

theorem scanInv_start (image : Bytes) (imageSize entry : UInt64) :
    ScanInv imageSize entry (segmentsUpTo image 0)
      { virtualMin := ~~~0, virtualMax := 0, loadCount := 0, entryIsExecutable := false } := by
  refine ⟨by simp [segmentsUpTo], by simp [segmentsUpTo], rfl, by simp [segmentsUpTo], by simp [segmentsUpTo],
    fun h0 => absurd rfl h0, fun h0 => absurd rfl h0, nofun, fun _ => ⟨rfl, rfl⟩⟩

/-- What validation says about the segments of the image and the summary it returns. -/
structure Segments (image : Bytes) (imageSize : UInt64) (sum : Summary) : Prop where
  header : HeaderOk image imageSize
  ok : ∀ p ∈ segments image, validateLoadSegment p imageSize = .ok
  disjoint : (segments image).Pairwise fun p q => p.vend ≤ q.vaddr.toNat ∨ q.vend ≤ p.vaddr.toNat
  count : sum.loadSegmentCount.toNat = (segments image).length
  min_le : ∀ p ∈ segments image, sum.virtualMin.toNat ≤ p.vaddr.toNat
  le_max : ∀ p ∈ segments image, p.vend ≤ sum.virtualMax.toNat
  min_mem : ∃ p ∈ segments image, p.vaddr = sum.virtualMin
  max_mem : ∃ p ∈ segments image, p.vend = sum.virtualMax.toNat
  exec : ∃ p ∈ segments image, p.flags &&& pfX ≠ 0 ∧ p.vaddr.toNat ≤ sum.entry.toNat ∧ sum.entry.toNat < p.vend

theorem ProgramHeader.memsz_pos_iff {p : ProgramHeader} : p.memsz ≠ 0 ↔ 0 < p.memsz.toNat := by
  rw [Nat.pos_iff_ne_zero]
  exact not_congr UInt64.toNat_inj.symm

theorem memsz_ne_zero {image : Bytes} {p : ProgramHeader} (h : p ∈ segments image) : p.memsz ≠ 0 := by
  have h₁ := (List.mem_filter.1 h).2
  simp only [isLoad, Bool.and_eq_true, decide_eq_true_iff] at h₁
  exact h₁.2

theorem validateImage_ok {image : Bytes} {imageSize : UInt64} {sum : Summary}
    (h : validateImage image imageSize = .ok sum) : Segments image imageSize sum := by
  unfold validateImage at h
  split at h
  · cases h
  next hd hb =>
    obtain ⟨rfl, hh⟩ := basicHeader_ok hb
    unfold validateHeaders at h
    split at h
    · cases h
    next s hs =>
      have hn := hh.phnum
      have hinv := validateLoop_inv (by omega) hs (scanInv_start image imageSize (headerAt image).entry)
      rw [Nat.zero_add] at hinv
      split at h
      · cases h
      next hc =>
      split at h
      · cases h
      next he =>
      obtain rfl := Except.ok.inj h
      have hne : segments image ≠ [] := by
        intro h0
        have := hinv.count
        rw [show segmentsUpTo image (headerAt image).phnum.toNat = [] from h0] at this
        exact hc (UInt16.toNat_inj.1 this)
      exact ⟨hh, hinv.ok, hinv.disjoint, hinv.count, hinv.min_le, hinv.le_max, hinv.min_mem hne, hinv.max_mem hne,
        hinv.exec (by simpa using he)⟩

theorem basicHeader_error {image : Bytes} {imageSize : UInt64} {status : Status}
    (h : basicHeader image imageSize = .error status) : status ≠ .ok := by
  simp only [basicHeader, ite_error_eq_error] at h
  iterate 10
    rcases h with ⟨-, rfl⟩ | ⟨-, h⟩
    · decide
  cases h

theorem validateLoop_error {image : Bytes} {imageSize : UInt64} {h : Header} {n i : Nat} {s : Scan} {status : Status}
    (hl : validateLoop image imageSize h n i s = .error status) : status ≠ .ok := by
  induction n generalizing i s with
  | zero => cases hl
  | succ n ih =>
    simp only [validateLoop] at hl
    split at hl
    · exact ih hl
    split at hl
    next hne =>
      rw [← Except.error.inj hl]
      exact hne
    split at hl
    · exact ih hl
    split at hl
    · rw [← Except.error.inj hl]
      decide
    · exact ih hl

theorem validateImage_error {image : Bytes} {imageSize : UInt64} {status : Status}
    (h : validateImage image imageSize = .error status) : status ≠ .ok := by
  unfold validateImage at h
  split at h
  next hb =>
    rw [← Except.error.inj h]
    exact basicHeader_error hb
  unfold validateHeaders at h
  split at h
  next hl =>
    rw [← Except.error.inj h]
    exact validateLoop_error hl
  split at h
  · rw [← Except.error.inj h]
    decide
  split at h
  · rw [← Except.error.inj h]
    decide
  · cases h

/-! ### The load segments by index -/

theorem segmentsUpTo_isPrefix (image : Bytes) (i n : Nat) : segmentsUpTo image i <+: segmentsUpTo image (i + n) := by
  induction n with
  | zero => exact List.prefix_rfl
  | succ n ih =>
    rw [← Nat.add_assoc, segmentsUpTo_succ]
    exact ih.trans (List.prefix_append _ _)

theorem toNat_succ {i : UInt16} (h : i.toNat + 1 < 2 ^ 16) : (i + 1).toNat = i.toNat + 1 := by
  rw [UInt16.toNat_add, show (1 : UInt16).toNat = 1 from rfl, Nat.mod_eq_of_lt h]

theorem loadSegmentLoop_succ (image : Bytes) (imageSize : UInt64) (h : Header) (k : UInt16) (n i : Nat) (current : UInt16) :
    loadSegmentLoop image imageSize h k (n + 1) i current =
      if isLoad (programHeader image h i) = true then
        if validateLoadSegment (programHeader image h i) imageSize ≠ .ok then
          .error (validateLoadSegment (programHeader image h i) imageSize)
        else if current ≠ k then loadSegmentLoop image imageSize h k n (i + 1) (current + 1)
        else .ok (programHeader image h i).loadSegment
      else loadSegmentLoop image imageSize h k n (i + 1) current := by
  rw [loadSegmentLoop]
  by_cases ht : (programHeader image h i).type = ptLoad
  · by_cases hm : (programHeader image h i).memsz = 0
    · simp [isLoad, hm]
    · simp [isLoad, ht, hm, ProgramHeader.loadSegment]
  · simp [isLoad, ht]

/-- The loop has counted the segments before `i` and looks for the `k`-th of all. -/
theorem loadSegmentLoop_eq {image : Bytes} {imageSize : UInt64} (n i : Nat) (k current : UInt16) (hn : i + n ≤ 128)
    (hok : ∀ p ∈ segmentsUpTo image (i + n), validateLoadSegment p imageSize = .ok)
    (hc : current.toNat = (segmentsUpTo image i).length) (hk : current.toNat ≤ k.toNat) :
    loadSegmentLoop image imageSize (headerAt image) k n i current =
      match (segmentsUpTo image (i + n))[k.toNat]? with
      | some p => .ok p.loadSegment
      | none => .error .errSegment := by
  induction n generalizing i current with
  | zero =>
    rw [Nat.add_zero, List.getElem?_eq_none (by omega)]
    rfl
  | succ n ih =>
    rw [show i + (n + 1) = i + 1 + n by omega] at hok ⊢
    have hsucc := segmentsUpTo_succ image i
    rw [loadSegmentLoop_succ]
    by_cases hl : isLoad (programHeader image (headerAt image) i) = true
    · rw [if_pos hl] at hsucc ⊢
      have hpre := segmentsUpTo_isPrefix image (i + 1) n
      have hmem : programHeader image (headerAt image) i ∈ segmentsUpTo image (i + 1 + n) :=
        hpre.subset (by simp [hsucc])
      have hlen := length_segmentsUpTo_le image i
      rw [if_neg (not_not.2 (hok _ hmem))]
      by_cases hkc : current = k
      · subst hkc
        obtain ⟨rest, hrest⟩ := hpre
        rw [if_neg (by simp), ← hrest, hsucc, hc, List.append_assoc, List.getElem?_append_right (Nat.le_refl _)]
        simp
      · have hne : current.toNat ≠ k.toNat := fun h0 => hkc (UInt16.toNat_inj.1 h0)
        have hadd := toNat_succ (i := current) (by omega)
        rw [if_pos hkc]
        refine ih _ _ (by omega) hok ?_ (by omega)
        rw [hadd, hc, hsucc, List.length_append, List.length_singleton]
    · rw [if_neg hl, List.append_nil] at hsucc
      rw [if_neg hl]
      exact ih _ _ (by omega) hok (by rw [hc, hsucc]) hk

theorem loadSegmentOf_eq {image : Bytes} {imageSize : UInt64} {sum : Summary}
    (h : validateImage image imageSize = .ok sum) (k : UInt16) :
    loadSegmentOf image imageSize k =
      match (segments image)[k.toNat]? with
      | some p => .ok p.loadSegment
      | none => .error .errSegment := by
  have hs := validateImage_ok h
  unfold validateImage at h
  unfold loadSegmentOf
  split at h
  · cases h
  next hd hb =>
    obtain ⟨rfl, hh⟩ := basicHeader_ok hb
    have hn := hh.phnum
    have hl := loadSegmentLoop_eq (headerAt image).phnum.toNat 0 k 0 (by omega) (by rw [Nat.zero_add]; exact hs.ok)
      rfl (Nat.zero_le _)
    rw [Nat.zero_add] at hl
    exact hl

theorem Segments.nonempty {image : Bytes} {imageSize : UInt64} {sum : Summary} (hs : Segments image imageSize sum) :
    sum.virtualMin.toNat < sum.virtualMax.toNat := by
  obtain ⟨p, hp, hmin⟩ := hs.min_mem
  have h₁ := hs.le_max p hp
  have h₂ := ProgramHeader.memsz_pos_iff.1 (memsz_ne_zero hp)
  have h₃ : p.vend = p.vaddr.toNat + p.memsz.toNat := rfl
  rw [← hmin]
  omega

theorem Segments.apart {image : Bytes} {imageSize : UInt64} {sum : Summary} (hs : Segments image imageSize sum)
    {p q : ProgramHeader} (hp : p ∈ segments image) (hq : q ∈ segments image) (hne : p ≠ q) :
    p.vend ≤ q.vaddr.toNat ∨ q.vend ≤ p.vaddr.toNat := by
  have : Std.Symm fun p q : ProgramHeader => p.vend ≤ q.vaddr.toNat ∨ q.vend ≤ p.vaddr.toNat :=
    ⟨fun _ _ h => h.symm⟩
  exact hs.disjoint.forall hp hq hne

theorem Segments.next {image : Bytes} {imageSize : UInt64} {sum : Summary} (hs : Segments image imageSize sum) {i : UInt16}
    {p : ProgramHeader} {rest : List ProgramHeader} (h : (segments image).drop i.toNat = p :: rest) :
    (segments image)[i.toNat]? = some p ∧ p ∈ segments image ∧ (segments image).drop (i + 1).toNat = rest := by
  have hlen : (segments image).length ≤ 128 := Nat.le_trans (length_segmentsUpTo_le image _) hs.header.phnum
  have hi : i.toNat < (segments image).length := by
    by_contra hn
    rw [List.drop_eq_nil_of_le (by omega)] at h
    cases h
  have hnext := toNat_succ (i := i) (by omega)
  rw [List.drop_eq_getElem_cons hi] at h
  obtain ⟨rfl, rfl⟩ := List.cons.inj h
  exact ⟨List.getElem?_eq_getElem hi, List.getElem_mem hi, by rw [hnext]⟩

/-- A segment that the loop finds is the `k`-th, and passed its check, whatever the rest of the image is like. -/
theorem loadSegmentLoop_ok {image : Bytes} {imageSize : UInt64} {k current : UInt16} {n i : Nat} {segment : LoadSegment}
    (hn : i + n ≤ 128) (hc : current.toNat = (segmentsUpTo image i).length) (hk : current.toNat ≤ k.toNat)
    (hl : loadSegmentLoop image imageSize (headerAt image) k n i current = .ok segment) :
    ∃ p : ProgramHeader, segment = p.loadSegment ∧ SegmentOk imageSize p ∧
      (segmentsUpTo image (i + n))[k.toNat]? = some p := by
  induction n generalizing i current with
  | zero => cases hl
  | succ n ih =>
    have hsucc := segmentsUpTo_succ image i
    have hlen := length_segmentsUpTo_le image i
    rw [show i + (n + 1) = i + 1 + n by omega] at hn ⊢
    rw [loadSegmentLoop_succ] at hl
    split at hl
    next hload =>
      rw [if_pos hload] at hsucc
      split at hl
      · cases hl
      next hv =>
        split at hl
        next hne =>
          have hlt : current.toNat ≠ k.toNat := fun h0 => hne (UInt16.toNat_inj.1 h0)
          have hadd := toNat_succ (i := current) (by omega)
          refine ih hn ?_ (by omega) hl
          rw [hadd, hc, hsucc, List.length_append, List.length_singleton]
        next heq =>
          refine ⟨programHeader image (headerAt image) i, (Except.ok.inj hl).symm,
            validateLoadSegment_ok (not_not.1 hv), ?_⟩
          obtain ⟨rest, hrest⟩ := segmentsUpTo_isPrefix image (i + 1) n
          rw [← not_not.1 heq, ← hrest, hsucc, hc, List.append_assoc, List.getElem?_append_right (Nat.le_refl _),
            Nat.sub_self]
          rfl
    next hload =>
      rw [if_neg hload, List.append_nil] at hsucc
      exact ih hn (by rw [hc, hsucc]) hk hl

theorem loadSegmentOf_ok {image : Bytes} {imageSize : UInt64} {k : UInt16} {segment : LoadSegment}
    (hl : loadSegmentOf image imageSize k = .ok segment) :
    ∃ p : ProgramHeader, segment = p.loadSegment ∧ SegmentOk imageSize p ∧ (segments image)[k.toNat]? = some p := by
  unfold loadSegmentOf at hl
  split at hl
  · cases hl
  next hd hb =>
    obtain ⟨rfl, hh⟩ := basicHeader_ok hb
    have hn := hh.phnum
    have hfound := loadSegmentLoop_ok (by omega) rfl (Nat.zero_le _) hl
    rw [Nat.zero_add] at hfound
    exact hfound

/-! ### Only the headers count -/

/-- The bytes of the image that belong to its ELF header or its program headers. -/
def HeaderByte (image : Bytes) (imageSize : UInt64) (i : Nat) : Prop :=
  i < imageSize.toNat ∧ (i < 64 ∨ (headerAt image).phoff.toNat ≤ i ∧
    i < (headerAt image).phoff.toNat + 56 * (headerAt image).phnum.toNat)

section Congr
variable {b b' : Bytes} {imageSize : UInt64}

theorem headerAt_congr (h : ∀ i < 64, b i = b' i) : headerAt b = headerAt b' := by
  have hc : ∀ off n, off + n ≤ 64 → leNat b off n = leNat b' off n := fun off n hn =>
    leNat_congr fun i _ hi => h i (by omega)
  simp (disch := omega) only [headerAt, le16, le32, le64, hc]

theorem programHeaderAt_congr {off : Nat} (h : ∀ i, off ≤ i → i < off + 56 → b i = b' i) :
    programHeaderAt b off = programHeaderAt b' off := by
  have hc : ∀ o n, off ≤ o → o + n ≤ off + 56 → leNat b o n = leNat b' o n := fun o n h₁ h₂ =>
    leNat_congr fun i _ hi => h i (by omega) (by omega)
  simp (disch := omega) only [programHeaderAt, le32, le64, hc]

variable (h : ∀ i, HeaderByte b imageSize i → b i = b' i)
include h

theorem headerAt_congr' (hs : 64 ≤ imageSize.toNat) : headerAt b = headerAt b' :=
  headerAt_congr fun i hi => h i ⟨by omega, Or.inl hi⟩

theorem basicHeader_congr : basicHeader b imageSize = basicHeader b' imageSize := by
  by_cases hs : imageSize < headerSize.toUInt64
  · simp only [basicHeader, if_pos hs]
  · have hs' : 64 ≤ imageSize.toNat := UInt64.le_iff_toNat_le.1 (UInt64.not_lt.1 hs)
    have hlow : ∀ i < 64, b i = b' i := fun i hi => h i ⟨by omega, Or.inl hi⟩
    simp only [basicHeader, headerAt_congr' h hs', hlow 0 (by omega), hlow 1 (by omega), hlow 2 (by omega),
      hlow 3 (by omega), hlow 4 (by omega), hlow 5 (by omega), hlow 6 (by omega)]

theorem programHeader_congr (hh : HeaderOk b imageSize) {i : Nat} (hi : i < (headerAt b).phnum.toNat) :
    programHeader b (headerAt b) i = programHeader b' (headerAt b) i := by
  have hs := hh.size
  have ht := hh.table
  have heq : headerAt b' = headerAt b := (headerAt_congr' h hs).symm
  have hlow : ∀ i < 64, b i = b' i := fun i hi => h i ⟨by omega, Or.inl hi⟩
  have hh' : HeaderOk b' imageSize := by
    refine ⟨hs, ?_, ?_, ?_, ?_⟩
    · rw [← hlow 0 (by omega), ← hlow 1 (by omega), ← hlow 2 (by omega), ← hlow 3 (by omega)]
      exact hh.magic
    · rw [heq]; exact hh.phentsize
    · rw [heq]; exact hh.phnum
    · rw [heq]; exact hh.table
  rw [programHeader_eq hh hi, ← heq, programHeader_eq hh' (heq ▸ hi), heq]
  exact programHeaderAt_congr fun j h₁ h₂ => h j ⟨by omega, Or.inr ⟨by omega, by omega⟩⟩

omit h in
theorem validateLoop_congr {h : Header} {n i : Nat} (hp : ∀ j < i + n, programHeader b h j = programHeader b' h j)
    (s : Scan) : validateLoop b imageSize h n i s = validateLoop b' imageSize h n i s := by
  induction n generalizing i s with
  | zero => rfl
  | succ n ih =>
    have ho : ∀ p, overlapsEarlier b h p i = overlapsEarlier b' h p i := by
      intro p
      rw [Bool.eq_iff_iff, overlapsEarlier, overlapsEarlier, List.any_eq_true, List.any_eq_true]
      constructor <;> rintro ⟨j, hj, hq⟩ <;> refine ⟨j, hj, ?_⟩ <;> have hj' := List.mem_range.1 hj
      · rw [← hp j (by omega)]; exact hq
      · rw [hp j (by omega)]; exact hq
    have ih' := fun s => @ih (i + 1) (fun j hj => hp j (by omega)) s
    simp only [validateLoop, hp i (by omega), ho, ih']

omit h in
theorem loadSegmentLoop_congr {h : Header} {n i : Nat} (hp : ∀ j < i + n, programHeader b h j = programHeader b' h j)
    (k current : UInt16) :
    loadSegmentLoop b imageSize h k n i current = loadSegmentLoop b' imageSize h k n i current := by
  induction n generalizing i current with
  | zero => rfl
  | succ n ih =>
    have ih' := fun c => @ih (i + 1) (fun j hj => hp j (by omega)) c
    simp only [loadSegmentLoop, hp i (by omega), ih']

theorem validateImage_congr : validateImage b imageSize = validateImage b' imageSize := by
  unfold validateImage
  rw [← basicHeader_congr h]
  split
  · rfl
  next hd hb =>
    obtain ⟨rfl, hh⟩ := basicHeader_ok hb
    rw [validateHeaders, validateHeaders, validateLoop_congr fun j hj => programHeader_congr h hh (by omega)]

theorem segments_congr (hh : HeaderOk b imageSize) : segments b = segments b' := by
  have hmap : (List.range (headerAt b).phnum.toNat).map (programHeader b (headerAt b)) =
      (List.range (headerAt b).phnum.toNat).map (programHeader b' (headerAt b)) :=
    List.map_congr_left fun i hi => programHeader_congr h hh (List.mem_range.1 hi)
  rw [segments, segments, segmentsUpTo, segmentsUpTo, hmap, headerAt_congr' h hh.size]

theorem loadSegmentOf_congr (k : UInt16) : loadSegmentOf b imageSize k = loadSegmentOf b' imageSize k := by
  unfold loadSegmentOf
  rw [← basicHeader_congr h]
  split
  · rfl
  next hd hb =>
    obtain ⟨rfl, hh⟩ := basicHeader_ok hb
    exact loadSegmentLoop_congr (fun j hj => programHeader_congr h hh (by omega)) k 0

end Congr

/-- An image with one executable segment, whose file data follow the headers. -/
def oneSegment (vaddr : Nat) (data : List UInt8) (memsz : Nat) : List UInt8 :=
  packBytes [(4, 0x464c457f), (1, 2), (1, 1), (1, 1), (9, 0), (2, 2), (2, 62), (4, 1), (8, vaddr), (8, 64), (8, 0),
    (4, 0), (2, 64), (2, 56), (2, 1), (6, 0),
    (4, 1), (4, 5), (8, 120), (8, vaddr), (8, 0), (8, data.length), (8, memsz), (8, 1)] ++ data

example : (validateImage (bytesOf (oneSegment 0x100000 [1, 2, 3, 4] 8)) 124).toOption =
    some { entry := 0x100000, virtualMin := 0x100000, virtualMax := 0x100008, loadSegmentCount := 1 } := by
  decide

/-- An image with a segment of code and, 4 KiB above it, one of data; the file data follow the headers. -/
def twoSegments (vaddr : Nat) (text data : List UInt8) (memsz : Nat) : List UInt8 :=
  packBytes [(4, 0x464c457f), (1, 2), (1, 1), (1, 1), (9, 0), (2, 2), (2, 62), (4, 1), (8, vaddr), (8, 64), (8, 0),
    (4, 0), (2, 64), (2, 56), (2, 2), (6, 0),
    (4, 1), (4, 5), (8, 176), (8, vaddr), (8, 0), (8, text.length), (8, text.length), (8, 1),
    (4, 1), (4, 6), (8, 176 + text.length), (8, vaddr + 0x1000), (8, 0), (8, data.length), (8, memsz), (8, 1)] ++
    text ++ data

end JoshBios.Elf64
