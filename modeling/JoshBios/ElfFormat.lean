import JoshBios.ElfSpec

/-! # The images that validation accepts

`Format` says in terms of natural numbers which images are accepted, and `Summarizes` what the summary of one is.
`validateImage` computes with 64-bit numbers, from fields that may be anything, in a loop over the program headers and
another one over the earlier ones. Header by header (`Passes`) the two say the same. -/

namespace JoshBios.Elf64

/-- The `i`-th program header. -/
def phdr (image : Bytes) (i : Nat) : ProgramHeader :=
  programHeaderAt image ((headerAt image).phoff.toNat + 56 * i)

/-- The addresses of the segment. -/
def ProgramHeader.addresses (p : ProgramHeader) : Set Nat := Set.Ico p.vaddr.toNat p.vend

/-- The format's header and program-header table, in a file of `n` bytes. -/
structure HeaderFormat (image : Bytes) (n : Nat) : Prop where
  size : 64 ≤ n
  magic : image 0 = 0x7f ∧ image 1 = 0x45 ∧ image 2 = 0x4c ∧ image 3 = 0x46
  class64 : image 4 = 2
  lsb : image 5 = 1
  version : image 6 = 1 ∧ (headerAt image).version = 1
  type : (headerAt image).type = 2
  machine : (headerAt image).machine = 62
  ehsize : (headerAt image).ehsize = 64
  phentsize : (headerAt image).phentsize = 56
  phnum : 1 ≤ (headerAt image).phnum.toNat ∧ (headerAt image).phnum.toNat ≤ 128
  table : (headerAt image).phoff.toNat + 56 * (headerAt image).phnum.toNat ≤ n

/-- A `PT_LOAD` header in a file of `n` bytes. -/
structure LoadFormat (n : Nat) (p : ProgramHeader) : Prop where
  file_le : p.filesz.toNat ≤ p.memsz.toNat
  inside : p.offset.toNat + p.filesz.toNat ≤ n
  no_wrap : 0 < p.memsz.toNat → p.vaddr.toNat + p.memsz.toNat < 2 ^ 64
  aligned : p.align.toNat ≤ 1 ∨ (∃ k, p.align.toNat = 2 ^ k) ∧ p.vaddr.toNat ≡ p.offset.toNat [MOD p.align.toNat]

/-- The non-empty load segments: the indices of their headers. -/
def IsSegment (image : Bytes) (i : Nat) : Prop :=
  i < (headerAt image).phnum.toNat ∧ (phdr image i).type = ptLoad ∧ 0 < (phdr image i).memsz.toNat

/-- The images that validation accepts, as files of `n` bytes. -/
structure Format (image : Bytes) (n : Nat) : Prop where
  header : HeaderFormat image n
  loads : ∀ i < (headerAt image).phnum.toNat, (phdr image i).type = ptLoad → LoadFormat n (phdr image i)
  disjoint : ∀ i j, IsSegment image i → IsSegment image j → i ≠ j →
    Disjoint (phdr image i).addresses (phdr image j).addresses
  entry : ∃ i, IsSegment image i ∧ (phdr image i).flags &&& pfX ≠ 0 ∧
    (headerAt image).entry.toNat ∈ (phdr image i).addresses

/-- What the summary of an accepted image holds. -/
structure Summarizes (image : Bytes) (sum : Summary) : Prop where
  entry : sum.entry = (headerAt image).entry
  least : IsLeast {v | ∃ i, IsSegment image i ∧ v = (phdr image i).vaddr.toNat} sum.virtualMin.toNat
  greatest : IsGreatest {v | ∃ i, IsSegment image i ∧ v = (phdr image i).vend} sum.virtualMax.toNat
  lt : sum.virtualMin.toNat < sum.virtualMax.toNat
  count : sum.loadSegmentCount.toNat = (List.range (headerAt image).phnum.toNat).countP fun i => isLoad (phdr image i)

/-! ### One header -/

theorem powerOfTwo_iff {v : UInt64} : powerOfTwo v = true ↔ ∃ k, v.toNat = 2 ^ k := by
  show _ ↔ Nat.isPowerOfTwo v.toNat
  rw [← Nat.ne_zero_and_sub_one_eq_zero_iff_isPowerOfTwo, powerOfTwo, Bool.and_eq_true, decide_eq_true_iff,
    decide_eq_true_iff]
  have hzero : v ≠ 0 ↔ v.toNat ≠ 0 := not_congr UInt64.toNat_inj.symm
  rw [hzero]
  refine and_congr_right fun hv => ?_
  have hone : (v - 1).toNat = v.toNat - 1 := UInt64.toNat_sub_of_le _ _ (UInt64.le_iff_toNat_le.2 (by simp; omega))
  rw [← UInt64.toNat_inj, UInt64.toNat_and, hone]
  rfl

theorem lowBits_eq_iff {a v w : UInt64} {k : Nat} (h : a.toNat = 2 ^ k) :
    v &&& (a - 1) = w &&& (a - 1) ↔ v.toNat ≡ w.toNat [MOD a.toNat] := by
  have hpos : 1 ≤ a.toNat := by
    rw [h]
    exact Nat.one_le_two_pow
  have hone : (a - 1).toNat = a.toNat - 1 := UInt64.toNat_sub_of_le _ _ (UInt64.le_iff_toNat_le.2 hpos)
  rw [← UInt64.toNat_inj, UInt64.toNat_and, UInt64.toNat_and, hone, h, Nat.and_two_pow_sub_one_eq_mod,
    Nat.and_two_pow_sub_one_eq_mod]
  rfl

theorem validateLoadSegment_iff {p : ProgramHeader} {n : UInt64} :
    validateLoadSegment p n = .ok ↔ LoadFormat n.toNat p := by
  have hpos : p.memsz ≠ 0 ↔ 0 < p.memsz.toNat := ProgramHeader.memsz_pos_iff
  have hin : rangeInside p.offset p.filesz n = true ↔ p.offset.toNat + p.filesz.toNat ≤ n.toNat := rangeInside_iff
  have hwrap : addOverflows p.vaddr p.memsz = false ↔ p.vaddr.toNat + p.memsz.toNat < 2 ^ 64 := addOverflows_eq_false
  constructor
  · intro h
    obtain ⟨hfile, hinside, hend⟩ := validateLoadSegment_ok h
    refine ⟨hfile, hinside, fun hm => hend (hpos.2 hm), ?_⟩
    by_cases ha : p.align > 1
    · simp only [validateLoadSegment, if_pos ha] at h
      split at h
      · cases h
      split at h
      · cases h
      split at h
      · cases h
      split at h
      · cases h
      next hpow =>
      split at h
      · cases h
      next hlow =>
      obtain ⟨k, hk⟩ := powerOfTwo_iff.1 (by simpa using hpow)
      exact Or.inr ⟨⟨k, hk⟩, (lowBits_eq_iff hk).1 (not_not.1 hlow)⟩
    · exact Or.inl (UInt64.le_iff_toNat_le.1 (UInt64.not_lt.1 ha))
  · rintro ⟨hfile, hinside, hend, halign⟩
    have h₁ : ¬ p.filesz > p.memsz := UInt64.not_lt.2 (UInt64.le_iff_toNat_le.2 hfile)
    have h₂ : (p.memsz ≠ 0 && addOverflows p.vaddr p.memsz) = false := by
      by_cases hm : p.memsz = 0
      · simp [hm]
      · simp [hwrap.2 (hend (hpos.1 hm))]
    simp only [validateLoadSegment, if_neg h₁, hin.2 hinside, h₂, Bool.not_true, Bool.false_eq_true, if_false]
    rcases halign with hle | ⟨⟨k, hk⟩, hmod⟩
    · rw [if_neg (UInt64.not_lt.2 (UInt64.le_iff_toNat_le.2 hle))]
    · simp only [powerOfTwo_iff.2 ⟨k, hk⟩, (lowBits_eq_iff hk).2 hmod, Bool.not_true, Bool.false_eq_true, if_false,
        ne_eq, not_true, ite_self]

/-! ### The header -/

theorem headerFormat_of_ok {image : Bytes} {n : UInt64} {h : Header} (hb : basicHeader image n = .ok h) :
    HeaderFormat image n.toNat := by
  obtain ⟨-, hsize, hmagic, hentsize, hmost, htable⟩ := basicHeader_ok hb
  simp only [basicHeader, ite_error_eq_ok] at hb
  obtain ⟨-, -, hclass, hlsb, hver, -, htype, hmachine, hphdr, -, -⟩ := hb
  simp only [Bool.or_eq_true, decide_eq_true_iff, not_or, not_not] at hver hphdr
  have hpos : 1 ≤ (headerAt image).phnum.toNat := by
    rw [Nat.one_le_iff_ne_zero]
    exact fun h0 => hphdr.1.2 (UInt16.toNat_inj.1 h0)
  exact ⟨hsize, hmagic, not_not.1 hclass, not_not.1 hlsb, hver, not_not.1 htype, not_not.1 hmachine, hphdr.1.1.1, hentsize,
    ⟨hpos, hmost⟩, htable⟩

theorem HeaderFormat.ok {image : Bytes} {n : UInt64} (h : HeaderFormat image n.toNat) :
    basicHeader image n = .ok (headerAt image) := by
  obtain ⟨m₀, m₁, m₂, m₃⟩ := h.magic
  obtain ⟨hpos, hmost⟩ := h.phnum
  have hsize : ¬ n < headerSize.toUInt64 := UInt64.not_lt.2 (UInt64.le_iff_toNat_le.2 h.size)
  have hzero : (headerAt image).phnum ≠ 0 := by
    intro h0
    rw [h0] at hpos
    cases hpos
  have hmax : ¬ (headerAt image).phnum > maxPhdrs := UInt16.not_lt.2 (UInt16.le_iff_toNat_le.2 hmost)
  have htable : rangeInside (headerAt image).phoff
      ((headerAt image).phnum.toUInt64 * programHeaderSize.toUInt64) n = true := by
    rw [rangeInside_iff, toNat_tableSize hmost]
    exact h.table
  simp only [basicHeader, if_neg hsize, m₀, m₁, m₂, m₃, h.class64, h.lsb, h.version, h.type, h.machine, h.ehsize,
    h.phentsize, hzero, hmax]
  rw [show (56 : UInt16) = programHeaderSize from rfl, htable]
  rfl

/-! ### The loop over the headers -/

/-- What the loop asks of the `k`-th header. -/
def Passes (image : Bytes) (n : UInt64) (h : Header) (k : Nat) : Prop :=
  (programHeader image h k).type = ptLoad → validateLoadSegment (programHeader image h k) n = .ok ∧
    ((programHeader image h k).memsz ≠ 0 → overlapsEarlier image h (programHeader image h k) k = false)

/-- The entry point is in an executable segment. -/
def hasEntry (entry : UInt64) (p : ProgramHeader) : Bool :=
  p.flags &&& pfX ≠ 0 && entry ≥ p.vaddr && entry < p.vaddr + p.memsz

/-- The loop variables after a header that passes. -/
def scanStep (entry : UInt64) (p : ProgramHeader) (s : Scan) : Scan :=
  if isLoad p then
    { virtualMin := if p.vaddr < s.virtualMin then p.vaddr else s.virtualMin
      virtualMax := if p.vaddr + p.memsz > s.virtualMax then p.vaddr + p.memsz else s.virtualMax
      loadCount := s.loadCount + 1
      entryIsExecutable := s.entryIsExecutable || hasEntry entry p }
  else s

theorem scanStep_entry (entry : UInt64) (p : ProgramHeader) (s : Scan) :
    (scanStep entry p s).entryIsExecutable = (s.entryIsExecutable || (isLoad p && hasEntry entry p)) := by
  unfold scanStep
  cases isLoad p with
  | false => simp
  | true => rfl

section Loop
variable {image : Bytes} {size : UInt64} {h : Header}

theorem validateLoop_pass {i : Nat} (hp : Passes image size h i) (n : Nat) (s : Scan) :
    validateLoop image size h (n + 1) i s =
      validateLoop image size h n (i + 1) (scanStep h.entry (programHeader image h i) s) := by
  simp only [validateLoop, scanStep, isLoad, hasEntry]
  by_cases ht : (programHeader image h i).type = ptLoad
  · obtain ⟨hok, hover⟩ := hp ht
    simp only [ht, hok, ne_eq, not_true, if_false, decide_true, Bool.true_and, decide_not, Bool.not_eq_true',
      decide_eq_false_iff_not]
    by_cases hm : (programHeader image h i).memsz = 0
    · simp only [hm, if_true, not_true, if_false]
    · simp only [hm, hover hm, Bool.false_eq_true, if_false, not_false_iff, if_true]
  · simp [ht]

theorem validateLoop_fail {i : Nat} (hp : ¬ Passes image size h i) (n : Nat) (s s' : Scan) :
    validateLoop image size h (n + 1) i s ≠ .ok s' := by
  intro heq
  refine hp fun ht => ?_
  simp only [validateLoop, ht, ne_eq, not_true, if_false] at heq
  split at heq
  · cases heq
  next hok =>
  refine ⟨not_not.1 hok, fun hm => ?_⟩
  rw [if_neg hm] at heq
  split at heq
  · cases heq
  next hover => exact Bool.eq_false_iff.2 hover

theorem forall_between_succ {P : Nat → Prop} {i n : Nat} :
    (∀ k, i ≤ k → k < i + (n + 1) → P k) ↔ P i ∧ ∀ k, i + 1 ≤ k → k < i + 1 + n → P k := by
  constructor
  · intro hall
    exact ⟨hall i (Nat.le_refl i) (by omega), fun k h₁ h₂ => hall k (by omega) (by omega)⟩
  · rintro ⟨hi, hall⟩ k h₁ h₂
    rcases Nat.eq_or_lt_of_le h₁ with rfl | hlt
    · exact hi
    · exact hall k hlt (by omega)

theorem validateLoop_isOk (n i : Nat) (s : Scan) :
    (∃ s', validateLoop image size h n i s = .ok s') ↔ ∀ k, i ≤ k → k < i + n → Passes image size h k := by
  induction n generalizing i s with
  | zero => exact ⟨fun _ k h₁ h₂ => by omega, fun _ => ⟨s, rfl⟩⟩
  | succ n ih =>
    rw [forall_between_succ]
    by_cases hp : Passes image size h i
    · rw [validateLoop_pass hp, ih, and_iff_right hp]
    · constructor
      · rintro ⟨s', hs'⟩
        exact absurd hs' (validateLoop_fail hp n s s')
      · rintro ⟨hi, -⟩
        exact absurd hi hp

theorem validateLoop_entry {n i : Nat} {s s' : Scan} (hs : validateLoop image size h n i s = .ok s') :
    s'.entryIsExecutable = true ↔ s.entryIsExecutable = true ∨
      ∃ k, i ≤ k ∧ k < i + n ∧ isLoad (programHeader image h k) = true ∧ hasEntry h.entry (programHeader image h k) = true := by
  induction n generalizing i s with
  | zero =>
    cases hs
    refine ⟨Or.inl, ?_⟩
    rintro (hs | ⟨k, h₁, h₂, -⟩)
    · exact hs
    · omega
  | succ n ih =>
    have hp : Passes image size h i := by
      by_contra hn
      exact validateLoop_fail hn n s s' hs
    rw [validateLoop_pass hp] at hs
    rw [ih hs, scanStep_entry, Bool.or_eq_true, Bool.and_eq_true, or_assoc]
    refine or_congr_right ⟨?_, ?_⟩
    · rintro (hi | ⟨k, h₁, h₂, hk⟩)
      · exact ⟨i, Nat.le_refl i, by omega, hi⟩
      · exact ⟨k, by omega, by omega, hk⟩
    · rintro ⟨k, h₁, h₂, hk⟩
      rcases Nat.eq_or_lt_of_le h₁ with rfl | hlt
      · exact Or.inl hk
      · exact Or.inr ⟨k, hlt, by omega, hk⟩

end Loop

/-! ### The image -/

theorem isLoad_iff {p : ProgramHeader} : isLoad p = true ↔ p.type = ptLoad ∧ 0 < p.memsz.toNat := by
  simp only [isLoad, Bool.and_eq_true, decide_eq_true_iff, ProgramHeader.memsz_pos_iff]

theorem hasEntry_iff {entry : UInt64} {p : ProgramHeader} (hp : p.vend < 2 ^ 64) :
    hasEntry entry p = true ↔ p.flags &&& pfX ≠ 0 ∧ entry.toNat ∈ p.addresses := by
  simp only [hasEntry, Bool.and_eq_true, decide_eq_true_iff, ge_iff_le, UInt64.le_iff_toNat_le, UInt64.lt_iff_toNat_lt,
    toNat_add_of_lt hp, and_assoc]
  rfl

/-- The overlap test on two segments that do not wrap. -/
theorem disjoint_addresses_iff {p q : ProgramHeader} (hp : p.vend < 2 ^ 64) (hq : q.vend < 2 ^ 64)
    (hpm : 0 < p.memsz.toNat) (hqm : 0 < q.memsz.toNat) :
    Disjoint p.addresses q.addresses ↔ ¬ (p.vaddr < q.vaddr + q.memsz ∧ q.vaddr < p.vaddr + p.memsz) := by
  have hpv : p.vend = p.vaddr.toNat + p.memsz.toNat := rfl
  have hqv : q.vend = q.vaddr.toNat + q.memsz.toNat := rfl
  rw [UInt64.lt_iff_toNat_lt, UInt64.lt_iff_toNat_lt, toNat_add_of_lt hp, toNat_add_of_lt hq, ← hpv, ← hqv]
  unfold ProgramHeader.addresses
  rw [Set.Ico_disjoint_Ico]
  omega

section Image
variable {image : Bytes} {n : UInt64} (hf : HeaderFormat image n.toNat)
include hf

theorem HeaderFormat.programHeader_eq {i : Nat} (hi : i < (headerAt image).phnum.toNat) :
    programHeader image (headerAt image) i = phdr image i :=
  Elf64.programHeader_eq ⟨hf.size, hf.magic, hf.phentsize, hf.phnum.2, hf.table⟩ hi

theorem HeaderFormat.overlapsEarlier_iff {i : Nat} (hi : IsSegment image i)
    (hw : ∀ j ≤ i, IsSegment image j → (phdr image j).vend < 2 ^ 64) :
    overlapsEarlier image (headerAt image) (phdr image i) i = false ↔
      ∀ j < i, IsSegment image j → Disjoint (phdr image i).addresses (phdr image j).addresses := by
  unfold overlapsEarlier
  rw [List.any_eq_false]
  simp only [List.mem_range]
  refine forall_congr' fun j => forall_congr' fun hj => ?_
  have hjn : j < (headerAt image).phnum.toNat := Nat.lt_trans hj hi.1
  rw [hf.programHeader_eq hjn]
  have hload : (!(decide ((phdr image j).type ≠ ptLoad) || decide ((phdr image j).memsz = 0))) = isLoad (phdr image j) := by
    simp [isLoad]
  simp only [hload, Bool.and_eq_true, decide_eq_true_iff, and_assoc]
  constructor
  · intro hnot hs
    rw [disjoint_addresses_iff (hw i (Nat.le_refl i) hi) (hw j (Nat.le_of_lt hj) hs) hi.2.2 hs.2.2]
    exact fun hboth => hnot ⟨isLoad_iff.2 hs.2, hboth⟩
  · rintro hdis ⟨hl, hboth⟩
    have hs : IsSegment image j := ⟨hjn, isLoad_iff.1 hl⟩
    have hd := hdis hs
    rw [disjoint_addresses_iff (hw i (Nat.le_refl i) hi) (hw j (Nat.le_of_lt hj) hs) hi.2.2 hs.2.2] at hd
    exact hd hboth

/-- The headers pass if and only if the loads are in order and apart. -/
theorem HeaderFormat.passes_iff :
    (∀ k, 0 ≤ k → k < 0 + (headerAt image).phnum.toNat → Passes image n (headerAt image) k) ↔
      (∀ i < (headerAt image).phnum.toNat, (phdr image i).type = ptLoad → LoadFormat n.toNat (phdr image i)) ∧
      ∀ i j, IsSegment image i → IsSegment image j → i ≠ j →
        Disjoint (phdr image i).addresses (phdr image j).addresses := by
  have hpass : ∀ k < (headerAt image).phnum.toNat, Passes image n (headerAt image) k ↔
      ((phdr image k).type = ptLoad → LoadFormat n.toNat (phdr image k) ∧
        ((phdr image k).memsz ≠ 0 → overlapsEarlier image (headerAt image) (phdr image k) k = false)) := by
    intro k hk
    rw [Passes, hf.programHeader_eq hk, validateLoadSegment_iff]
  have hwrap : ∀ i, IsSegment image i → LoadFormat n.toNat (phdr image i) → (phdr image i).vend < 2 ^ 64 :=
    fun i hi hl => hl.no_wrap hi.2.2
  constructor
  · intro hall
    have hload : ∀ i < (headerAt image).phnum.toNat, (phdr image i).type = ptLoad → LoadFormat n.toNat (phdr image i) :=
      fun i hi ht => ((hpass i hi).1 (hall i (Nat.zero_le i) (by omega)) ht).1
    have hearlier : ∀ i j, IsSegment image i → IsSegment image j → j < i →
        Disjoint (phdr image i).addresses (phdr image j).addresses := by
      intro i j hi hj hlt
      have hm : (phdr image i).memsz ≠ 0 := ProgramHeader.memsz_pos_iff.2 hi.2.2
      have hover := ((hpass i hi.1).1 (hall i (Nat.zero_le i) (by have := hi.1; omega)) hi.2.1).2 hm
      exact (hf.overlapsEarlier_iff hi fun k _ hk => hwrap k hk (hload k hk.1 hk.2.1)).1 hover j hlt hj
    refine ⟨hload, fun i j hi hj hne => ?_⟩
    rcases Nat.lt_or_gt_of_ne hne with hlt | hgt
    · exact (hearlier j i hj hi hlt).symm
    · exact hearlier i j hi hj hgt
  · rintro ⟨hload, hdis⟩ k - hk
    have hk : k < (headerAt image).phnum.toNat := by omega
    refine (hpass k hk).2 fun ht => ⟨hload k hk ht, fun hm => ?_⟩
    have hs : IsSegment image k := by
      refine ⟨hk, isLoad_iff.1 ?_⟩
      simp [isLoad, ht, hm]
    refine (hf.overlapsEarlier_iff hs fun j _ hj => hwrap j hj (hload j hj.1 hj.2.1)).2 fun j hlt hj => ?_
    exact hdis k j hs hj (by omega)

theorem HeaderFormat.mem_segments_iff {p : ProgramHeader} :
    p ∈ segments image ↔ ∃ i, IsSegment image i ∧ p = phdr image i := by
  rw [segments, segmentsUpTo, List.mem_filter, List.mem_map]
  constructor
  · rintro ⟨⟨i, hi, rfl⟩, hl⟩
    have hi : i < (headerAt image).phnum.toNat := List.mem_range.1 hi
    rw [hf.programHeader_eq hi] at hl ⊢
    exact ⟨i, ⟨hi, isLoad_iff.1 hl⟩, rfl⟩
  · rintro ⟨i, hi, rfl⟩
    exact ⟨⟨i, List.mem_range.2 hi.1, hf.programHeader_eq hi.1⟩, isLoad_iff.2 hi.2⟩

theorem HeaderFormat.length_segments :
    (segments image).length = (List.range (headerAt image).phnum.toNat).countP fun i => isLoad (phdr image i) := by
  rw [segments, segmentsUpTo, ← List.countP_eq_length_filter, List.countP_map]
  refine List.countP_congr fun i hi => ?_
  rw [Function.comp_apply, hf.programHeader_eq (List.mem_range.1 hi)]

end Image

/-- The three things validation looks for, one after the other. -/
theorem validateImage_isOk {image : Bytes} {n : UInt64} :
    (∃ sum, validateImage image n = .ok sum) ↔ Format image n.toNat := by
  constructor
  · rintro ⟨sum, h⟩
    unfold validateImage at h
    split at h
    · cases h
    next hd hb =>
    have hf := headerFormat_of_ok hb
    obtain ⟨rfl, -⟩ := basicHeader_ok hb
    unfold validateHeaders at h
    split at h
    · cases h
    next s hs =>
    split at h
    · cases h
    split at h
    · cases h
    next hentry =>
    obtain ⟨hload, hdis⟩ := hf.passes_iff.1 ((validateLoop_isOk _ _ _).1 ⟨s, hs⟩)
    refine ⟨hf, hload, hdis, ?_⟩
    rcases (validateLoop_entry hs).1 (by simpa using hentry) with hno | ⟨k, -, hk, hl, he⟩
    · cases hno
    · rw [Nat.zero_add] at hk
      rw [hf.programHeader_eq hk] at hl he
      have hseg : IsSegment image k := ⟨hk, isLoad_iff.1 hl⟩
      have hvend : (phdr image k).vend < 2 ^ 64 := (hload k hk hseg.2.1).no_wrap hseg.2.2
      exact ⟨k, hseg, (hasEntry_iff hvend).1 he⟩
  · rintro ⟨hf, hload, hdis, k, hseg, he⟩
    obtain ⟨s, hs⟩ : ∃ s, validateLoop image n (headerAt image) (headerAt image).phnum.toNat 0
        { virtualMin := ~~~0, virtualMax := 0, loadCount := 0, entryIsExecutable := false } = .ok s :=
      (validateLoop_isOk _ _ _).2 (hf.passes_iff.2 ⟨hload, hdis⟩)
    have hvend : (phdr image k).vend < 2 ^ 64 := (hload k hseg.1 hseg.2.1).no_wrap hseg.2.2
    have hentry : s.entryIsExecutable = true := by
      refine (validateLoop_entry hs).2 (Or.inr ⟨k, Nat.zero_le k, by have := hseg.1; omega, ?_⟩)
      rw [hf.programHeader_eq hseg.1]
      exact ⟨isLoad_iff.2 hseg.2, (hasEntry_iff hvend).2 he⟩
    have hcount : s.loadCount ≠ 0 := by
      intro h0
      have hinv := validateLoop_inv (by have := hf.phnum; omega) hs (scanInv_start image n (headerAt image).entry)
      have hlen := hinv.count
      rw [h0, Nat.zero_add] at hlen
      have hmem : phdr image k ∈ segments image := hf.mem_segments_iff.2 ⟨k, hseg, rfl⟩
      rw [segments, List.eq_nil_of_length_eq_zero hlen.symm] at hmem
      cases hmem
    refine ⟨⟨(headerAt image).entry, s.virtualMin, s.virtualMax, s.loadCount⟩, ?_⟩
    unfold validateImage
    rw [hf.ok]
    simp only [validateHeaders, hs, hcount, hentry, Bool.not_true, Bool.false_eq_true, if_false]

theorem validateImage_entry {image : Bytes} {n : UInt64} {sum : Summary} (h : validateImage image n = .ok sum) :
    sum.entry = (headerAt image).entry := by
  unfold validateImage at h
  split at h
  · cases h
  next hb =>
  obtain ⟨rfl, -⟩ := basicHeader_ok hb
  unfold validateHeaders at h
  split at h
  · cases h
  split at h
  · cases h
  split at h
  · cases h
  · rw [← Except.ok.inj h]

theorem summarizes {image : Bytes} {n : UInt64} {sum : Summary} (h : validateImage image n = .ok sum) :
    Summarizes image sum := by
  have hs := validateImage_ok h
  have hf := (validateImage_isOk.1 ⟨sum, h⟩).header
  refine ⟨validateImage_entry h, ⟨?_, ?_⟩, ⟨?_, ?_⟩, ?_, ?_⟩
  · obtain ⟨p, hp, hmin⟩ := hs.min_mem
    obtain ⟨i, hi, rfl⟩ := hf.mem_segments_iff.1 hp
    exact ⟨i, hi, by rw [hmin]⟩
  · rintro v ⟨i, hi, hv⟩
    rw [hv]
    exact hs.min_le _ (hf.mem_segments_iff.2 ⟨i, hi, rfl⟩)
  · obtain ⟨p, hp, hmax⟩ := hs.max_mem
    obtain ⟨i, hi, rfl⟩ := hf.mem_segments_iff.1 hp
    exact ⟨i, hi, hmax.symm⟩
  · rintro v ⟨i, hi, hv⟩
    rw [hv]
    exact hs.le_max _ (hf.mem_segments_iff.2 ⟨i, hi, rfl⟩)
  · obtain ⟨p, hp, hmin⟩ := hs.min_mem
    have hle := hs.le_max p hp
    obtain ⟨i, hi, rfl⟩ := hf.mem_segments_iff.1 hp
    have hpos := hi.2.2
    rw [← hmin]
    unfold ProgramHeader.vend at hle
    omega
  · rw [hs.count, hf.length_segments]

/-- Of an image of any length, `josh_elf64_validate` returns OK if and only if the image is in the format, and then
the summary is the image's. -/
theorem validate_accepts_format (image : Bytes) (n : UInt64) (before : Summary) :
    ((validate (some image) n (some before)).1 = .ok ↔ Format image n.toNat) ∧
    (Format image n.toNat → ∃ sum, validate (some image) n (some before) = (.ok, some sum) ∧ Summarizes image sum) := by
  rw [validate_some, ← validateImage_isOk]
  cases hv : validateImage image n with
  | error status =>
    refine ⟨⟨fun h => absurd h (validateImage_error hv), ?_⟩, ?_⟩
    · rintro ⟨sum, hsum⟩
      cases hsum
    · rintro ⟨sum, hsum⟩
      cases hsum
  | ok sum =>
    refine ⟨⟨fun _ => ⟨sum, rfl⟩, fun _ => rfl⟩, fun _ => ?_⟩
    exact ⟨sum, rfl, summarizes hv⟩

end JoshBios.Elf64
