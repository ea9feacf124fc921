import JoshBios.LoadElf
import JoshBios.UefiKernel

/-! # What the page tables of the BIOS path map

`build_page_tables` fills eight pages: four gibibytes one to one, and the gibibyte from `KERNEL_VIRT_BASE` on to the
memory from `KERNEL_PHYS_BASE` on, all in pages of two mebibytes. `BiosTables` lists the entries; a walk through them is
arithmetic on the page number (`BiosTables.walk_eq`). -/

namespace JoshBios.Stage2

open Elf64 (ProgramHeader Summary segments)
open Tables (walk index present large frame)
open Uefi (tablesOf tablesOf_memzero pageOf translate)

/-- A virtual address of 48 bits, sign-extended. -/
def Canonical (v : UInt64) : Prop := v.toNat < 2 ^ 47 ∨ 2 ^ 64 - 2 ^ 47 ≤ v.toNat

/-! ### Entries -/

/-- The entry for the page `k` with the flags `f`. -/
def entryFor (k f : Nat) : UInt64 := .ofNat (4096 * k + f)

section Entry
variable {k f : Nat} (hk : k < 2 ^ 40) (hf : f < 4096)
include hk hf

theorem toNat_entryFor : (entryFor k f).toNat = 4096 * k + f := UInt64.toNat_ofNat_of_lt' (by
  show 4096 * k + f < 2 ^ 64
  omega)

theorem present_entryFor : present (entryFor k f) = decide (f % 2 = 1) := by
  rw [Tables.present_eq, toNat_entryFor hk hf, decide_eq_decide]
  omega

theorem large_entryFor : large (entryFor k f) = decide (f / 128 % 2 = 1) := by
  rw [Tables.large_eq, toNat_entryFor hk hf, decide_eq_decide]
  omega

theorem frame_entryFor : frame (entryFor k f) = k := by
  rw [Tables.frame_eq, toNat_entryFor hk hf]
  omega

end Entry

theorem or_pageFlags (k : Nat) :
    (4096 * k ||| pagePresent ||| pageRw) = 4096 * k + 0x003 ∧
      (4096 * k ||| pagePresent ||| pageRw ||| pagePs) = 4096 * k + 0x083 := by
  have h : ∀ f < 2 ^ 12, 4096 * k + f = 4096 * k ||| f := fun f hf => Nat.two_pow_add_eq_or_of_lt hf k
  rw [Nat.or_assoc, Nat.or_assoc, Nat.or_assoc]
  exact ⟨(h _ (by decide)).symm, (h _ (by decide)).symm⟩

/-! ### The tables in memory -/

theorem tablesOf_store (m : Bytes) (p : Nat) (i : Fin 512) {v : Nat} (hv : v < 2 ^ 64) :
    tablesOf (store m (4096 * p + 8 * i.val) 8 v) = (tablesOf m).set p i (.ofNat v) := by
  have hnat : (UInt64.ofNat v).toNat = v := UInt64.toNat_ofNat_of_lt' hv
  have := Uefi.tablesOf_set m p i (.ofNat v)
  rwa [hnat] at this

theorem tablesOf_storeEntries (m : Bytes) (p : Nat) {n : Nat} (hn : n ≤ 512) {entry : Nat → Nat}
    (he : ∀ i < n, entry i < 2 ^ 64) (p' : Nat) (i : Fin 512) :
    tablesOf (storeEntries m (4096 * p) n entry) p' i =
      if p' = p ∧ i.val < n then .ofNat (entry i) else tablesOf m p' i := by
  induction n with
  | zero => simp [storeEntries]
  | succ n ih =>
    have hstep : storeEntries m (4096 * p) (n + 1) entry =
        store (storeEntries m (4096 * p) n entry) (4096 * p + 8 * n) 8 (entry n) := by
      simp only [storeEntries, List.range_succ, List.foldl_append, List.foldl_cons, List.foldl_nil]
    rw [hstep, tablesOf_store _ p ⟨n, hn⟩ (he n (Nat.lt_succ_self n)), Tables.set,
      ih (by omega) fun j hj => he j (by omega)]
    by_cases hp : p' = p
    · rcases Nat.lt_trichotomy i.val n with hlt | heq | hgt
      · rw [if_neg fun h => (by have := congrArg Fin.val h.2; simp at this; omega), if_pos ⟨hp, hlt⟩,
          if_pos ⟨hp, by omega⟩]
      · rw [if_pos ⟨hp, Fin.ext heq⟩, if_pos ⟨hp, by omega⟩, heq]
      · rw [if_neg fun h => (by have := congrArg Fin.val h.2; simp at this; omega), if_neg fun h => (by omega),
          if_neg fun h => (by omega)]
    · rw [if_neg fun h => hp h.1, if_neg fun h => hp h.1, if_neg fun h => hp h.1]

/-- One round of the loop over the four gibibytes. -/
def storeGib (m : Bytes) (gib : Nat) : Bytes :=
  let pd := pdLow0Addr + gib * 0x1000
  let m := store m (pdptLowAddr + 8 * gib) 8 (pd ||| pagePresent ||| pageRw)
  storeEntries m pd 512 fun i => (gib * 512 + i) * 0x200000 ||| pagePresent ||| pageRw ||| pagePs

theorem tablesOf_storeGib (m : Bytes) {gib : Nat} (hg : gib < 4) (p : Nat) (i : Fin 512) :
    tablesOf (storeGib m gib) p i =
      if p = 0x52 + gib then entryFor (512 * (512 * gib + i)) 0x083
      else if p = 0x51 ∧ i.val = gib then entryFor (0x52 + gib) 0x003 else tablesOf m p i := by
  have hpd : pdLow0Addr + gib * 0x1000 = 4096 * (0x52 + gib) := by simp only [pdLow0Addr]; omega
  have hslot : pdptLowAddr + 8 * gib = 4096 * 0x51 + 8 * (⟨gib, by omega⟩ : Fin 512).val := rfl
  have hentry : ∀ j, ((gib * 512 + j) * 0x200000 ||| pagePresent ||| pageRw ||| pagePs) =
      4096 * (512 * (512 * gib + j)) + 0x083 := by
    intro j
    rw [show (gib * 512 + j) * 0x200000 = 4096 * (512 * (512 * gib + j)) by omega]
    exact (or_pageFlags _).2
  simp only [storeGib, hpd, (or_pageFlags _).1, hentry]
  rw [tablesOf_storeEntries _ _ (Nat.le_refl 512) (by omega), hslot, tablesOf_store _ _ _ (by omega), Tables.set]
  have hi := i.isLt
  by_cases hp : p = 0x52 + gib
  · rw [if_pos ⟨hp, hi⟩, if_pos hp]
    rfl
  · rw [if_neg fun h => hp h.1, if_neg hp]
    by_cases hat : p = 0x51 ∧ i.val = gib
    · rw [if_pos ⟨hat.1, Fin.ext hat.2⟩, if_pos hat]
      rfl
    · rw [if_neg fun h => hat ⟨h.1, congrArg Fin.val h.2⟩, if_neg hat]

theorem tablesOf_gibLoop (m : Bytes) {n : Nat} (hn : n ≤ 4) (p : Nat) (i : Fin 512) :
    tablesOf ((List.range n).foldl storeGib m) p i =
      if 0x52 ≤ p ∧ p < 0x52 + n then entryFor (512 * (512 * (p - 0x52) + i)) 0x083
      else if p = 0x51 ∧ i.val < n then entryFor (0x52 + i) 0x003 else tablesOf m p i := by
  induction n with
  | zero => rw [List.range_zero, List.foldl_nil, if_neg (by omega), if_neg (by omega)]
  | succ n ih =>
    rw [List.range_succ, List.foldl_append, List.foldl_cons, List.foldl_nil, tablesOf_storeGib _ (by omega), ih (by omega)]
    by_cases hp : p = 0x52 + n
    · rw [if_pos hp, if_pos (by omega), show p - 0x52 = n by omega]
    by_cases hat : p = 0x51 ∧ i.val = n
    · rw [if_neg hp, if_pos hat, if_neg (by omega), if_pos (by omega), hat.2]
    · rw [if_neg hp, if_neg hat]
      by_cases hlow : 0x52 ≤ p ∧ p < 0x52 + n
      · rw [if_pos hlow, if_pos (show 0x52 ≤ p ∧ p < 0x52 + (n + 1) by omega)]
      · rw [if_neg hlow, if_neg (show ¬ (0x52 ≤ p ∧ p < 0x52 + (n + 1)) by omega)]
        by_cases hdir : p = 0x51 ∧ i.val < n
        · rw [if_pos hdir, if_pos (show p = 0x51 ∧ i.val < n + 1 by omega)]
        · rw [if_neg hdir, if_neg (show ¬ (p = 0x51 ∧ i.val < n + 1) by omega)]

/-- The entries of the eight pages. -/
structure BiosTables (T : Tables) : Prop where
  pml4 : ∀ i : Fin 512, T 0x50 i = if i.val = 0 then entryFor 0x51 0x003
    else if i.val = 511 then entryFor 0x56 0x003 else 0
  pdptLow : ∀ i : Fin 512, T 0x51 i = if i.val < 4 then entryFor (0x52 + i) 0x003 else 0
  pdLow : ∀ g < 4, ∀ i : Fin 512, T (0x52 + g) i = entryFor (512 * (512 * g + i)) 0x083
  pdptHigh : ∀ i : Fin 512, T 0x56 i = if i.val = 510 then entryFor 0x57 0x003 else 0
  pdHigh : ∀ i : Fin 512, T 0x57 i = entryFor (512 * (i + 1)) 0x083

/-- What the stores leave in a table: the last one that hits an entry wins. -/
theorem tablesOf_buildPageTables (m : Bytes) {p : Nat} (h₁ : 0x50 ≤ p) (h₂ : p < 0x58) (i : Fin 512) :
    tablesOf (buildPageTables m) p i =
      if p = 0x57 then entryFor (512 * (i + 1)) 0x083
      else if p = 0x56 ∧ i.val = 510 then entryFor 0x57 0x003
      else if p = 0x50 ∧ i.val = 511 then entryFor 0x56 0x003
      else if 0x52 ≤ p ∧ p < 0x56 then entryFor (512 * (512 * (p - 0x52) + i)) 0x083
      else if p = 0x51 ∧ i.val < 4 then entryFor (0x52 + i) 0x003
      else if p = 0x50 ∧ i.val = 0 then entryFor 0x51 0x003 else 0 := by
  have hi := i.isLt
  have hhigh : ∀ j, ((kernelPhysBase.toNat + j * 0x200000) ||| pagePresent ||| pageRw ||| pagePs) =
      4096 * (512 * (j + 1)) + 0x083 := by
    intro j
    rw [show kernelPhysBase.toNat + j * 0x200000 = 4096 * (512 * (j + 1)) by
      rw [show kernelPhysBase.toNat = 0x200000 from rfl]; omega]
    exact (or_pageFlags _).2
  have hset : ∀ (T : Tables) (p' : Nat) (j : Fin 512) (e : UInt64), T.set p' j e p i =
      if p = p' ∧ i.val = j.val then e else T p i := fun T p' j e => by
    simp only [Tables.set, Fin.ext_iff]
  have hshape : buildPageTables m = storeEntries (store (store ((List.range 4).foldl storeGib
      (store (memzero m (4096 * 0x50) (4096 * 8)) (4096 * 0x50 + 8 * (0 : Fin 512).val) 8 (4096 * 0x51 ||| pagePresent ||| pageRw)))
      (4096 * 0x50 + 8 * (511 : Fin 512).val) 8 (4096 * 0x56 ||| pagePresent ||| pageRw))
      (4096 * 0x56 + 8 * (510 : Fin 512).val) 8 (4096 * 0x57 ||| pagePresent ||| pageRw)) (4096 * 0x57) 512
      fun j => (kernelPhysBase.toNat + j * 0x200000) ||| pagePresent ||| pageRw ||| pagePs := rfl
  rw [hshape]
  simp only [hhigh, (or_pageFlags _).1]
  rw [tablesOf_storeEntries _ _ (Nat.le_refl 512) (by omega), tablesOf_store _ _ _ (by omega),
    tablesOf_store _ _ _ (by omega), hset, hset, tablesOf_gibLoop _ (Nat.le_refl 4), tablesOf_store _ _ _ (by omega), hset,
    tablesOf_memzero m h₁ h₂]
  simp only [hi, and_true]
  rfl

theorem biosTables (m : Bytes) : BiosTables (tablesOf (buildPageTables m)) := by
  refine ⟨fun i => ?_, fun i => ?_, fun g hg i => ?_, fun i => ?_, fun i => ?_⟩
  · rw [tablesOf_buildPageTables m (by omega) (by omega)]
    by_cases h₀ : i.val = 0
    · simp [h₀]
    · simp [h₀]
  · rw [tablesOf_buildPageTables m (by omega) (by omega)]
    simp
  · rw [tablesOf_buildPageTables m (by omega) (by omega), if_neg (by omega), if_neg (by omega), if_neg (by omega),
      if_pos (by omega), Nat.add_sub_cancel_left]
  · rw [tablesOf_buildPageTables m (by omega) (by omega)]
    simp
  · rw [tablesOf_buildPageTables m (by omega) (by omega), if_pos rfl]

/-! ### The walk -/

theorem walk_entry_zero {T : Tables} {n p v : Nat} (h : T p (index n v) = 0) : walk T n p v = none := by
  cases n with
  | zero => simp [walk, h, present]
  | succ n => simp [walk, h, present]

theorem walk_table {T : Tables} {n p v k : Nat} (hk : k < 2 ^ 40) (h : T p (index (n + 1) v) = entryFor k 0x003) :
    walk T (n + 1) p v = walk T n k v := by
  refine Tables.walk_down ⟨?_, ?_, ?_⟩
  · rw [h, present_entryFor hk (by decide)]
    rfl
  · rw [h, large_entryFor hk (by decide)]
    rfl
  · rw [h, frame_entryFor hk (by decide)]

theorem walk_large {T : Tables} {p v k : Nat} (hk : 512 * k < 2 ^ 40) (h : T p (index 1 v) = entryFor (512 * k) 0x083) :
    walk T 1 p v = some (512 * k + v % 512) := by
  have hpres : present (T p (index 1 v)) = true := by
    rw [h, present_entryFor hk (by decide)]
    rfl
  have hlarge : large (T p (index 1 v)) = true := by
    rw [h, large_entryFor hk (by decide)]
    rfl
  simp only [walk, hpres, hlarge, Bool.not_true, Bool.false_eq_true, if_false, if_true]
  rw [h, frame_entryFor hk (by decide), if_pos (by decide), Nat.pow_one, Nat.mul_div_cancel_left k (by decide), Nat.mul_comm]

theorem BiosTables.walk_eq {T : Tables} (h : BiosTables T) {w : Nat} (hw : w < 2 ^ 36) :
    walk T 3 0x50 w = if w < 2 ^ 20 then some w
      else if 2 ^ 36 - 2 ^ 19 ≤ w ∧ w < 2 ^ 36 - 2 ^ 18 then some (512 + (w - (2 ^ 36 - 2 ^ 19))) else none := by
  have h₃ : (index 3 w).val = w / 512 ^ 3 % 512 := rfl
  have h₂ : (index 2 w).val = w / 512 ^ 2 % 512 := rfl
  have h₁ : (index 1 w).val = w / 512 ^ 1 % 512 := rfl
  by_cases hlow : (index 3 w).val = 0
  · have hstep : walk T 3 0x50 w = walk T 2 0x51 w := by
      refine walk_table (by decide) ?_
      rw [h.pml4, if_pos hlow]
    rw [hstep]
    by_cases hdir : (index 2 w).val < 4
    · have hstep : walk T 2 0x51 w = walk T 1 (0x52 + index 2 w) w := by
        refine walk_table (by omega) ?_
        rw [h.pdptLow, if_pos hdir]
      rw [hstep, walk_large (by omega) (h.pdLow _ hdir _), if_pos (by omega)]
      refine congrArg some ?_
      omega
    · rw [walk_entry_zero (by rw [h.pdptLow, if_neg hdir]), if_neg (by omega), if_neg (by omega)]
  · by_cases hhigh : (index 3 w).val = 511
    · have hstep : walk T 3 0x50 w = walk T 2 0x56 w := by
        refine walk_table (by decide) ?_
        rw [h.pml4, if_neg hlow, if_pos hhigh]
      rw [hstep]
      by_cases hdir : (index 2 w).val = 510
      · have hstep : walk T 2 0x56 w = walk T 1 0x57 w := by
          refine walk_table (by decide) ?_
          rw [h.pdptHigh, if_pos hdir]
        rw [hstep, walk_large (by omega) (h.pdHigh _), if_neg (by omega), if_pos (by omega)]
        refine congrArg some ?_
        omega
      · rw [walk_entry_zero (by rw [h.pdptHigh, if_neg hdir]), if_neg (by omega), if_neg (by omega)]
    · rw [walk_entry_zero (by rw [h.pml4, if_neg hlow, if_neg hhigh]), if_neg (by omega), if_neg (by omega)]

/-- Where the tables of `build_page_tables` take an address. -/
theorem translate_buildPageTables (m : Bytes) {v : UInt64} (hc : Canonical v) :
    translate (buildPageTables m) (.ofNat pml4Addr) v =
      if v.toNat < 2 ^ 32 then some v.toNat
      else if kernelVirtBase.toNat ≤ v.toNat ∧ v.toNat < kernelVirtBase.toNat + 2 ^ 30 then
        some (kernelPhysBase.toNat + (v.toNat - kernelVirtBase.toNat))
      else none := by
  have hv := v.toNat_lt
  have hbase : kernelVirtBase.toNat = 2 ^ 64 - 2 ^ 31 := rfl
  have hphys : kernelPhysBase.toNat = 4096 * 512 := rfl
  have hpage : pageOf v = v.toNat / 4096 % 2 ^ 36 := rfl
  have hroot : (UInt64.ofNat pml4Addr).toNat / 4096 = 0x50 := rfl
  rw [Uefi.translate, hroot, (biosTables m).walk_eq (by omega), hbase, hphys]
  rcases hc with hlow | hhigh
  · by_cases h₁ : v.toNat < 2 ^ 32
    · rw [if_pos h₁, if_pos (by omega), Option.map_some]
      refine congrArg some ?_
      omega
    · rw [if_neg h₁, if_neg (by omega), if_neg (by omega), if_neg (by omega), Option.map_none]
  · rw [if_neg (by omega), if_neg (show ¬ v.toNat < 2 ^ 32 by omega)]
    by_cases h₁ : 2 ^ 64 - 2 ^ 31 ≤ v.toNat ∧ v.toNat < 2 ^ 64 - 2 ^ 31 + 2 ^ 30
    · rw [if_pos h₁, if_pos (by omega), Option.map_some]
      refine congrArg some ?_
      omega
    · rw [if_neg h₁, if_neg (by omega), Option.map_none]

/-- For an image that passes the checks of `load_elf` on its summary: the address `v` of a segment is loaded at
`KERNEL_PHYS_BASE + (v - KERNEL_VIRT_BASE)`, inside the window, and the tables take it there; segments do not share
memory. And the tables map four gibibytes one to one, the kernel's gibibyte to the memory from `KERNEL_PHYS_BASE` on,
and nothing else. -/
theorem bios_tables_match (m : Bytes) {image : Bytes} {imageBytes : UInt32} {sum : Summary}
    (hv : Elf64.validateImage image imageBytes.toUInt64 = .ok sum)
    (hmin : ¬ (sum.virtualMin < kernelVirtBase || sum.virtualMax ≤ sum.virtualMin) = true)
    (hmax : ¬ sum.virtualMax - kernelVirtBase > (kernelPhysLimit - kernelPhysBase).toUInt64) :
    (∀ p ∈ segments image, ∀ v : UInt64, p.vaddr.toNat ≤ v.toNat → v.toNat < p.vend →
      ∃ q, q = kernelPhysBase.toNat + (v.toNat - kernelVirtBase.toNat) ∧
        q = (kernelPhysBase.toUInt64 + (p.vaddr - kernelVirtBase)).toNat + (v.toNat - p.vaddr.toNat) ∧
        kernelPhysBase.toNat ≤ q ∧ q < kernelPhysLimit.toNat ∧
        translate (buildPageTables m) (.ofNat pml4Addr) v = some q) ∧
    (segments image).Pairwise (fun p q => physOf p + p.memsz.toNat ≤ physOf q ∨ physOf q + q.memsz.toNat ≤ physOf p) ∧
    ∀ v, Canonical v → translate (buildPageTables m) (.ofNat pml4Addr) v =
      if v.toNat < 2 ^ 32 then some v.toNat
      else if kernelVirtBase.toNat ≤ v.toNat ∧ v.toNat < kernelVirtBase.toNat + 2 ^ 30 then
        some (kernelPhysBase.toNat + (v.toNat - kernelVirtBase.toNat))
      else none := by
  have hs := Elf64.validateImage_ok hv
  have hfit := (limits_iff hs).1 ⟨hmin, hmax⟩
  have hbase : kernelVirtBase.toNat = 2 ^ 64 - 2 ^ 31 := rfl
  have hphys : kernelPhysBase.toNat = 0x200000 := rfl
  have hlimit : kernelPhysLimit.toNat = 0x8000000 := rfl
  refine ⟨fun p hp v hle hlt => ?_, ?_, fun v hc => translate_buildPageTables m hc⟩
  · obtain ⟨hlow, hhigh⟩ := hfit p hp
    have hphysOf : physOf p = kernelPhysBase.toNat + (p.vaddr.toNat - kernelVirtBase.toNat) := rfl
    refine ⟨_, rfl, ?_, ?_, ?_, ?_⟩
    · rw [toNat_physical ⟨hlow, hhigh⟩]
      omega
    · omega
    · omega
    · rw [translate_buildPageTables m (Or.inr (by omega)), if_neg (by omega), if_pos (by omega)]
  · refine hs.disjoint.imp_of_mem fun {p q} hp hq hpq => ?_
    have h₁ := (hfit p hp).1
    have h₂ := (hfit q hq).1
    simp only [physOf, ProgramHeader.vend] at *
    omega

theorem bios_tables_match_pair :
    (segments ((staged pairKernel).mem.from kernelImageAddr)).length = 2 ∧
    (∀ p ∈ segments ((staged pairKernel).mem.from kernelImageAddr),
      translate (buildPageTables (staged pairKernel).mem) (.ofNat pml4Addr) p.vaddr = some (physOf p)) ∧
    (segments ((staged pairKernel).mem.from kernelImageAddr)).Pairwise fun p q =>
      physOf p + p.memsz.toNat ≤ physOf q ∨ physOf q + q.memsz.toNat ≤ physOf p := by
  have hsum : (loadElf 183 (staged pairKernel)).1 = some pairSummary := by decide +kernel
  have hload : loadElf 183 (staged pairKernel) = (some pairSummary, (loadElf 183 (staged pairKernel)).2) :=
    Prod.fst_eq_iff.1 hsum
  have hv := (fits_of_loadElf hload).1
  obtain ⟨hmapped, hapart, -⟩ := bios_tables_match (staged pairKernel).mem hv (by decide) (by decide)
  refine ⟨(Elf64.validateImage_ok hv).count.symm, fun p hp => ?_, hapart⟩
  have hpos := ProgramHeader.memsz_pos_iff.1 (Elf64.memsz_ne_zero hp)
  have hvend : p.vaddr.toNat < p.vend := by
    unfold ProgramHeader.vend
    omega
  obtain ⟨q, hq, -, -, -, htr⟩ := hmapped p hp p.vaddr (Nat.le_refl _) hvend
  rw [htr, hq]
  rfl

end JoshBios.Stage2
