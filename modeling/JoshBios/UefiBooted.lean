import JoshBios.BootedKernel
import JoshBios.UefiBootInfo
import JoshBios.UefiHealth

/-! # What the UEFI path leaves in memory

`efi_main` makes one thing after the other: the kernel, the block, the page tables, the stack, the buffer for the map. The
firmware gives each of them pages of its own, so a byte that is held is not written by what comes later, with the exception
of the memory map in the block; this is followed step by step to the hand-over (`efi_booted_kernel`). -/

namespace JoshBios.Uefi

open Elf64 (Summary LoadSegment ProgramHeader segments)
open Config (BootConfig cString)
open Health (HealthRecord BootSlot)
open Tables (walk)

variable {F : Type}

/-! ### The pool -/

/-- Only the 48 pages from `base` on are written. -/
def PoolOnly (base : Nat) (m m' : Bytes) : Prop := ∀ x, x < 4096 * base ∨ 4096 * (base + 48) ≤ x → m' x = m x

section
variable {base used : Nat} {owners : Finset (Nat × Nat)} {p : PageTablePool} {m m' m'' : Bytes} {own : Tables.Owners}

theorem PoolOnly.refl (base : Nat) (m : Bytes) : PoolOnly base m m := fun _ _ => rfl

theorem PoolOnly.trans (h : PoolOnly base m m') (h' : PoolOnly base m' m'') : PoolOnly base m m'' :=
  fun x hx => (h' x hx).trans (h x hx)

theorem setEntry_poolOnly {a : UInt64} {k i : Nat} (ha : a.toNat = 4096 * k) (hlow : base ≤ k) (hhigh : k < base + 48)
    (hi : i < 512) (e : UInt64) (m : Bytes) : PoolOnly base m (setEntry m a i e) := by
  intro x hx
  have hlen := length_leBytes 8 e.toNat
  rw [setEntry, ha]
  rcases hx with hx | hx
  · exact Bytes.write_of_lt _ _ (by omega)
  · exact Bytes.write_of_le _ _ (by omega)

theorem clear_poolOnly (hroom : used < 48) (m : Bytes) : PoolOnly base m (memzero m (4096 * (base + used)) 4096) :=
  fun _ hx => memzero_outside m (by omega)

theorem PoolInv.mono {owners' : Finset (Nat × Nat)} (h : PoolInv base used owners p m own) (hsub : owners ⊆ owners') :
    PoolInv base used owners' p m own := { h with owners := fun k x hk => hsub (h.owners k x hk) }

theorem PoolInv.used_lt (h : PoolInv base used owners p m own) (hr : Room base owners) : used < 48 :=
  Nat.lt_of_le_of_lt h.used_le hr.card

theorem nextTable_poolOnly (h : PoolInv base used owners p m own) (hr : Room base owners) (checkPs : Bool) {t : UInt64}
    {k : Nat} (ht : PageAddress t k) (hk : own k ≠ none) {i : Nat} (hi : i < 512) :
    PoolOnly base m (nextTable checkPs t i p m).2.2 := by
  have hused := h.used_lt hr
  have hpage := (h.pages k).1 hk
  unfold nextTable
  simp only
  split
  · obtain ⟨a, p', halloc, ha, -, -⟩ := ptAlloc_spec h.cursor h.end_ hr.pos hr.top hused m
    rw [halloc]
    simp only [if_neg ha.ne_zero]
    exact (clear_poolOnly hused m).trans (setEntry_poolOnly ht.toNat hpage.1 (by omega) hi _ _)
  · split
    · exact .refl base m
    · exact .refl base m

theorem map4k_poolOnly (h : PoolInv base used owners p m own) (hr : Room base owners) {pml4 v : UInt64} (ph : UInt64)
    (hroot : PageAddress pml4 base) (hv : Mappable owners (pageOf v)) : PoolOnly base m (map4k p pml4 v ph m).2.2 := by
  obtain ⟨hi₃, hi₂, hi₁, hi₀⟩ := tableIndex_eq v
  have hbase : own base = some (3, pageOf v / 512 ^ 4) := by
    rw [Nat.div_eq_of_lt hv.lt]
    exact h.tree.root
  have hlevel := hv.high
  have hne {n q k : Nat} {o : Tables.Owners} (hk : o k = some (n, q)) : o k ≠ none := by
    rw [hk]
    exact Option.some_ne_none _
  obtain ⟨a₂, c₂, p₂, m₂, used₂, own₂, hn₂, ha₂, hinv₂, -, -, hown₂⟩ :=
    nextTable_spec h hr false hroot hbase (h.small hbase (by omega) _) hv.pdpt
  obtain ⟨a₁, c₁, p₁, m₁, used₁, own₁, hn₁, ha₁, hinv₁, -, -, hown₁⟩ :=
    nextTable_spec hinv₂ hr true ha₂ hown₂ (hinv₂.small hown₂ (by omega) _) hv.pd
  obtain ⟨a₀, c₀, p₀, m₀, used₀, own₀, hn₀, ha₀, hinv₀, -, -, hown₀⟩ :=
    nextTable_spec hinv₁ hr true ha₁ hown₁ (hinv₁.small hown₁ (fun _ => hlevel) _) hv.pt
  have hkeep₂ := nextTable_poolOnly h hr false hroot (hne hbase) (Tables.index 3 (pageOf v)).isLt
  have hkeep₁ := nextTable_poolOnly hinv₂ hr true ha₂ (hne hown₂) (Tables.index 2 (pageOf v)).isLt
  have hkeep₀ := nextTable_poolOnly hinv₁ hr true ha₁ (hne hown₁) (Tables.index 1 (pageOf v)).isLt
  rw [hn₂] at hkeep₂
  rw [hn₁] at hkeep₁
  rw [hn₀] at hkeep₀
  have hpage := (hinv₀.pages c₀).1 (hne hown₀)
  have hused := hinv₀.used_lt hr
  rw [← hi₃] at hn₂
  rw [← hi₂] at hn₁
  rw [← hi₁] at hn₀
  simp only [map4k, hn₂, hn₁, hn₀, hi₀]
  exact ((hkeep₂.trans hkeep₁).trans hkeep₀).trans
    (setEntry_poolOnly ha₀.toNat hpage.1 (by omega) (Tables.index 0 (pageOf v)).isLt _ _)

theorem kernelLoop_poolOnly {pml4 virt : UInt64} {a total : Nat} (hr : Room base owners) (hroot : PageAddress pml4 base)
    (hmap : ∀ j < total, Mappable owners (a + j))
    (hpage : ∀ j < total, pageOf (virt + UInt64.ofNat j * pageSize) = a + j) (kp : UInt64) (n : Nat) {i : Nat}
    (hi : i + n ≤ total) (h : PoolInv base used owners p m own) :
    PoolOnly base m (kernelLoop pml4 virt kp n (UInt64.ofNat i) p m).2.2 := by
  induction n generalizing i used p m own with
  | zero => exact .refl base m
  | succ n ih =>
    have hpi := hpage i (by omega)
    have hv := hpi ▸ hmap i (by omega)
    have hfirst := map4k_poolOnly h hr (kp + UInt64.ofNat i * pageSize) hroot hv
    obtain ⟨p', m', used', own', heq, hinv, -, -⟩ := map4k_spec h hr (kp + UInt64.ofNat i * pageSize) hroot hv
    rw [heq] at hfirst
    rw [kernelLoop, heq]
    simp only
    rw [show UInt64.ofNat i + 1 = UInt64.ofNat (i + 1) by rw [UInt64.ofNat_add]; rfl]
    exact hfirst.trans (ih (i := i + 1) (by omega) hinv)

theorem identityEntries_poolOnly {pd : UInt64} {k : Nat} (hpd : pd.toNat = 4096 * k) (hlow : base ≤ k) (hhigh : k < base + 48)
    (g n : Nat) {i : Nat} (hi : i + n ≤ 512) (m : Bytes) : PoolOnly base m (identityEntries pd g n i m) := by
  induction n generalizing i m with
  | zero => exact .refl base m
  | succ n ih =>
    rw [identityEntries]
    exact (setEntry_poolOnly hpd hlow hhigh (by omega) _ m).trans (ih (i := i + 1) (by omega) _)

theorem identityLoop_poolOnly {pdpt : UInt64} {k : Nat} (hpdpt : pdpt.toNat = 4096 * k) (hlow : base ≤ k)
    (hhigh : k < base + 48) (hpos : 0 < base) (htop : base + 48 ≤ 2 ^ 20) (n : Nat) {g : Nat} (hg : g + n ≤ 512)
    (hcur : p.cursor.toNat = 4096 * (base + used)) (hend : p.end_.toNat = 4096 * (base + 48)) (hroom : used + n ≤ 48)
    (m : Bytes) : PoolOnly base m (identityLoop pdpt n g p m).2.2 := by
  induction n generalizing g used p m with
  | zero => exact .refl base m
  | succ n ih =>
    obtain ⟨a, p', halloc, ha, hcur', hend'⟩ := ptAlloc_spec hcur hend hpos htop (by omega) m
    rw [identityLoop, halloc]
    simp only [if_neg ha.ne_zero]
    exact (((clear_poolOnly (by omega) m).trans (setEntry_poolOnly hpdpt hlow hhigh (by omega) _ _)).trans
      (identityEntries_poolOnly ha.toNat (by omega) (by omega) g 512 (Nat.le_refl _) _)).trans
      (ih (g := g + 1) (by omega) hcur' hend' (by omega) _)

end

/-! ### `build_tables` -/

/-- The kernel without its pages. -/
def noPages (s : Summary) : Summary := { s with virtualMax := s.virtualMin }

theorem pagesFor_noPages (s : Summary) : (pagesFor ((noPages s).virtualMax - (noPages s).virtualMin)).toNat = 0 := by
  rw [noPages, UInt64.sub_self]
  decide

theorem fillPool_kernel {p p' : PageTablePool} {kp pml4 : UInt64} {s : Summary} {m m' : Bytes}
    (h : fillPool p kp (noPages s) m = (true, pml4, p', m')) :
    fillPool p kp s m = match kernelLoop pml4 s.virtualMin kp (pagesFor (s.virtualMax - s.virtualMin)).toNat 0 p' m' with
      | (ok, p, m) => (ok, pml4, p, m) := by
  rw [fillPool] at h ⊢
  rw [pagesFor_noPages] at h
  generalize ptAlloc p m = r₁ at h ⊢
  obtain ⟨root, p₁, m₁⟩ := r₁
  simp only at h ⊢
  generalize ptAlloc p₁ m₁ = r₂ at h ⊢
  obtain ⟨pdpt, p₂, m₂⟩ := r₂
  simp only at h ⊢
  split at h
  · cases h
  next hne =>
    rw [if_neg hne]
    generalize identityLoop pdpt identityGib 0 p₂ (setEntry m₂ root 0 (pdpt ||| pagePresent ||| pageRw)) = r₃ at h ⊢
    obtain ⟨ok, p₃, m₃⟩ := r₃
    cases ok with
    | false => cases h
    | true =>
      cases h
      rfl

section
variable {pa kp : UInt64} {base : Nat}

theorem toNat_poolAt_end (hpa : pa.toNat = 4096 * base) (htop : base + 48 ≤ 2 ^ 20) :
    (poolAt pa).end_.toNat = 4096 * (base + 48) := by
  rw [poolAt, UInt64.toNat_add, hpa, show (pageTablePoolPages * pageSize).toNat = 4096 * 48 from rfl,
    Nat.mod_eq_of_lt (by omega)]
  omega

theorem fillPool_noPages_poolOnly (hpa : pa.toNat = 4096 * base) (hpos : 0 < base) (htop : base + 48 ≤ 2 ^ 20) (kp : UInt64)
    (s : Summary) (m : Bytes) : PoolOnly base m (fillPool (poolAt pa) kp (noPages s) m).2.2.2 := by
  have hcur : (poolAt pa).cursor.toNat = 4096 * (base + 0) := hpa
  obtain ⟨a₁, p₁, halloc₁, ha₁, hcur₁, hend₁⟩ := ptAlloc_spec hcur (toNat_poolAt_end hpa htop) hpos htop (by omega) m
  obtain ⟨a₂, p₂, halloc₂, ha₂, hcur₂, hend₂⟩ :=
    ptAlloc_spec hcur₁ hend₁ hpos htop (by omega) (memzero m (4096 * (base + 0)) 4096)
  have hclear := ((@clear_poolOnly base 0 (by decide) m).trans (@clear_poolOnly base 1 (by decide) _)).trans
    (setEntry_poolOnly (i := 0) ha₁.toNat (by omega) (by omega) (by decide) (a₂ ||| pagePresent ||| pageRw) _)
  have hloop := hclear.trans (identityLoop_poolOnly ha₂.toNat (by omega) (by omega) hpos htop identityGib (g := 0)
    (by decide) hcur₂ hend₂ (by decide) _)
  have hne : (decide (a₁ = 0) || decide (a₂ = 0)) = false := by
    rw [Bool.or_eq_false_iff, decide_eq_false_iff_not, decide_eq_false_iff_not]
    exact ⟨ha₁.ne_zero, ha₂.ne_zero⟩
  rw [fillPool, halloc₁]
  simp only
  rw [halloc₂, pagesFor_noPages]
  simp only [hne, Bool.false_eq_true, if_false]
  generalize identityLoop a₂ identityGib 0 p₂ _ = r at hloop ⊢
  obtain ⟨ok, p, m'⟩ := r
  cases ok with
  | false => exact hloop
  | true => exact hloop

theorem kernelOwners_mono (a n : Nat) : kernelOwners a 0 ⊆ kernelOwners a n := by
  refine Finset.union_subset_union_right (Finset.image_subset_image (Finset.Icc_subset_Icc_right ?_))
  exact Nat.div_le_div_right (by omega)

theorem fillPool_poolOnly {s : Summary} {a n : Nat} (hpa : pa.toNat = 4096 * base) (hpos : 0 < base)
    (htop : base + 48 ≤ 2 ^ 20) (hn : (pagesFor (s.virtualMax - s.virtualMin)).toNat = n) (hsize : n ≤ 16384)
    (ha : 2 ^ 36 - 2 ^ 19 ≤ a) (hend : a + n ≤ 2 ^ 36)
    (hpage : ∀ j < n, pageOf (s.virtualMin + UInt64.ofNat j * pageSize) = a + j) (m : Bytes) :
    PoolOnly base m (fillPool (poolAt pa) kp s m).2.2.2 := by
  have hroom : Room base (kernelOwners a n) := ⟨hpos, htop, card_kernelOwners hsize⟩
  obtain ⟨p, m', used, own, hfill, hinv, -, -⟩ := @fillPool_spec pa kp (noPages s) base a 0 hpa hpos htop (pagesFor_noPages s)
    (by decide) ha (by omega) nofun m
  have hfirst := fillPool_noPages_poolOnly hpa hpos htop kp s m
  rw [hfill] at hfirst
  have hroot : PageAddress pa base := ⟨hpa, hpos, by omega⟩
  have hrest := kernelLoop_poolOnly hroom hroot (fun j hj => mappable ha hj hend) hpage kp n (i := 0) (by omega)
    (hinv.mono (kernelOwners_mono a n))
  rw [fillPool_kernel hfill, hn]
  exact hfirst.trans hrest

end

/-- The tables at `root`: the low addresses are their own, and the kernel is at `kp`. -/
structure TablesAt (kp : UInt64) (s : Summary) (root : UInt64) (m : Bytes) : Prop where
  identity : ∀ v : UInt64, v.toNat < 2 ^ 32 → translate m root v = some v.toNat
  kernel : ∀ j, 4096 * j < s.virtualMax.toNat - s.virtualMin.toNat →
    walk (tablesOf m) 3 (root.toNat / 4096) (pageOf s.virtualMin + j) = some (kp.toNat / 4096 + j)

/-- A walk stays in the pool. -/
theorem PoolInv.walk_kept {base used : Nat} {owners : Finset (Nat × Nat)} {p : PageTablePool} {m m' : Bytes}
    {own : Tables.Owners} (h : PoolInv base used owners p m own) (hused : used < 48)
    (hm : ∀ x, 4096 * base ≤ x → x < 4096 * (base + 48) → m' x = m x) {w : Nat} (hw : w < 512 ^ 4) :
    walk (tablesOf m') 3 base w = walk (tablesOf m) 3 base w := by
  refine h.tree.walk_congr (fun k q hq => ?_) (by rw [Nat.div_eq_of_lt hw]; exact h.tree.root)
  have hpages := (h.pages q).1 (by rw [hq]; exact Option.some_ne_none _)
  have hidx := (Tables.index k w).isLt
  rw [tablesOf, tablesOf, le64, le64, leNat_congr]
  exact fun x h₁ h₂ => hm x (by omega) (by omega)

theorem fillPool_tables {pa kp : UInt64} {s : Summary} (hfit : Fits s) (haligned : pa.toNat % 4096 = 0) (hpos : 0 < pa.toNat)
    (hbelow : pa.toNat + 48 * 4096 ≤ 2 ^ 32) (hkp : kp.toNat % 4096 = 0)
    (htop : kp.toNat + 4096 * (pagesFor (s.virtualMax - s.virtualMin)).toNat ≤ 2 ^ 52) (m : Bytes) :
    ∃ p m', fillPool (poolAt pa) kp s m = (true, pa, p, m') ∧
      (∀ x, x < pa.toNat ∨ pa.toNat + 48 * 4096 ≤ x → m' x = m x) ∧
      ∀ m'', (∀ x, pa.toNat ≤ x → x < pa.toNat + 48 * 4096 → m'' x = m' x) → TablesAt kp s pa m'' := by
  have hpages := toNat_pagesFor (n := s.virtualMax - s.virtualMin) (by rw [toNat_span hfit.nonempty]; exact hfit.span)
  rw [toNat_span hfit.nonempty] at hpages
  generalize hn : (pagesFor (s.virtualMax - s.virtualMin)).toNat = n at hpages htop
  obtain ⟨hsize, hlow, hhigh, -, hpage⟩ := fits_pages hfit hn
  generalize hbase : pa.toNat / 4096 = base
  have hpa : pa.toNat = 4096 * base := by omega
  obtain ⟨p, m', used, own, hfill, hinv, hkernel, hid⟩ :=
    @fillPool_spec pa kp s base _ n hpa (by omega) (by omega) hn hsize hlow hhigh hpage m
  have honly : PoolOnly base m (fillPool (poolAt pa) kp s m).2.2.2 :=
    fillPool_poolOnly hpa (by omega) (by omega) hn hsize hlow hhigh hpage m
  rw [hfill] at honly
  have hused : used < 48 := Nat.lt_of_le_of_lt hinv.used_le (card_kernelOwners hsize)
  refine ⟨p, m', hfill, fun x hx => honly x (by omega), fun m'' hm => ?_⟩
  have hkept {w : Nat} (hw : w < 512 ^ 4) : walk (tablesOf m'') 3 base w = walk (tablesOf m') 3 base w :=
    hinv.walk_kept hused (fun x h₁ h₂ => hm x (by omega) (by omega)) hw
  refine ⟨fun v hv => ?_, fun j hj => ?_⟩
  · have hv' : pageOf v = v.toNat / 4096 := by
      rw [pageOf]
      omega
    rw [translate, hbase, hv', hkept (by omega), hid _ (by omega), Option.map_some, Option.some.injEq]
    omega
  · have hmul : (UInt64.ofNat j * pageSize).toNat = 4096 * j := by
      rw [UInt64.toNat_mul, UInt64.toNat_ofNat', show pageSize.toNat = 4096 from rfl]
      omega
    rw [hbase, hkept (by omega), hkernel j (by omega), Option.some.injEq, Tables.frame_eq, UInt64.toNat_add, hmul]
    omega

/-- What the loader relies on beyond that, in states that are `sound` and stay so: allocated pages are pages, and a file that is
opened has a handle. -/
structure PageServices (fw : BootFirmware F) (held : F → Nat → Prop) (sound : F → Prop) : Prop extends BootServices fw held where
  aligned : ∀ n f, sound f → efiError (fw.allocatePages n f).1 = false → (fw.allocatePages n f).2.1.toNat % 4096 = 0
  opened : ∀ path f, efiError (fw.openFile path f).1 = false → ∃ file, (fw.openFile path f).2.1 = some file
  files : Quiet fw.toFirmware sound
  healthVariable : ∀ f, sound f → sound (fw.getVariable f).2.2.2 ∧ ∀ data, sound (fw.setVariable data f).2
  pages : ∀ n f, sound f → sound (fw.allocatePages n f).2.2
  graphics : ∀ f, sound f → sound (fw.graphicsOutput f).2.2

theorem PageServices.traced {fw : BootFirmware F} {held : F → Nat → Prop} {sound : F → Prop} (h : PageServices fw held sound) :
    PageServices (traced fw) (fun p => held p.1) fun p => sound p.1 where
  toBootServices := h.toBootServices.traced
  aligned n p := h.aligned n p.1
  opened path p := h.opened path p.1
  files := ⟨fun p => h.files.loadedImage p.1, fun p => h.files.fileSystem p.1, fun p => h.files.openVolume p.1,
    fun path p => h.files.openFile path p.1, fun file p => h.files.infoSize file p.1,
    fun file size p => h.files.getInfo file size p.1, fun size p => h.files.allocatePool size p.1,
    fun file size p => h.files.readBytes file size p.1⟩
  healthVariable p := h.healthVariable p.1
  pages n p := h.pages n p.1
  graphics p := h.graphics p.1

section
variable {fw : BootFirmware F} {held : F → Nat → Prop} {sound : F → Prop}

theorem allocLow_mem {n : UInt64} {u u' : Loader F} {r : EfiStatus × UInt64}
    (h : allocLow fw.toFirmware n u = (r, u')) : u'.mem = u.mem := by
  rw [allocLow] at h
  split at h <;> cases h <;> rfl

theorem allocLow_aligned (h : PageServices fw held sound) {n a : UInt64} {u u' : Loader F} {s : EfiStatus}
    (halloc : allocLow fw.toFirmware n u = ((s, a), u')) (hsound : sound u.firmware) (hs : efiError s = false) :
    a.toNat % 4096 = 0 := by
  rw [allocLow] at halloc
  split at halloc
  · cases halloc
    exact absurd hs (by decide)
  · cases halloc
    exact h.aligned n _ hsound hs

theorem allocLow_sound (h : PageServices fw held sound) {n : UInt64} {u u' : Loader F} {r : EfiStatus × UInt64}
    (halloc : allocLow fw.toFirmware n u = (r, u')) (hsound : sound u.firmware) : sound u'.firmware := by
  rw [allocLow] at halloc
  split at halloc
  · cases halloc
    exact hsound
  · cases halloc
    exact h.pages n _ hsound

theorem fillPool_null {pa : UInt64} (hpa : pa = 0) (kp : UInt64) (s : Summary) (m : Bytes) :
    (fillPool (poolAt pa) kp s m).1 = false := by
  have hnot : ¬ (poolAt 0).cursor ≥ (poolAt 0).end_ := by decide
  have hnull : ptAlloc (poolAt 0) m = (0, { poolAt 0 with cursor := (poolAt 0).cursor + pageSize }, memzero m 0 4096) :=
    if_neg hnot
  rw [hpa, fillPool, hnull]
  simp only [decide_true, Bool.true_or, if_true]

/-- What `build_tables` leaves. -/
structure MadeTables (held : F → Nat → Prop) (kp : UInt64) (s : Summary) (root stack : UInt64) (u u' : Loader F) : Prop where
  kept : ∀ x, held u.firmware x → u'.mem x = u.mem x
  pool : ∀ x, root.toNat ≤ x → x < root.toNat + 48 * 4096 → ¬ held u.firmware x ∧ held u'.firmware x
  tables : ∀ m, (∀ x, root.toNat ≤ x → x < root.toNat + 48 * 4096 → m x = u'.mem x) → TablesAt kp s root m
  stack : ∃ sp, stack.toNat = sp + 0x3ff0 ∧ sp % 4096 = 0 ∧ sp + 0x4000 ≤ 2 ^ 32 ∧
    ∀ x, sp ≤ x → x < sp + 0x4000 → (¬ held u.firmware x ∧ held u'.firmware x) ∧ u'.mem x = 0

theorem buildTables_made (h : PageServices fw held sound) {kp : UInt64} {s : Summary} {u u' : Loader F} {st : EfiStatus}
    {root stack : UInt64} (hsound : sound u.firmware)
    (hbuild : buildTables fw.toFirmware kp s u = ((st, root, stack), u')) (hst : efiError st = false)
    (hfit : Fits s) (hkp : kp.toNat % 4096 = 0)
    (htop : kp.toNat + 4096 * (pagesFor (s.virtualMax - s.virtualMin)).toNat ≤ 2 ^ 52) :
    MadeTables held kp s root stack u u' := by
  obtain ⟨st₁, pa, u₁, hpool⟩ : ∃ st₁ pa u₁, allocLow fw.toFirmware pageTablePoolPages u = ((st₁, pa), u₁) := ⟨_, _, _, rfl⟩
  rw [buildTables_eq hpool] at hbuild
  split at hbuild
  next hst₁ =>
    cases hbuild
    rw [hst] at hst₁
    cases hst₁
  next hst₁ =>
    rw [Bool.not_eq_true] at hst₁
    obtain ⟨-, hbelow, hfresh⟩ := allocLow_fresh h.toBootServices hpool hst₁
    have haligned := allocLow_aligned h hpool hsound hst₁
    have hsound₁ := allocLow_sound h hpool hsound
    rw [show pageTablePoolPages.toNat = 48 from rfl] at hbelow hfresh
    by_cases hnull : pa = 0
    · have hfail := fillPool_null hnull kp s (memzero u₁.mem pa.toNat (pageTablePoolPages * pageSize).toNat)
      generalize fillPool (poolAt pa) kp s _ = q at hbuild hfail
      obtain ⟨ok, pml4, p, m⟩ := q
      obtain rfl : ok = false := hfail
      cases hbuild
      exact absurd hst (by decide)
    have hpos : 0 < pa.toNat := Nat.pos_of_ne_zero fun h0 => hnull (UInt64.toNat_inj.1 h0)
    obtain ⟨p, m, hfill, honly, htables⟩ := fillPool_tables hfit haligned hpos (by omega) hkp htop
      (memzero u₁.mem pa.toNat (pageTablePoolPages * pageSize).toNat)
    obtain ⟨st₂, sp, u₂, hstack⟩ : ∃ st₂ sp u₂, allocLow fw.toFirmware 4 { u₁ with mem := m } = ((st₂, sp), u₂) :=
      ⟨_, _, _, rfl⟩
    rw [hfill, finishTables, hstack] at hbuild
    simp only at hbuild
    split at hbuild
    next hst₂ =>
      cases hbuild
      rw [hst] at hst₂
      cases hst₂
    next hst₂ =>
      rw [Bool.not_eq_true] at hst₂
      obtain ⟨-, hbelow', hfresh'⟩ := allocLow_fresh h.toBootServices hstack hst₂
      have haligned' := allocLow_aligned h hstack hsound₁ hst₂
      have hmem₁ := allocLow_mem hpool
      have hmem₂ : u₂.mem = m := allocLow_mem hstack
      have hsize : (4 * pageSize).toNat = 0x4000 := rfl
      have hpoolSize : (pageTablePoolPages * pageSize).toNat = 48 * 4096 := rfl
      rw [show (4 : UInt64).toNat = 4 from rfl] at hbelow' hfresh'
      have hstackTop : (sp + 4 * pageSize - 16).toNat = sp.toNat + 0x3ff0 := by
        have hadd : (sp + 4 * pageSize).toNat = sp.toNat + 0x4000 := by
          rw [UInt64.toNat_add, hsize, Nat.mod_eq_of_lt (by omega)]
        rw [UInt64.toNat_sub_of_le _ _ (by rw [UInt64.le_iff_toNat_le, hadd, show (16 : UInt64).toNat = 16 from rfl]; omega),
          hadd, show (16 : UInt64).toNat = 16 from rfl]
        omega
      -- the size of the stack is kept from being evaluated
      generalize (4 * pageSize).toNat = z at hbuild hsize
      cases hbuild
      -- a byte that is held lies neither in the pool nor in the stack
      have houtside : ∀ x, held u₁.firmware x → x < sp.toNat ∨ sp.toNat + z ≤ x := fun x hx => by
        by_contra hin
        exact (hfresh' x (by omega) (by omega)).1 hx
      simp only [hmem₂]
      refine ⟨fun x hx => ?_, fun x h₁ h₂ => ?_, fun m' hm' => ?_, sp.toNat, hstackTop, haligned', by omega,
        fun x h₁ h₂ => ⟨⟨fun hx => (hfresh' x h₁ (by omega)).1 (allocLow_held h.toBootServices hpool hx),
          (hfresh' x h₁ (by omega)).2⟩, memzero_inside m h₁ (by omega)⟩⟩
      · have hpoolOut : x < root.toNat ∨ root.toNat + 48 * 4096 ≤ x := by
          by_contra hin
          exact (hfresh x (by omega) (by omega)).1 hx
        show memzero m sp.toNat z x = u.mem x
        rw [memzero_outside m (houtside x (allocLow_held h.toBootServices hpool hx)), honly x hpoolOut, hmem₁, hpoolSize,
          memzero_outside _ (by omega)]
      · exact ⟨(hfresh x h₁ (by omega)).1, allocLow_held h.toBootServices hstack (hfresh x h₁ (by omega)).2⟩
      · refine htables m' fun x h₁ h₂ => (hm' x h₁ h₂).trans ?_
        show memzero m sp.toNat z x = m x
        exact memzero_outside m (houtside x (hfresh x h₁ (by omega)).2)

end

/-! ### The kernel and the configuration -/

section
variable {fw : BootFirmware F} {held : F → Nat → Prop} {sound : F → Prop}

theorem loadElf_success {ki : Option Bytes} {size : UInt64} {sum₀ s : Summary} {seg₀ : LoadSegment} {u u' : Loader F}
    {st : EfiStatus} {kp : UInt64} (h : loadElf fw.toFirmware ki size sum₀ seg₀ u = ((st, s, kp), u'))
    (hst : efiError st = false) : st = efiSuccess := by
  rw [loadElf] at h
  generalize Elf64.validate ki size (some sum₀) = r at h
  obtain ⟨status, after⟩ := r
  simp only at h
  split at h
  · cases h
    exact absurd hst (by decide)
  split at h
  · cases h
    exact absurd hst (by decide)
  split at h
  · cases h
    exact absurd hst (by decide)
  generalize allocLow fw.toFirmware (pagesFor ((after.getD sum₀).virtualMax - (after.getD sum₀).virtualMin)) u = q at h
  obtain ⟨⟨st₁, phys⟩, u₁⟩ := q
  simp only at h
  split at h
  next hst₁ =>
    cases h
    rw [hst] at hst₁
    cases hst₁
  generalize loadElfLoop ki size _ _ _ _ _ _ _ = l at h
  obtain ⟨st₂, m⟩ := l
  simp only at h
  split at h
  next hst₂ =>
    cases h
    rw [hst] at hst₂
    cases hst₂
  · cases h
    rfl

/-- What `load_elf` leaves. -/
structure MadeKernel (held : F → Nat → Prop) (image : Bytes) (size : UInt64) (s : Summary) (kp : UInt64) (u' : Loader F) :
    Prop where
  is_valid : Elf64.validateImage image size = .ok s
  fits : Fits s
  aligned : kp.toNat % 4096 = 0
  below : kp.toNat + 4096 * (pagesFor (s.virtualMax - s.virtualMin)).toNat ≤ 2 ^ 32
  placed : Placed image s kp u'.mem
  pages : ∀ x, kp.toNat ≤ x → x < kp.toNat + 4096 * (pagesFor (s.virtualMax - s.virtualMin)).toNat → held u'.firmware x

theorem loadElf_made (h : PageServices fw held sound) {image : Bytes} {size : UInt64} {sum₀ s : Summary} {seg₀ : LoadSegment}
    {u u' : Loader F} {st : EfiStatus} {kp : UInt64} (hsound : sound u.firmware)
    (hload : loadElf fw.toFirmware (some image) size sum₀ seg₀ u = ((st, s, kp), u')) (hst : efiError st = false) :
    MadeKernel held image size s kp u' ∧ sound u'.firmware := by
  obtain rfl := loadElf_success hload hst
  obtain ⟨hv, hfit⟩ := fits_of_loadElf hload
  obtain ⟨st₁, a, u₁, halloc⟩ : ∃ st₁ a u₁,
      allocLow fw.toFirmware (pagesFor (s.virtualMax - s.virtualMin)) u = ((st₁, a), u₁) := ⟨_, _, _, rfl⟩
  have heq := hload
  rw [loadElf_eq hv hfit, halloc] at heq
  simp only at heq
  split at heq
  next hst₁ =>
    have hs : st₁ = efiSuccess := congrArg (fun r => r.1.1) heq
    rw [hs, efiError_efiSuccess] at hst₁
    cases hst₁
  next hst₁ =>
    rw [Bool.not_eq_true] at hst₁
    obtain rfl : a = kp := congrArg (fun r => r.1.2.2) heq
    have hfirm : u₁.firmware = u'.firmware := congrArg (fun r => r.2.firmware) heq
    obtain ⟨-, hbelow, hfresh⟩ := allocLow_fresh h.toBootServices halloc hst₁
    exact ⟨⟨hv, hfit, allocLow_aligned h halloc hsound hst₁, hbelow,
      placed_of_loadElf hload (Nat.le_trans hbelow (by decide)), fun x h₁ h₂ => hfirm ▸ (hfresh x h₁ h₂).2⟩,
      hfirm ▸ allocLow_sound h halloc hsound⟩

theorem readFile_some (h : PageServices fw held sound) {path : List UInt16} {u u' : Loader F} {st : EfiStatus} {image : Option Bytes}
    {size : UInt64} (hread : readFile fw.toFirmware path u = ((st, image, size), u')) (hst : efiError st = false) :
    ∃ b, image = some b := by
  have hopened := h.opened path u.firmware
  rw [readFile] at hread
  generalize fw.openFile path u.firmware = r at hread hopened
  obtain ⟨s, file, f⟩ := r
  cases file with
  | none =>
    cases hread
    obtain ⟨file, hfile⟩ := hopened hst
    cases hfile
  | some file =>
    simp only at hread
    split at hread
    next hs =>
      cases hread
      rw [hst] at hs
      cases hs
    split at hread
    · cases hread
      exact absurd hst (by decide)
    split at hread
    next hs =>
      cases hread
      rw [hst] at hs
      cases hs
    split at hread
    next hs =>
      cases hread
      rw [hst] at hs
      cases hs
    split at hread
    · cases hread
      exact absurd hst (by decide)
    split at hread
    next hs =>
      cases hread
      rw [hst] at hs
      cases hs
    split at hread
    · cases hread
      exact absurd hst (by decide)
    · cases hread
      exact ⟨_, rfl⟩

theorem readCandidate_some (h : PageServices fw held sound) {ascii : List UInt8} {u : Loader F} {a : Option Bytes × UInt64}
    (hread : (readCandidate fw.toFirmware ascii u).1 = some a) : ∃ image, a.1 = some image := by
  rw [readCandidate] at hread
  split at hread
  · cases hread
  · split at hread
    · cases hread
    next path hpath =>
      have hfile := fun st image size u' => @readFile_some F fw held sound h path u u' st image size
      generalize readFile fw.toFirmware path u = q at hread hfile
      obtain ⟨⟨s, image, size⟩, u₁⟩ := q
      simp only at hread
      split at hread
      · cases hread
      next hs =>
        rw [Bool.not_eq_true] at hs
        split at hread
        · cases hread
          exact hfile s image size u₁ rfl hs
        · cases hread

theorem uefiHealthStore_sound (h : PageServices fw held sound) (health : HealthRecord) {u : Loader F}
    (hsound : sound u.firmware) : sound (uefiHealthStore fw.toFirmware health u).firmware := by
  have hset := (h.healthVariable u.firmware hsound).2 health.bytes
  simp only [uefiHealthStore]
  split
  · exact hsound
  · split <;> exact hset

theorem uefiHealthLoad_sound (h : PageServices fw held sound) {u : Loader F} (hsound : sound u.firmware) :
    sound (uefiHealthLoad fw.toFirmware u).2.firmware := by
  have hget : sound (if fw.hasRuntime then fw.getVariable u.firmware
      else (efiNotFound, Health.recordSize.toUInt64, fun _ => 0, u.firmware)).2.2.2 := by
    split
    · exact (h.healthVariable _ hsound).1
    · exact hsound
  simp only [uefiHealthLoad]
  generalize (if fw.hasRuntime then fw.getVariable u.firmware
    else (efiNotFound, Health.recordSize.toUInt64, fun _ => 0, u.firmware)) = r at hget ⊢
  split
  · exact uefiHealthStore_sound h _ hget
  · exact hget

theorem selectKernel_some (h : PageServices fw held sound) (config : BootConfig) (health : HealthRecord) {u : Loader F}
    (hsound : sound u.firmware) {slot : BootSlot} {a : Option Bytes × UInt64}
    (hk : (selectKernel (uefiWorld fw.toFirmware config) config health u).kernel = some (slot, a)) :
    (∃ image, a.1 = some image) ∧
      sound (selectKernel (uefiWorld fw.toFirmware config) config health u).world.firmware := by
  rw [uefi_selectKernel_eq] at hk ⊢
  refine Stage2.selectKernel_made (I := fun u : Loader F => sound u.firmware)
    (Q := fun _ a u => (∃ image, a.1 = some image) ∧ sound u.firmware) ?_ ?_ ?_ ?_ ?_ config hsound hk
  · intro message u hu
    exact asBios_say (I := fun u : Loader F => sound u.firmware) (fun _ _ hu => hu) message hu
  · exact fun health u hu => uefiHealthStore_sound h health hu
  · exact fun slot u hu => (h.files.readCandidate (uefiKernelPath config slot) u).mpr hu
  · exact fun slot u a hu hread => ⟨readCandidate_some h hread, (h.files.readCandidate (uefiKernelPath config slot) u).mpr hu⟩
  · intro slot a message u hu
    exact asBios_say (I := fun u : Loader F => (∃ image, a.1 = some image) ∧ sound u.firmware) (fun _ _ hu => hu) message hu

theorem loadFiles_ok (h : PageServices fw held sound) {u u' : Loader F} {st : EfiStatus}
    {files : Option (BootConfig × Option Bytes × UInt64)} (hsound : sound u.firmware)
    (hload : loadFiles fw.toFirmware u = ((st, files), u')) (hst : efiError st = false) :
    (∃ cfg image size, files = some (cfg, some image, size) ∧ (cString cfg.commandLine).length ≤ Config.cmdlineMax) ∧
      sound u'.firmware := by
  have hroot := (h.files.openRoot u.firmware).mpr hsound
  rw [loadFiles] at hload
  generalize openRoot fw.toFirmware u.firmware = r at hload hroot
  obtain ⟨s, f⟩ := r
  simp only at hload hroot
  split at hload
  next hs =>
    cases hload
    rw [hst] at hs
    cases hs
  have hfile := (h.files.readFile cfgPath { u with firmware := f }).mpr hroot
  rw [cfgPath] at hfile
  generalize readFile fw.toFirmware _ _ = q at hload hfile
  obtain ⟨⟨s, cfg, size⟩, u₁⟩ := q
  simp only at hload hfile
  split at hload
  next hs =>
    cases hload
    rw [hst] at hs
    cases hs
  split at hload
  · cases hload
    exact absurd hst (by decide)
  cases cfg with
  | none =>
    cases hload
    exact absurd hst (by decide)
  | some cfg =>
    simp only at hload
    split at hload
    · cases hload
      exact absurd hst (by decide)
    next config hparse =>
      have hhealth := uefiHealthLoad_sound h (u := say "JOSHUEFI_CONFIG_OK\r\n" u₁) hfile
      generalize uefiHealthLoad fw.toFirmware _ = p at hload hhealth
      obtain ⟨health, u₂⟩ := p
      simp only at hload
      have hkernel := fun slot a => @selectKernel_some F fw held sound h config health u₂ hhealth slot a
      generalize selectKernel (uefiWorld fw.toFirmware config) config health u₂ = sel at hload hkernel
      obtain ⟨kernel, record, world⟩ := sel
      cases kernel with
      | none =>
        cases hload
        exact absurd hst (by decide)
      | some k =>
        obtain ⟨slot, image, size⟩ := k
        obtain ⟨⟨b, rfl⟩, hworld⟩ := hkernel slot _ rfl
        cases hload
        exact ⟨⟨config, b, size, rfl, cString_commandLine hparse⟩, hworld⟩

end

/-! ### Before the memory map -/

/-- The byte is held, and it is not in the page of the metadata. -/
def Own (held : F → Nat → Prop) (metadata : UInt64) (u : Loader F) (x : Nat) : Prop :=
  held u.firmware x ∧ (x < metadata.toNat ∨ metadata.toNat + 4096 ≤ x)

/-- What is in memory before the loader asks for the map: all of it is held. -/
structure Ready (fw : BootFirmware F) (held : F → Nat → Prop) (cfg : BootConfig) (image : Bytes) (size : UInt64) (s : Summary)
    (kp : UInt64) (mode : GraphicsMode) (p : Prepared) (u : Loader F) : Prop where
  line : (cString cfg.commandLine).length ≤ Config.cmdlineMax
  kernel : MadeKernel held image size s kp u
  entry : p.entry = s.entry
  metadata : p.metadata.toNat + 4096 ≤ 2 ^ 32
  page : ∀ x, p.metadata.toNat ≤ x → x < p.metadata.toNat + 4096 → held u.firmware x
  block : bootInfoAt u.mem p.metadata.toNat =
    { uefiBootInfo fw p.metadata s kp (cString cfg.commandLine) with framebuffer := gopFramebuffer mode }
  name : u.mem.slice (p.metadata.toNat + loaderNameOffset) uefiLoaderName.length = uefiLoaderName
  commandLine : cString cfg.commandLine ≠ [] →
    u.mem.slice (p.metadata.toNat + commandLineOffset) (cString cfg.commandLine).length = cString cfg.commandLine
  tables : ∀ m, (∀ x, p.root.toNat ≤ x → x < p.root.toNat + 48 * 4096 → m x = u.mem x) → TablesAt kp s p.root m
  stack : ∃ sp, p.stack.toNat = sp + 0x3ff0 ∧ sp % 4096 = 0 ∧ sp + 0x4000 ≤ 2 ^ 32 ∧
    ∀ x, sp ≤ x → x < sp + 0x4000 → Own held p.metadata u x ∧ u.mem x = 0
  pool : ∀ x, p.root.toNat ≤ x → x < p.root.toNat + 48 * 4096 → Own held p.metadata u x
  kernelPages : ∀ x, kp.toNat ≤ x → x < kp.toNat + 4096 * (pagesFor (s.virtualMax - s.virtualMin)).toNat →
    Own held p.metadata u x

theorem MadeKernel.placed_kept {held : F → Nat → Prop} {image : Bytes} {size : UInt64} {s : Summary} {kp : UInt64}
    {u : Loader F} (h : MadeKernel held image size s kp u) {m : Bytes} (hm : ∀ x, kp.toNat ≤ x →
      x < kp.toNat + 4096 * (pagesFor (s.virtualMax - s.virtualMin)).toNat → m x = u.mem x) : Placed image s kp m := by
  have hs := Elf64.validateImage_ok h.is_valid
  have hpages := toNat_pagesFor (n := s.virtualMax - s.virtualMin) (by rw [toNat_span h.fits.nonempty]; exact h.fits.span)
  rw [toNat_span h.fits.nonempty] at hpages
  intro p hp
  obtain ⟨hdata, hzero⟩ := h.placed p hp
  have hmin := hs.min_le p hp
  have hmax : p.vaddr.toNat + p.memsz.toNat ≤ s.virtualMax.toNat := hs.le_max p hp
  have hfile := (Elf64.validateLoadSegment_ok (hs.ok p hp)).file_le
  refine ⟨fun j hj => ?_, fun j h₁ h₂ => ?_⟩
  · rw [hm _ (by omega) (by omega), hdata j hj]
  · rw [hm _ (by omega) (by omega), hzero j h₁ h₂]

theorem MadeKernel.kept {held : F → Nat → Prop} {image : Bytes} {size : UInt64} {s : Summary} {kp : UInt64} {u u' : Loader F}
    (h : MadeKernel held image size s kp u) (hheld : ∀ x, held u.firmware x → held u'.firmware x)
    (hmem : ∀ x, held u.firmware x → u'.mem x = u.mem x) : MadeKernel held image size s kp u' :=
  { h with
    placed := h.placed_kept fun x h₁ h₂ => hmem x (h.pages x h₁ h₂)
    pages := fun x h₁ h₂ => hheld x (h.pages x h₁ h₂) }

theorem slice_kept {m m' : Bytes} {a n : Nat} (h : ∀ x, a ≤ x → x < a + n → m' x = m x) : m'.slice a n = m.slice a n :=
  slice_of_window fun k hk => h (a + k) (by omega) (by omega)

section
variable {fw : BootFirmware F} {held : F → Nat → Prop} {sound : F → Prop}

theorem fillFb_sound (h : PageServices fw held sound) {fb : Nat} {u u' : Loader F} {s : EfiStatus}
    (hfill : fillFb fw fb u = (s, u')) (hsound : sound u.firmware) : sound u'.firmware := by
  have hsound' := h.graphics _ hsound
  rw [fillFb] at hfill
  simp only at hfill
  split at hfill
  · cases hfill
    exact hsound'
  · split at hfill
    · cases hfill
      exact hsound'
    split at hfill <;> cases hfill <;> exact hsound'

theorem ready_of (h : PageServices fw held sound) {cfg : BootConfig} {image : Bytes} {size kp ma root stack : UInt64} {s : Summary}
    {u₂ u₃ u₄ u₅ : Loader F} {s₃ s₄ s₅ : EfiStatus} (hline : (cString cfg.commandLine).length ≤ Config.cmdlineMax)
    (hsound : sound u₂.firmware) (hkernel : MadeKernel held image size s kp u₂) (hmeta : allocLow fw.toFirmware 1 u₂ = ((s₃, ma), u₃))
    (hs₃ : efiError s₃ = false)
    (hfb : fillFb fw (ma.toNat + framebufferOffset) { u₃ with mem := fillMeta fw ma s kp cfg u₃.mem } = (s₄, u₄))
    (hs₄ : efiError s₄ = false) (hbuild : buildTables fw.toFirmware kp s u₄ = ((s₅, root, stack), u₅))
    (hs₅ : efiError s₅ = false) :
    ∃ mode, Ready fw held cfg image size s kp mode { root, stack, entry := s.entry, metadata := ma } u₅ := by
  have hsize : metadataSize = 3456 := rfl
  have hblock : Stage2.bootInfoSize = 224 := rfl
  have hname : loaderNameOffset = 3424 := rfl
  have hcmd : commandLineOffset = 3296 := rfl
  have hnameLen : uefiLoaderName.length = 19 := rfl
  have hmax : Config.cmdlineMax = 127 := rfl
  obtain ⟨-, hlow, hfresh⟩ := allocLow_fresh h.toBootServices hmeta hs₃
  rw [show (1 : UInt64).toNat = 1 from rfl] at hlow hfresh
  obtain ⟨mode, -, hfbBlock, hfbOut⟩ := fillFb_ok hfb hs₄
  simp only [fillMeta_bootInfo fw ma s kp hline] at hfbBlock hfbOut
  have hmem₃ := allocLow_mem hmeta
  have hsound₃ := allocLow_sound h hmeta hsound
  have hheld₄ : ∀ x, held u₃.firmware x → held u₄.firmware x := fun x hx => fillFb_held h.toBootServices hfb hx
  -- what was held before is not in the page
  have hout : ∀ x, held u₂.firmware x → x < ma.toNat ∨ ma.toNat + 4096 ≤ x := fun x hx => by
    by_contra hin
    exact (hfresh x (by omega) (by omega)).1 hx
  have hkept : ∀ x, held u₂.firmware x → u₄.mem x = u₂.mem x := fun x hx => by
    have := hout x hx
    rw [hfbOut x (by omega), fillMeta_outside fw ma s kp hline _ (by omega), hmem₃]
  have hkernel₄ := hkernel.kept (fun x hx => hheld₄ x (allocLow_held h.toBootServices hmeta hx)) hkept
  have hpage₄ : ∀ x, ma.toNat ≤ x → x < ma.toNat + 4096 → held u₄.firmware x := fun x h₁ h₂ =>
    hheld₄ x (hfresh x h₁ (by omega)).2
  have hmade := buildTables_made h (fillFb_sound h hfb hsound₃) hbuild hs₅ hkernel.fits hkernel.aligned
    (Nat.le_trans hkernel.below (by decide))
  have hheld₅ : ∀ x, held u₄.firmware x → held u₅.firmware x := fun x hx => buildTables_held h.toBootServices hbuild hx
  have hpage₅ : ∀ x, ma.toNat ≤ x → x < ma.toNat + 4096 → u₅.mem x = u₄.mem x := fun x h₁ h₂ =>
    hmade.kept x (hpage₄ x h₁ h₂)
  obtain ⟨htextName, htextLine⟩ := fillMeta_texts fw ma s kp hline u₃.mem
  have htext : ∀ x, ma.toNat + Stage2.bootInfoSize ≤ x → x < ma.toNat + 4096 →
      u₅.mem x = fillMeta fw ma s kp cfg u₃.mem x := fun x h₁ h₂ => (hpage₅ x (by omega) h₂).trans (hfbOut x (.inr h₁))
  -- what was not held before is not in the page either
  have hfree : ∀ x, ¬ held u₄.firmware x → x < ma.toNat ∨ ma.toNat + 4096 ≤ x := fun x hx => by
    by_contra hin
    exact hx (hpage₄ x (by omega) (by omega))
  obtain ⟨sp, hsp, haligned, hbelow, hstack⟩ := hmade.stack
  refine ⟨mode, hline, hkernel₄.kept hheld₅ hmade.kept, rfl, by omega, fun x h₁ h₂ => hheld₅ x (hpage₄ x h₁ h₂), ?_, ?_,
    fun hsome => ?_, hmade.tables, ⟨sp, hsp, haligned, hbelow, fun x h₁ h₂ => ?_⟩, fun x h₁ h₂ => ?_, fun x h₁ h₂ => ?_⟩
  · show bootInfoAt u₅.mem ma.toNat = _
    rw [← hfbBlock]
    exact bootInfoAt_congr fun x h₁ h₂ => hpage₅ x h₁ (by omega)
  · show u₅.mem.slice (ma.toNat + loaderNameOffset) _ = _
    exact (slice_kept fun x h₁ h₂ => htext x (by omega) (by omega)).trans htextName
  · show u₅.mem.slice (ma.toNat + commandLineOffset) _ = _
    exact (slice_kept fun x h₁ h₂ => htext x (by omega) (by omega)).trans (htextLine hsome)
  · obtain ⟨⟨hnot, hheld⟩, hzero⟩ := hstack x h₁ h₂
    exact ⟨⟨hheld, hfree x hnot⟩, hzero⟩
  · obtain ⟨hnot, hheld⟩ := hmade.pool x h₁ h₂
    exact ⟨hheld, hfree x hnot⟩
  · have hheld := hkernel.pages x h₁ h₂
    exact ⟨hheld₅ x (hheld₄ x (allocLow_held h.toBootServices hmeta hheld)), hout x hheld⟩

theorem prepare_ready (h : PageServices fw held sound) {sum : Summary} {seg : LoadSegment} {u u' : Loader F} {p : Prepared}
    (hsound : sound u.firmware) (hprep : prepare fw sum seg u = (.ok p, u')) :
    ∃ cfg image size s kp mode, (loadFiles fw.toFirmware u).1.2 = some (cfg, some image, size) ∧
      Ready fw held cfg image size s kp mode p u' := by
  unfold prepare at hprep
  extract_lets loaded at hprep
  split at hprep
  next s₁ files u₁ hfiles =>
    split at hprep
    · cases hprep
    next hs₁ =>
      rw [Bool.not_eq_true] at hs₁
      obtain ⟨⟨cfg, image, size, rfl, hline⟩, hsound₁⟩ := loadFiles_ok h hsound hfiles hs₁
      split at hprep
      · cases hprep
      split at hprep
      next cfg' ki kis hget =>
        cases hget
        split at hprep
        next s₂ s kp u₂ hload =>
          split at hprep
          · cases hprep
          next hs₂ =>
            rw [Bool.not_eq_true] at hs₂
            obtain ⟨hkernel, hsound₂⟩ := loadElf_made h hsound₁ hload hs₂
            split at hprep
            next s₃ ma u₃ hmeta =>
              split at hprep
              · cases hprep
              next hs₃ =>
                rw [Bool.not_eq_true] at hs₃
                split at hprep
                next s₄ u₄ hfb =>
                  split at hprep
                  · cases hprep
                  next hs₄ =>
                    rw [Bool.not_eq_true] at hs₄
                    split at hprep
                    next s₅ root stack u₅ hbuild =>
                      split at hprep
                      · cases hprep
                      next hs₅ =>
                        rw [Bool.not_eq_true] at hs₅
                        cases hprep
                        obtain ⟨mode, hready⟩ := ready_of h hline hsound₂ hkernel hmeta hs₃ hfb hs₄ hbuild hs₅
                        exact ⟨cfg, image, size, s, kp, mode, congrArg (fun r => r.1.2) hfiles, hready⟩

end

/-! ### The memory map -/

/-- What `capture_map` may write of the block: the entries, and their number. -/
def MapField (metadata : UInt64) (x : Nat) : Prop :=
  metadata.toNat + entriesOffset ≤ x ∧ x < metadata.toNat + entriesOffset + 4 ∨
    metadata.toNat + memoryMapOffset ≤ x ∧ x < metadata.toNat + commandLineOffset

theorem captureLoop_kept (raw metadata ds size : UInt64) (fuel : Nat) (off : UInt64) (n : Nat) (m : Bytes) {x : Nat}
    (hx : ¬ MapField metadata x) : (captureLoop raw metadata ds size fuel off n m).2.2 x = m x := by
  induction fuel generalizing off n m with
  | zero => rfl
  | succ fuel ih =>
    rw [captureLoop]
    split
    · rfl
    simp only
    split
    · exact ih (off + ds) n m
    · split
      · rfl
      next hroom =>
        rw [ih]
        have hentry : entryAddress metadata n = metadata.toNat + memoryMapOffset + 24 * n := rfl
        have hlen := (descriptorAt m (raw.toNat + off.toNat)).entry.length_bytes
        rw [show Stage2.memoryMapEntrySize = 24 from rfl] at hlen
        have hcmd : commandLineOffset = memoryMapOffset + 128 * 24 := rfl
        have hfew : n < 128 := Nat.lt_of_not_le hroom
        rcases Nat.lt_or_ge x (metadata.toNat + memoryMapOffset) with hlt | hge
        · exact Bytes.write_of_lt _ _ (by omega)
        · have hbeyond : metadata.toNat + commandLineOffset ≤ x := Nat.le_of_not_lt fun hlt => hx (.inr ⟨hge, hlt⟩)
          exact Bytes.write_of_le _ _ (by omega)

section
variable {fw : BootFirmware F} {held : F → Nat → Prop} {sound : F → Prop}

theorem captureMap_kept (h : BootServices fw held) {raw cap metadata : UInt64} {u u' : Loader F} {r : EfiStatus × UInt64}
    (hcapture : captureMap fw raw cap metadata u = (r, u')) {x : Nat} (hraw : x < raw.toNat ∨ raw.toNat + cap.toNat ≤ x)
    (hx : ¬ MapField metadata x) : u'.mem x = u.mem x := by
  have hfits := h.fits cap u.firmware
  rw [captureMap] at hcapture
  generalize fw.getMemoryMap cap u.firmware = q at hcapture hfits
  obtain ⟨a, f⟩ := q
  simp only at hcapture hfits
  have hbuffer : (if efiError a.status then u.mem else u.mem.write raw.toNat (a.data.slice 0 a.size.toNat)) x = u.mem x := by
    split
    · rfl
    next hs =>
      rw [Bool.not_eq_true] at hs
      have hsize := UInt64.le_iff_toNat_le.1 (hfits hs)
      rcases hraw with hlt | hge
      · exact Bytes.write_of_lt _ _ hlt
      · exact Bytes.write_of_le _ _ (by rw [Bytes.length_slice]; omega)
  split at hcapture
  · cases hcapture
    exact hbuffer
  · have hloop := captureLoop_kept raw metadata a.descriptorSize a.size (a.size.toNat / a.descriptorSize.toNat + 1) 0 0
      (if efiError a.status then u.mem else u.mem.write raw.toNat (a.data.slice 0 a.size.toNat)) hx
    generalize captureLoop raw metadata a.descriptorSize a.size _ 0 0 _ = l at hcapture hloop
    obtain ⟨s, n, m⟩ := l
    simp only at hcapture hloop
    split at hcapture
    · cases hcapture
      exact hloop.trans hbuffer
    · cases hcapture
      show Stage2.store m (metadata.toNat + entriesOffset) 4 n x = u.mem x
      rw [← hbuffer, ← hloop, Stage2.store]
      have hlen := length_leBytes 4 n
      rcases Nat.lt_or_ge x (metadata.toNat + entriesOffset) with hlt | hge
      · exact Bytes.write_of_lt _ _ hlt
      · exact Bytes.write_of_le _ _ (by
          rw [hlen]
          exact Nat.le_of_not_lt fun hlt => hx (.inl ⟨hge, hlt⟩))

theorem exitLoop_kept (h : BootServices fw held) {raw cap metadata : UInt64} {n : Nat} {u u' : Loader F} {s : EfiStatus}
    (hloop : exitLoop fw raw cap metadata n u = (s, u')) {x : Nat} (hraw : x < raw.toNat ∨ raw.toNat + cap.toNat ≤ x)
    (hx : ¬ MapField metadata x) : u'.mem x = u.mem x := by
  induction n generalizing u with
  | zero =>
    cases hloop
    rfl
  | succ n ih =>
    rw [exitLoop] at hloop
    have hthis := fun r u₁ => @captureMap_kept F fw held h raw cap metadata u u₁ r
    generalize captureMap fw raw cap metadata u = q at hloop hthis
    obtain ⟨⟨s₁, key⟩, u₁⟩ := q
    have hkept := hthis (s₁, key) u₁ rfl hraw hx
    simp only at hloop
    split at hloop
    · cases hloop
      exact hkept
    split at hloop
    · cases hloop
      exact hkept
    split at hloop
    · cases hloop
      exact hkept
    · exact (ih hloop).trans hkept

theorem allocMap_mem {raw cap : UInt64} {u u' : Loader F} (halloc : allocMap fw u = (.ok (raw, cap), u')) : u'.mem = u.mem := by
  unfold allocMap at halloc
  split at halloc
  next a f hmap =>
    extract_lets u₀ need at halloc
    split at halloc
    · cases halloc
    split at halloc
    next s raw' u₁ hpages =>
      split at halloc
      · cases halloc
      · cases halloc
        have hmem := allocLow_mem hpages
        exact hmem

end

/-! ### The hand-over -/

/-- The byte of a segment for the address `v`. -/
def segmentByte (image : Bytes) (p : ProgramHeader) (v : UInt64) : UInt8 :=
  if v.toNat - p.vaddr.toNat < p.filesz.toNat then image (p.offset.toNat + (v.toNat - p.vaddr.toNat)) else 0

/-- The segments at their addresses, through the tables at `root`. -/
def Readable (image : Bytes) (root : UInt64) (m : Bytes) : Prop :=
  ∀ p ∈ segments image, ∀ v : UInt64, p.vaddr.toNat ≤ v.toNat → v.toNat < p.vend →
    ∃ a, translate m root v = some a ∧ m a = segmentByte image p v

/-- What the kernel starts with: its image, the tables, the stack and the block. -/
structure KernelStart (fw : BootFirmware F) (cfg : BootConfig) (image : Bytes) (size : UInt64) (root stack entry info : UInt64)
    (m : Bytes) : Prop where
  kernel : ∃ s kp mode, Elf64.validateImage image size = .ok s ∧ s.entry = entry ∧
    (bootInfoAt m info.toNat).Announces m s (cString cfg.commandLine) uefiLoaderName ∧
    UefiInfo fw mode info kp (bootInfoAt m info.toNat) ∧
    Placed image s kp m ∧ (Mapped s kp m root ↔ s.virtualMin.toNat % 4096 = 0) ∧
    (s.virtualMin.toNat % 4096 = 0 → Readable image root m)
  low : ∀ v : UInt64, v.toNat < 2 ^ 32 → translate m root v = some v.toNat
  stack : stack.toNat % 16 = 0 ∧ stack.toNat + 16 ≤ 2 ^ 32 ∧
    ∀ x, stack.toNat + 16 ≤ x + 0x4000 → x < stack.toNat + 16 → m x = 0

section
variable {image : Bytes} {size : UInt64} {s : Summary} {kp root : UInt64} {m : Bytes}

theorem TablesAt.mapped_iff (h : TablesAt kp s root m) (hv : Elf64.validateImage image size = .ok s) (hfit : Fits s)
    (hkp : kp.toNat % 4096 = 0) : Mapped s kp m root ↔ s.virtualMin.toNat % 4096 = 0 := by
  have hne := hfit.nonempty
  refine ⟨fun hmapped => ?_, fun haligned => ?_⟩
  · have hfirst := hmapped.all s.virtualMin (UInt64.le_refl _) (UInt64.lt_iff_toNat_lt.2 hne)
    rw [translate, ← Nat.add_zero (pageOf s.virtualMin), h.kernel 0 (by omega), Option.map_some] at hfirst
    have := Option.some.inj hfirst
    omega
  · have hfloor : 0xffffffff80000000 ≤ s.virtualMin.toNat := hfit.floor
    have hall : ∀ v : UInt64, s.virtualMin ≤ v → v < s.virtualMax →
        translate m root v = some (kp.toNat + (v.toNat - s.virtualMin.toNat)) := by
      intro v hmin hmax
      have h₁ := UInt64.le_iff_toNat_le.1 hmin
      have h₂ := UInt64.lt_iff_toNat_lt.1 hmax
      have hlt := v.toNat_lt
      have hpage : pageOf v = pageOf s.virtualMin + (v.toNat - s.virtualMin.toNat) / 4096 := by
        rw [pageOf, pageOf]
        omega
      rw [translate, hpage, h.kernel _ (by omega), Option.map_some, Option.some.injEq]
      omega
    obtain ⟨h₁, h₂⟩ := entry_inside (Elf64.validateImage_ok hv)
    exact ⟨hall, hall s.entry h₁ h₂⟩

theorem Placed.readable (h : Placed image s kp m) (hmapped : Mapped s kp m root) (hs : Elf64.Segments image size s) :
    Readable image root m := by
  intro p hp v hlow hhigh
  have hmin := hs.min_le p hp
  have hmax : p.vend ≤ s.virtualMax.toNat := hs.le_max p hp
  have hvend : p.vend = p.vaddr.toNat + p.memsz.toNat := rfl
  obtain ⟨hdata, hzero⟩ := h p hp
  have hplace : kp.toNat + (v.toNat - s.virtualMin.toNat) =
      kp.toNat + (p.vaddr.toNat - s.virtualMin.toNat) + (v.toNat - p.vaddr.toNat) := by omega
  refine ⟨_, hmapped.all v (UInt64.le_iff_toNat_le.2 (by omega)) (UInt64.lt_iff_toNat_lt.2 (by omega)), ?_⟩
  rw [hplace, segmentByte]
  split
  next hfile => exact hdata _ hfile
  next hbss => exact hzero _ (Nat.le_of_not_lt hbss) (by omega)

end

/-- What is held at the hand-over. -/
theorem Ready.kernelStart {fw : BootFirmware F} {held : F → Nat → Prop} {cfg : BootConfig} {image : Bytes} {size : UInt64}
    {s : Summary} {kp : UInt64} {mode : GraphicsMode} {p : Prepared} {u : Loader F}
    (h : Ready fw held cfg image size s kp mode p u) {m : Bytes}
    (hm : ∀ x, held u.firmware x → ¬ MapField p.metadata x → m x = u.mem x) :
    KernelStart fw cfg image size p.root p.stack p.entry p.metadata m := by
  have hmeta := h.metadata
  have hfields {x : Nat} : MapField p.metadata x ↔ p.metadata.toNat + 40 ≤ x ∧ x < p.metadata.toNat + 44 ∨
    p.metadata.toNat + 224 ≤ x ∧ x < p.metadata.toNat + 3296 := Iff.rfl
  have hname : loaderNameOffset = 3424 := rfl
  have hcmd : commandLineOffset = 3296 := rfl
  have hnameLen : uefiLoaderName.length = 19 := rfl
  have hmax : Config.cmdlineMax = 127 := rfl
  have hline := h.line
  have hown : ∀ x, Own held p.metadata u x → m x = u.mem x := fun x hx => hm x hx.1 fun hfield => by
    have := hx.2
    rw [hfields] at hfield
    omega
  have hpage : ∀ x, p.metadata.toNat ≤ x → x < p.metadata.toNat + 4096 → ¬ MapField p.metadata x → m x = u.mem x :=
    fun x h₁ h₂ hx => hm x (h.page x h₁ h₂) hx
  have hblock : bootInfoAt m p.metadata.toNat = { uefiBootInfo fw p.metadata s kp (cString cfg.commandLine) with
      framebuffer := gopFramebuffer mode, memoryMapEntries := le32 m (p.metadata.toNat + 40) } := by
    rw [bootInfoAt_entries (m := u.mem) fun x h₁ h₂ hx => hpage x h₁ ?_ ?_, h.block]
    · rw [show Stage2.bootInfoSize = 224 from rfl] at h₂
      omega
    · rw [show Stage2.bootInfoSize = 224 from rfl] at h₂
      rw [hfields]
      omega
  obtain ⟨hann, htold⟩ := uefiBootInfo_announces fw mode s kp (le32 m (p.metadata.toNat + 40)) (m := m)
    (show p.metadata.toNat + metadataSize ≤ 2 ^ 32 from Nat.le_trans (Nat.add_le_add_left (by decide) _) hmeta) hline
    ((slice_kept fun x h₁ h₂ => hpage x (by omega) (by omega) (by rw [hfields]; omega)).trans h.name)
    (fun hsome => (slice_kept fun x h₁ h₂ => hpage x (by omega) (by omega) (by rw [hfields]; omega)).trans
      (h.commandLine hsome)) hblock
  have htables := h.tables m fun x h₁ h₂ => hown x (h.pool x h₁ h₂)
  have hplaced := h.kernel.placed_kept fun x h₁ h₂ => hown x (h.kernelPages x h₁ h₂)
  have hmapped := htables.mapped_iff h.kernel.is_valid h.kernel.fits h.kernel.aligned
  refine ⟨⟨s, kp, mode, h.kernel.is_valid, h.entry.symm, hann, htold, hplaced, hmapped, fun haligned =>
    hplaced.readable (hmapped.2 haligned) (Elf64.validateImage_ok h.kernel.is_valid)⟩, htables.identity, ?_⟩
  obtain ⟨sp, hsp, haligned, hbelow, hstack⟩ := h.stack
  refine ⟨by omega, by omega, fun x h₁ h₂ => ?_⟩
  obtain ⟨hx, hzero⟩ := hstack x (by omega) (by omega)
  rw [hown x hx, hzero]

/-- With a firmware whose pages are its own, whatever it answers: when the loader hands over, the kernel is the image that
the files gave, at its place; the tables map it there just when it begins on a page, and the low addresses to
themselves; the stack is free; and the block announces it all. -/
theorem efi_booted_kernel {fw : BootFirmware F} {held : F → Nat → Prop} {sound : F → Prop}
    (h : PageServices fw held sound) {sum : Summary} {seg : LoadSegment} {u u' : Loader F} (hsound : sound u.firmware)
    {root stack entry info : UInt64} (hmain : efiMain fw sum seg u = (.handoff root stack entry info, u')) :
    ∃ cfg image size, (loadFiles fw.toFirmware (say "JOSHUEFI_ENTRY_OK\r\n" u)).1.2 = some (cfg, some image, size) ∧
      KernelStart fw cfg image size root stack entry info u'.mem := by
  unfold efiMain at hmain
  extract_lets u₀ at hmain
  split at hmain
  · cases hmain
  split at hmain
  · cases hmain
  next p u₁ hprep =>
    split at hmain
    · cases hmain
    next raw cap u₂ halloc =>
      split at hmain
      next st u₃ hloop =>
        split at hmain
        · cases hmain
        next hst =>
          obtain ⟨cfg, image, size, s, kp, mode, hfiles, hready⟩ := prepare_ready h (show sound u₀.firmware from hsound) hprep
          obtain ⟨-, -, hfree⟩ := allocMap_free h.toBootServices halloc
          have hmem₂ := allocMap_mem halloc
          -- held before the map was asked for, and not of the map
          have hkept : ∀ x, held u₁.firmware x → ¬ MapField p.metadata x → u₃.mem x = u₁.mem x := fun x hx hnot => by
            have hout : x < raw.toNat ∨ raw.toNat + cap.toNat ≤ x := by
              by_contra hin
              exact hfree x (by omega) (by omega) hx
            rw [exitLoop_kept h.toBootServices hloop hout hnot, hmem₂]
          cases hmain
          exact ⟨cfg, image, size, hfiles, hready.kernelStart hkept⟩

theorem pageServices_tapeFirmware :
    PageServices tapeFirmware (fun f x => x < f.1.toNat) fun f => f.1.toNat % 4096 = 0 where
  toBootServices := bootServices_tapeFirmware
  aligned n f hsound hs := by
    simp only [tapeFirmware] at hs ⊢
    split at hs
    next hroom => rwa [if_pos hroom]
    · exact absurd (show efiError efiOutOfResources = false from hs) (by decide)
  opened path f _ := ⟨_, rfl⟩
  files := ⟨fun _ => rfl, fun _ => rfl, fun _ => rfl, fun _ _ => rfl, fun _ _ => rfl, fun _ _ _ => rfl, fun _ _ => rfl,
    fun _ _ _ => rfl⟩
  healthVariable f hsound := ⟨hsound, fun _ => hsound⟩
  pages n f hsound := by
    simp only [tapeFirmware]
    split
    next hroom =>
      rw [UInt64.toNat_add, UInt64.toNat_mul, show (4096 : UInt64).toNat = 4096 from rfl]
      omega
    · exact hsound
  graphics f hsound := hsound

theorem efi_booted_kernel_tape : ∃ root stack entry info u', tapeBoot grownAnswer = (.handoff root stack entry info, u') ∧
    KernelStart (traced tapeFirmware) loneKernelConfig lowKernel 124 root stack entry info u'.mem := by
  obtain ⟨root, stack, entry, info, u', hmain, -⟩ := @tapeBoot_full grownAnswer rfl (by decide) (by decide) (by decide)
  obtain ⟨cfg, image, size, hfiles, hstart⟩ := @efi_booted_kernel _ _ _ _ pageServices_tapeFirmware.traced ⟨0, 0, 0, 0⟩
    ⟨0, 0, 0, 0, 0, 0⟩ (tapeLoader grownAnswer) u' (by decide) root stack entry info hmain
  obtain ⟨u₁, htape, -⟩ := loadFiles_tape (say "JOSHUEFI_ENTRY_OK\r\n" (tapeLoader grownAnswer))
  rw [htape] at hfiles
  cases hfiles
  exact ⟨root, stack, entry, info, u', hmain, hstart⟩

end JoshBios.Uefi
