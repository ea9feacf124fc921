import JoshBios.UefiKernel

/-! # The pool of page tables

`build_tables` takes its tables from a pool of 48 pages with `pt_alloc`. The lists of this module are what `pt_alloc`
returned, call by call, in the order of the code; `Hands` is what they are for any pool: the cursor as it moves on, and
null once it is at the end. That the cursor does not get there is `fillPool_spec`. -/

namespace JoshBios.Uefi

open Elf64 (Summary)
open Tables (walk)

variable {F : Type}

/-! ### The calls -/

/-- `pt_alloc` in one level of `map4k`. -/
def nextTableCalls (t : UInt64) (i : Nat) (p : PageTablePool) (m : Bytes) : List UInt64 :=
  if entryAt m t i &&& pagePresent = 0 then [(ptAlloc p m).1] else []

def map4kCalls (p : PageTablePool) (pml4 v : UInt64) (m : Bytes) : List UInt64 :=
  nextTableCalls pml4 (tableIndex v 39) p m ++
    match nextTable false pml4 (tableIndex v 39) p m with
    | (none, _, _) => []
    | (some pdpt, p, m) =>
      nextTableCalls pdpt (tableIndex v 30) p m ++
        match nextTable true pdpt (tableIndex v 30) p m with
        | (none, _, _) => []
        | (some pd, p, m) => nextTableCalls pd (tableIndex v 21) p m

def identityCalls (pdpt : UInt64) : (n g : Nat) → PageTablePool → Bytes → List UInt64
  | 0, _, _, _ => []
  | n + 1, g, p, m =>
    let (pd, p, m) := ptAlloc p m
    pd :: if pd = 0 then [] else
      identityCalls pdpt n (g + 1) p (identityEntries pd g 512 0 (setEntry m pdpt g (pd ||| pagePresent ||| pageRw)))

def kernelCalls (pml4 virt kp : UInt64) : (n : Nat) → (i : UInt64) → PageTablePool → Bytes → List UInt64
  | 0, _, _, _ => []
  | n + 1, i, p, m =>
    map4kCalls p pml4 (virt + i * pageSize) m ++
      match map4k p pml4 (virt + i * pageSize) (kp + i * pageSize) m with
      | (false, _, _) => []
      | (true, p, m) => kernelCalls pml4 virt kp n (i + 1) p m

/-- The calls of `build_tables`. -/
def fillPoolCalls (p : PageTablePool) (kp : UInt64) (s : Summary) (m : Bytes) : List UInt64 :=
  let (pml4, p, m) := ptAlloc p m
  let (pdpt, p, m) := ptAlloc p m
  pml4 :: pdpt :: if pml4 = 0 || pdpt = 0 then [] else
    let m := setEntry m pml4 0 (pdpt ||| pagePresent ||| pageRw)
    identityCalls pdpt identityGib 0 p m ++
      match identityLoop pdpt identityGib 0 p m with
      | (false, _, _) => []
      | (true, p, m) => kernelCalls pml4 s.virtualMin kp (pagesFor (s.virtualMax - s.virtualMin)).toNat 0 p m

/-! ### What a pool hands out -/

inductive Hands : PageTablePool → List UInt64 → PageTablePool → Prop
  | done (p : PageTablePool) : Hands p [] p
  | page {p p' : PageTablePool} {l : List UInt64} : p.cursor < p.end_ →
      Hands { p with cursor := p.cursor + pageSize } l p' → Hands p (p.cursor :: l) p'
  | null {p p' : PageTablePool} {l : List UInt64} : p.end_ ≤ p.cursor → Hands p l p' → Hands p (0 :: l) p'

theorem Hands.append {p p' p'' : PageTablePool} {l l' : List UInt64} (h : Hands p l p') (h' : Hands p' l' p'') :
    Hands p (l ++ l') p'' := by
  induction h with
  | done p => exact h'
  | page hlt _ ih => exact .page hlt (ih h')
  | null hle _ ih => exact .null hle (ih h')

theorem hands_ptAlloc (p : PageTablePool) (m : Bytes) {l : List UInt64} {p' : PageTablePool}
    (h : Hands (ptAlloc p m).2.1 l p') : Hands p ((ptAlloc p m).1 :: l) p' := by
  by_cases hge : p.cursor ≥ p.end_
  · rw [ptAlloc, if_pos hge] at h ⊢
    exact .null hge h
  · rw [ptAlloc, if_neg hge] at h ⊢
    exact .page (UInt64.not_le.1 hge) h

theorem hands_nextTable (checkPs : Bool) (t : UInt64) (i : Nat) (p : PageTablePool) (m : Bytes) :
    Hands p (nextTableCalls t i p m) (nextTable checkPs t i p m).2.1 := by
  unfold nextTableCalls nextTable
  simp only
  by_cases hfree : entryAt m t i &&& pagePresent = 0
  · simp only [hfree, if_true]
    refine hands_ptAlloc p m ?_
    by_cases hz : (ptAlloc p m).1 = 0
    · simp only [hz, if_true]
      exact .done _
    · simp only [hz, if_false]
      exact .done _
  · simp only [hfree, if_false]
    split
    · exact .done p
    · exact .done p

theorem hands_map4k (p : PageTablePool) (pml4 v ph : UInt64) (m : Bytes) :
    Hands p (map4kCalls p pml4 v m) (map4k p pml4 v ph m).2.1 := by
  unfold map4kCalls map4k
  have h₂ := hands_nextTable false pml4 (tableIndex v 39) p m
  generalize nextTable false pml4 (tableIndex v 39) p m = r₂ at h₂
  obtain ⟨pdpt, p₂, m₂⟩ := r₂
  refine h₂.append ?_
  cases pdpt with
  | none => exact .done _
  | some pdpt =>
    simp only
    have h₁ := hands_nextTable true pdpt (tableIndex v 30) p₂ m₂
    generalize nextTable true pdpt (tableIndex v 30) p₂ m₂ = r₁ at h₁
    obtain ⟨pd, p₁, m₁⟩ := r₁
    refine h₁.append ?_
    cases pd with
    | none => exact .done _
    | some pd =>
      simp only
      have h₀ := hands_nextTable true pd (tableIndex v 21) p₁ m₁
      generalize nextTable true pd (tableIndex v 21) p₁ m₁ = r₀ at h₀
      obtain ⟨pt, p₀, m₀⟩ := r₀
      cases pt with
      | none => exact h₀
      | some pt => exact h₀

theorem hands_identityLoop (pdpt : UInt64) (n g : Nat) (p : PageTablePool) (m : Bytes) :
    Hands p (identityCalls pdpt n g p m) (identityLoop pdpt n g p m).2.1 := by
  induction n generalizing g p m with
  | zero => exact .done p
  | succ n ih =>
    rw [identityCalls, identityLoop]
    simp only
    refine hands_ptAlloc p m ?_
    split
    · exact .done _
    · exact ih _ _ _

theorem hands_kernelLoop (pml4 virt kp : UInt64) (n : Nat) (i : UInt64) (p : PageTablePool) (m : Bytes) :
    Hands p (kernelCalls pml4 virt kp n i p m) (kernelLoop pml4 virt kp n i p m).2.1 := by
  induction n generalizing i p m with
  | zero => exact .done p
  | succ n ih =>
    rw [kernelCalls, kernelLoop]
    have h := hands_map4k p pml4 (virt + i * pageSize) (kp + i * pageSize) m
    generalize map4k p pml4 (virt + i * pageSize) (kp + i * pageSize) m = r at h
    obtain ⟨ok, p', m'⟩ := r
    refine h.append ?_
    cases ok with
    | false => exact .done _
    | true => exact ih _ _ _

theorem hands_fillPool (p : PageTablePool) (kp : UInt64) (s : Summary) (m : Bytes) :
    Hands p (fillPoolCalls p kp s m) (fillPool p kp s m).2.2.1 := by
  rw [fillPoolCalls, fillPool]
  have h₁ := fun l p' => @hands_ptAlloc p m l p'
  generalize ptAlloc p m = r₁ at h₁
  obtain ⟨pml4, p₁, m₁⟩ := r₁
  have h₂ := fun l p' => @hands_ptAlloc p₁ m₁ l p'
  simp only
  generalize ptAlloc p₁ m₁ = r₂ at h₂
  obtain ⟨pdpt, p₂, m₂⟩ := r₂
  simp only
  refine h₁ _ _ (h₂ _ _ ?_)
  split
  · exact .done _
  have h₃ := hands_identityLoop pdpt identityGib 0 p₂ (setEntry m₂ pml4 0 (pdpt ||| pagePresent ||| pageRw))
  generalize identityLoop pdpt identityGib 0 p₂ (setEntry m₂ pml4 0 (pdpt ||| pagePresent ||| pageRw)) = r₃ at h₃
  obtain ⟨ok₃, p₃, m₃⟩ := r₃
  refine h₃.append ?_
  cases ok₃ with
  | false => exact .done _
  | true => exact hands_kernelLoop _ _ _ _ _ _ _

theorem Hands.pages {p p' : PageTablePool} {l : List UInt64} (h : Hands p l p') {base used top : Nat}
    (hcur : p.cursor.toNat = 4096 * (base + used)) (hend : p.end_.toNat = 4096 * top) (htop : top ≤ 2 ^ 20)
    (hroom : p'.cursor.toNat < 4096 * top) :
    l.map UInt64.toNat = (List.range' (base + used) l.length).map (4096 * ·) ∧
      p'.cursor.toNat = 4096 * (base + used + l.length) := by
  induction h generalizing used with
  | done p => exact ⟨rfl, hcur⟩
  | @page p p' l hlt hrest ih =>
    have hnext : (p.cursor + pageSize).toNat = 4096 * (base + (used + 1)) := by
      have := UInt64.lt_iff_toNat_lt.1 hlt
      rw [UInt64.toNat_add, hcur, show pageSize.toNat = 4096 from rfl, Nat.mod_eq_of_lt (by omega)]
      omega
    obtain ⟨hl, hc⟩ := ih hnext hend hroom
    refine ⟨?_, by rw [hc, List.length_cons]; omega⟩
    rw [List.map_cons, hl, hcur, List.length_cons, List.range'_succ, List.map_cons, Nat.add_assoc]
  | @null p p' l hle hrest ih =>
    -- at the end of the pool the cursor stays where it is
    exfalso
    obtain ⟨-, hc⟩ := ih hcur hend hroom
    have := UInt64.le_iff_toNat_le.1 hle
    omega

/-! ### The pool of `build_tables` -/

/-- `AllocatePages` gives the pool: whole pages below 4 GiB, not at address zero. -/
structure GivesPool (fw : Firmware F) (f : F) (pa : UInt64) : Prop where
  ok : efiError (fw.allocatePages pageTablePoolPages f).1 = false
  address : (fw.allocatePages pageTablePoolPages f).2.1 = pa
  aligned : pa.toNat % 4096 = 0
  pos : 0 < pa.toNat
  top : pa.toNat + 48 * 4096 ≤ 2 ^ 32

/-- What the tables in the pool at `pa` are for the kernel `s` at `kp`, in the memory `m` before. -/
structure PoolSuffices (pa kp : UInt64) (s : Summary) (m : Bytes) : Prop where
  notNull : 0 ∉ fillPoolCalls (poolAt pa) kp s m
  once : (fillPoolCalls (poolAt pa) kp s m).Nodup
  inPool : ∀ c ∈ fillPoolCalls (poolAt pa) kp s m, pa.toNat ≤ c.toNat ∧ c.toNat + 4096 ≤ pa.toNat + 48 * 4096
  mapped : (fillPool (poolAt pa) kp s m).1 = true
  noWrap : ∀ i < (pagesFor (s.virtualMax - s.virtualMin)).toNat,
    (s.virtualMin + UInt64.ofNat i * pageSize).toNat = s.virtualMin.toNat + i * 4096
  identity : ∀ v : UInt64, v.toNat < 2 ^ 32 → translate (fillPool (poolAt pa) kp s m).2.2.2 pa v = some v.toNat

theorem poolSuffices {pa : UInt64} {s : Summary} (hfit : Fits s) (haligned : pa.toNat % 4096 = 0) (hpos : 0 < pa.toNat)
    (htop : pa.toNat + 48 * 4096 ≤ 2 ^ 32) (kp : UInt64) (m : Bytes) : PoolSuffices pa kp s m := by
  generalize hn : (pagesFor (s.virtualMax - s.virtualMin)).toNat = n
  obtain ⟨hsize, hlow, hhigh, hwrap, hpage⟩ := fits_pages hfit hn
  generalize hbase : pa.toNat / 4096 = base
  have hpa : pa.toNat = 4096 * base := by omega
  obtain ⟨p, m', used, own, hfill, hinv, -, hwalk⟩ :=
    @fillPool_spec pa kp s base _ n hpa (by omega) (by omega) hn hsize hlow hhigh hpage m
  have hused : used < 48 := Nat.lt_of_le_of_lt hinv.used_le (card_kernelOwners hsize)
  have hhands := hands_fillPool (poolAt pa) kp s m
  have hend : (poolAt pa).end_.toNat = 4096 * (base + 48) := by
    rw [poolAt, UInt64.toNat_add, show (pageTablePoolPages * pageSize).toNat = 4096 * 48 from rfl,
      Nat.mod_eq_of_lt (by omega)]
    omega
  have hcursor := hinv.cursor
  rw [hfill] at hhands
  change Hands (poolAt pa) (fillPoolCalls (poolAt pa) kp s m) p at hhands
  -- the pages in the order of the pool
  have hstart : (poolAt pa).cursor.toNat = 4096 * (base + 0) := hpa
  obtain ⟨hcalls, hlen⟩ := hhands.pages hstart hend (by omega) (by omega)
  have hmem : ∀ c ∈ fillPoolCalls (poolAt pa) kp s m, 4096 * base ≤ c.toNat ∧ c.toNat + 4096 ≤ 4096 * (base + 48) := by
    intro c hc
    have hc' := List.mem_map_of_mem (f := UInt64.toNat) hc
    rw [hcalls] at hc'
    obtain ⟨k, hk, heq⟩ := List.mem_map.1 hc'
    have := List.mem_range'_1.1 hk
    omega
  refine ⟨fun h0 => ?_, ?_, fun c hc => ?_, by rw [hfill], hn ▸ hwrap, fun v hv => ?_⟩
  · have := (hmem 0 h0).1
    rw [show (0 : UInt64).toNat = 0 from rfl] at this
    omega
  · refine List.Nodup.of_map UInt64.toNat ?_
    rw [hcalls]
    refine List.Nodup.map (fun a b hab => ?_) List.nodup_range'
    exact Nat.eq_of_mul_eq_mul_left (by decide) hab
  · have := hmem c hc
    omega
  · have hv' : pageOf v = v.toNat / 4096 := by
      rw [pageOf]
      omega
    rw [hfill, translate, hbase, hv', hwalk _ (by omega), Option.map_some, Option.some.injEq]
    omega

/-- For every kernel within the limits, wherever it lies and whatever its alignment, `pt_alloc` gives 48 pages at
most, each of them once; `map4k` maps every page, at an address that does not wrap around; every address below 4 GiB
still is its own. So `build_tables` fails only when the firmware has no pages left for the stack. -/
theorem pool_suffices {fw : Firmware F} {u : Loader F} {pa : UInt64} {s : Summary} (kp : UInt64) (hfit : Fits s)
    (hpool : GivesPool fw u.firmware pa) :
    PoolSuffices pa kp s (memzero u.mem pa.toNat (pageTablePoolPages * pageSize).toNat) ∧
    (efiError (fw.allocatePages 4 (fw.allocatePages pageTablePoolPages u.firmware).2.2).1 = false →
      (buildTables fw kp s u).1.1 = efiSuccess) := by
  have hs := poolSuffices hfit hpool.aligned hpool.pos hpool.top kp
    (memzero u.mem pa.toNat (pageTablePoolPages * pageSize).toNat)
  refine ⟨hs, fun hstack => ?_⟩
  generalize hfill : fillPool (poolAt pa) kp s (memzero u.mem pa.toNat (pageTablePoolPages * pageSize).toNat) = r
  obtain ⟨ok, pml4, p, m⟩ := r
  obtain rfl : ok = true := by
    rw [← hs.mapped, hfill]
  obtain ⟨u', hbuild, -⟩ := buildTables_of ⟨hpool.ok, hpool.address⟩ hfill ⟨hstack, rfl⟩
  rw [hbuild]

/-- A kernel of 64 MiB that begins in the middle of a page and ends at the last address. -/
def topSummary : Summary where
  entry := 0xfffffffffc000800
  virtualMin := 0xfffffffffc000800
  virtualMax := 0xffffffffffffffff
  loadSegmentCount := 1

theorem pool_suffices_top :
    PoolSuffices 0x400000 0x1000000 topSummary
      (memzero freshLoader.mem (0x400000 : UInt64).toNat (pageTablePoolPages * pageSize).toNat) ∧
    (buildTables (oneFileFirmware (fun _ => 0) 0) 0x1000000 topSummary freshLoader).1.1 = efiSuccess := by
  have hfit : Fits topSummary := ⟨by decide, by decide, by decide⟩
  have hpool : GivesPool (oneFileFirmware (fun _ => 0) 0) freshLoader.firmware 0x400000 :=
    ⟨efiError_efiSuccess, rfl, by decide, by decide, by decide⟩
  obtain ⟨hsuffices, hstack⟩ := pool_suffices 0x1000000 hfit hpool
  exact ⟨hsuffices, hstack efiError_efiSuccess⟩

end JoshBios.Uefi
