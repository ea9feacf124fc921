import JoshBios.UefiElf
import JoshBios.Lib.PageTable

/-! # What the page tables of the UEFI path map

The tables that `build_tables` makes are a `Tables.Tree` whose pages come from the pool one after the other
(`PoolInv`). The pool is large enough: the tables have different owners, and there are at most 42 owners that a
kernel of 64 MiB at the top of the address space can need. -/

namespace JoshBios.Uefi

open Tables (Tree Owners Down Extends walk index)

/-- The memory as page tables. -/
def tablesOf (m : Bytes) : Tables := fun p i => le64 m (4096 * p + 8 * i.val)

theorem tablesOf_set (m : Bytes) (p : Nat) (i : Fin 512) (e : UInt64) :
    tablesOf (m.write (4096 * p + 8 * i.val) (leBytes 8 e.toNat)) = (tablesOf m).set p i e := by
  funext p' j
  have hi := i.isLt
  have hj := j.isLt
  have he := e.toNat_lt
  have hlen := length_leBytes 8 e.toNat
  by_cases hat : p' = p ∧ j = i
  · obtain ⟨rfl, rfl⟩ := hat
    rw [Tables.set_self, tablesOf, le64, leNat_leBytes (x := e.toNat), Nat.mod_eq_of_lt (by omega), UInt64.ofNat_toNat]
    intro k hk
    exact Bytes.write_inside m (by omega)
  · have hne : 4096 * p' + 8 * j.val ≠ 4096 * p + 8 * i.val := by
      intro heq
      exact hat ⟨by omega, Fin.ext (by omega)⟩
    rw [Tables.set_ne _ _ hat, tablesOf, tablesOf, le64, le64, leNat_congr]
    intro k h₁ h₂
    by_cases hk : k < 4096 * p + 8 * i.val
    · exact Bytes.write_of_lt m _ hk
    · exact Bytes.write_of_le m _ (by omega)

theorem tablesOf_memzero (m : Bytes) {p n p' : Nat} (h₁ : p ≤ p') (h₂ : p' < p + n) (i : Fin 512) :
    tablesOf (memzero m (4096 * p) (4096 * n)) p' i = 0 := by
  have hi := i.isLt
  have hzero : leNat (memzero m (4096 * p) (4096 * n)) (4096 * p' + 8 * i.val) 8 = leNat (fun _ => 0) 0 8 := by
    rw [show leNat (fun _ => 0) 0 8 = leNat (fun _ => 0) (4096 * p' + 8 * i.val) 8 from rfl]
    exact leNat_congr fun k h₁ h₂ => memzero_inside m (by omega) (by omega)
  rw [tablesOf, le64, hzero]
  rfl

theorem tablesOf_clear (m : Bytes) (p : Nat) : tablesOf (memzero m (4096 * p) 4096) = (tablesOf m).clear p := by
  funext p' j
  have hj := j.isLt
  by_cases hp : p' = p
  · subst hp
    have hzero := tablesOf_memzero m (n := 1) (Nat.le_refl p') (Nat.lt_succ_self p') j
    rw [Nat.mul_one] at hzero
    rw [Tables.clear_self, hzero]
  · rw [Tables.clear_ne _ _ hp, tablesOf, tablesOf, le64, le64, leNat_congr]
    intro k h₁ h₂
    exact memzero_outside m (by omega)

/-- The pool as far as it is used: its pages are the tables of the tree, in the order of their allocation. -/
structure PoolInv (base used : Nat) (owners : Finset (Nat × Nat)) (p : PageTablePool) (m : Bytes) (own : Owners) :
    Prop where
  tree : Tree (tablesOf m) own base 3
  cursor : p.cursor.toNat = 4096 * (base + used)
  end_ : p.end_.toNat = 4096 * (base + 48)
  pages : ∀ k, own k ≠ none ↔ base ≤ k ∧ k < base + used
  owners : ∀ k x, own k = some x → x ∈ owners
  largeLow : ∀ k n q i, own k = some (n + 1, q) → Tables.large (tablesOf m k i) = true → n = 0 ∧ q < 4

section
variable {base used : Nat} {owners : Finset (Nat × Nat)} {p : PageTablePool} {m : Bytes} {own : Owners}

theorem PoolInv.used_le (h : PoolInv base used owners p m own) : used ≤ owners.card := by
  have howned : ∀ k < used, ∃ x, own (base + k) = some x := fun k hk =>
    Option.ne_none_iff_exists'.1 ((h.pages (base + k)).2 ⟨by omega, by omega⟩)
  rw [← Finset.card_range used]
  refine Finset.card_le_card_of_injOn (fun k => (own (base + k)).getD (0, 0)) ?_ ?_
  · intro k hk
    obtain ⟨x, hx⟩ := howned k (Finset.mem_range.1 hk)
    simp only [hx, Option.getD_some]
    exact h.owners _ x hx
  · intro k hk k' hk' heq
    obtain ⟨x, hx⟩ := howned k (Finset.mem_range.1 hk)
    obtain ⟨x', hx'⟩ := howned k' (Finset.mem_range.1 hk')
    simp only [hx, hx', Option.getD_some] at heq
    subst heq
    have := h.tree.inj _ _ x hx hx'
    omega

/-- What the address of a table page is in an entry. -/
structure PageAddress (a : UInt64) (k : Nat) : Prop where
  toNat : a.toNat = 4096 * k
  pos : 0 < k
  lt : k < 2 ^ 40

theorem entry_flags {a : UInt64} {k : Nat} (ha : a.toNat = 4096 * k) (hk : k < 2 ^ 40) :
    Tables.present (a ||| pagePresent ||| pageRw) = true ∧ Tables.large (a ||| pagePresent ||| pageRw) = false ∧
      Tables.frame (a ||| pagePresent ||| pageRw) = k := by
  have hval : (a ||| pagePresent ||| pageRw).toNat = 4096 * k + 3 := by
    rw [UInt64.or_assoc, Tables.toNat_or_flags (by rw [ha]; omega) (by decide), ha]
    rfl
  refine ⟨?_, ?_, ?_⟩
  · rw [Tables.present_eq, hval, decide_eq_true_iff]
    omega
  · rw [Tables.large_eq, hval, decide_eq_false_iff_not]
    omega
  · rw [Tables.frame_eq, hval]
    omega

theorem toNat_table (e : UInt64) : (table e).toNat = 4096 * Tables.frame e := by
  have hmod : (e &&& 0x000ffffffffff000).toNat % 2 ^ 12 = 0 := by
    rw [UInt64.toNat_and, Nat.and_mod_two_pow, show (0x000ffffffffff000 : UInt64).toNat % 2 ^ 12 = 0 from rfl,
      Nat.and_zero]
  rw [table, Tables.frame]
  omega

theorem frame_lt (e : UInt64) : Tables.frame e < 2 ^ 40 := by
  rw [Tables.frame_eq]
  exact Nat.mod_lt _ (by decide)

/-! ### One allocation -/

theorem ptAlloc_spec (hcur : p.cursor.toNat = 4096 * (base + used)) (hend : p.end_.toNat = 4096 * (base + 48))
    (hbase : 0 < base) (htop : base + 48 ≤ 2 ^ 20) (hroom : used < 48) (m : Bytes) :
    ∃ a p', ptAlloc p m = (a, p', memzero m (4096 * (base + used)) 4096) ∧ PageAddress a (base + used) ∧
      p'.cursor.toNat = 4096 * (base + (used + 1)) ∧ p'.end_.toNat = 4096 * (base + 48) := by
  have hlt : ¬ p.cursor ≥ p.end_ := by
    rw [ge_iff_le, UInt64.le_iff_toNat_le]
    omega
  refine ⟨p.cursor, { p with cursor := p.cursor + pageSize }, ?_, ⟨hcur, by omega, by omega⟩, ?_, hend⟩
  · rw [ptAlloc, if_neg hlt, hcur]
  · show (p.cursor + pageSize).toNat = _
    rw [UInt64.toNat_add, hcur, show pageSize.toNat = 4096 from rfl, Nat.mod_eq_of_lt (by omega)]
    omega

theorem PageAddress.ne_zero {a : UInt64} {k : Nat} (h : PageAddress a k) : a ≠ 0 := by
  intro h0
  have h₁ := h.toNat
  have h₂ := h.pos
  rw [h0, show (0 : UInt64).toNat = 0 from rfl] at h₁
  omega

theorem PoolInv.link (h : PoolInv base used owners p m own) {t n q : Nat} {i : Fin 512} (ht : own t = some (n + 1, q))
    (hfree : Tables.present (tablesOf m t i) = false) (hmem : (n, q * 512 + i.val) ∈ owners) {a : UInt64}
    (ha : PageAddress a (base + used)) {p' : PageTablePool} (hcur : p'.cursor.toNat = 4096 * (base + (used + 1)))
    (hend : p'.end_.toNat = 4096 * (base + 48)) {m' : Bytes}
    (hm' : tablesOf m' = ((tablesOf m).clear (base + used)).set t i (a ||| pagePresent ||| pageRw)) :
    ∃ own', PoolInv base (used + 1) owners p' m' own' ∧ Extends (tablesOf m) own (tablesOf m') own' ∧
      (tablesOf m').Down t i (base + used) ∧ own' (base + used) = some (n, q * 512 + i.val) := by
  obtain ⟨hpres, hsmall, hframe⟩ := entry_flags ha.toNat ha.lt
  have hnew : own (base + used) = none := by
    by_contra hn
    have := ((h.pages _).1 hn).2
    omega
  have htree := h.tree.link ht hnew hfree hpres hframe
  have hext := h.tree.link_extends ht hnew hfree hpres hsmall hframe
  rw [← hm'] at htree hext
  refine ⟨_, ⟨htree, hcur, hend, fun k => ?_, fun k x hx => ?_, fun k n' q' j hk hl => ?_⟩, hext, ?_, if_pos rfl⟩
  · have hk := h.pages k
    by_cases heq : k = base + used
    · rw [if_pos heq]
      simp only [ne_eq, reduceCtorEq, not_false_iff, true_iff]
      omega
    · rw [if_neg heq, hk]
      omega
  · split at hx
    · cases hx
      exact hmem
    · exact h.owners k x hx
  · rw [hm'] at hl
    by_cases hat : k = t ∧ j = i
    · obtain ⟨rfl, rfl⟩ := hat
      rw [Tables.set_self, hsmall] at hl
      cases hl
    · rw [Tables.set_ne _ _ hat] at hl
      by_cases heq : k = base + used
      · rw [heq, Tables.clear_self] at hl
        exact absurd hl (by decide)
      · rw [Tables.clear_ne _ _ heq] at hl
        rw [if_neg heq] at hk
        exact h.largeLow k n' q' j hk hl
  · rw [hm']
    refine ⟨?_, ?_, ?_⟩ <;> rw [Tables.set_self]
    · exact hpres
    · exact hsmall
    · exact hframe

/-! ### One page of the kernel -/

theorem PageAddress.entryAt {a : UInt64} {k : Nat} (h : PageAddress a k) (m : Bytes) (i : Fin 512) :
    entryAt m a i.val = tablesOf m k i := by
  rw [Uefi.entryAt, h.toNat, tablesOf]

theorem PageAddress.setEntry {a : UInt64} {k : Nat} (h : PageAddress a k) (m : Bytes) (i : Fin 512) (e : UInt64) :
    tablesOf (setEntry m a i.val e) = (tablesOf m).set k i e := by
  rw [Uefi.setEntry, h.toNat, tablesOf_set]

/-- The pool has pages left for tables with owners in `owners`, and lies below 4 GiB. -/
structure Room (base : Nat) (owners : Finset (Nat × Nat)) : Prop where
  pos : 0 < base
  top : base + 48 ≤ 2 ^ 20
  card : owners.card < 48

theorem nextTable_spec (h : PoolInv base used owners p m own) (hr : Room base owners) (checkPs : Bool) {t : UInt64}
    {k n v : Nat} (ht : PageAddress t k) (hk : own k = some (n + 1, v / 512 ^ (n + 2)))
    (hsmall : Tables.large (tablesOf m k (index (n + 1) v)) = false) (hmem : (n, v / 512 ^ (n + 1)) ∈ owners) :
    ∃ a c p' m' used' own', nextTable checkPs t (index (n + 1) v).val p m = (some a, p', m') ∧ PageAddress a c ∧
      PoolInv base used' owners p' m' own' ∧ Extends (tablesOf m) own (tablesOf m') own' ∧
      (tablesOf m').Down k (index (n + 1) v) c ∧ own' c = some (n, v / 512 ^ (n + 1)) := by
  have hdown := Tables.owner_down v (n + 1)
  unfold nextTable
  simp only [ht.entryAt]
  by_cases hpres : Tables.present (tablesOf m k (index (n + 1) v)) = true
  · have hbit : ¬ tablesOf m k (index (n + 1) v) &&& pagePresent = 0 := of_decide_eq_true hpres
    have hps : ¬ (checkPs && decide (tablesOf m k (index (n + 1) v) &&& pagePs ≠ 0)) = true := by
      rw [show decide (tablesOf m k (index (n + 1) v) &&& pagePs ≠ 0) = false from hsmall, Bool.and_false]
      exact Bool.false_ne_true
    have hchild := h.tree.child k n _ _ hk hpres hsmall
    rw [hdown] at hchild
    have hpos : 0 < Tables.frame (tablesOf m k (index (n + 1) v)) := by
      have := ((h.pages _).1 (by rw [hchild]; exact Option.some_ne_none _)).1
      have := hr.pos
      omega
    rw [if_neg hbit, if_neg hps]
    exact ⟨_, _, p, m, used, own, rfl, ⟨toNat_table _, hpos, frame_lt _⟩, h, Extends.refl _ _,
      ⟨hpres, hsmall, rfl⟩, hchild⟩
  · rw [Bool.not_eq_true] at hpres
    have hbit : tablesOf m k (index (n + 1) v) &&& pagePresent = 0 := not_not.1 (of_decide_eq_false hpres)
    have hroom : used < 48 := Nat.lt_of_le_of_lt h.used_le hr.card
    obtain ⟨a, p', halloc, ha, hcur, hend⟩ := ptAlloc_spec h.cursor h.end_ hr.pos hr.top hroom m
    have hm' := ht.setEntry (memzero m (4096 * (base + used)) 4096) (index (n + 1) v) (a ||| pagePresent ||| pageRw)
    rw [tablesOf_clear] at hm'
    rw [← hdown] at hmem
    obtain ⟨own', hinv, hext, hd, hown⟩ := h.link hk hpres hmem ha hcur hend hm'
    rw [hdown] at hown
    rw [if_pos hbit, halloc]
    simp only [if_neg ha.ne_zero]
    exact ⟨a, base + used, p', _, used + 1, own', rfl, ha, hinv, hext, hd, hown⟩

theorem toNat_tableIndex (v : UInt64) {shift : UInt64} (hs : shift.toNat < 64) :
    tableIndex v shift = v.toNat / 2 ^ shift.toNat % 512 := by
  rw [tableIndex, UInt64.toNat_and, UInt64.toNat_shiftRight, Nat.mod_eq_of_lt hs,
    show (511 : UInt64).toNat = 2 ^ 9 - 1 from rfl, Nat.and_two_pow_sub_one_eq_mod, Nat.shiftRight_eq_div_pow]

/-- The virtual page of an address, as the walk sees it. -/
def pageOf (v : UInt64) : Nat := v.toNat / 4096 % 2 ^ 36

theorem tableIndex_eq (v : UInt64) :
    tableIndex v 39 = (index 3 (pageOf v)).val ∧ tableIndex v 30 = (index 2 (pageOf v)).val ∧
      tableIndex v 21 = (index 1 (pageOf v)).val ∧ tableIndex v 12 = (index 0 (pageOf v)).val := by
  simp only [index, pageOf]
  refine ⟨?_, ?_, ?_, ?_⟩
  · rw [toNat_tableIndex v (by decide), show (39 : UInt64).toNat = 39 from rfl]
    omega
  · rw [toNat_tableIndex v (by decide), show (30 : UInt64).toNat = 30 from rfl]
    omega
  · rw [toNat_tableIndex v (by decide), show (21 : UInt64).toNat = 21 from rfl]
    omega
  · rw [toNat_tableIndex v (by decide), show (12 : UInt64).toNat = 12 from rfl]
    omega

/-- The owners of the tables for the virtual page `v` are provided for, and none of its tables is the identity map's. -/
structure Mappable (owners : Finset (Nat × Nat)) (v : Nat) : Prop where
  lt : v < 512 ^ 4
  high : 4 ≤ v / 512 ^ 2
  pdpt : (2, v / 512 ^ 3) ∈ owners
  pd : (1, v / 512 ^ 2) ∈ owners
  pt : (0, v / 512 ^ 1) ∈ owners

theorem PoolInv.small (h : PoolInv base used owners p m own) {k n q : Nat} (hk : own k = some (n + 1, q))
    (hq : n = 0 → 4 ≤ q) (i : Fin 512) : Tables.large (tablesOf m k i) = false := by
  rw [← Bool.not_eq_true]
  intro hl
  obtain ⟨hn, hlow⟩ := h.largeLow k n q i hk hl
  have := hq hn
  omega

/-- `map4k` maps one page, and leaves the others as they are. -/
theorem map4k_spec (h : PoolInv base used owners p m own) (hr : Room base owners) {pml4 v : UInt64} (ph : UInt64)
    (hroot : PageAddress pml4 base) (hv : Mappable owners (pageOf v)) :
    ∃ p' m' used' own', map4k p pml4 v ph m = (true, p', m') ∧ PoolInv base used' owners p' m' own' ∧
      walk (tablesOf m') 3 base (pageOf v) = some (Tables.frame ph) ∧
      ∀ w < 512 ^ 4, w ≠ pageOf v → walk (tablesOf m') 3 base w = walk (tablesOf m) 3 base w := by
  obtain ⟨hi₃, hi₂, hi₁, hi₀⟩ := tableIndex_eq v
  have hzero : ∀ w < 512 ^ 4, own base = some (3, w / 512 ^ 4) := fun w hw => by
    rw [Nat.div_eq_of_lt hw]
    exact h.tree.root
  have hbase := hzero (pageOf v) hv.lt
  have hlevel := hv.high
  -- the three tables on the way
  obtain ⟨a₂, c₂, p₂, m₂, used₂, own₂, hn₂, ha₂, hinv₂, hext₂, hd₂, hown₂⟩ :=
    nextTable_spec h hr false hroot hbase (h.small hbase (by omega) _) hv.pdpt
  obtain ⟨a₁, c₁, p₁, m₁, used₁, own₁, hn₁, ha₁, hinv₁, hext₁, hd₁, hown₁⟩ :=
    nextTable_spec hinv₂ hr true ha₂ hown₂ (hinv₂.small hown₂ (by omega) _) hv.pd
  obtain ⟨a₀, c₀, p₀, m₀, used₀, own₀, hn₀, ha₀, hinv₀, hext₀, hd₀, hown₀⟩ :=
    nextTable_spec hinv₁ hr true ha₁ hown₁ (hinv₁.small hown₁ (fun _ => hlevel) _) hv.pt
  rw [← hi₃] at hn₂
  rw [← hi₂] at hn₁
  rw [← hi₁] at hn₀
  have hpage : (ph &&& 0x000ffffffffff000).toNat = 4096 * Tables.frame ph := toNat_table ph
  obtain ⟨hpres, hsmall, hframe⟩ := entry_flags hpage (frame_lt ph)
  generalize hentry : (ph &&& 0x000ffffffffff000) ||| pagePresent ||| pageRw = e at hpres hsmall hframe
  have hm' := ha₀.setEntry m₀ (index 0 (pageOf v)) e
  have hq : pageOf v / 512 ^ 1 * 512 + (index 0 (pageOf v)).val = pageOf v := by
    rw [Tables.owner_down, Nat.pow_zero, Nat.div_one]
  have hlast : own₀ c₀ = some (0, pageOf v / 512 ^ 1) := hown₀
  -- later steps keep the links of earlier ones
  have hown₂' : own₀ c₂ = some (2, pageOf v / 512 ^ 3) := hext₀.owned _ _ (hext₁.owned _ _ hown₂)
  have hown₁' : own₀ c₁ = some (1, pageOf v / 512 ^ 2) := hext₀.owned _ _ hown₁
  have hbase' : own₀ base = some (3, pageOf v / 512 ^ 4) :=
    hext₀.owned _ _ (hext₁.owned _ _ (hext₂.owned _ _ hbase))
  have hd₂' := hext₀.down _ _ _ (by rw [hext₁.owned _ _ (hext₂.owned _ _ hbase)]; exact Option.some_ne_none _)
    (hext₁.down _ _ _ (by rw [hext₂.owned _ _ hbase]; exact Option.some_ne_none _) hd₂)
  have hd₁' := hext₀.down _ _ _ (by rw [hext₁.owned _ _ hown₂]; exact Option.some_ne_none _) hd₁
  refine ⟨p₀, setEntry m₀ a₀ (index 0 (pageOf v)).val e, used₀, own₀, ?_, ?_, ?_, fun w hw hne => ?_⟩
  · simp only [map4k, hn₂, hn₁, hn₀, hi₀, hentry]
  · refine ⟨?_, hinv₀.cursor, hinv₀.end_, hinv₀.pages, hinv₀.owners, fun k n q i hk hl => ?_⟩
    · rw [hm']
      exact hinv₀.tree.leaf hlast _ e
    · rw [hm', Tables.leaf_ne hlast _ e hk] at hl
      exact hinv₀.largeLow k n q i hk hl
  · rw [hm', Tables.walk_down (Tables.leaf_down hlast _ e hbase' hd₂'),
      Tables.walk_down (Tables.leaf_down hlast _ e hown₂' hd₁'),
      Tables.walk_down (Tables.leaf_down hlast _ e hown₁' hd₀)]
    simp only [walk, Tables.set_self, hpres, if_true, hframe]
  · have hw₀ := hext₀.owned _ _ (hext₁.owned _ _ (hext₂.owned _ _ (hzero w hw)))
    rw [hm', hinv₀.tree.leaf_walk hlast _ e hw₀ (by rw [hq]; exact hne),
      hext₀.walk _ _ _ (hext₁.owned _ _ (hext₂.owned _ _ (hzero w hw))),
      hext₁.walk _ _ _ (hext₂.owned _ _ (hzero w hw)), hext₂.walk _ _ _ (hzero w hw)]

/-- The loop maps `n` pages from `a + i` on, and leaves the others as they are. -/
theorem kernelLoop_spec {pml4 virt : UInt64} {a total : Nat} (hr : Room base owners) (hroot : PageAddress pml4 base)
    (hmap : ∀ j < total, Mappable owners (a + j))
    (hpage : ∀ j < total, pageOf (virt + UInt64.ofNat j * pageSize) = a + j) (kp : UInt64) (n : Nat) {i : Nat}
    (hi : i + n ≤ total) (h : PoolInv base used owners p m own) :
    ∃ p' m' used' own', kernelLoop pml4 virt kp n (UInt64.ofNat i) p m = (true, p', m') ∧
      PoolInv base used' owners p' m' own' ∧
      (∀ j, i ≤ j → j < i + n →
        walk (tablesOf m') 3 base (a + j) = some (Tables.frame (kp + UInt64.ofNat j * pageSize))) ∧
      ∀ w < 512 ^ 4, (∀ j, i ≤ j → j < i + n → w ≠ a + j) →
        walk (tablesOf m') 3 base w = walk (tablesOf m) 3 base w := by
  induction n generalizing i used p m own with
  | zero => exact ⟨p, m, used, own, rfl, h, fun j _ _ => by omega, fun w _ _ => rfl⟩
  | succ n ih =>
    have hpi := hpage i (by omega)
    obtain ⟨p', m', used', own', heq, hinv, hnew, hold⟩ :=
      map4k_spec h hr (kp + UInt64.ofNat i * pageSize) hroot (hpi ▸ hmap i (by omega))
    rw [hpi] at hnew hold
    obtain ⟨p'', m'', used'', own'', hloop, hinv'', hall, hrest⟩ := ih (i := i + 1) (by omega) hinv
    refine ⟨p'', m'', used'', own'', ?_, hinv'', fun j h₁ h₂ => ?_, fun w hw hne => ?_⟩
    · rw [kernelLoop, heq]
      simp only
      rw [show UInt64.ofNat i + 1 = UInt64.ofNat (i + 1) by rw [UInt64.ofNat_add]; rfl]
      exact hloop
    · rcases Nat.eq_or_lt_of_le h₁ with rfl | hlt
      · rw [hrest (a + i) (hmap i (by omega)).lt fun j hj _ => by omega]
        exact hnew
      · exact hall j hlt (by omega)
    · rw [hrest w hw fun j h₁ h₂ => hne j (by omega) (by omega)]
      exact hold w hw (by simpa using hne i (Nat.le_refl i) (by omega))

/-! ### The identity map -/

/-- The large entry `j` of the directory for the gibibyte `g`. -/
structure IdentityEntry (g : Nat) (j : Fin 512) (e : UInt64) : Prop where
  present : Tables.present e = true
  large : Tables.large e = true
  frame : Tables.frame e = (g * 512 + j.val) * 512

theorem identityEntries_spec {pd : UInt64} {k g : Nat} (hpd : PageAddress pd k) (hg : g < 4) (hk : own k = some (1, g))
    (n : Nat) {i : Nat} (hi : i + n ≤ 512) (h : PoolInv base used owners p m own)
    (hdone : ∀ j : Fin 512, j.val < i → IdentityEntry g j (tablesOf m k j)) :
    PoolInv base used owners p (identityEntries pd g n i m) own ∧
      (∀ j : Fin 512, j.val < i + n → IdentityEntry g j (tablesOf (identityEntries pd g n i m) k j)) ∧
      ∀ k' ≠ k, ∀ j, tablesOf (identityEntries pd g n i m) k' j = tablesOf m k' j := by
  induction n generalizing i m with
  | zero => exact ⟨h, hdone, fun _ _ _ => rfl⟩
  | succ n ih =>
    have hval : ((UInt64.ofNat g * 512 + UInt64.ofNat i) * hugePageSize).toNat = (g * 512 + i) * 0x200000 := by
      rw [UInt64.toNat_mul, UInt64.toNat_add, UInt64.toNat_mul, UInt64.toNat_ofNat', UInt64.toNat_ofNat',
        show (512 : UInt64).toNat = 512 from rfl, show hugePageSize.toNat = 0x200000 from rfl]
      omega
    generalize hph : (UInt64.ofNat g * 512 + UInt64.ofNat i) * hugePageSize = ph at hval
    have hentry : (ph ||| pagePresent ||| pageRw ||| pagePs).toNat = (g * 512 + i) * 0x200000 + 0x83 := by
      rw [UInt64.or_assoc, UInt64.or_assoc, Tables.toNat_or_flags (by omega) (by decide), hval]
      rfl
    have hpres : Tables.present (ph ||| pagePresent ||| pageRw ||| pagePs) = true := by
      rw [Tables.present_eq, hentry, decide_eq_true_iff]
      omega
    have hlarge : Tables.large (ph ||| pagePresent ||| pageRw ||| pagePs) = true := by
      rw [Tables.large_eq, hentry, decide_eq_true_iff]
      omega
    have hm' := hpd.setEntry m ⟨i, by omega⟩ (ph ||| pagePresent ||| pageRw ||| pagePs)
    have hinv : PoolInv base used owners p (setEntry m pd i (ph ||| pagePresent ||| pageRw ||| pagePs)) own := by
      refine ⟨?_, h.cursor, h.end_, h.pages, h.owners, fun k' n' q j hk' hl => ?_⟩
      · rw [hm']
        exact h.tree.set_large hk hpres hlarge
      · rw [hm'] at hl
        by_cases hat : k' = k ∧ j = ⟨i, by omega⟩
        · rw [hat.1, hk] at hk'
          cases hk'
          exact ⟨rfl, hg⟩
        · rw [Tables.set_ne _ _ hat] at hl
          exact h.largeLow k' n' q j hk' hl
    have hframe : Tables.frame (ph ||| pagePresent ||| pageRw ||| pagePs) = (g * 512 + i) * 512 := by
      rw [Tables.frame_eq, hentry]
      omega
    have hdone' : ∀ j : Fin 512, j.val < i + 1 → IdentityEntry g j
        (tablesOf (setEntry m pd i (ph ||| pagePresent ||| pageRw ||| pagePs)) k j) := by
      intro j hj
      rw [hm']
      by_cases hat : j = ⟨i, by omega⟩
      · rw [hat, Tables.set_self]
        exact ⟨hpres, hlarge, hframe⟩
      · rw [Tables.set_ne _ _ fun hh => hat hh.2]
        refine hdone j (Nat.lt_of_le_of_ne (by omega) fun heq => hat (Fin.ext heq))
    obtain ⟨hrec, hentries, hother⟩ := ih (i := i + 1) (by omega) hinv hdone'
    rw [identityEntries, hph]
    refine ⟨hrec, fun j hj => hentries j (by omega), fun k' hk' j => ?_⟩
    rw [hother k' hk' j, hm', Tables.set_ne _ _ fun hh => hk' hh.1]

theorem walk_identity {T : Tables} {g k c w : Nat} (hroot : T.Down base (index 3 w) k) (hdir : T.Down k (index 2 w) c)
    (hentry : IdentityEntry g (index 1 w) (T c (index 1 w))) (hw : w / 512 ^ 2 = g) : walk T 3 base w = some w := by
  have hle : 1 ≤ 2 := by decide
  have hidx : (index 1 w).val = w / 512 ^ 1 % 512 := rfl
  rw [Tables.walk_down hroot, Tables.walk_down hdir]
  simp only [walk, Nat.zero_add, hentry.present, hentry.large, hentry.frame, Bool.not_true, Bool.false_eq_true, if_false,
    if_true, if_pos hle, Option.some.injEq]
  omega

theorem identityLoop_spec {pdpt : UInt64} {k : Nat} (hr : Room base owners) (hpdpt : PageAddress pdpt k)
    (hlow : ∀ g < 4, (1, g) ∈ owners) (n : Nat) {g : Nat} (hg : g + n = 4) (h : PoolInv base used owners p m own)
    (hk : own k = some (2, 0)) (hroot : (tablesOf m).Down base 0 k)
    (hfree : ∀ j : Fin 512, g ≤ j.val → tablesOf m k j = 0)
    (hdone : ∀ w, w / 512 ^ 2 < g → walk (tablesOf m) 3 base w = some w) :
    ∃ p' m' used' own', identityLoop pdpt n g p m = (true, p', m') ∧ PoolInv base used' owners p' m' own' ∧
      ∀ w, w / 512 ^ 2 < 4 → walk (tablesOf m') 3 base w = some w := by
  induction n generalizing g used p m own with
  | zero => exact ⟨p, m, used, own, rfl, h, fun w hw => hdone w (by omega)⟩
  | succ n ih =>
    have hroom : used < 48 := Nat.lt_of_le_of_lt h.used_le hr.card
    obtain ⟨a, p', halloc, ha, hcur, hend⟩ := ptAlloc_spec h.cursor h.end_ hr.pos hr.top hroom m
    have hm' := hpdpt.setEntry (memzero m (4096 * (base + used)) 4096) ⟨g, by omega⟩ (a ||| pagePresent ||| pageRw)
    rw [tablesOf_clear] at hm'
    have habsent : Tables.present (tablesOf m k ⟨g, by omega⟩) = false := by
      rw [hfree _ (Nat.le_refl g)]
      rfl
    have hmem : (1, 0 * 512 + g) ∈ owners := by
      rw [Nat.zero_mul, Nat.zero_add]
      exact hlow g (by omega)
    obtain ⟨own', hinv, hext, hdir, hown⟩ := h.link hk habsent hmem ha hcur hend hm'
    simp only [Nat.zero_mul, Nat.zero_add] at hown
    have hg4 : g < 4 := by omega
    obtain ⟨hinv', hentries, hother⟩ :=
      identityEntries_spec ha hg4 hown 512 (i := 0) (Nat.le_refl _) hinv fun j hj => absurd hj (Nat.not_lt_zero _)
    have hnk : k ≠ base + used := by
      have := ((h.pages k).1 (by rw [hk]; exact Option.some_ne_none _)).2
      omega
    -- the rest of the directory pointers are still free
    have hfree' : ∀ j : Fin 512, g + 1 ≤ j.val →
        tablesOf (identityEntries a g 512 0 (setEntry (memzero m (4096 * (base + used)) 4096) pdpt g
          (a ||| pagePresent ||| pageRw))) k j = 0 := by
      intro j hj
      have hjg : ¬ (k = k ∧ j = ⟨g, by omega⟩) := by
        rintro ⟨-, hjg⟩
        have hval : j.val = g := congrArg Fin.val hjg
        omega
      rw [hother k hnk j, hm', Tables.set_ne _ _ hjg, Tables.clear_ne _ _ hnk]
      exact hfree j (by omega)
    -- the links to the directory and to the pointers are in other tables than its entries
    have hnb : base ≠ base + used := by
      have := ((h.pages base).1 (by rw [h.tree.root]; exact Option.some_ne_none _)).2
      omega
    generalize hm'' : identityEntries a g 512 0 (setEntry (memzero m (4096 * (base + used)) 4096) pdpt g
      (a ||| pagePresent ||| pageRw)) = m'' at hinv' hentries hother hfree'
    have hdown : ∀ {t : Nat} {j : Fin 512} {c : Nat}, t ≠ base + used →
        (tablesOf (setEntry (memzero m (4096 * (base + used)) 4096) pdpt g (a ||| pagePresent ||| pageRw))).Down t j c →
        (tablesOf m'').Down t j c := by
      intro t j c ht hd
      refine ⟨?_, ?_, ?_⟩ <;> rw [hother t ht]
      · exact hd.present
      · exact hd.small
      · exact hd.frame
    have hroot' := hdown hnb (hext.down _ _ _ (by rw [h.tree.root]; exact Option.some_ne_none _) hroot)
    have hdir' := hdown hnk hdir
    have hdone' : ∀ w, w / 512 ^ 2 < g + 1 → walk (tablesOf m'') 3 base w = some w := by
      intro w hw
      have hbase : own base = some (3, w / 512 ^ 4) := by
        rw [h.tree.root, Nat.div_eq_of_lt (by omega)]
      have hi₃ : index 3 w = 0 := Fin.ext (by simp only [index]; omega)
      rcases Nat.lt_succ_iff_lt_or_eq.1 hw with hlt | heq
      · rw [← hdone w hlt, ← hext.walk 3 base w hbase]
        refine hinv.tree.walk_congr (fun n' t ht => hother t ?_ _) (hext.owned _ _ hbase)
        rintro rfl
        rw [hown] at ht
        simp only [Option.some.injEq, Prod.mk.injEq] at ht
        obtain ⟨rfl, hq⟩ := ht
        omega
      · have hi₂ : index 2 w = ⟨g, by omega⟩ := Fin.ext (by simp only [index]; omega)
        exact walk_identity (by rw [hi₃]; exact hroot') (by rw [hi₂]; exact hdir') (hentries _ (index 1 w).isLt) heq
    obtain ⟨p'', m₃, used'', own'', hloop, hfinal, hall⟩ :=
      ih (g := g + 1) (by omega) hinv' (hext.owned _ _ hk) hroot' hfree' hdone'
    subst hm''
    refine ⟨p'', m₃, used'', own'', ?_, hfinal, hall⟩
    rw [identityLoop, halloc]
    simp only [if_neg ha.ne_zero]
    exact hloop

end

/-! ### All tables -/

/-- The tables that a kernel of `n` pages from the virtual page `a` on can need: the identity map's, one directory
pointer table and two directories at the top of the address space, and the lowest level. -/
def kernelOwners (a n : Nat) : Finset (Nat × Nat) :=
  {(3, 0), (2, 0), (1, 0), (1, 1), (1, 2), (1, 3), (2, 511), (1, 262142), (1, 262143)} ∪
    (Finset.Icc (a / 512) ((a + n - 1) / 512)).image fun r => (0, r)

theorem card_kernelOwners {a n : Nat} (hn : n ≤ 16384) : (kernelOwners a n).card < 48 := by
  have h₁ := Finset.card_union_le
    ({(3, 0), (2, 0), (1, 0), (1, 1), (1, 2), (1, 3), (2, 511), (1, 262142), (1, 262143)} : Finset (Nat × Nat))
    ((Finset.Icc (a / 512) ((a + n - 1) / 512)).image fun r => (0, r))
  have h₂ : (({(3, 0), (2, 0), (1, 0), (1, 1), (1, 2), (1, 3), (2, 511), (1, 262142), (1, 262143)} :
      Finset (Nat × Nat))).card = 9 := by decide
  have h₃ := Finset.card_image_le (s := Finset.Icc (a / 512) ((a + n - 1) / 512)) (f := fun r => ((0 : Nat), r))
  rw [Nat.card_Icc] at h₃
  rw [kernelOwners]
  omega

theorem mappable {a n j : Nat} (ha : 2 ^ 36 - 2 ^ 19 ≤ a) (hj : j < n) (htop : a + n ≤ 2 ^ 36) :
    Mappable (kernelOwners a n) (a + j) := by
  have hpdpt : (a + j) / 512 ^ 3 = 511 := by omega
  have hpd : (a + j) / 512 ^ 2 = 262142 ∨ (a + j) / 512 ^ 2 = 262143 := by omega
  refine ⟨by omega, by omega, ?_, ?_, ?_⟩
  · rw [hpdpt]
    simp [kernelOwners]
  · rcases hpd with h | h
    · rw [h]
      simp [kernelOwners]
    · rw [h]
      simp [kernelOwners]
  · refine Finset.mem_union_right _ (Finset.mem_image.2 ⟨(a + j) / 512 ^ 1, ?_, rfl⟩)
    rw [Finset.mem_Icc]
    omega

theorem PoolInv.first {base : Nat} {owners : Finset (Nat × Nat)} (hmem : (3, 0) ∈ owners) {p : PageTablePool}
    (hcur : p.cursor.toNat = 4096 * (base + 1)) (hend : p.end_.toNat = 4096 * (base + 48)) (m : Bytes) :
    PoolInv base 1 owners p (memzero m (4096 * base) 4096) fun k => if k = base then some (3, 0) else none := by
  have hown : ∀ k x, (if k = base then some ((3 : Nat), (0 : Nat)) else none) = some x → k = base ∧ x = (3, 0) := by
    intro k x hx
    split at hx
    · next hk => exact ⟨hk, (Option.some.inj hx).symm⟩
    · cases hx
  have hempty : ∀ i, tablesOf (memzero m (4096 * base) 4096) base i = 0 := fun i => by
    rw [tablesOf_clear, Tables.clear_self]
  refine ⟨⟨if_pos rfl, ?_, ?_, ?_, ?_, ?_⟩, hcur, hend, ?_, ?_, ?_⟩
  · intro k n q hk
    cases (hown k _ hk).2
    exact Nat.le_refl 3
  · intro k k' x hk hk'
    rw [(hown k x hk).1, (hown k' x hk').1]
  · intro k n q i hk hpres
    obtain ⟨rfl, -⟩ := hown k _ hk
    rw [hempty] at hpres
    exact absurd hpres (by decide)
  · intro k c n q i hk hc
    cases (hown k _ hk).2
    cases (hown c _ hc).2
  · intro c n q hc hlt
    cases (hown c _ hc).2
    omega
  · intro k
    by_cases hk : k = base
    · simp [hk]
    · simp only [hk, if_false, ne_eq, not_true, false_iff]
      omega
  · intro k x hk
    rw [(hown k x hk).2]
    exact hmem
  · intro k n q i hk hl
    obtain ⟨rfl, -⟩ := hown k _ hk
    rw [hempty] at hl
    exact absurd hl (by decide)

/-- What `build_tables` relies on from `AllocatePages`: the two answers are whole pages below 4 GiB, not at address
zero, and the stack does not lie in the pool. -/
structure Allocates {F : Type} (fw : Firmware F) (f : F) (pa sp : UInt64) : Prop where
  pool : efiError (fw.allocatePages pageTablePoolPages f).1 = false ∧ (fw.allocatePages pageTablePoolPages f).2.1 = pa
  stack : efiError (fw.allocatePages 4 (fw.allocatePages pageTablePoolPages f).2.2).1 = false ∧
    (fw.allocatePages 4 (fw.allocatePages pageTablePoolPages f).2.2).2.1 = sp
  aligned : pa.toNat % 4096 = 0
  pos : 0 < pa.toNat
  top : pa.toNat + 48 * 4096 ≤ 2 ^ 32
  apart : sp.toNat + 4 * 4096 ≤ pa.toNat ∨ pa.toNat + 48 * 4096 ≤ sp.toNat

theorem allocLow_eq {F : Type} (fw : Firmware F) {pages : UInt64} (h : pages ≠ 0) (u : Loader F) :
    allocLow fw pages u = (((fw.allocatePages pages u.firmware).1, (fw.allocatePages pages u.firmware).2.1),
      { u with firmware := (fw.allocatePages pages u.firmware).2.2 }) := if_neg h

/-- The pool that `build_tables` makes of the pages at `pa`. -/
def poolAt (pa : UInt64) : PageTablePool where
  cursor := pa
  end_ := pa + pageTablePoolPages * pageSize

/-- The part of `build_tables` between its two allocations: whether every step of it succeeded, the root, the pool and
the memory afterwards. -/
def fillPool (p : PageTablePool) (kp : UInt64) (s : Elf64.Summary) (m : Bytes) : Bool × UInt64 × PageTablePool × Bytes :=
  let (pml4, p, m) := ptAlloc p m
  let (pdpt, p, m) := ptAlloc p m
  if pml4 = 0 || pdpt = 0 then (false, pml4, p, m) else
  let (ok, p, m) := identityLoop pdpt identityGib 0 p (setEntry m pml4 0 (pdpt ||| pagePresent ||| pageRw))
  if !ok then (false, pml4, p, m) else
  let (ok, p, m) := kernelLoop pml4 s.virtualMin kp (pagesFor (s.virtualMax - s.virtualMin)).toNat 0 p m
  (ok, pml4, p, m)

/-- The end of `build_tables`, after the tables. -/
def finishTables {F : Type} (fw : Firmware F) (u : Loader F) :
    Bool × UInt64 × PageTablePool × Bytes → (EfiStatus × UInt64 × UInt64) × Loader F
  | (false, _, _, m) => ((efiOutOfResources, 0, 0), { u with mem := m })
  | (true, pml4, _, m) =>
    let ((st, sp), u) := allocLow fw 4 { u with mem := m }
    if efiError st then ((st, 0, 0), u)
    else ((efiSuccess, pml4, sp + 4 * pageSize - 16), { u with mem := memzero u.mem sp.toNat (4 * pageSize).toNat })

theorem buildTables_eq {F : Type} {fw : Firmware F} {u u₁ : Loader F} {st : EfiStatus} {pa : UInt64}
    (hpool : allocLow fw pageTablePoolPages u = ((st, pa), u₁)) (kp : UInt64) (s : Elf64.Summary) :
    buildTables fw kp s u =
      if efiError st then ((st, 0, 0), u₁)
      else finishTables fw u₁ (fillPool (poolAt pa) kp s
        (memzero u₁.mem pa.toNat (pageTablePoolPages * pageSize).toNat)) := by
  rw [buildTables, hpool]
  show (if efiError st = true then _ else _) = if efiError st = true then _ else _
  refine ite_congr rfl (fun _ => rfl) fun _ => ?_
  -- the end of the pool is kept from being evaluated
  rw [show ({ cursor := pa, end_ := pa + pageTablePoolPages * pageSize } : PageTablePool) = poolAt pa from rfl]
  generalize memzero u₁.mem pa.toNat (pageTablePoolPages * pageSize).toNat = m₀
  generalize poolAt pa = p₀
  rw [fillPool]
  generalize ptAlloc p₀ m₀ = r₁
  obtain ⟨pml4, p₁, m₁⟩ := r₁
  simp only
  generalize ptAlloc p₁ m₁ = r₂
  obtain ⟨pdpt, p₂, m₂⟩ := r₂
  simp only
  split
  · rfl
  generalize identityLoop pdpt identityGib 0 p₂ (setEntry m₂ pml4 0 (pdpt ||| pagePresent ||| pageRw)) = r₃
  obtain ⟨ok₃, p₃, m₃⟩ := r₃
  cases ok₃ with
  | false => rfl
  | true =>
    simp only [Bool.not_true, Bool.false_eq_true, if_false]
    generalize kernelLoop pml4 s.virtualMin kp (pagesFor (s.virtualMax - s.virtualMin)).toNat 0 p₃ m₃ = r₄
    obtain ⟨ok₄, p₄, m₄⟩ := r₄
    cases ok₄ with
    | false => rfl
    | true => rfl

/-- The tables in the pool, for a kernel whose pages are known by their numbers. -/
theorem fillPool_spec {pa kp : UInt64} {s : Elf64.Summary} {base a n : Nat} (hpa : pa.toNat = 4096 * base)
    (hpos : 0 < base) (hbelow : base + 48 ≤ 2 ^ 20) (hn : (pagesFor (s.virtualMax - s.virtualMin)).toNat = n)
    (hsize : n ≤ 16384) (ha : 2 ^ 36 - 2 ^ 19 ≤ a) (htop : a + n ≤ 2 ^ 36)
    (hpage : ∀ j < n, pageOf (s.virtualMin + UInt64.ofNat j * pageSize) = a + j) (m : Bytes) :
    ∃ p m' used own, fillPool (poolAt pa) kp s m = (true, pa, p, m') ∧ PoolInv base used (kernelOwners a n) p m' own ∧
      (∀ j < n, walk (tablesOf m') 3 base (a + j) = some (Tables.frame (kp + UInt64.ofNat j * pageSize))) ∧
      ∀ w < 2 ^ 20, walk (tablesOf m') 3 base w = some w := by
  have hroom : Room base (kernelOwners a n) := ⟨hpos, hbelow, card_kernelOwners hsize⟩
  -- the root, the first directory pointers, and the link between them
  have hend : (poolAt pa).end_.toNat = 4096 * (base + 48) := by
    rw [poolAt, UInt64.toNat_add, hpa, show (pageTablePoolPages * pageSize).toNat = 4096 * 48 from rfl,
      Nat.mod_eq_of_lt (by omega)]
    omega
  have hcur : (poolAt pa).cursor.toNat = 4096 * (base + 0) := hpa
  obtain ⟨a₁, p₁, halloc₁, ha₁, hcur₁, hend₁⟩ := ptAlloc_spec hcur hend hroom.pos hroom.top (by omega) m
  obtain rfl : a₁ = pa := UInt64.toNat_inj.1 (ha₁.toNat.trans hpa.symm)
  have hinv₁ : PoolInv base 1 (kernelOwners a n) p₁ (memzero m (4096 * base) 4096) _ :=
    PoolInv.first (by simp [kernelOwners]) hcur₁ hend₁ m
  obtain ⟨a₂, p₂, halloc₂, ha₂, hcur₂, hend₂⟩ :=
    ptAlloc_spec hcur₁ hend₁ hroom.pos hroom.top (by omega) (memzero m (4096 * base) 4096)
  have hm₂ := ha₁.setEntry (memzero (memzero m (4096 * base) 4096) (4096 * (base + 1)) 4096) 0
    (a₂ ||| pagePresent ||| pageRw)
  rw [tablesOf_clear] at hm₂
  have hfree₁ : Tables.present (tablesOf (memzero m (4096 * base) 4096) base 0) = false := by
    rw [tablesOf_clear, Tables.clear_self]
    rfl
  obtain ⟨own₂, hinv₂, -, hdown₂, hown₂⟩ :=
    hinv₁.link (i := 0) (if_pos rfl) hfree₁ (by simp [kernelOwners]) ha₂ hcur₂ hend₂ hm₂
  have hfree₂ : ∀ j : Fin 512, 0 ≤ j.val → tablesOf (setEntry
      (memzero (memzero m (4096 * base) 4096) (4096 * (base + 1)) 4096) a₁ (0 : Fin 512).val
      (a₂ ||| pagePresent ||| pageRw)) (base + 1) j = 0 := by
    intro j _
    rw [hm₂, Tables.set_ne _ _ (by omega), Tables.clear_self]
  have hlow : ∀ g < 4, (1, g) ∈ kernelOwners a n := by
    intro g hg
    rcases (show g = 0 ∨ g = 1 ∨ g = 2 ∨ g = 3 by omega) with rfl | rfl | rfl | rfl <;> simp [kernelOwners]
  obtain ⟨p₃, m₃, used₃, own₃, hid, hinv₃, hwalk₃⟩ := identityLoop_spec hroom ha₂ hlow 4 (g := 0) rfl hinv₂ hown₂
    hdown₂ hfree₂ fun w hw => absurd hw (Nat.not_lt_zero _)
  obtain ⟨p₄, m₄, used₄, own₄, hker, hinv₄, hwalk₄, hkeep₄⟩ := kernelLoop_spec hroom ha₁
    (fun j hj => mappable ha hj htop) hpage kp n (i := 0) (by omega) hinv₃
  refine ⟨p₄, m₄, used₄, own₄, ?_, hinv₄, fun j hj => hwalk₄ j (Nat.zero_le j) (by omega), fun w hw => ?_⟩
  · have hne : (decide (a₁ = 0) || decide (a₂ = 0)) = false := by
      rw [Bool.or_eq_false_iff, decide_eq_false_iff_not, decide_eq_false_iff_not]
      exact ⟨ha₁.ne_zero, ha₂.ne_zero⟩
    have hid' : identityLoop a₂ identityGib 0 p₂ (setEntry (memzero (memzero m (4096 * base) 4096)
        (4096 * (base + (0 + 1))) 4096) a₁ 0 (a₂ ||| pagePresent ||| pageRw)) = (true, p₃, m₃) := hid
    rw [fillPool, halloc₁]
    simp only
    rw [show ptAlloc p₁ (memzero m (4096 * (base + 0)) 4096) = _ from halloc₂]
    simp only [hne, Bool.false_eq_true, if_false, hid', Bool.not_true, hn]
    rw [show kernelLoop a₁ s.virtualMin kp n 0 p₃ m₃ = (true, p₄, m₄) from hker]
  · rw [hkeep₄ w (by omega) fun j _ _ => by omega]
    exact hwalk₃ w (by omega)

theorem buildTables_of {F : Type} {fw : Firmware F} {u : Loader F} {kp pa pml4 sp : UInt64} {s : Elf64.Summary}
    {p : PageTablePool} {m : Bytes}
    (hpool : efiError (fw.allocatePages pageTablePoolPages u.firmware).1 = false ∧
      (fw.allocatePages pageTablePoolPages u.firmware).2.1 = pa)
    (hfill : fillPool (poolAt pa) kp s (memzero u.mem pa.toNat (pageTablePoolPages * pageSize).toNat) =
      (true, pml4, p, m))
    (hstack : efiError (fw.allocatePages 4 (fw.allocatePages pageTablePoolPages u.firmware).2.2).1 = false ∧
      (fw.allocatePages 4 (fw.allocatePages pageTablePoolPages u.firmware).2.2).2.1 = sp) :
    ∃ u', buildTables fw kp s u = ((efiSuccess, pml4, sp + 4 * pageSize - 16), u') ∧
      u'.mem = memzero m sp.toNat (4 * pageSize).toNat ∧
      u'.firmware = (fw.allocatePages 4 (fw.allocatePages pageTablePoolPages u.firmware).2.2).2.2 := by
  obtain ⟨hst, rfl⟩ := hpool
  obtain ⟨hst', rfl⟩ := hstack
  have hst₁ : ¬ efiError (fw.allocatePages pageTablePoolPages u.firmware).1 = true := by
    rw [hst]
    exact Bool.false_ne_true
  rw [buildTables_eq (allocLow_eq fw (by decide) u), if_neg hst₁, hfill, finishTables, allocLow_eq fw (by decide)]
  -- the size is kept from being evaluated, and the memory from being cleared
  generalize (4 * pageSize).toNat = size
  simp only [hst', Bool.false_eq_true, if_false]
  exact ⟨_, rfl, rfl, rfl⟩

/-- The tables that `build_tables` makes, for a kernel whose pages are known by their numbers. -/
theorem buildTables_walk {F : Type} {fw : Firmware F} {u : Loader F} {pa sp : UInt64} (hal : Allocates fw u.firmware pa sp)
    {kp : UInt64} {s : Elf64.Summary} {a f n : Nat} (hn : (pagesFor (s.virtualMax - s.virtualMin)).toNat = n)
    (hsize : n ≤ 16384) (ha : 2 ^ 36 - 2 ^ 19 ≤ a) (htop : a + n ≤ 2 ^ 36)
    (hpage : ∀ j < n, pageOf (s.virtualMin + UInt64.ofNat j * pageSize) = a + j)
    (hframe : ∀ j < n, Tables.frame (kp + UInt64.ofNat j * pageSize) = f + j) :
    ∃ u', buildTables fw kp s u = ((efiSuccess, pa, sp + 4 * pageSize - 16), u') ∧
      ∀ j < n, walk (tablesOf u'.mem) 3 (pa.toNat / 4096) (a + j) = some (f + j) := by
  obtain ⟨hpool, hstack, haligned, hpos, hbelow, hapart⟩ := hal
  generalize hbase : pa.toNat / 4096 = base
  obtain ⟨p, m, used, own, hfill, hinv, hwalk, -⟩ :=
    @fillPool_spec pa kp s base a n (by omega) (by omega) (by omega) hn hsize ha htop hpage
      (memzero u.mem pa.toNat (pageTablePoolPages * pageSize).toNat)
  obtain ⟨u', hbuild, hmem, -⟩ := buildTables_of hpool hfill hstack
  refine ⟨u', hbuild, fun j hj => ?_⟩
  -- the stack is cleared after that, but it does not lie in the pool
  have hsize' : (4 * pageSize).toNat = 4 * 4096 := rfl
  generalize (4 * pageSize).toNat = z at hsize' hmem
  rw [← hframe j hj, ← hwalk j hj]
  refine hinv.tree.walk_congr (fun k q hq => ?_) (by rw [Nat.div_eq_of_lt (by omega)]; exact hinv.tree.root)
  have hpages := (hinv.pages q).1 (by rw [hq]; exact Option.some_ne_none _)
  have hused : used < 48 := Nat.lt_of_le_of_lt hinv.used_le (card_kernelOwners hsize)
  have hidx := (index k (a + j)).isLt
  rw [hmem, tablesOf, tablesOf, le64, le64, leNat_congr]
  intro i h₁ h₂
  exact memzero_outside m (by omega)

end JoshBios.Uefi
