import Mathlib

/-! # Page tables

Four (or any number of) levels of tables with 512 entries each, as the processor walks them. A `Tables` gives the
entries of the pages that may be tables, by page number. Which of the pages are tables, and what for, is said by
`Owners`: the table of level `n` for the virtual pages `v` with `v / 512 ^ (n + 1) = q` is owned by `(n, q)`. In a
`Tree` every table has one owner and is where its owner's parent says, so a table can be added (`Tree.link`) or an
entry be set in a table of the lowest level (`Tree.leaf`) without a change to what other pages map to. -/

namespace JoshBios

abbrev Tables := Nat → Fin 512 → UInt64

namespace Tables

def present (e : UInt64) : Bool := e &&& 0x001 ≠ 0
def large (e : UInt64) : Bool := e &&& 0x080 ≠ 0

/-- The page number in an entry. -/
def frame (e : UInt64) : Nat := (e &&& 0x000ffffffffff000).toNat / 4096

theorem present_eq (e : UInt64) : present e = decide (e.toNat % 2 = 1) := by
  have hb : (e &&& 0x001).toNat = e.toNat % 2 := by
    rw [UInt64.toNat_and, show (0x001 : UInt64).toNat = 1 from rfl, Nat.and_one_is_mod]
  have hlt := Nat.mod_lt e.toNat (show 0 < 2 by decide)
  rw [present, decide_eq_decide, ne_eq, ← UInt64.toNat_inj, hb, show (0 : UInt64).toNat = 0 from rfl]
  omega

theorem large_eq (e : UInt64) : large e = decide (e.toNat / 128 % 2 = 1) := by
  have hnat : (e &&& 0x080).toNat = e.toNat &&& 1 <<< 7 := by rw [UInt64.toNat_and]; rfl
  -- the bit and nothing else
  have hdiv : (e.toNat &&& 1 <<< 7) / 2 ^ 7 = e.toNat / 2 ^ 7 % 2 := by
    rw [← Nat.shiftRight_eq_div_pow, Nat.shiftRight_and_distrib, Nat.shiftLeft_shiftRight, Nat.and_one_is_mod,
      Nat.shiftRight_eq_div_pow]
  have hmod : (e.toNat &&& 1 <<< 7) % 2 ^ 7 = 0 := by
    rw [Nat.and_mod_two_pow, show 1 <<< 7 % 2 ^ 7 = 0 from rfl, Nat.and_zero]
  rw [large, decide_eq_decide, ne_eq, ← UInt64.toNat_inj, hnat, show (0 : UInt64).toNat = 0 from rfl]
  omega

theorem frame_eq (e : UInt64) : frame e = e.toNat / 4096 % 2 ^ 40 := by
  have hmask : (0x000ffffffffff000 : UInt64).toNat = (2 ^ 40 - 1) <<< 12 := rfl
  rw [frame, UInt64.toNat_and, hmask, show (4096 : Nat) = 2 ^ 12 from rfl, ← Nat.shiftRight_eq_div_pow,
    Nat.shiftRight_and_distrib, Nat.shiftLeft_shiftRight, Nat.and_two_pow_sub_one_eq_mod, Nat.shiftRight_eq_div_pow]

theorem toNat_or_flags {a f : UInt64} (ha : a.toNat % 4096 = 0) (hf : f.toNat < 4096) :
    (a ||| f).toNat = a.toNat + f.toNat := by
  have hdiv : a.toNat = 2 ^ 12 * (a.toNat / 4096) := by omega
  rw [UInt64.toNat_or, hdiv, ← Nat.two_pow_add_eq_or_of_lt hf]

/-- The entry for the virtual page `v` in a table of level `n`. -/
def index (n v : Nat) : Fin 512 := ⟨v / 512 ^ n % 512, Nat.mod_lt _ (by decide)⟩

/-- The walk from the table `p` of level `n`: the physical page of the virtual page `v`. Large entries are there on
the two levels above the lowest. -/
def walk (T : Tables) : (n p v : Nat) → Option Nat
  | 0, p, v => if present (T p (index 0 v)) then some (frame (T p (index 0 v))) else none
  | n + 1, p, v =>
    let e := T p (index (n + 1) v)
    if !present e then none
    else if large e then
      if n + 1 ≤ 2 then some (frame e / 512 ^ (n + 1) * 512 ^ (n + 1) + v % 512 ^ (n + 1)) else none
    else walk T n (frame e) v

def set (T : Tables) (p : Nat) (i : Fin 512) (e : UInt64) : Tables :=
  fun p' i' => if p' = p ∧ i' = i then e else T p' i'

def clear (T : Tables) (p : Nat) : Tables := fun p' i => if p' = p then 0 else T p' i

@[simp] theorem set_self (T : Tables) (p : Nat) (i : Fin 512) (e : UInt64) : T.set p i e p i = e := by simp [set]

theorem set_ne (T : Tables) {p p' : Nat} {i i' : Fin 512} (e : UInt64) (h : ¬ (p' = p ∧ i' = i)) :
    T.set p i e p' i' = T p' i' := if_neg h

@[simp] theorem clear_self (T : Tables) (p : Nat) (i : Fin 512) : T.clear p p i = 0 := by simp [clear]

theorem clear_ne (T : Tables) {p p' : Nat} (i : Fin 512) (h : p' ≠ p) : T.clear p p' i = T p' i := if_neg h

/-- The entry `i` of the table `p` points to the table `c`. -/
structure Down (T : Tables) (p : Nat) (i : Fin 512) (c : Nat) : Prop where
  present : present (T p i) = true
  small : large (T p i) = false
  frame : frame (T p i) = c

theorem walk_down {T : Tables} {n p v c : Nat} (h : T.Down p (index (n + 1) v) c) : walk T (n + 1) p v = walk T n c v := by
  simp [walk, h.present, h.small, h.frame]

theorem walk_empty {T : Tables} {p : Nat} (h : ∀ i, T p i = 0) (n v : Nat) : walk T n p v = none := by
  cases n with
  | zero => simp [walk, h, present]
  | succ n => simp [walk, h, present]

abbrev Owners := Nat → Option (Nat × Nat)

theorem div_pow_succ (v n : Nat) : v / 512 ^ (n + 1) = v / 512 ^ n / 512 := by
  rw [Nat.pow_succ, Nat.div_div_eq_div_mul]

theorem owner_down (v n : Nat) : v / 512 ^ (n + 1) * 512 + (index n v).val = v / 512 ^ n := by
  rw [div_pow_succ, index]
  exact Nat.div_add_mod' _ _

structure Tree (T : Tables) (own : Owners) (root top : Nat) : Prop where
  root : own root = some (top, 0)
  level : ∀ p n q, own p = some (n, q) → n ≤ top
  inj : ∀ p p' x, own p = some x → own p' = some x → p = p'
  child : ∀ p n q i, own p = some (n + 1, q) → present (T p i) = true → large (T p i) = false →
    own (frame (T p i)) = some (n, q * 512 + i.val)
  linked : ∀ p c n q i, own p = some (n + 1, q) → own c = some (n, q * 512 + i.val) → present (T p i) = true
  parent : ∀ c n q, own c = some (n, q) → n < top → ∃ p, own p = some (n + 1, q / 512)

/-- The tables of `T` are tables of `T'`, and map what they mapped. -/
structure Extends (T : Tables) (own : Owners) (T' : Tables) (own' : Owners) : Prop where
  owned : ∀ p x, own p = some x → own' p = some x
  down : ∀ p i c, own p ≠ none → T.Down p i c → T'.Down p i c
  walk : ∀ n p v, own p = some (n, v / 512 ^ (n + 1)) → walk T' n p v = walk T n p v

theorem Extends.refl (T : Tables) (own : Owners) : Extends T own T own :=
  ⟨fun _ _ h => h, fun _ _ _ _ h => h, fun _ _ _ _ => rfl⟩

theorem Extends.trans {T T' T'' : Tables} {own own' own'' : Owners} (h : Extends T own T' own')
    (h' : Extends T' own' T'' own'') : Extends T own T'' own'' := by
  refine ⟨fun p x hp => h'.owned p x (h.owned p x hp), fun p i c hp hd => ?_, fun n p v hp => ?_⟩
  · obtain ⟨x, hx⟩ := Option.ne_none_iff_exists'.1 hp
    exact h'.down p i c (by rw [h.owned p x hx]; exact Option.some_ne_none x) (h.down p i c hp hd)
  · rw [h'.walk n p v (h.owned p _ hp), h.walk n p v hp]

section
variable {T : Tables} {own : Owners} {root top : Nat} (h : Tree T own root top)
include h

/-- A walk depends on the entries along its way. -/
theorem Tree.walk_congr {T' : Tables} {v : Nat}
    (hT : ∀ k p, own p = some (k, v / 512 ^ (k + 1)) → T' p (index k v) = T p (index k v)) {n p : Nat}
    (hp : own p = some (n, v / 512 ^ (n + 1))) : walk T' n p v = walk T n p v := by
  induction n generalizing p with
  | zero => simp only [walk, hT 0 p hp]
  | succ n ih =>
    simp only [walk, hT (n + 1) p hp]
    by_cases hpres : present (T p (index (n + 1) v)) = true
    · by_cases hlarge : large (T p (index (n + 1) v)) = true
      · simp only [hpres, hlarge, if_true]
      · have hchild := h.child p n _ _ hp hpres (Bool.not_eq_true _ ▸ hlarge)
        rw [owner_down] at hchild
        simp only [ih hchild]
    · simp only [Bool.not_eq_true] at hpres
      simp only [hpres, Bool.not_false, if_true]

/-! ### A new table -/

section Link
variable {p c n q : Nat} {i : Fin 512} {e : UInt64} (hp : own p = some (n + 1, q)) (hc : own c = none)
  (hfree : present (T p i) = false)
include hp hfree

theorem Tree.free {c' : Nat} : own c' ≠ some (n, q * 512 + i.val) := by
  intro hown
  have hpres := h.linked p c' n q i hp hown
  rw [hfree] at hpres
  cases hpres

variable (he : present e = true) (hs : large e = false) (hf : frame e = c)
include hc he hs hf

theorem Tree.link_walk (k p' v : Nat) (hp' : own p' = some (k, v / 512 ^ (k + 1))) :
    walk ((T.clear c).set p i e) k p' v = walk T k p' v := by
  have hpc : p ≠ c := by
    rintro rfl
    rw [hc] at hp
    cases hp
  induction k generalizing p' with
  | zero =>
    have hne : p' ≠ p := by
      rintro rfl
      rw [hp] at hp'
      cases hp'
    have hne' : p' ≠ c := by
      rintro rfl
      rw [hc] at hp'
      cases hp'
    simp only [walk]
    rw [set_ne _ _ fun hh => hne hh.1, clear_ne _ _ hne']
  | succ k ih =>
    have hne' : p' ≠ c := by
      rintro rfl
      rw [hc] at hp'
      cases hp'
    by_cases hat : p' = p ∧ index (k + 1) v = i
    · -- the walk passes through the new table, which is empty, as the entry was
      obtain ⟨rfl, rfl⟩ := hat
      have hdown : ((T.clear c).set p' (index (k + 1) v) e).Down p' (index (k + 1) v) c := by
        refine ⟨?_, ?_, ?_⟩ <;> rw [set_self] <;> assumption
      rw [walk_down hdown, walk_empty fun j => ?_]
      · simp [walk, hfree]
      · rw [set_ne _ _ fun hh => hpc hh.1.symm, clear_self]
    · have hsame : (T.clear c).set p i e p' (index (k + 1) v) = T p' (index (k + 1) v) := by
        rw [set_ne _ _ hat, clear_ne _ _ hne']
      simp only [walk, hsame]
      by_cases hpres : present (T p' (index (k + 1) v)) = true
      · by_cases hlarge : large (T p' (index (k + 1) v)) = true
        · simp only [hpres, hlarge, if_true]
        · have hchild := h.child p' k _ _ hp' hpres (Bool.not_eq_true _ ▸ hlarge)
          rw [owner_down] at hchild
          simp only [ih _ hchild]
      · simp only [Bool.not_eq_true] at hpres
        simp only [hpres, Bool.not_false, if_true]

theorem Tree.link_extends : Extends T own ((T.clear c).set p i e)
    (fun p' => if p' = c then some (n, q * 512 + i.val) else own p') := by
  refine ⟨fun p' x hp' => ?_, fun p' j c' hp' hd => ?_, h.link_walk hp hc hfree he hs hf⟩
  · have hne : p' ≠ c := by
      rintro rfl
      rw [hc] at hp'
      cases hp'
    rw [if_neg hne]
    exact hp'
  · have hne : p' ≠ c := by
      rintro rfl
      exact hp' hc
    have hat : ¬ (p' = p ∧ j = i) := by
      rintro ⟨rfl, rfl⟩
      have := hd.present
      rw [hfree] at this
      cases this
    have hsame : (T.clear c).set p i e p' j = T p' j := by rw [set_ne _ _ hat, clear_ne _ _ hne]
    refine ⟨?_, ?_, ?_⟩
    · rw [hsame]; exact hd.present
    · rw [hsame]; exact hd.small
    · rw [hsame]; exact hd.frame

omit hs in
/-- A new table behind a free entry. -/
theorem Tree.link : Tree ((T.clear c).set p i e)
    (fun p' => if p' = c then some (n, q * 512 + i.val) else own p') root top := by
  have hpc : p ≠ c := by
    rintro rfl
    rw [hc] at hp
    cases hp
  have hfreeOwner : ∀ c', own c' ≠ some (n, q * 512 + i.val) := fun c' => h.free hp hfree
  refine ⟨?_, ?_, ?_, ?_, ?_, ?_⟩
  · have hrc : root ≠ c := by
      rintro rfl
      exact absurd (hc.symm.trans h.root) nofun
    rw [if_neg hrc]
    exact h.root
  · intro p' n' q' hown
    split at hown
    · cases hown
      have := h.level p _ _ hp
      omega
    · exact h.level p' n' q' hown
  · intro p' p'' x h₁ h₂
    split at h₁
    · next hc₁ =>
      split at h₂
      · next hc₂ => rw [hc₁, hc₂]
      · cases h₁
        exact absurd h₂ (hfreeOwner p'')
    · split at h₂
      · cases h₂
        exact absurd h₁ (hfreeOwner p')
      · exact h.inj p' p'' x h₁ h₂
  · intro p' n' q' j hown hpres hsmall
    split at hown
    · next hc' =>
      subst hc'
      rw [set_ne _ _ fun hh => hpc hh.1.symm, clear_self] at hpres
      exact absurd hpres (by decide)
    · next hc' =>
      by_cases hat : p' = p ∧ j = i
      · obtain ⟨rfl, rfl⟩ := hat
        rw [set_self, hf, if_pos rfl]
        rw [hp] at hown
        cases hown
        rfl
      · rw [set_ne _ _ hat, clear_ne _ _ hc'] at hpres hsmall ⊢
        have hchild := h.child p' n' q' j hown hpres hsmall
        rw [if_neg]
        · exact hchild
        · intro heq
          rw [heq, hc] at hchild
          cases hchild
  · intro p' c' n' q' j h₁ h₂
    split at h₁
    · next hc₁ =>
      cases h₁
      split at h₂
      · cases h₂
      · -- a child of the new table would have had a parent before
        obtain ⟨p'', hp''⟩ := h.parent c' n' _ h₂ (by have := h.level p _ _ hp; omega)
        rw [show ((q * 512 + i.val) * 512 + j.val) / 512 = q * 512 + i.val by omega] at hp''
        exact absurd hp'' (hfreeOwner p'')
    · next hc₁ =>
      split at h₂
      · next hc₂ =>
        simp only [Option.some.injEq, Prod.mk.injEq] at h₂
        obtain ⟨rfl, hq⟩ := h₂
        have hqq : q' = q := by have := i.isLt; have := j.isLt; omega
        subst hqq
        have hji : j = i := Fin.ext (by omega)
        have hpp : p' = p := h.inj p' p _ h₁ hp
        rw [hji, hpp, set_self]
        exact he
      · by_cases hat : p' = p ∧ j = i
        · obtain ⟨rfl, rfl⟩ := hat
          rw [set_self]
          exact he
        · rw [set_ne _ _ hat, clear_ne _ _ hc₁]
          exact h.linked p' c' n' q' j h₁ h₂
  · intro c' n' q' hown hlt
    have lift : ∀ p', (∃ x, own p' = some x) → p' ≠ c := by
      rintro p' ⟨x, hx⟩ rfl
      rw [hc] at hx
      cases hx
    split at hown
    · cases hown
      refine ⟨p, ?_⟩
      rw [if_neg hpc, show (q * 512 + i.val) / 512 = q by omega]
      exact hp
    · obtain ⟨p', hp'⟩ := h.parent c' n' q' hown hlt
      exact ⟨p', by rw [if_neg (lift p' ⟨_, hp'⟩)]; exact hp'⟩

end Link

/-! ### An entry -/

theorem Tree.set_large {p n q : Nat} {i : Fin 512} {e : UInt64} (hp : own p = some (n + 1, q)) (he : present e = true)
    (hl : large e = true) : Tree (T.set p i e) own root top := by
  refine ⟨h.root, h.level, h.inj, fun p' n' q' j hown hpres hsmall => ?_, fun p' c n' q' j h₁ h₂ => ?_, h.parent⟩
  · by_cases hat : p' = p ∧ j = i
    · obtain ⟨rfl, rfl⟩ := hat
      rw [set_self, hl] at hsmall
      cases hsmall
    · rw [set_ne _ _ hat] at hpres hsmall ⊢
      exact h.child p' n' q' j hown hpres hsmall
  · by_cases hat : p' = p ∧ j = i
    · obtain ⟨rfl, rfl⟩ := hat
      rw [set_self]
      exact he
    · rw [set_ne _ _ hat]
      exact h.linked p' c n' q' j h₁ h₂

section Leaf
variable {p q : Nat} (hp : own p = some (0, q)) (i : Fin 512) (e : UInt64)
include hp

omit h in
theorem leaf_ne {p' n q' : Nat} (hp' : own p' = some (n + 1, q')) (j : Fin 512) : T.set p i e p' j = T p' j := by
  refine set_ne _ _ fun hh => ?_
  rw [hh.1, hp] at hp'
  cases hp'

theorem Tree.leaf : Tree (T.set p i e) own root top := by
  refine ⟨h.root, h.level, h.inj, fun p' n' q' j hown hpres hsmall => ?_, fun p' c n' q' j h₁ h₂ => ?_, h.parent⟩
  · rw [leaf_ne hp i e hown] at hpres hsmall ⊢
    exact h.child p' n' q' j hown hpres hsmall
  · rw [leaf_ne hp i e h₁]
    exact h.linked p' c n' q' j h₁ h₂

omit h in
theorem leaf_down {p' n q' : Nat} (hp' : own p' = some (n + 1, q')) {j : Fin 512} {c : Nat} (hd : T.Down p' j c) :
    (T.set p i e).Down p' j c := by
  refine ⟨?_, ?_, ?_⟩ <;> rw [leaf_ne hp i e hp']
  · exact hd.present
  · exact hd.small
  · exact hd.frame

/-- An entry of the lowest level is the entry of one virtual page. -/
theorem Tree.leaf_walk {k p' v : Nat} (hp' : own p' = some (k, v / 512 ^ (k + 1))) (hv : v ≠ q * 512 + i.val) :
    walk (T.set p i e) k p' v = walk T k p' v := by
  refine h.walk_congr (fun n p'' hp'' => set_ne _ _ ?_) hp'
  rintro ⟨rfl, hi⟩
  rw [hp] at hp''
  simp only [Option.some.injEq, Prod.mk.injEq] at hp''
  obtain ⟨rfl, rfl⟩ := hp''
  refine hv ?_
  rw [← hi, owner_down, Nat.pow_zero, Nat.div_one]

end Leaf

end

end Tables

end JoshBios
