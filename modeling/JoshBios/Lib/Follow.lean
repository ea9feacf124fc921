import Mathlib

/-! # Chains of links

`next` gives the node after a node, or none at the end of a chain. `nodeAt next n a` is the node `n` links behind `a`, and
`follow next n a` the list of the first `n` nodes of the chain from `a` on, fewer if it ends before. A chain that comes back
to a node never ends (`endless_of_cycle`), and what it has not come to by then it never does (`mem_follow_of_cycle`). -/

namespace JoshBios.Lib

variable {α : Type*} (next : α → Option α)

def nodeAt : Nat → α → Option α
  | 0, a => some a
  | n + 1, a => (next a).bind (nodeAt n)

def follow : Nat → α → List α
  | 0, _ => []
  | n + 1, a =>
    a :: match next a with
      | none => []
      | some b => follow n b

variable {next}

@[simp] theorem follow_zero (a : α) : follow next 0 a = [] := rfl

theorem follow_of_some {a b : α} (h : next a = some b) (n : Nat) : follow next (n + 1) a = a :: follow next n b := by
  rw [follow, h]

theorem follow_of_none {a : α} (h : next a = none) (n : Nat) : follow next (n + 1) a = [a] := by
  rw [follow, h]

theorem nodeAt_add (m n : Nat) (a : α) : nodeAt next (m + n) a = (nodeAt next m a).bind (nodeAt next n) := by
  induction m generalizing a with
  | zero => rw [Nat.zero_add]; rfl
  | succ m ih =>
    rw [Nat.add_right_comm, nodeAt, nodeAt]
    cases next a with
    | none => rfl
    | some b => exact ih b

theorem length_follow_le (n : Nat) (a : α) : (follow next n a).length ≤ n := by
  induction n generalizing a with
  | zero => exact Nat.le_refl 0
  | succ n ih =>
    cases hn : next a with
    | none => rw [follow_of_none hn]; exact Nat.succ_le_succ (Nat.zero_le n)
    | some b => rw [follow_of_some hn]; exact Nat.succ_le_succ (ih b)

theorem getElem?_follow {n k : Nat} (hk : k < n) (a : α) : (follow next n a)[k]? = nodeAt next k a := by
  induction n generalizing k a with
  | zero => omega
  | succ n ih =>
    cases k with
    | zero => rfl
    | succ k =>
      cases hn : next a with
      | none => simp [follow_of_none hn, nodeAt, hn]
      | some b => simpa [follow_of_some hn, nodeAt, hn] using ih (by omega) b

theorem follow_add {m : Nat} {a b : α} (h : nodeAt next m a = some b) (n : Nat) :
    follow next (m + n) a = follow next m a ++ follow next n b := by
  induction m generalizing a with
  | zero =>
    obtain rfl : a = b := Option.some.inj h
    rw [Nat.zero_add]
    rfl
  | succ m ih =>
    cases hn : next a with
    | none => rw [nodeAt, hn] at h; cases h
    | some c =>
      rw [nodeAt, hn] at h
      rw [Nat.add_right_comm, follow_of_some hn, follow_of_some hn, ih h, List.cons_append]

theorem length_follow_of_nodeAt {m : Nat} {a b : α} (h : nodeAt next m a = some b) : (follow next m a).length = m := by
  have h₁ := @length_follow_le _ next m a
  have h₂ : (follow next (m + 1) a)[m]? = some b := by rw [getElem?_follow (Nat.lt_succ_self m), h]
  have h₃ := (List.getElem?_eq_some_iff.1 h₂).1
  rw [follow_add h, List.length_append] at h₃
  have h₄ := @length_follow_le _ next 1 b
  omega

theorem nodeAt_of_lt_length {n k : Nat} {a : α} (hk : k < (follow next n a).length) : ∃ b, nodeAt next k a = some b := by
  have hkn := Nat.lt_of_lt_of_le hk (length_follow_le n a)
  exact ⟨(follow next n a)[k], by rw [← getElem?_follow hkn, List.getElem?_eq_getElem hk]⟩

theorem nodeAt_of_le {m n : Nat} {a b : α} (h : nodeAt next n a = some b) (hm : m ≤ n) : ∃ c, nodeAt next m a = some c := by
  obtain ⟨k, rfl⟩ := Nat.exists_eq_add_of_le hm
  rw [nodeAt_add] at h
  cases hc : nodeAt next m a with
  | none => rw [hc] at h; cases h
  | some c => exact ⟨c, rfl⟩

/-! ### Ends -/

theorem nodeAt_end {m : Nat} {a b : α} (h : nodeAt next m a = some b) (hb : next b = none) {n : Nat} (hn : m < n) :
    nodeAt next n a = none := by
  obtain ⟨d, rfl⟩ := Nat.exists_eq_add_of_lt hn
  rw [Nat.add_assoc, nodeAt_add, h, Nat.add_comm d, Option.bind_some, nodeAt_add]
  simp [nodeAt, hb]

theorem end_unique {m m' : Nat} {a b b' : α} (h : nodeAt next m a = some b) (hb : next b = none)
    (h' : nodeAt next m' a = some b') (hb' : next b' = none) : b = b' := by
  rcases Nat.lt_trichotomy m m' with hlt | rfl | hlt
  · rw [nodeAt_end h hb hlt] at h'
    cases h'
  · exact Option.some.inj (h.symm.trans h')
  · rw [nodeAt_end h' hb' hlt] at h
    cases h

theorem exists_end {n : Nat} {a : α} (h : ∀ b, nodeAt next n a ≠ some b) :
    ∃ b m, nodeAt next m a = some b ∧ next b = none := by
  induction n generalizing a with
  | zero => exact absurd rfl (h a)
  | succ n ih =>
    cases hn : next a with
    | none => exact ⟨a, 0, rfl, hn⟩
    | some b =>
      have hstep : ∀ m, nodeAt next (m + 1) a = nodeAt next m b := fun m => by
        rw [nodeAt, hn]
        rfl
      rw [hstep] at h
      obtain ⟨c, m, hc, hend⟩ := ih h
      exact ⟨c, m + 1, (hstep m).trans hc, hend⟩

theorem follow_end {m : Nat} {a b : α} (h : nodeAt next m a = some b) (hb : next b = none) {n : Nat} (hn : m < n) :
    follow next n a = follow next (m + 1) a := by
  obtain ⟨d, rfl⟩ := Nat.exists_eq_add_of_lt hn
  rw [Nat.add_assoc, follow_add h, follow_add h, follow_of_none hb, follow_of_none hb]

/-! ### Cycles -/

/-- A chain that comes back to a node goes on for ever. -/
theorem nodeAt_of_cycle {i j : Nat} {a b : α} (hij : i < j) (hi : nodeAt next i a = some b) (hj : nodeAt next j a = some b)
    (n : Nat) : ∃ c, nodeAt next n a = some c := by
  induction n using Nat.strongRecOn with
  | _ n ih =>
    by_cases hn : n ≤ j
    · exact nodeAt_of_le hj hn
    · obtain ⟨k, rfl⟩ := Nat.exists_eq_add_of_le (Nat.le_of_not_le hn)
      obtain ⟨c, hc⟩ := ih (i + k) (by omega)
      refine ⟨c, ?_⟩
      rw [nodeAt_add, hj, ← hi, ← nodeAt_add, hc]

theorem exists_cycle {n : Nat} {a : α} (h : ¬ (follow next n a).Nodup) :
    ∃ i j b, i < j ∧ j < n ∧ nodeAt next i a = some b ∧ nodeAt next j a = some b := by
  rw [List.nodup_iff_getElem?_ne_getElem?] at h
  push Not at h
  obtain ⟨i, j, hij, hj, heq⟩ := h
  have hjn : j < n := Nat.lt_of_lt_of_le hj (length_follow_le n a)
  have hjb := List.getElem?_eq_getElem hj
  rw [getElem?_follow hjn] at hjb
  rw [getElem?_follow (by omega), getElem?_follow hjn] at heq
  exact ⟨i, j, _, hij, hjn, heq.trans hjb, hjb⟩

theorem endless_of_cycle {n : Nat} {a : α} (h : ¬ (follow next n a).Nodup) (m : Nat) : ∃ c, nodeAt next m a = some c := by
  obtain ⟨i, j, b, hij, -, hi, hj⟩ := exists_cycle h
  exact nodeAt_of_cycle hij hi hj m

theorem length_follow_of_cycle {n : Nat} {a : α} (h : ¬ (follow next n a).Nodup) (m : Nat) :
    (follow next m a).length = m := by
  obtain ⟨c, hc⟩ := endless_of_cycle h m
  exact length_follow_of_nodeAt hc

theorem mem_follow_of_cycle {m n : Nat} {a x : α} (h : ¬ (follow next n a).Nodup) (hx : x ∈ follow next m a) :
    x ∈ follow next n a := by
  obtain ⟨i, j, b, hij, hj, hbi, hbj⟩ := exists_cycle h
  obtain ⟨k, hk⟩ := List.mem_iff_getElem?.1 hx
  have hkm : k < m := Nat.lt_of_lt_of_le (List.getElem?_eq_some_iff.1 hk).1 (length_follow_le m a)
  rw [getElem?_follow hkm] at hk
  clear hx hkm
  induction k using Nat.strongRecOn with
  | _ k ih =>
    by_cases hkn : k < n
    · exact List.mem_iff_getElem?.2 ⟨k, by rw [getElem?_follow hkn, hk]⟩
    · -- the same node, one turn of the cycle earlier
      obtain ⟨d, rfl⟩ := Nat.exists_eq_add_of_le (show j ≤ k by omega)
      refine ih (i + d) (by omega) ?_
      rw [nodeAt_add, hbi, ← hk, nodeAt_add, hbj]

end JoshBios.Lib
