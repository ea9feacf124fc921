import JoshBios.Lib.Bytes

/-! # Fields of a structure in memory

A program that fills in a structure stores numbers at offsets from its address, some of them more than once. `fieldAfter`
computes what one field holds after such a list of stores; it only looks at the offsets and the widths, so for a list that is
written out the answer is there by evaluation (`leNat_writeFields`). -/

namespace JoshBios

/-- Stores of numbers: the offset from `a`, the width and the value of each. -/
def writeFields (m : Bytes) (a : Nat) (fields : List (Nat × Nat × Nat)) : Bytes :=
  fields.foldl (fun m f => m.write (a + f.1) (leBytes f.2.1 f.2.2)) m

theorem writeFields_cons (m : Bytes) (a : Nat) (f : Nat × Nat × Nat) (fields : List (Nat × Nat × Nat)) :
    writeFields m a (f :: fields) = writeFields (m.write (a + f.1) (leBytes f.2.1 f.2.2)) a fields := rfl

theorem writeFields_append (m : Bytes) (a : Nat) (fields fields' : List (Nat × Nat × Nat)) :
    writeFields m a (fields ++ fields') = writeFields (writeFields m a fields) a fields' := List.foldl_append

/-- Nothing of `[o, o + n)` is stored. -/
def apart (o n : Nat) (fields : List (Nat × Nat × Nat)) : Bool :=
  fields.all fun f => decide (o + n ≤ f.1) || decide (f.1 + f.2.1 ≤ o)

theorem apart_cons {o n : Nat} {f : Nat × Nat × Nat} {fields : List (Nat × Nat × Nat)} :
    apart o n (f :: fields) = true ↔ (o + n ≤ f.1 ∨ f.1 + f.2.1 ≤ o) ∧ apart o n fields = true := by
  rw [apart, List.all_cons, Bool.and_eq_true, Bool.or_eq_true, decide_eq_true_iff, decide_eq_true_iff]
  rfl

theorem writeFields_apart {o n : Nat} {fields : List (Nat × Nat × Nat)} (h : apart o n fields = true) (m : Bytes) (a : Nat)
    {k : Nat} (hk : k < n) : writeFields m a fields (a + o + k) = m (a + o + k) := by
  induction fields generalizing m with
  | nil => rfl
  | cons f fields ih =>
    obtain ⟨hf, hfields⟩ := apart_cons.1 h
    rw [writeFields_cons, ih hfields]
    rcases hf with hf | hf
    · exact Bytes.write_of_lt _ _ (by omega)
    · exact Bytes.write_of_le _ _ (by rw [length_leBytes]; omega)

theorem writeFields_outside {size : Nat} {fields : List (Nat × Nat × Nat)}
    (h : (fields.all fun f => f.1 + f.2.1 ≤ size) = true) (m : Bytes) (a : Nat) {x : Nat} (hx : x < a ∨ a + size ≤ x) :
    writeFields m a fields x = m x := by
  induction fields generalizing m with
  | nil => rfl
  | cons f fields ih =>
    rw [List.all_cons, Bool.and_eq_true, decide_eq_true_iff] at h
    rw [writeFields_cons, ih h.2]
    rcases hx with hx | hx
    · exact Bytes.write_of_lt _ _ (by omega)
    · exact Bytes.write_of_le _ _ (by rw [length_leBytes]; omega)

/-- What the `n` bytes at the offset `o` hold after the stores, with `old` in them before; unless a store meets them in part. -/
def fieldAfter (o n : Nat) : List (Nat × Nat × Nat) → (old : Nat) → Option Nat
  | [], old => some old
  | f :: fields, old =>
    if f.1 = o ∧ f.2.1 = n then fieldAfter o n fields (f.2.2 % 256 ^ n)
    else if o + n ≤ f.1 ∨ f.1 + f.2.1 ≤ o then fieldAfter o n fields old
    else none

theorem leNat_write (m : Bytes) (a n v : Nat) : leNat (m.write a (leBytes n v)) a n = v % 256 ^ n :=
  leNat_leBytes fun i hi => Bytes.write_inside m (by rwa [length_leBytes])

theorem leNat_lt (m : Bytes) (a n : Nat) : leNat m a n < 256 ^ n := by
  induction n generalizing a with
  | zero => exact Nat.one_pos
  | succ n ih =>
    have hbyte := (m a).toNat_lt
    have hrest := ih (a + 1)
    rw [leNat, Nat.pow_succ]
    omega

theorem leNat_writeFields {o n v : Nat} {fields : List (Nat × Nat × Nat)} {m : Bytes} {a : Nat}
    (h : fieldAfter o n fields (leNat m (a + o) n) = some v) : leNat (writeFields m a fields) (a + o) n = v := by
  induction fields generalizing m with
  | nil => exact Option.some.inj h
  | cons f fields ih =>
    obtain ⟨o', n', v'⟩ := f
    rw [writeFields_cons]
    refine ih ?_
    rw [fieldAfter] at h
    split at h
    next heq =>
      obtain ⟨rfl, rfl⟩ := heq
      rwa [leNat_write]
    next =>
      split at h
      next hapart =>
        rw [← h]
        congr 1
        refine leNat_congr fun i h₁ h₂ => ?_
        rcases hapart with hapart | hapart
        · exact Bytes.write_of_lt _ _ (by omega)
        · exact Bytes.write_of_le _ _ (by rw [length_leBytes]; omega)
      · cases h

/-- A number that is read where nothing is stored. -/
theorem leNat_writeFields_apart {o n : Nat} {fields : List (Nat × Nat × Nat)} (h : apart o n fields = true) (m : Bytes)
    (a : Nat) : leNat (writeFields m a fields) (a + o) n = leNat m (a + o) n :=
  leNat_of_window fun _ hk => writeFields_apart h m a hk

end JoshBios
