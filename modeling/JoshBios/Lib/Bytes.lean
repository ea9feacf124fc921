import Mathlib

/-!
# Bytes in memory

A buffer or a memory is a function from offsets (addresses) to bytes; how much of it a program may
look at is a matter of the program. `leNat` and `leBytes` are the little-endian reading and writing
of a number, `packBytes` the layout of a packed structure; `memzero` and `memcopy` are the forward byte
loops, so an overlapping copy does what such a loop does.
-/

namespace JoshBios

abbrev Bytes := Nat → UInt8

theorem forall_uint8 {p : UInt8 → Prop} (h : ∀ n : Fin 256, p (.ofFin n)) (c : UInt8) : p c := h c.toFin

/-- A finite byte list as a buffer, zero beyond its end. -/
def bytesOf (l : List UInt8) : Bytes := fun i => l.getD i 0

/-- The `n` bytes from `off` as a little-endian number. -/
def leNat (b : Bytes) (off : Nat) : Nat → Nat
  | 0 => 0
  | n + 1 => (b off).toNat + 256 * leNat b (off + 1) n

def le16 (b : Bytes) (off : Nat) : UInt16 := .ofNat (leNat b off 2)
def le32 (b : Bytes) (off : Nat) : UInt32 := .ofNat (leNat b off 4)
def le64 (b : Bytes) (off : Nat) : UInt64 := .ofNat (leNat b off 8)

/-- The `n` lowest bytes of a number, lowest first. -/
def leBytes : (n x : Nat) → List UInt8
  | 0, _ => []
  | n + 1, x => UInt8.ofNat x :: leBytes n (x / 256)

@[simp] theorem length_leBytes (n x : Nat) : (leBytes n x).length = n := by
  induction n generalizing x with
  | zero => rfl
  | succ n ih => simp [leBytes, ih]

theorem leNat_of_window {b b' : Bytes} {o o' n : Nat} (h : ∀ k < n, b (o + k) = b' (o' + k)) :
    leNat b o n = leNat b' o' n := by
  induction n generalizing o o' with
  | zero => rfl
  | succ n ih =>
    have h₀ : b o = b' o' := h 0 (by omega)
    have htail : ∀ k < n, b (o + 1 + k) = b' (o' + 1 + k) := fun k hk => by
      have := h (k + 1) (by omega)
      rwa [Nat.add_comm k 1, ← Nat.add_assoc, ← Nat.add_assoc] at this
    rw [leNat, leNat, h₀, ih htail]

theorem leNat_congr {b b' : Bytes} {off n : Nat} (h : ∀ i, off ≤ i → i < off + n → b i = b' i) :
    leNat b off n = leNat b' off n :=
  leNat_of_window fun k hk => h (off + k) (by omega) (by omega)

theorem leNat_leBytes {b : Bytes} {off n x : Nat}
    (h : ∀ i, i < n → b (off + i) = (leBytes n x).getD i 0) : leNat b off n = x % 256 ^ n := by
  induction n generalizing off x with
  | zero => simp [leNat, Nat.mod_one]
  | succ n ih =>
    have h₀ : b off = UInt8.ofNat x := by simpa [leBytes] using h 0 (by omega)
    have h₁ : leNat b (off + 1) n = x / 256 % 256 ^ n :=
      ih fun i hi => by simpa [leBytes, Nat.add_assoc, Nat.add_comm 1 i] using h (i + 1) (by omega)
    have hx : (UInt8.ofNat x).toNat = x % 256 := UInt8.toNat_ofNat'
    rw [leNat, h₀, h₁, hx, Nat.pow_succ', Nat.mod_mul]

/-- The bytes of a packed structure, given the width and the value of each field. -/
def packBytes (fields : List (Nat × Nat)) : List UInt8 := fields.flatMap fun f => leBytes f.1 f.2

theorem length_packBytes (fields : List (Nat × Nat)) :
    (packBytes fields).length = (fields.map Prod.fst).sum := by
  induction fields with
  | nil => rfl
  | cons f fields ih => simp [packBytes]

theorem packBytes_append (fs gs : List (Nat × Nat)) : packBytes (fs ++ gs) = packBytes fs ++ packBytes gs := by
  simp [packBytes]

theorem leNat_packBytes (before : List (Nat × Nat)) (n x : Nat) (after : List (Nat × Nat)) :
    leNat (bytesOf (packBytes (before ++ (n, x) :: after))) (before.map Prod.fst).sum n = x % 256 ^ n := by
  refine leNat_leBytes fun i hi => ?_
  have hl := length_packBytes before
  rw [bytesOf, packBytes_append, List.getD_append_right _ _ _ _ (by omega), hl, Nat.add_sub_cancel_left,
    packBytes, List.flatMap_cons, List.getD_append _ _ _ _ (by simpa using hi)]

theorem le16_packBytes (before : List (Nat × Nat)) (x : UInt16) (after : List (Nat × Nat)) {off : Nat}
    (hoff : (before.map Prod.fst).sum = off) :
    le16 (bytesOf (packBytes (before ++ (2, x.toNat) :: after))) off = x := by
  have hx := x.toNat_lt
  rw [le16, ← hoff, leNat_packBytes, Nat.mod_eq_of_lt (by omega), UInt16.ofNat_toNat]

theorem le32_packBytes (before : List (Nat × Nat)) (x : UInt32) (after : List (Nat × Nat)) {off : Nat}
    (hoff : (before.map Prod.fst).sum = off) :
    le32 (bytesOf (packBytes (before ++ (4, x.toNat) :: after))) off = x := by
  have hx := x.toNat_lt
  rw [le32, ← hoff, leNat_packBytes, Nat.mod_eq_of_lt (by omega), UInt32.ofNat_toNat]

theorem le64_packBytes (before : List (Nat × Nat)) (x : UInt64) (after : List (Nat × Nat)) {off : Nat}
    (hoff : (before.map Prod.fst).sum = off) :
    le64 (bytesOf (packBytes (before ++ (8, x.toNat) :: after))) off = x := by
  have hx := x.toNat_lt
  rw [le64, ← hoff, leNat_packBytes, Nat.mod_eq_of_lt (by omega), UInt64.ofNat_toNat]

/-- The `n` bytes of a buffer from `off`. -/
def Bytes.slice (b : Bytes) (off n : Nat) : List UInt8 := (List.range n).map fun i => b (off + i)

@[simp] theorem Bytes.length_slice (b : Bytes) (off n : Nat) : (b.slice off n).length = n := by simp [Bytes.slice]

theorem Bytes.slice_succ (b : Bytes) (off n : Nat) : b.slice off (n + 1) = b off :: b.slice (off + 1) n := by
  rw [Bytes.slice, List.range_succ_eq_map, List.map_cons, List.map_map, Bytes.slice]
  congr 1
  exact List.map_congr_left fun i _ => by rw [Function.comp, Nat.succ_eq_add_one, Nat.add_right_comm, Nat.add_assoc]

theorem slice_of_window {b b' : Bytes} {o o' n : Nat} (h : ∀ k < n, b (o + k) = b' (o' + k)) :
    b.slice o n = b'.slice o' n :=
  List.map_congr_left fun k hk => h k (List.mem_range.1 hk)

theorem slice_bytesOf (x : List UInt8) : (bytesOf x).slice 0 x.length = x := by
  refine List.ext_getElem (Bytes.length_slice _ _ _) fun i h₁ h₂ => ?_
  rw [List.getElem_of_eq (show (bytesOf x).slice 0 x.length = (List.range x.length).map fun i => bytesOf x (0 + i) from rfl),
    List.getElem_map, List.getElem_range, Nat.zero_add, bytesOf, List.getD_eq_getElem x 0 h₂]

/-- `m[a] = v`. -/
def Bytes.set (m : Bytes) (a : Nat) (v : UInt8) : Bytes := fun i => if i = a then v else m i

@[simp] theorem Bytes.set_self (m : Bytes) (a : Nat) (v : UInt8) : m.set a v a = v := by simp [Bytes.set]

theorem Bytes.set_ne (m : Bytes) {a i : Nat} (v : UInt8) (h : i ≠ a) : m.set a v i = m i := by
  simp [Bytes.set, h]

/-- `while (n--) *d++ = 0;` -/
def memzero (m : Bytes) (d : Nat) : Nat → Bytes
  | 0 => m
  | n + 1 => memzero (m.set d 0) (d + 1) n

/-- `while (n--) *d++ = *s++;`, both in the same memory. -/
def memcopy (m : Bytes) (d s : Nat) : Nat → Bytes
  | 0 => m
  | n + 1 => memcopy (m.set d (m s)) (d + 1) (s + 1) n

/-- The bytes `l` written from address `a` on. -/
def Bytes.write (m : Bytes) (a : Nat) (l : List UInt8) : Bytes :=
  fun i => if a ≤ i ∧ i < a + l.length then l.getD (i - a) 0 else m i

/-- The memory as seen from address `a` on. -/
def Bytes.from (m : Bytes) (a : Nat) : Bytes := fun i => m (a + i)

/-! ### What the writes touch -/

theorem Bytes.write_of_lt (m : Bytes) {a i : Nat} (l : List UInt8) (h : i < a) : m.write a l i = m i :=
  if_neg (by omega)

theorem Bytes.write_of_le (m : Bytes) {a i : Nat} (l : List UInt8) (h : a + l.length ≤ i) : m.write a l i = m i :=
  if_neg (by omega)

theorem Bytes.write_inside (m : Bytes) {a k : Nat} {l : List UInt8} (h : k < l.length) :
    m.write a l (a + k) = l.getD k 0 := by
  rw [Bytes.write, if_pos (by omega), Nat.add_sub_cancel_left]

theorem memzero_outside (m : Bytes) {d n i : Nat} (h : i < d ∨ d + n ≤ i) : memzero m d n i = m i := by
  induction n generalizing m d with
  | zero => rfl
  | succ n ih => rw [memzero, ih _ (by omega), Bytes.set_ne _ _ (by omega)]

theorem memzero_inside (m : Bytes) {d n i : Nat} (h₁ : d ≤ i) (h₂ : i < d + n) : memzero m d n i = 0 := by
  induction n generalizing m d with
  | zero => omega
  | succ n ih =>
    rw [memzero]
    rcases Nat.eq_or_lt_of_le h₁ with rfl | h
    · rw [memzero_outside _ (by omega), Bytes.set_self]
    · exact ih _ h (by omega)

theorem memcopy_outside (m : Bytes) {d s n i : Nat} (h : i < d ∨ d + n ≤ i) : memcopy m d s n i = m i := by
  induction n generalizing m d s with
  | zero => rfl
  | succ n ih => rw [memcopy, ih _ (by omega), Bytes.set_ne _ _ (by omega)]

/-- A byte that the copy has not overwritten by the time it gets there is copied as it was. -/
theorem memcopy_at (m : Bytes) {d s n k : Nat} (h : d ≤ s ∨ s + k < d) (hk : k < n) :
    memcopy m d s n (d + k) = m (s + k) := by
  induction n generalizing m d s k with
  | zero => omega
  | succ n ih =>
    rw [memcopy]
    rcases Nat.eq_zero_or_pos k with rfl | hk0
    · rw [memcopy_outside _ (by omega)]
      exact Bytes.set_self m d (m s)
    · have hrec := @ih (m.set d (m s)) (d + 1) (s + 1) (k - 1) (by omega) (by omega)
      rw [show d + 1 + (k - 1) = d + k by omega, show s + 1 + (k - 1) = s + k by omega,
        Bytes.set_ne _ _ (by omega)] at hrec
      exact hrec

/-- One that it has overwritten is copied as the copy left it. -/
theorem memcopy_back (m : Bytes) {d s n k : Nat} (hsd : s < d) (h : d ≤ s + k) (hk : k < n) :
    memcopy m d s n (d + k) = memcopy m d s n (s + k) := by
  induction n generalizing m d s k with
  | zero => omega
  | succ n ih =>
    rw [memcopy]
    rcases Nat.eq_or_lt_of_le h with heq | hlt
    · have hat := memcopy_at (m.set d (m s)) (d := d + 1) (s := s + 1) (k := k - 1) (n := n) (by omega) (by omega)
      rw [show d + 1 + (k - 1) = d + k by omega, show s + 1 + (k - 1) = d by omega] at hat
      rw [hat, ← heq, memcopy_outside _ (by omega)]
    · have hrec := @ih (m.set d (m s)) (d + 1) (s + 1) (k - 1) (by omega) (by omega) (by omega)
      rw [show d + 1 + (k - 1) = d + k by omega, show s + 1 + (k - 1) = s + k by omega] at hrec
      exact hrec

/-- A forward copy is exact if what it writes into the unread part of its source is what that held already. -/
theorem memcopy_exact (m : Bytes) {d s n k : Nat}
    (h : s < d → ∀ i, d ≤ i → i < s + n → m (s + (i - d)) = m i) (hk : k < n) :
    memcopy m d s n (d + k) = m (s + k) := by
  induction k using Nat.strong_induction_on with
  | _ k ih =>
    by_cases hover : s < d ∧ d ≤ s + k
    · have hrec := ih (s + k - d) (by omega) (by omega)
      rw [show d + (s + k - d) = s + k by omega] at hrec
      rw [memcopy_back m hover.1 hover.2 hk, hrec]
      exact h hover.1 (s + k) hover.2 (by omega)
    · exact memcopy_at m (by omega) hk

/-! ### Two memories that agree on some addresses -/

/-- The two memories hold the same bytes at the addresses in `P`. -/
def AgreeOn (P : Nat → Prop) (m m' : Bytes) : Prop := ∀ i, P i → m i = m' i

theorem AgreeOn.mono {P Q : Nat → Prop} {m m' : Bytes} (h : AgreeOn P m m') (hQ : ∀ i, Q i → P i) : AgreeOn Q m m' :=
  fun i hi => h i (hQ i hi)

theorem AgreeOn.write {P : Nat → Prop} {m m' : Bytes} (h : AgreeOn P m m') (a : Nat) (l : List UInt8) :
    AgreeOn (fun i => P i ∨ (a ≤ i ∧ i < a + l.length)) (m.write a l) (m'.write a l) := by
  intro i hi
  unfold Bytes.write
  split
  · rfl
  · next hn => exact h i (hi.resolve_right hn)

theorem AgreeOn.set {P : Nat → Prop} {m m' : Bytes} (h : AgreeOn P m m') (a : Nat) (v : UInt8) :
    AgreeOn (fun i => P i ∨ i = a) (m.set a v) (m'.set a v) := by
  intro i hi
  unfold Bytes.set
  split
  · rfl
  · next hn => exact h i (hi.resolve_right hn)

theorem AgreeOn.memzero {P : Nat → Prop} {m m' : Bytes} (h : AgreeOn P m m') (d n : Nat) :
    AgreeOn (fun i => P i ∨ (d ≤ i ∧ i < d + n)) (memzero m d n) (memzero m' d n) := by
  intro i hi
  by_cases hin : d ≤ i ∧ i < d + n
  · rw [memzero_inside m hin.1 hin.2, memzero_inside m' hin.1 hin.2]
  · rw [memzero_outside m (by omega), memzero_outside m' (by omega)]
    exact h i (hi.resolve_right hin)

/-- A copy whose source the memories agree on copies the same bytes, overlapping or not. -/
theorem AgreeOn.memcopy {P : Nat → Prop} {m m' : Bytes} (h : AgreeOn P m m') (d s n : Nat)
    (hs : ∀ i, s ≤ i → i < s + n → P i) :
    AgreeOn (fun i => P i ∨ (d ≤ i ∧ i < d + n)) (memcopy m d s n) (memcopy m' d s n) := by
  induction n generalizing P m m' d s with
  | zero => exact h.mono fun i hi => hi.resolve_right (by omega)
  | succ n ih =>
    have hset : AgreeOn (fun i => P i ∨ i = d) (m.set d (m s)) (m'.set d (m' s)) := by
      rw [h s (hs s (Nat.le_refl _) (by omega))]
      exact h.set d _
    refine (ih hset (d + 1) (s + 1) fun i h₁ h₂ => Or.inl (hs i (by omega) (by omega))).mono ?_
    rintro i (hi | hi)
    · exact Or.inl (Or.inl hi)
    · rcases Nat.eq_or_lt_of_le hi.1 with rfl | hlt
      · exact Or.inl (Or.inr rfl)
      · exact Or.inr ⟨hlt, by omega⟩

/-! ### Padded texts -/

theorem takeWhile_rightpad {α : Type} [DecidableEq α] {a : α} {l : List α} (n : Nat) (h : a ∉ l) :
    (l.rightpad n a).takeWhile (· ≠ a) = l := by
  have hall : ∀ c ∈ l, decide (c ≠ a) = true := fun c hc => decide_eq_true fun heq => h (heq ▸ hc)
  rw [List.rightpad, List.takeWhile_append_of_pos hall]
  cases n - l.length with
  | zero => exact List.append_nil l
  | succ n => simp [List.replicate_succ]

theorem rightpad_inj {α : Type} [DecidableEq α] {a : α} {l l' : List α} {n : Nat} (h : a ∉ l) (h' : a ∉ l')
    (heq : l.rightpad n a = l'.rightpad n a) : l = l' := by
  rw [← takeWhile_rightpad n h, heq, takeWhile_rightpad n h']

/-! ### Checks before a result -/

theorem ite_error_eq_ok {ε α : Type} {c : Prop} [Decidable c] {e : ε} {x : Except ε α} {a : α} :
    (if c then .error e else x) = .ok a ↔ ¬ c ∧ x = .ok a := by
  by_cases h : c <;> simp [h]

theorem ite_error_eq_error {ε α : Type} {c : Prop} [Decidable c] {e e' : ε} {x : Except ε α} :
    (if c then .error e else x) = .error e' ↔ c ∧ e = e' ∨ ¬ c ∧ x = .error e' := by
  by_cases h : c <;> simp [h]

theorem eq_ok_of_toOption {ε α : Type} {x : Except ε α} {a : α} (h : x.toOption = some a) : x = .ok a := by
  cases x with
  | error e => cases h
  | ok b => exact congrArg Except.ok (Option.some.inj h)

end JoshBios
