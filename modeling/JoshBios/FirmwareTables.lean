import JoshBios.Handoff
import JoshBios.Lib.Scan

/-! # The search for the firmware tables

`find_rsdp` and `find_smbios` try every 16-byte boundary of a region. What a candidate declares as its length goes into the
checksum: `rsdpLook` and `smbiosLook` list the bytes that the code inspects for one candidate. The length is added to the
address in 32 bits for the RSDP and not compared with the end of the region at all for the SMBIOS entry points, so the
search stays in its regions as long as no candidate that it comes to declares a length that runs past (`LengthsFit`). -/

namespace JoshBios.Stage2
open Lib

def rsdpSignature : List UInt8 := Config.ascii "RSD PTR "
def sm3Signature : List UInt8 := Config.ascii "_SM3_"
def smSignature : List UInt8 := Config.ascii "_SM_"

/-! ### What is inspected -/

/-- The bytes that `bytes_equal` looks at, up to the first difference. -/
def equalReads (m : Bytes) : (a : UInt32) → (text : List UInt8) → List Nat
  | _, [] => []
  | a, c :: text => a.toNat :: if m a.toNat = c then equalReads m (a + 1) text else []

/-- The bytes that `checksum` looks at; the pointer wraps at 32 bits. -/
def sumReads (a : UInt32) (n : Nat) : List Nat := (List.range n).map fun i => (a + UInt32.ofNat i).toNat

def rsdpLength (m : Bytes) (a : UInt32) : UInt32 := le32 m (a.toNat + 20)

/-- The checks of `find_rsdp` on a candidate. -/
def rsdpAccepts (m : Bytes) (end_ a : UInt32) : Bool :=
  bytesEqual m a rsdpSignature && checksum m a 20 == 0 &&
    !(m (a.toNat + 15) ≥ 2 &&
      (rsdpLength m a < 36 || a + rsdpLength m a > end_ || checksum m a (rsdpLength m a).toNat ≠ 0))

def rsdpLook (m : Bytes) (end_ a : UInt32) : List Nat :=
  equalReads m a rsdpSignature ++
    if !bytesEqual m a rsdpSignature then [] else
    sumReads a 20 ++
      if checksum m a 20 ≠ 0 then [] else
      (a.toNat + 15) ::
        if m (a.toNat + 15) < 2 then [] else
        [a.toNat + 20, a.toNat + 21, a.toNat + 22, a.toNat + 23] ++
          if rsdpLength m a < 36 || a + rsdpLength m a > end_ then [] else sumReads a (rsdpLength m a).toNat

/-- One half of a round of `find_smbios`: an entry point with its length at `field`. -/
def entryPointAccepts (m : Bytes) (signature : List UInt8) (field : Nat) (least : UInt8) (a : UInt32) : Bool :=
  bytesEqual m a signature && m (a.toNat + field) ≥ least && checksum m a (m (a.toNat + field)).toNat = 0

def entryPointLook (m : Bytes) (signature : List UInt8) (field : Nat) (least : UInt8) (a : UInt32) : List Nat :=
  equalReads m a signature ++
    if !bytesEqual m a signature then [] else
    (a.toNat + field) :: if m (a.toNat + field) < least then [] else sumReads a (m (a.toNat + field)).toNat

def smbiosAccepts (m : Bytes) (a : UInt32) : Bool :=
  entryPointAccepts m sm3Signature 6 0x18 a || entryPointAccepts m smSignature 5 0x1f a

def smbiosLook (m : Bytes) (a : UInt32) : List Nat :=
  entryPointLook m sm3Signature 6 0x18 a ++
    if entryPointAccepts m sm3Signature 6 0x18 a then [] else entryPointLook m smSignature 5 0x1f a

/-- A candidate needs `room` bytes before `end_`. -/
def hasRoom (room end_ a : UInt32) : Bool := a + room ≤ end_

/-- The EBDA, as its segment says. -/
def ebdaStart (m : Bytes) : UInt32 := (le16 m 0x40e).toUInt32 <<< 4

/-- What `find_rsdp` inspects in one region. -/
def regionReads (m : Bytes) (start end_ : UInt32) : List Nat :=
  looks (hasRoom 20 end_) (rsdpAccepts m end_) (· + 16) (rsdpLook m end_) ((end_ - start).toNat / 16 + 1)
    ((start + 15) &&& ~~~15)

def regionScan (m : Bytes) (start end_ : UInt32) : Option UInt32 :=
  scan (hasRoom 20 end_) (rsdpAccepts m end_) (· + 16) ((end_ - start).toNat / 16 + 1) ((start + 15) &&& ~~~15)

/-- What `find_rsdp` inspects of its regions. -/
def findRsdpReads (m : Bytes) : List Nat :=
  regionReads m (ebdaStart m) (ebdaStart m + 1024) ++
    if (regionScan m (ebdaStart m) (ebdaStart m + 1024)).isSome then [] else regionReads m 0xe0000 0x100000

def findSmbiosReads (m : Bytes) : List Nat :=
  looks (hasRoom 0x20 0x100000) (smbiosAccepts m) (· + 16) (smbiosLook m) 0x1000 0xf0000

theorem scanRsdp_eq (m : Bytes) (end_ : UInt32) (n : Nat) (a : UInt32) :
    scanRsdp m end_ n a = scan (hasRoom 20 end_) (rsdpAccepts m end_) (· + 16) n a := by
  induction n generalizing a with
  | zero => rfl
  | succ n ih =>
    rw [scanRsdp, scan, ih, rsdpAccepts, rsdpSignature, rsdpLength, hasRoom]
    cases hsig : bytesEqual m a (Config.ascii "RSD PTR ") with
    | false => rfl
    | true =>
      by_cases hsum : checksum m a 20 = 0
      · simp only [hsum, beq_self_eq_true, Bool.and_self, Bool.true_and, Bool.not_true, ne_eq, not_true_eq_false, decide_false,
          Bool.or_self, Bool.false_eq_true, if_false]
        cases hlong : decide (m (a.toNat + 15) ≥ 2) && (decide (le32 m (a.toNat + 20) < 36) ||
          decide (a + le32 m (a.toNat + 20) > end_) || decide (¬ checksum m a (le32 m (a.toNat + 20)).toNat = 0)) <;> rfl
      · simp [hsum]

theorem scanSmbios_eq (m : Bytes) (n : Nat) (a : UInt32) :
    scanSmbios m n a = scan (hasRoom 0x20 0x100000) (smbiosAccepts m) (· + 16) n a := by
  induction n generalizing a with
  | zero => rfl
  | succ n ih =>
    have hround : scanSmbios m (n + 1) a =
        if !hasRoom 0x20 0x100000 a then none
        else if entryPointAccepts m sm3Signature 6 0x18 a then some a
        else if entryPointAccepts m smSignature 5 0x1f a then some a
        else scanSmbios m n (a + 16) := rfl
    rw [hround, scan, ih, smbiosAccepts]
    cases entryPointAccepts m sm3Signature 6 0x18 a <;> rfl

theorem findRsdp_eq (m : Bytes) : findRsdp m =
    (((regionScan m (ebdaStart m) (ebdaStart m + 1024)).or (regionScan m 0xe0000 0x100000)).map UInt32.toUInt64).getD 0 := by
  have hregion (start end_ : UInt32) :
      scanRsdp m end_ ((end_ - start).toNat / 16 + 1) ((start + 15) &&& ~~~15) = regionScan m start end_ := scanRsdp_eq ..
  rw [findRsdp]
  simp only [hregion]
  rw [← ebdaStart]
  cases regionScan m (ebdaStart m) (ebdaStart m + 1024) <;> rfl

/-! ### Candidates by their addresses -/

/-- The scan from `start` to `end_` comes to the candidate at `a`. -/
structure Reached (accept : UInt32 → Bool) (start end_ room : Nat) (a : UInt32) : Prop where
  aligned : 16 ∣ a.toNat
  start_le : start ≤ a.toNat
  room_le : a.toNat + room ≤ end_
  before : ∀ b : UInt32, 16 ∣ b.toNat → start ≤ b.toNat → b < a → accept b = false

theorem iterate_toNat {start : UInt32} {k : Nat} (h : start.toNat + 16 * k < 2 ^ 32) :
    ((· + 16)^[k] start).toNat = start.toNat + 16 * k := by
  induction k generalizing start with
  | zero => rfl
  | succ k ih =>
    have hnext : (start + 16).toNat = start.toNat + 16 := by
      rw [UInt32.toNat_add]
      exact Nat.mod_eq_of_lt (by change start.toNat + 16 < 2 ^ 32; omega)
    rw [Function.iterate_succ_apply, ih (by omega), hnext]
    omega

theorem hasRoom_iff {room end_ a : UInt32} (h : a.toNat + room.toNat < 2 ^ 32) :
    hasRoom room end_ a = true ↔ a.toNat + room.toNat ≤ end_.toNat := by
  rw [hasRoom, decide_eq_true_iff, UInt32.le_iff_toNat_le, UInt32.toNat_add, Nat.mod_eq_of_lt h]

/-- The positions of a scan of `n` candidates, as far as the region goes, by their addresses. -/
theorem exists_comes_iff {accept : UInt32 → Bool} {start end_ room : UInt32} {n : Nat} (halign : 16 ∣ start.toNat)
    (hroom : 0 < room.toNat) (hn : end_.toNat ≤ start.toNat + 16 * n) (hbound : start.toNat + 16 * n + room.toNat < 2 ^ 32)
    {P : UInt32 → Prop} :
    (∃ k < n, Comes (hasRoom room end_) accept (· + 16) start k ∧ P ((· + 16)^[k] start)) ↔
      ∃ a, Reached accept start.toNat end_.toNat room.toNat a ∧ P a := by
  constructor
  · rintro ⟨k, hk, hcomes, hP⟩
    have hpos (j : Nat) (hj : j ≤ k) : ((· + 16)^[j] start).toNat = start.toNat + 16 * j := iterate_toNat (by omega)
    refine ⟨_, ⟨?_, ?_, ?_, fun b hb hsb hlt => ?_⟩, hP⟩
    · rw [hpos k (Nat.le_refl k)]
      omega
    · rw [hpos k (Nat.le_refl k)]
      omega
    · exact (hasRoom_iff (by rw [hpos k (Nat.le_refl k)]; omega)).1 (hcomes.fits k (Nat.le_refl k))
    · have hlt' := UInt32.lt_iff_toNat_lt.1 hlt
      rw [hpos k (Nat.le_refl k)] at hlt'
      have hb' : (· + 16)^[(b.toNat - start.toNat) / 16] start = b := by
        rw [← UInt32.toNat_inj, hpos _ (by omega)]
        omega
      rw [← hb']
      exact hcomes.before _ (by omega)
  · rintro ⟨a, h, hP⟩
    have hle := h.start_le
    have hend := h.room_le
    have halign' := h.aligned
    have hpos (j : Nat) (hj : j ≤ (a.toNat - start.toNat) / 16) : ((· + 16)^[j] start).toNat = start.toNat + 16 * j :=
      iterate_toNat (by omega)
    have ha : (· + 16)^[(a.toNat - start.toNat) / 16] start = a := by
      rw [← UInt32.toNat_inj, hpos _ (Nat.le_refl _)]
      omega
    refine ⟨(a.toNat - start.toNat) / 16, by omega, ⟨fun j hj => ?_, fun j hj => ?_⟩, by rw [ha]; exact hP⟩
    · refine (hasRoom_iff ?_).2 ?_ <;> rw [hpos j hj] <;> omega
    · refine h.before _ ?_ ?_ (UInt32.lt_iff_toNat_lt.2 ?_) <;> rw [hpos j (Nat.le_of_lt hj)] <;> omega

section
variable {accept : UInt32 → Bool} {start end_ room : UInt32} {n : Nat} {look : UInt32 → List Nat} {x : Nat} {a : UInt32}
  (halign : 16 ∣ start.toNat) (hroom : 0 < room.toNat) (hn : end_.toNat ≤ start.toNat + 16 * n)
  (hbound : start.toNat + 16 * n + room.toNat < 2 ^ 32)
include halign hroom hn hbound

theorem mem_looks_reached : x ∈ looks (hasRoom room end_) accept (· + 16) look n start ↔
    ∃ a, Reached accept start.toNat end_.toNat room.toNat a ∧ x ∈ look a :=
  mem_looks.trans (exists_comes_iff halign hroom hn hbound (P := fun a => x ∈ look a))

theorem scan_eq_some_reached : scan (hasRoom room end_) accept (· + 16) n start = some a ↔
    Reached accept start.toNat end_.toNat room.toNat a ∧ accept a = true := by
  rw [scan_eq_some_iff, exists_comes_iff halign hroom hn hbound (P := fun b => accept b = true ∧ b = a)]
  constructor
  · rintro ⟨b, h, haccept, rfl⟩
    exact ⟨h, haccept⟩
  · rintro ⟨h, haccept⟩
    exact ⟨a, h, haccept, rfl⟩

theorem scan_eq_none_reached : scan (hasRoom room end_) accept (· + 16) n start = none ↔
    ∀ a, Reached accept start.toNat end_.toNat room.toNat a → accept a = false := by
  rw [Option.eq_none_iff_forall_ne_some]
  constructor
  · intro h a ha
    by_contra haccept
    exact h a ((scan_eq_some_reached halign hroom hn hbound).2 ⟨ha, (Bool.not_eq_false _).mp haccept⟩)
  · intro h a ha
    obtain ⟨hreached, haccept⟩ := (scan_eq_some_reached halign hroom hn hbound).1 ha
    rw [h a hreached] at haccept
    cases haccept

end

theorem and_not_add_and (x y : BitVec 32) : (x &&& ~~~y) + (x &&& y) = x := by
  rw [BitVec.add_eq_or_of_and_eq_zero]
  · ext i hi
    simp only [BitVec.getElem_or, BitVec.getElem_and, BitVec.getElem_not]
    cases x[i] <;> cases y[i] <;> rfl
  · ext i hi
    simp only [BitVec.getElem_and, BitVec.getElem_not, BitVec.getElem_zero]
    cases x[i] <;> cases y[i] <;> rfl

theorem round_up {start : UInt32} (halign : 16 ∣ start.toNat) (hlt : start.toNat + 15 < 2 ^ 32) :
    (start + 15) &&& ~~~15 = start := by
  have hsplit : ((start + 15) &&& ~~~15) + ((start + 15) &&& 15) = start + 15 :=
    UInt32.toBitVec_inj.1 (and_not_add_and (start + 15).toBitVec 15)
  have hadd : (start + 15).toNat = start.toNat + 15 := by
    rw [UInt32.toNat_add]
    exact Nat.mod_eq_of_lt hlt
  have hlow : (start + 15) &&& 15 = 15 := by
    rw [← UInt32.toNat_inj, UInt32.toNat_and, hadd]
    exact (Nat.and_two_pow_sub_one_eq_mod _ 4).trans (by change (start.toNat + 15) % 16 = 15; omega)
  rw [hlow] at hsplit
  exact (UInt32.add_left_inj 15).1 hsplit

theorem ebdaStart_toNat (m : Bytes) : (ebdaStart m).toNat = 16 * (le16 m 0x40e).toNat := by
  have hlt := (le16 m 0x40e).toNat_lt
  rw [ebdaStart, UInt32.toNat_shiftLeft, UInt16.toNat_toUInt32, Nat.shiftLeft_eq]
  change (le16 m 0x40e).toNat * 2 ^ 4 % 2 ^ 32 = _
  omega

/-! ### The bytes of a candidate -/

theorem addr_add {a : UInt32} {i : Nat} (h : a.toNat + i < 2 ^ 32) : (a + UInt32.ofNat i).toNat = a.toNat + i := by
  rw [UInt32.toNat_add, UInt32.toNat_ofNat_of_lt' (by change i < 2 ^ 32; omega), Nat.mod_eq_of_lt h]

theorem mem_sumReads {a : UInt32} {n x : Nat} (h : a.toNat + n ≤ 2 ^ 32) :
    x ∈ sumReads a n ↔ a.toNat ≤ x ∧ x < a.toNat + n := by
  rw [sumReads, List.mem_map]
  constructor
  · rintro ⟨i, hi, rfl⟩
    have := List.mem_range.1 hi
    rw [addr_add (by omega)]
    omega
  · rintro ⟨hle, hlt⟩
    exact ⟨x - a.toNat, List.mem_range.2 (by omega), by rw [addr_add (by omega)]; omega⟩

theorem last_mem_sumReads {a : UInt32} {n : Nat} (h : 2 ^ 32 ≤ a.toNat + n) : 2 ^ 32 - 1 ∈ sumReads a n := by
  have hlt := a.toNat_lt
  rw [sumReads, List.mem_map]
  exact ⟨2 ^ 32 - 1 - a.toNat, List.mem_range.2 (by omega), by rw [addr_add (by omega)]; omega⟩

theorem equalReads_inside {m : Bytes} {a : UInt32} {text : List UInt8} {x : Nat} (h : a.toNat + text.length < 2 ^ 32)
    (hx : x ∈ equalReads m a text) : a.toNat ≤ x ∧ x < a.toNat + text.length := by
  induction text generalizing a with
  | nil => cases hx
  | cons c text ih =>
    rw [List.length_cons] at h ⊢
    rcases List.mem_cons.1 hx with rfl | hx
    · omega
    · have hnext : (a + 1).toNat = a.toNat + 1 := addr_add (show a.toNat + 1 < 2 ^ 32 by omega)
      split at hx
      · have := ih (by rw [hnext]; omega) hx
        rw [hnext] at this
        omega
      · cases hx

theorem checksum_eq_sum (m : Bytes) {a : UInt32} {n : Nat} (h : a.toNat + n ≤ 2 ^ 32) :
    checksum m a n = (m.slice a.toNat n).sum := by
  induction n generalizing a with
  | zero => rfl
  | succ n ih =>
    rw [checksum, Bytes.slice_succ, List.sum_cons]
    cases n with
    | zero => rfl
    | succ n =>
      have hnext : (a + 1).toNat = a.toNat + 1 := addr_add (show a.toNat + 1 < 2 ^ 32 by omega)
      rw [ih (by rw [hnext]; omega), hnext]

theorem bytesEqual_iff {m : Bytes} {a : UInt32} {text : List UInt8} :
    bytesEqual m a text = true ↔ m.slice a.toNat text.length = text := by
  rw [bytesEqual, beq_iff_eq]

/-- A table at `a`: its signature, its `length` bytes inside a region, and their sum. -/
structure TableAt (m : Bytes) (start end_ : Nat) (signature : List UInt8) (a length : Nat) : Prop where
  aligned : 16 ∣ a
  signature : m.slice a signature.length = signature
  inside : start ≤ a ∧ a + length ≤ end_
  sum : (m.slice a length).sum = 0

/-- A table pointer of revision 2 or later whose declared length runs past the last address, as far as the code comes to
look at the length. -/
structure RsdpWraps (m : Bytes) (a : UInt32) : Prop where
  signature : bytesEqual m a rsdpSignature = true
  sum : checksum m a 20 = 0
  revision : 2 ≤ m (a.toNat + 15)
  past : 2 ^ 32 ≤ a.toNat + (rsdpLength m a).toNat

/-- The length of the table pointer at `a`, by its revision. -/
def rsdpSize (m : Bytes) (a : Nat) : Nat := if m (a + 15) < 2 then 20 else (le32 m (a + 20)).toNat

section
variable {m : Bytes} {start end_ a : UInt32} {x : Nat}

theorem length_inside (hwrap : ¬ 2 ^ 32 ≤ a.toNat + (rsdpLength m a).toNat) :
    a + rsdpLength m a ≤ end_ ↔ a.toNat + (rsdpLength m a).toNat ≤ end_.toNat := by
  rw [UInt32.le_iff_toNat_le, UInt32.toNat_add, Nat.mod_eq_of_lt (by omega)]

theorem rsdpLook_inside (h16 : 16 ∣ a.toNat) (he : 16 ∣ end_.toNat) (hroom : a.toNat + 20 ≤ end_.toNat)
    (hend : end_.toNat ≤ 0x200000) (hwrap : ¬ RsdpWraps m a) (hx : x ∈ rsdpLook m end_ a) :
    a.toNat ≤ x ∧ x < end_.toNat := by
  -- the region ends on a 16-byte boundary too, so the length field is inside
  have h32 : a.toNat + 32 ≤ end_.toNat := by omega
  rcases List.mem_append.1 hx with hx | hx
  · have := equalReads_inside (by change a.toNat + 8 < 2 ^ 32; omega) hx
    change a.toNat ≤ x ∧ x < a.toNat + 8 at this
    omega
  cases hsig : bytesEqual m a rsdpSignature with
  | false =>
    rw [hsig] at hx
    cases hx
  | true =>
    rw [hsig] at hx
    rcases List.mem_append.1 hx with hx | hx
    · rw [mem_sumReads (by omega)] at hx
      omega
    split at hx
    · cases hx
    next hsum =>
    rcases List.mem_cons.1 hx with rfl | hx
    · omega
    split at hx
    · cases hx
    next hrev =>
    rcases List.mem_append.1 hx with hx | hx
    · simp only [List.mem_cons, List.not_mem_nil, or_false] at hx
      omega
    split at hx
    · cases hx
    next hlen =>
    rw [Bool.or_eq_true, decide_eq_true_iff, decide_eq_true_iff, not_or, gt_iff_lt, UInt32.not_lt, UInt32.not_lt] at hlen
    have hpast : ¬ 2 ^ 32 ≤ a.toNat + (rsdpLength m a).toNat := fun hpast =>
      hwrap ⟨hsig, not_not.1 hsum, UInt8.not_lt.1 hrev, hpast⟩
    have hin := (length_inside hpast).1 hlen.2
    rw [mem_sumReads (by omega)] at hx
    omega

/-- What is inspected for a table pointer that runs past the last address. -/
theorem RsdpWraps.look (h : RsdpWraps m a) (ha : a.toNat + 36 ≤ 2 ^ 32) (hle : a.toNat ≤ end_.toNat) :
    2 ^ 32 - 1 ∈ rsdpLook m end_ a := by
  have hpast := h.past
  have hlt := (rsdpLength m a).toNat_lt
  have hsmall : ¬ (decide (rsdpLength m a < 36) || decide (a + rsdpLength m a > end_)) = true := by
    rw [Bool.or_eq_true, decide_eq_true_iff, decide_eq_true_iff, not_or, gt_iff_lt, UInt32.not_lt, UInt32.not_lt,
      UInt32.le_iff_toNat_le, UInt32.le_iff_toNat_le, UInt32.toNat_add]
    change 36 ≤ (rsdpLength m a).toNat ∧ _
    omega
  rw [rsdpLook, h.signature, if_neg (by decide), if_neg (not_not.2 h.sum), if_neg (UInt8.not_lt.2 h.revision), if_neg hsmall]
  simp only [List.mem_append, List.mem_cons]
  exact Or.inr (Or.inr (Or.inr (Or.inr (last_mem_sumReads hpast))))

theorem rsdpAccepts_table (h16 : 16 ∣ a.toNat) (hs : start.toNat ≤ a.toNat) (hroom : a.toNat + 20 ≤ end_.toNat)
    (hend : end_.toNat ≤ 0x200000) (hwrap : ¬ RsdpWraps m a) (h : rsdpAccepts m end_ a = true) :
    TableAt m start.toNat end_.toNat rsdpSignature a.toNat (rsdpSize m a.toNat) := by
  rw [rsdpAccepts, Bool.and_eq_true, Bool.and_eq_true, beq_iff_eq] at h
  obtain ⟨⟨hsig, hsum⟩, hrev⟩ := h
  rw [rsdpSize, ← rsdpLength]
  split
  next hlt =>
    refine ⟨h16, bytesEqual_iff.1 hsig, ⟨hs, hroom⟩, ?_⟩
    rw [← checksum_eq_sum m (by omega)]
    exact hsum
  next hge =>
    have hge := UInt8.not_lt.1 hge
    simp only [Bool.not_eq_true', Bool.and_eq_false_imp, decide_eq_true_eq, ge_iff_le, hge, true_implies, Bool.or_eq_false_iff,
      decide_eq_false_iff_not, gt_iff_lt, UInt32.not_lt, not_not] at hrev
    have hpast : ¬ 2 ^ 32 ≤ a.toNat + (rsdpLength m a).toNat := fun hpast => hwrap ⟨hsig, hsum, hge, hpast⟩
    have hin := (length_inside hpast).1 hrev.1.2
    refine ⟨h16, bytesEqual_iff.1 hsig, ⟨hs, hin⟩, ?_⟩
    rw [← checksum_eq_sum m (by omega)]
    exact hrev.2

theorem mem_regionReads (hs : 16 ∣ start.toNat) (hle : start.toNat ≤ end_.toNat) (hend : end_.toNat ≤ 0x200000) :
    x ∈ regionReads m start end_ ↔
      ∃ a, Reached (rsdpAccepts m end_) start.toNat end_.toNat 20 a ∧ x ∈ rsdpLook m end_ a := by
  have hsub := UInt32.toNat_sub_of_le _ _ (UInt32.le_iff_toNat_le.2 hle)
  rw [regionReads, round_up hs (by omega), hsub]
  exact mem_looks_reached hs (by decide) (by omega) (by change _ + 20 < 2 ^ 32; omega)

theorem regionScan_eq_some (hs : 16 ∣ start.toNat) (hle : start.toNat ≤ end_.toNat) (hend : end_.toNat ≤ 0x200000) :
    regionScan m start end_ = some a ↔
      Reached (rsdpAccepts m end_) start.toNat end_.toNat 20 a ∧ rsdpAccepts m end_ a = true := by
  have hsub := UInt32.toNat_sub_of_le _ _ (UInt32.le_iff_toNat_le.2 hle)
  rw [regionScan, round_up hs (by omega), hsub]
  exact scan_eq_some_reached hs (by decide) (by omega) (by change _ + 20 < 2 ^ 32; omega)

theorem regionScan_eq_none (hs : 16 ∣ start.toNat) (hle : start.toNat ≤ end_.toNat) (hend : end_.toNat ≤ 0x200000) :
    regionScan m start end_ = none ↔
      ∀ a, Reached (rsdpAccepts m end_) start.toNat end_.toNat 20 a → rsdpAccepts m end_ a = false := by
  have hsub := UInt32.toNat_sub_of_le _ _ (UInt32.le_iff_toNat_le.2 hle)
  rw [regionScan, round_up hs (by omega), hsub]
  exact scan_eq_none_reached hs (by decide) (by omega) (by change _ + 20 < 2 ^ 32; omega)

end

/-! ### Entry points -/

/-- An entry point whose declared length runs past the end of the BIOS area. -/
structure EntryPointLong (m : Bytes) (signature : List UInt8) (field : Nat) (least : UInt8) (a : UInt32) : Prop where
  signature : bytesEqual m a signature = true
  least : least ≤ m (a.toNat + field)
  past : 0x100000 < a.toNat + (m (a.toNat + field)).toNat

section
variable {m : Bytes} {signature : List UInt8} {field : Nat} {least : UInt8} {a : UInt32} {x : Nat}

theorem entryPointLook_inside (ha : a.toNat + 0x20 ≤ 0x100000) (hlen : signature.length ≤ 0x20) (hfield : field < 0x20)
    (hlong : ¬ EntryPointLong m signature field least a) (hx : x ∈ entryPointLook m signature field least a) :
    a.toNat ≤ x ∧ x < 0x100000 := by
  have hbyte := (m (a.toNat + field)).toNat_lt
  rcases List.mem_append.1 hx with hx | hx
  · have := equalReads_inside (by omega) hx
    omega
  cases hsig : bytesEqual m a signature with
  | false =>
    rw [hsig] at hx
    cases hx
  | true =>
    rw [hsig] at hx
    rcases List.mem_cons.1 hx with rfl | hx
    · omega
    split at hx
    · cases hx
    next hleast =>
    have hin : ¬ 0x100000 < a.toNat + (m (a.toNat + field)).toNat := fun hpast =>
      hlong ⟨hsig, UInt8.not_lt.1 hleast, hpast⟩
    rw [mem_sumReads (by omega)] at hx
    omega

theorem EntryPointLong.look (h : EntryPointLong m signature field least a) (ha : a.toNat ≤ 0x100000) :
    0x100000 ∈ entryPointLook m signature field least a := by
  have hpast := h.past
  have hbyte := (m (a.toNat + field)).toNat_lt
  rw [entryPointLook, h.signature, if_neg (by decide), if_neg (UInt8.not_lt.2 h.least), List.mem_append, List.mem_cons,
    mem_sumReads (by omega)]
  omega

theorem entryPointAccepts_table (h16 : 16 ∣ a.toNat) (hs : 0xf0000 ≤ a.toNat)
    (hlong : ¬ EntryPointLong m signature field least a) (h : entryPointAccepts m signature field least a = true) :
    TableAt m 0xf0000 0x100000 signature a.toNat (m (a.toNat + field)).toNat := by
  rw [entryPointAccepts, Bool.and_eq_true, Bool.and_eq_true, decide_eq_true_iff, decide_eq_true_iff] at h
  obtain ⟨⟨hsig, hleast⟩, hsum⟩ := h
  have hin : a.toNat + (m (a.toNat + field)).toNat ≤ 0x100000 := Nat.not_lt.1 fun hpast => hlong ⟨hsig, hleast, hpast⟩
  refine ⟨h16, bytesEqual_iff.1 hsig, ⟨hs, hin⟩, ?_⟩
  rw [← checksum_eq_sum m (by omega)]
  exact hsum

theorem sm_not_sm3 (h : bytesEqual m a smSignature = true) : bytesEqual m a sm3Signature = false := by
  rw [Bool.eq_false_iff]
  intro h3
  have h3' : m.slice a.toNat 5 = sm3Signature := bytesEqual_iff.1 h3
  have h' : m.slice a.toNat 4 = smSignature := bytesEqual_iff.1 h
  have htake : (m.slice a.toNat 5).take 4 = m.slice a.toNat 4 := by
    rw [Bytes.slice, ← List.map_take, List.take_range]
    rfl
  rw [h3', h'] at htake
  exact absurd htake (by decide)

end

/-! ### Both searches -/

/-- The search for the firmware tables stays in its regions: so does what it inspects, and a table that it finds is there as a
whole. -/
structure DiscoveryInside (m : Bytes) : Prop where
  rsdp_reads : ∀ x ∈ findRsdpReads m,
    (ebdaStart m).toNat ≤ x ∧ x < (ebdaStart m).toNat + 1024 ∨ 0xe0000 ≤ x ∧ x < 0x100000
  rsdp : findRsdp m ≠ 0 →
    TableAt m (ebdaStart m).toNat ((ebdaStart m).toNat + 1024) rsdpSignature (findRsdp m).toNat
      (rsdpSize m (findRsdp m).toNat) ∨
    TableAt m 0xe0000 0x100000 rsdpSignature (findRsdp m).toNat (rsdpSize m (findRsdp m).toNat)
  smbios_reads : ∀ x ∈ findSmbiosReads m, 0xf0000 ≤ x ∧ x < 0x100000
  smbios : findSmbios m ≠ 0 →
    TableAt m 0xf0000 0x100000 sm3Signature (findSmbios m).toNat (m ((findSmbios m).toNat + 6)).toNat ∨
    TableAt m 0xf0000 0x100000 smSignature (findSmbios m).toNat (m ((findSmbios m).toNat + 5)).toNat

/-- The candidates of `find_rsdp` in the EBDA, those in the BIOS area, and those of `find_smbios`. -/
abbrev EbdaCandidate (m : Bytes) : UInt32 → Prop :=
  Reached (rsdpAccepts m (ebdaStart m + 1024)) (ebdaStart m).toNat (ebdaStart m + 1024).toNat 20
abbrev BiosCandidate (m : Bytes) : UInt32 → Prop := Reached (rsdpAccepts m 0x100000) 0xe0000 0x100000 20
abbrev SmbiosCandidate (m : Bytes) : UInt32 → Prop := Reached (smbiosAccepts m) 0xf0000 0x100000 0x20

/-- No candidate that the search comes to declares a length that runs past: past the last address for a table pointer, past
the end of the region for an entry point. -/
structure LengthsFit (m : Bytes) : Prop where
  ebda : ∀ a, EbdaCandidate m a → ¬ RsdpWraps m a
  bios : (∀ a, EbdaCandidate m a → rsdpAccepts m (ebdaStart m + 1024) a = false) → ∀ a, BiosCandidate m a → ¬ RsdpWraps m a
  smbios : ∀ a, SmbiosCandidate m a → ¬ EntryPointLong m sm3Signature 6 0x18 a ∧ ¬ EntryPointLong m smSignature 5 0x1f a

section
variable {m : Bytes}

theorem ebda_region (m : Bytes) : 16 ∣ (ebdaStart m).toNat ∧ (ebdaStart m + 1024).toNat = (ebdaStart m).toNat + 1024 ∧
    (ebdaStart m).toNat + 1024 ≤ 0x200000 := by
  have hlt := (le16 m 0x40e).toNat_lt
  have hstart := ebdaStart_toNat m
  refine ⟨by omega, ?_, by omega⟩
  rw [UInt32.toNat_add]
  exact Nat.mod_eq_of_lt (by change (ebdaStart m).toNat + 1024 < 2 ^ 32; omega)

theorem mem_ebdaReads {x : Nat} : x ∈ regionReads m (ebdaStart m) (ebdaStart m + 1024) ↔
    ∃ a, EbdaCandidate m a ∧ x ∈ rsdpLook m (ebdaStart m + 1024) a := by
  obtain ⟨h16, hadd, hend⟩ := ebda_region m
  exact mem_regionReads h16 (by omega) (by omega)

theorem mem_biosReads {x : Nat} : x ∈ regionReads m 0xe0000 0x100000 ↔
    ∃ a, BiosCandidate m a ∧ x ∈ rsdpLook m 0x100000 a :=
  mem_regionReads (by decide) (by decide) (by decide)

theorem mem_findSmbiosReads {x : Nat} : x ∈ findSmbiosReads m ↔ ∃ a, SmbiosCandidate m a ∧ x ∈ smbiosLook m a :=
  mem_looks_reached (by decide) (by decide) (by decide) (by decide)

theorem ebdaScan_eq_none : regionScan m (ebdaStart m) (ebdaStart m + 1024) = none ↔
    ∀ a, EbdaCandidate m a → rsdpAccepts m (ebdaStart m + 1024) a = false := by
  obtain ⟨h16, hadd, hend⟩ := ebda_region m
  exact regionScan_eq_none h16 (by omega) (by omega)

theorem LengthsFit.rsdp_reads (h : LengthsFit m) : ∀ x ∈ findRsdpReads m,
    (ebdaStart m).toNat ≤ x ∧ x < (ebdaStart m).toNat + 1024 ∨ 0xe0000 ≤ x ∧ x < 0x100000 := by
  obtain ⟨h16, hadd, hend⟩ := ebda_region m
  intro x hx
  rcases List.mem_append.1 hx with hx | hx
  · obtain ⟨a, ha, hx⟩ := mem_ebdaReads.1 hx
    have hin := rsdpLook_inside ha.aligned (by omega) ha.room_le (by omega) (h.ebda a ha) hx
    have hstart := ha.start_le
    omega
  · split at hx
    · cases hx
    next hnone =>
    rw [Bool.not_eq_true, Option.isSome_eq_false_iff, Option.isNone_iff_eq_none, ebdaScan_eq_none] at hnone
    obtain ⟨a, ha, hx⟩ := mem_biosReads.1 hx
    have hroom : a.toNat + 20 ≤ (0x100000 : UInt32).toNat := ha.room_le
    have hin := rsdpLook_inside ha.aligned (by decide) hroom (by decide) (h.bios hnone a ha) hx
    have hstart := ha.start_le
    change _ ∧ x < 0x100000 at hin
    omega

/-- The address that `find_rsdp` returns is that of the first candidate accepted. -/
theorem findRsdp_cases (hne : findRsdp m ≠ 0) : ∃ a : UInt32, (findRsdp m).toNat = a.toNat ∧
    (EbdaCandidate m a ∧ rsdpAccepts m (ebdaStart m + 1024) a = true ∨
      (∀ b, EbdaCandidate m b → rsdpAccepts m (ebdaStart m + 1024) b = false) ∧ BiosCandidate m a ∧
        rsdpAccepts m 0x100000 a = true) := by
  obtain ⟨h16, hadd, hend⟩ := ebda_region m
  rw [findRsdp_eq] at hne ⊢
  cases hebda : regionScan m (ebdaStart m) (ebdaStart m + 1024) with
  | some a => exact ⟨a, UInt32.toNat_toUInt64 a, Or.inl ((regionScan_eq_some h16 (by omega) (by omega)).1 hebda)⟩
  | none =>
    rw [hebda] at hne
    cases hbios : regionScan m 0xe0000 0x100000 with
    | none =>
      rw [hbios] at hne
      exact absurd rfl hne
    | some a =>
      exact ⟨a, UInt32.toNat_toUInt64 a,
        Or.inr ⟨ebdaScan_eq_none.1 hebda, (regionScan_eq_some (by decide) (by decide) (by decide)).1 hbios⟩⟩

theorem findSmbios_cases (hne : findSmbios m ≠ 0) : ∃ a : UInt32, (findSmbios m).toNat = a.toNat ∧
    SmbiosCandidate m a ∧ smbiosAccepts m a = true := by
  rw [findSmbios, scanSmbios_eq] at hne ⊢
  cases hscan : scan (hasRoom 0x20 0x100000) (smbiosAccepts m) (· + 16) 0x1000 0xf0000 with
  | none =>
    rw [hscan] at hne
    exact absurd rfl hne
  | some a =>
    obtain ⟨ha, haccept⟩ := (scan_eq_some_reached (by decide) (by decide) (by decide) (by decide)).1 hscan
    exact ⟨a, UInt32.toNat_toUInt64 a, ha, haccept⟩

theorem LengthsFit.inside (h : LengthsFit m) : DiscoveryInside m := by
  obtain ⟨h16, hadd, hend⟩ := ebda_region m
  refine ⟨h.rsdp_reads, fun hne => ?_, fun x hx => ?_, fun hne => ?_⟩
  · obtain ⟨a, haddr, ⟨ha, haccept⟩ | ⟨hnone, ha, haccept⟩⟩ := findRsdp_cases hne
    · rw [haddr, ← hadd]
      exact Or.inl (rsdpAccepts_table ha.aligned ha.start_le ha.room_le (by omega) (h.ebda a ha) haccept)
    · have hstart : (0xe0000 : UInt32).toNat ≤ a.toNat := ha.start_le
      have hroom : a.toNat + 20 ≤ (0x100000 : UInt32).toNat := ha.room_le
      rw [haddr]
      exact Or.inr (rsdpAccepts_table ha.aligned hstart hroom (by decide) (h.bios hnone a ha) haccept)
  · obtain ⟨a, ha, hx⟩ := mem_findSmbiosReads.1 hx
    have hstart := ha.start_le
    have hroom := ha.room_le
    obtain ⟨hlong3, hlong⟩ := h.smbios a ha
    rcases List.mem_append.1 hx with hx | hx
    · have := entryPointLook_inside hroom (by decide) (by decide) hlong3 hx
      omega
    · split at hx
      · cases hx
      · have := entryPointLook_inside hroom (by decide) (by decide) hlong hx
        omega
  · obtain ⟨a, haddr, ha, haccept⟩ := findSmbios_cases hne
    obtain ⟨hlong3, hlong⟩ := h.smbios a ha
    rw [haddr]
    rcases Bool.or_eq_true_iff.1 haccept with haccept | haccept
    · exact Or.inl (entryPointAccepts_table ha.aligned ha.start_le hlong3 haccept)
    · exact Or.inr (entryPointAccepts_table ha.aligned ha.start_le hlong haccept)

theorem RsdpWraps.not_inside {a : UInt32} (h : RsdpWraps m a) {end_ : UInt32} (ha : a.toNat + 36 ≤ 2 ^ 32)
    (hle : a.toNat ≤ end_.toNat) (hsub : ∀ x ∈ rsdpLook m end_ a, x ∈ findRsdpReads m) : ¬ DiscoveryInside m := by
  intro hin
  obtain ⟨h16, hadd, hend⟩ := ebda_region m
  have := hin.rsdp_reads _ (hsub _ (h.look ha hle))
  omega

theorem EntryPointLong.not_inside {a : UInt32} {signature : List UInt8} {field : Nat} {least : UInt8}
    (h : EntryPointLong m signature field least a) (ha : a.toNat ≤ 0x100000)
    (hsub : ∀ x ∈ entryPointLook m signature field least a, x ∈ findSmbiosReads m) : ¬ DiscoveryInside m := by
  intro hin
  have := hin.smbios_reads _ (hsub _ (h.look ha))
  omega

/-- The search for the firmware tables stays in its regions iff no candidate that it comes to declares a length that
runs past. -/
theorem discovery_inside_iff (m : Bytes) : DiscoveryInside m ↔ LengthsFit m := by
  refine ⟨fun h => ⟨fun a ha hwrap => ?_, fun hnone a ha hwrap => ?_, fun a ha => ⟨fun hlong => ?_, fun hlong => ?_⟩⟩,
    LengthsFit.inside⟩
  · obtain ⟨h16, hadd, hend⟩ := ebda_region m
    have hroom := ha.room_le
    exact hwrap.not_inside (by omega) (by omega) (fun x hx => List.mem_append_left _ (mem_ebdaReads.2 ⟨a, ha, hx⟩)) h
  · have hroom : a.toNat + 20 ≤ (0x100000 : UInt32).toNat := ha.room_le
    have hbound : a.toNat + 36 ≤ 2 ^ 32 := Nat.le_trans (Nat.add_le_add_right (Nat.le_of_add_right_le hroom) 36) (by decide)
    refine hwrap.not_inside hbound (Nat.le_of_add_right_le hroom) (fun x hx => List.mem_append_right _ ?_) h
    rw [ebdaScan_eq_none.2 hnone, if_neg (by decide)]
    exact mem_biosReads.2 ⟨a, ha, hx⟩
  · refine hlong.not_inside (Nat.le_of_add_right_le ha.room_le) (fun x hx => ?_) h
    exact mem_findSmbiosReads.2 ⟨a, ha, List.mem_append_left _ hx⟩
  · refine hlong.not_inside (Nat.le_of_add_right_le ha.room_le) (fun x hx => ?_) h
    refine mem_findSmbiosReads.2 ⟨a, ha, List.mem_append_right _ ?_⟩
    have hno : entryPointAccepts m sm3Signature 6 0x18 a = false := by
      rw [entryPointAccepts, sm_not_sm3 hlong.signature]
      rfl
    rw [hno, if_neg (by decide)]
    exact hx

end

theorem bytesEqual_of_ne {m : Bytes} {a : UInt32} {c : UInt8} {text : List UInt8} (h : m a.toNat ≠ c) :
    bytesEqual m a (c :: text) = false := by
  rw [Bool.eq_false_iff]
  intro heq
  have hslice := bytesEqual_iff.1 heq
  rw [List.length_cons, Bytes.slice_succ] at hslice
  exact h (List.cons.inj hslice).1

/-- A table pointer of revision 2 at `0xe0000` with length `0xfff20000`, and an entry point of `0x30` bytes in the last
`0x20` bytes of the BIOS area. -/
def longTables : Bytes :=
  Bytes.write (Bytes.write (fun _ => 0) 0xe0000 [0x52, 0x53, 0x44, 0x20, 0x50, 0x54, 0x52, 0x20, 0xdf, 0, 0, 0, 0, 0, 0, 2,
    0, 0, 0, 0, 0, 0, 0xf2, 0xff]) 0xfffe0 [0x5f, 0x53, 0x4d, 0x5f, 0, 0x30]

theorem longTables_zero {i : Nat} (h : i < 0xe0000 ∨ 0xe0018 ≤ i ∧ i < 0xfffe0) : longTables i = 0 := by
  rw [longTables, Bytes.write_of_lt _ _ (by omega)]
  rcases h with h | ⟨h, -⟩
  · exact Bytes.write_of_lt _ _ h
  · exact Bytes.write_of_le _ _ h

/-- The sum over the table pointer goes up to the last address, and that over the entry point past the BIOS area. -/
theorem discovery_runs_past : 0xffffffff ∈ findRsdpReads longTables ∧ 0x100000 ∈ findSmbiosReads longTables ∧
    ¬ DiscoveryInside longTables := by
  have hstart : ebdaStart longTables = 0 := by decide
  have hebda : ∀ b, EbdaCandidate longTables b → rsdpAccepts longTables (ebdaStart longTables + 1024) b = false := by
    intro b hb
    have hroom := hb.room_le
    rw [hstart] at hroom
    change b.toNat + 20 ≤ 1024 at hroom
    have hzero : longTables b.toNat = 0 := longTables_zero (by omega)
    rw [rsdpAccepts, show bytesEqual longTables b rsdpSignature = false from bytesEqual_of_ne (by rw [hzero]; decide)]
    rfl
  have hrsdp : BiosCandidate longTables 0xe0000 :=
    ⟨by decide, by decide, by decide, fun b _ hle hlt => absurd (UInt32.lt_iff_toNat_lt.1 hlt) (Nat.not_lt.2 hle)⟩
  have hwraps : RsdpWraps longTables 0xe0000 := ⟨by decide, by decide, by decide, by decide⟩
  have hsmbios : SmbiosCandidate longTables 0xfffe0 := by
    refine ⟨by decide, by decide, by decide, fun b _ hle hlt => ?_⟩
    have hlt' : b.toNat < 0xfffe0 := UInt32.lt_iff_toNat_lt.1 hlt
    have hzero : longTables b.toNat = 0 := longTables_zero (by omega)
    rw [smbiosAccepts, entryPointAccepts, entryPointAccepts,
      show bytesEqual longTables b sm3Signature = false from bytesEqual_of_ne (by rw [hzero]; decide),
      show bytesEqual longTables b smSignature = false from bytesEqual_of_ne (by rw [hzero]; decide)]
    rfl
  have hlong : EntryPointLong longTables smSignature 5 0x1f 0xfffe0 :=
    ⟨by decide, by decide, by decide⟩
  have hreads : 0xffffffff ∈ findRsdpReads longTables := by
    refine List.mem_append_right _ ?_
    rw [ebdaScan_eq_none.2 hebda, if_neg (by decide)]
    exact mem_biosReads.2 ⟨0xe0000, hrsdp, hwraps.look (by decide) (by decide)⟩
  refine ⟨hreads, ?_, fun hin => ?_⟩
  · refine mem_findSmbiosReads.2 ⟨0xfffe0, hsmbios, List.mem_append_right _ ?_⟩
    have hno : entryPointAccepts longTables sm3Signature 6 0x18 0xfffe0 = false := by
      rw [entryPointAccepts, sm_not_sm3 hlong.signature]
      rfl
    rw [hno, if_neg (by decide)]
    exact hlong.look (by decide)
  · have hlast := hin.rsdp_reads _ hreads
    rw [hstart] at hlast
    exact absurd hlast (by decide)

end JoshBios.Stage2
