import JoshBios.FwRun

/-! # What a staging has checked

`stageUpdate_cases` says what a staging can do to the state. Here is what a staged update has passed: `Acceptable` for the
checks before the flash is touched, and for the read-back that every byte of the image lay in exactly one chunk. -/

namespace JoshBios.Fw

variable {E : Type}

/-! ### The board id -/

/-- Both buffers start with the same string of 1 to 31 printable characters. -/
def SameBoardId (a b : Bytes) : Prop :=
  ∃ n, 1 ≤ n ∧ n ≤ boardIdMax ∧ (∀ i < n, 0x21 ≤ a i ∧ a i ≤ 0x7e ∧ b i = a i) ∧ a n = 0 ∧ b n = 0

/-- A loop over at most `n` characters that ends well at the first `stop` if that is `good`, and badly at a `bad` one. -/
theorem scan_iff {f : Nat → Nat → Bool} {stop good bad : Nat → Prop} (hzero : ∀ i, f i 0 = false)
    (hstop : ∀ i n, stop i → (f i (n + 1) = true ↔ good i)) (hbad : ∀ i n, ¬ stop i → bad i → f i (n + 1) = false)
    (hnext : ∀ i n, ¬ stop i → ¬ bad i → f i (n + 1) = f (i + 1) n) (i n : Nat) :
    f i n = true ↔ ∃ k, i ≤ k ∧ k < i + n ∧ stop k ∧ good k ∧ ∀ j, i ≤ j → j < k → ¬ stop j ∧ ¬ bad j := by
  induction n generalizing i with
  | zero =>
    refine iff_of_false (by rw [hzero]; exact Bool.false_ne_true) ?_
    rintro ⟨k, h₁, h₂, -⟩
    omega
  | succ n ih =>
    by_cases hs : stop i
    · rw [hstop i n hs]
      constructor
      · intro hgood
        exact ⟨i, Nat.le_refl i, by omega, hs, hgood, fun j h₁ h₂ => absurd h₂ (Nat.not_lt.2 h₁)⟩
      · rintro ⟨k, h₁, -, -, hgood, hall⟩
        rcases Nat.eq_or_lt_of_le h₁ with rfl | hlt
        · exact hgood
        · exact absurd hs (hall i (Nat.le_refl i) hlt).1
    by_cases hb : bad i
    · rw [hbad i n hs hb]
      refine iff_of_false Bool.false_ne_true ?_
      rintro ⟨k, h₁, -, hk, -, hall⟩
      rcases Nat.eq_or_lt_of_le h₁ with rfl | hlt
      · exact hs hk
      · exact (hall i (Nat.le_refl i) hlt).2 hb
    rw [hnext i n hs hb, ih]
    constructor
    · rintro ⟨k, h₁, h₂, hk, hgood, hall⟩
      refine ⟨k, by omega, by omega, hk, hgood, fun j hj₁ hj₂ => ?_⟩
      rcases Nat.eq_or_lt_of_le hj₁ with rfl | hlt
      · exact ⟨hs, hb⟩
      · exact hall j hlt hj₂
    · rintro ⟨k, h₁, h₂, hk, hgood, hall⟩
      have hne : i ≠ k := fun h => hs (h ▸ hk)
      exact ⟨k, by omega, by omega, hk, hgood, fun j hj₁ hj₂ => hall j (by omega) hj₂⟩

theorem boardIdValid_iff {id : Bytes} (i n : Nat) : boardIdValid id i n = true ↔
    ∃ k, i ≤ k ∧ k < i + n ∧ id k = 0 ∧ k ≠ 0 ∧
      ∀ j, i ≤ j → j < k → ¬ id j = 0 ∧ ¬ (id j < 0x21 ∨ id j > 0x7e) := by
  refine scan_iff (fun _ => rfl) ?_ ?_ ?_ i n
  · intro i n h
    rw [boardIdValid, if_pos h, decide_eq_true_iff]
  · intro i n h hbad
    rw [boardIdValid, if_neg h, if_pos hbad]
  · intro i n h hgood
    rw [boardIdValid, if_neg h, if_neg hgood]

theorem textEqual_iff {a b : Bytes} (i n : Nat) : textEqual a b i n = true ↔
    ∃ k, i ≤ k ∧ k < i + n ∧ a k = 0 ∧ a k = b k ∧ ∀ j, i ≤ j → j < k → ¬ a j = 0 ∧ ¬ a j ≠ b j := by
  refine scan_iff (fun _ => rfl) ?_ ?_ ?_ i n
  · intro i n h
    rw [textEqual]
    by_cases heq : a i = b i
    · rw [if_neg (not_not.2 heq), if_pos h]
      exact iff_of_true rfl heq
    · rw [if_pos heq]
      exact iff_of_false Bool.false_ne_true heq
  · intro i n _ hne
    rw [textEqual, if_pos hne]
  · intro i n h heq
    rw [textEqual, if_neg heq, if_neg h]

theorem sameBoardId_iff {a b : Bytes} : SameBoardId a b ↔
    boardIdValid a 0 (boardIdMax + 1) = true ∧ textEqual a b 0 (boardIdMax + 1) = true := by
  rw [boardIdValid_iff, textEqual_iff]
  constructor
  · rintro ⟨n, hpos, hmax, hall, ha, hb⟩
    have hne : ∀ j < n, ¬ a j = 0 := by
      intro j hj h0
      have hlo := (hall j hj).1
      rw [h0] at hlo
      exact absurd hlo (by decide)
    refine ⟨⟨n, Nat.zero_le n, by omega, ha, by omega, fun j _ hj => ⟨hne j hj, ?_⟩⟩,
      ⟨n, Nat.zero_le n, by omega, ha, ha.trans hb.symm, fun j _ hj => ⟨hne j hj, not_not.2 (hall j hj).2.2.symm⟩⟩⟩
    rw [not_or, gt_iff_lt, UInt8.not_lt, UInt8.not_lt]
    exact ⟨(hall j hj).1, (hall j hj).2.1⟩
  · rintro ⟨⟨k, -, hk, ha, hk0, hchars⟩, ⟨n, -, hn, ha', hb, hsame⟩⟩
    -- both stop at the first zero
    have hkn : k = n := by
      rcases Nat.lt_trichotomy k n with h | h | h
      · exact absurd ha (hsame k (Nat.zero_le k) h).1
      · exact h
      · exact absurd ha' (hchars n (Nat.zero_le n) h).1
    subst hkn
    refine ⟨k, by omega, by omega, fun i hi => ?_, ha, hb.symm.trans ha⟩
    have hchar := (hchars i (Nat.zero_le i) hi).2
    rw [not_or, gt_iff_lt, UInt8.not_lt, UInt8.not_lt] at hchar
    exact ⟨hchar.1, hchar.2, (not_not.1 (hsame i (Nat.zero_le i) hi).2).symm⟩

/-! ### The checks -/

/-- What an update has to be to get to the flash. -/
structure Acceptable (B : FlashBackend E) (m : Manifest) (image board : Bytes) (s : UpdateState) (allowRollback : Bool) :
    Prop where
  magic : m.magic = updateMagic
  version : m.version = updateVersion
  headerSize : m.headerSize = manifestSize
  board : SameBoardId m.boardText board
  state : stateValid s B = true
  newer : s.activeGeneration < m.generation ∨ allowRollback = true
  notEmpty : 0 < m.imageSize
  fits : m.imageSize ≤ B.slotSize
  intact : crc32 (some image) m.imageSize.toNat = m.imageCrc32

theorem manifestValid_iff {m : Manifest} : manifestValid m = true ↔ m.magic = updateMagic ∧ m.version = updateVersion ∧
    m.headerSize = manifestSize ∧ m.imageSize ≠ 0 ∧ boardIdValid m.boardText 0 (boardIdMax + 1) = true := by
  rw [manifestValid, Bool.and_eq_true, Bool.and_eq_true, Bool.and_eq_true, Bool.and_eq_true, beq_iff_eq, beq_iff_eq,
    beq_iff_eq, bne_iff_ne, and_assoc, and_assoc, and_assoc]

theorem ite_status_ok {c : Prop} [Decidable c] {status rest : UpdateStatus} (h : status ≠ .ok) :
    (if c then status else rest) = .ok ↔ ¬ c ∧ rest = .ok := by
  by_cases hc : c
  · rw [if_pos hc]
    exact iff_of_false h fun h => h.1 hc
  · rw [if_neg hc]
    exact ⟨fun h => ⟨hc, h⟩, fun h => h.2⟩

theorem stageChecks_ok_iff {B : FlashBackend E} {m : Manifest} {image board : Bytes} {s : UpdateState} {allow : Bool} :
    stageChecks B (some m) image board s allow = .ok ↔ Acceptable B m image board s allow := by
  simp only [stageChecks]
  rw [ite_status_ok (by decide), ite_status_ok (by decide), ite_status_ok (by decide), ite_status_ok (by decide),
    ite_status_ok (by decide), ite_status_ok (by decide)]
  simp only [Bool.or_eq_true, Bool.not_eq_true', Bool.not_eq_false, Bool.and_eq_true, decide_eq_true_iff, not_or, not_and,
    not_not, UInt64.not_le, gt_iff_lt, UInt32.not_lt, and_true, manifestValid_iff]
  constructor
  · rintro ⟨⟨⟨hmagic, hversion, hheader, hsize, hid⟩, hstate⟩, htext, hnewer, hfits, hcrc, -⟩
    refine ⟨hmagic, hversion, hheader, sameBoardId_iff.2 ⟨hid, htext⟩, hstate, ?_, UInt32.pos_iff_ne_zero.2 hsize, hfits,
      hcrc⟩
    cases allow with
    | true => exact Or.inr rfl
    | false => exact Or.inl (hnewer rfl)
  · intro h
    obtain ⟨hid, htext⟩ := sameBoardId_iff.1 h.board
    obtain ⟨hn, ha, -⟩ := stateValid_iff.1 h.state
    refine ⟨⟨⟨h.magic, h.version, h.headerSize, UInt32.pos_iff_ne_zero.1 h.notEmpty, hid⟩, h.state⟩, htext,
      fun hno => h.newer.resolve_right (by rw [hno]; exact Bool.false_ne_true), h.fits, h.intact,
      targetSlot_ne_active hn ha⟩

theorem stageChecks_corrupt {B : FlashBackend E} {m : Manifest} {image image' board : Bytes} {s : UpdateState} {allow : Bool}
    (h : stageChecks B (some m) image board s allow = .ok) (hcrc : crc32 (some image') m.imageSize.toNat ≠ m.imageCrc32) :
    stageChecks B (some m) image' board s allow = .imageCorrupt := by
  simp only [stageChecks] at h ⊢
  rw [ite_status_ok (by decide), ite_status_ok (by decide), ite_status_ok (by decide), ite_status_ok (by decide)] at h
  obtain ⟨hvalid, hboard, hnewer, hfits, -⟩ := h
  rw [if_neg hvalid, if_neg hboard, if_neg hnewer, if_neg hfits, if_pos hcrc]

/-! ### The read-back -/

/-- The byte `i` of the image is compared with what the call read. -/
def FlashCall.covers (i : Nat) : FlashCall → Bool
  | .read _ offset length _ _ => offset.toNat ≤ i && i < offset.toNat + length.toNat
  | _ => false

/-- A successful loop from `offset` on covers each byte that is left once, and no other. -/
theorem verifyLoop_covers (read : UInt32 → UInt32 → UInt32 → E → Int × Bytes × E) (target imageSize : UInt32)
    (source : Bytes) (fuel : Nat) (offset : UInt32) (e : E) (hfuel : imageSize.toNat ≤ offset.toNat + fuel)
    (hok : (verifyLoop read target imageSize source fuel offset e).1 = true) (i : Nat) :
    (verifyLoop read target imageSize source fuel offset e).2.2.countP (·.covers i) =
      if offset.toNat ≤ i ∧ i < imageSize.toNat then 1 else 0 := by
  induction fuel generalizing offset e with
  | zero =>
    rw [if_neg (by omega)]
    rfl
  | succ fuel ih =>
    by_cases hlt : offset < imageSize
    · obtain ⟨data, e', -, -, hrest, hcalls⟩ := verifyLoop_true_inv hlt hok
      obtain ⟨hpos, hadd, hend⟩ := chunkLength_spec hlt
      rw [hcalls, List.countP_cons, ih _ _ (by omega) hrest, hadd]
      simp only [FlashCall.covers, Bool.and_eq_true, decide_eq_true_iff]
      split_ifs <;> omega
    · have hle := Nat.not_lt.1 fun h => hlt (UInt32.lt_iff_toNat_lt.2 h)
      rw [verifyLoop, if_neg hlt, if_neg (by omega)]
      rfl

theorem flashImage_covers {erase : UInt32 → E → Int × E} {write : UInt32 → UInt32 → Bytes → UInt32 → E → Int × E}
    {read : UInt32 → UInt32 → UInt32 → E → Int × Bytes × E} {m : Manifest} {image : Bytes} {target : UInt32} {e : E}
    (hok : (flashImage erase write read m image target e).1 = .ok) (i : Nat) :
    (flashImage erase write read m image target e).2.2.countP (·.covers i) = if i < m.imageSize.toNat then 1 else 0 := by
  obtain ⟨_, _, -, -, h⟩ | ⟨_, _, _, -, -, -, h⟩ | ⟨_, e₂, verified, _, reads, -, -, hv, h⟩ :=
    flashImage_cases erase write read m image target e <;> rw [h] at hok ⊢
  · cases hok
  · cases hok
  · cases verified with
    | false => cases hok
    | true =>
      have hcount := verifyLoop_covers read target m.imageSize image m.imageSize.toNat 0 e₂ (by simp) (by rw [hv]) i
      rw [hv] at hcount
      simpa [List.countP_cons, FlashCall.covers] using hcount

theorem flashImage_not_rejected (erase : UInt32 → E → Int × E) (write : UInt32 → UInt32 → Bytes → UInt32 → E → Int × E)
    (read : UInt32 → UInt32 → UInt32 → E → Int × Bytes × E) (m : Manifest) (image : Bytes) (target : UInt32) (e : E) :
    ¬ (flashImage erase write read m image target e).1.Rejected := by
  rw [UpdateStatus.Rejected, not_not]
  obtain ⟨_, _, -, -, h⟩ | ⟨_, _, _, -, -, -, h⟩ | ⟨_, _, verified, _, _, -, -, -, h⟩ :=
    flashImage_cases erase write read m image target e <;> rw [h]
  · simp
  · simp
  · cases verified <;> simp

/-- OK means that the update passed every check and that each byte of the image was read back from the target slot, in
one chunk, as it is in the image. Any other result leaves the update state alone, and only the three failures of the
flash come after a call to the backend. -/
theorem stageUpdate_verified (B : FlashBackend E) (manifest : Option Manifest) (image board : Option Bytes) (allow : Bool)
    (s : UpdateState) (e : E) :
    let r := stageUpdate B manifest image board allow s e
    (r.status = .ok → ∃ m img brd, manifest = some m ∧ image = some img ∧ board = some brd ∧
      Acceptable B m img brd s allow ∧ (∀ c ∈ r.calls, c.slot = targetSlot B s ∧ c.Served img) ∧
      ∀ i, r.calls.countP (·.covers i) = if i < m.imageSize.toNat then 1 else 0) ∧
    (r.status ≠ .ok → r.state = s) ∧
    (r.status ∉ [UpdateStatus.ok, .eraseFailed, .writeFailed, .verifyFailed] → r.calls = [] ∧ r.env = e) := by
  intro r
  obtain ⟨status, hrej, h⟩ | ⟨m, img, brd, erase, write, read, rfl, rfl, rfl, -, -, -, hchecks, status, e', calls, hf, h⟩ :=
    stageUpdate_cases B manifest image board allow s e
  · simp only [r, h]
    refine ⟨fun hok => ?_, fun _ => trivial, fun _ => ⟨trivial, trivial⟩⟩
    rw [hok] at hrej
    exact absurd List.mem_cons_self hrej
  · have hcalls : (flashImage erase write read m img (targetSlot B s) e).2.2 = calls := by rw [hf]
    have hstatus : (flashImage erase write read m img (targetSlot B s) e).1 = status := by rw [hf]
    simp only [r, h]
    refine ⟨?_, fun hno => if_neg hno, fun hno => ?_⟩
    · rintro rfl
      refine ⟨m, img, brd, rfl, rfl, rfl, stageChecks_ok_iff.1 hchecks, fun c hc => ?_, fun i => ?_⟩
      · rw [← hcalls] at hc
        exact ⟨flashImage_slot c hc, flashImage_ok_iff.1 hstatus c hc⟩
      · rw [← hcalls]
        exact flashImage_covers hstatus i
    · exact absurd (hstatus ▸ hno) (flashImage_not_rejected erase write read m img (targetSlot B s) e)

/-- An update for the board it names, and the same for another one. -/
theorem stageUpdate_verified_mock :
    Acceptable mockBackend (mockManifest 1) mockImage mockBoard updateStateDefault false ∧
    let r := stageUpdate mockBackend (some (mockManifest 1)) (some mockImage) (some mockImage) false updateStateDefault
      (mockFlash 1)
    r.status = .wrongBoard ∧ r.state = updateStateDefault ∧ r.calls = [] := by
  have hother : (stageUpdate mockBackend (some (mockManifest 1)) (some mockImage) (some mockImage) false updateStateDefault
      (mockFlash 1)).status = .wrongBoard := by decide
  have hwrong := stageUpdate_verified mockBackend (some (mockManifest 1)) (some mockImage) (some mockImage) false
    updateStateDefault (mockFlash 1)
  obtain ⟨m, img, brd, hm, himg, hbrd, haccept, -⟩ := (stageUpdate_verified mockBackend (some (mockManifest 1))
    (some mockImage) (some mockBoard) false updateStateDefault (mockFlash 1)).1 (by decide)
  cases hm
  cases himg
  cases hbrd
  refine ⟨haccept, hother, hwrong.2.1 ?_, (hwrong.2.2 ?_).1⟩
  · rw [hother]
    decide
  · rw [hother]
    decide

end JoshBios.Fw
