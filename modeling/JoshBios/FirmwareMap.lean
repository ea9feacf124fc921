import JoshBios.BootHandoff
import JoshBios.RealMode

/-! # What the firmware said is what the kernel reads

`collect_e820` asks for one entry after the other until the BIOS is through, and zeroes what a short entry leaves of its
place (`e820_collected`). `setup_vbe` leaves the block of the first mode that will do. Nothing that stage 2 does afterwards
touches either, so the kernel reads the answers of the BIOS (`handoff_reports_firmware`). -/

namespace JoshBios.Stage2

open Uefi (MemoryMapEntry entryIn)

/-- An answer that `collect_e820` takes. -/
def MapAnswer.Good (a : MapAnswer) : Prop := a.carry = false ∧ a.eax = smapSignature ∧ 20 ≤ a.cx

instance (a : MapAnswer) : Decidable a.Good := inferInstanceAs (Decidable (_ ∧ _))

/-- The entry of an answer; what it does not store is zero. -/
def MapAnswer.mapEntry (a : MapAnswer) : MemoryMapEntry := entryIn (bytesOf a.entry) 0

/-- The memory map of a block, as the kernel reads it. -/
def memoryMapOf (m : Bytes) (i : BootInfo) : List MemoryMapEntry :=
  (List.range i.memoryMapEntries.toNat).map fun n =>
    entryIn m (i.memoryMapAddress.toNat + i.memoryMapEntrySize.toNat * n)

section
variable {F : Type}

/-- The good answers, `n` at most, and the answer that was not good, if it was one that ended the map. -/
def mapAnswers (b : BiosServices F) : (n : Nat) → (ebx : UInt32) → F → List MapAnswer × Option MapAnswer
  | 0, _, _ => ([], none)
  | n + 1, ebx, f =>
    let (a, f) := b.memoryMap ebx f
    if ¬ a.Good then ([], some a)
    else if a.ebx = 0 then ([a], none)
    else (a :: (mapAnswers b n a.ebx f).1, (mapAnswers b n a.ebx f).2)

/-- What the BIOS promises of its answers: no more than was asked for, and all that `cx` says. -/
structure StoresEntries (b : BiosServices F) : Prop where
  fits : ∀ ebx f, (b.memoryMap ebx f).1.entry.length ≤ memoryMapEntrySize
  stores : ∀ ebx f, (b.memoryMap ebx f).1.Good → (b.memoryMap ebx f).1.entry.length = (b.memoryMap ebx f).1.cx.toNat

/-- What is collected from `di` on, with `count` entries before it, when the answers are `r`. -/
structure Collected (s : RealMode F) (di count : Nat) (r : List MapAnswer × Option MapAnswer)
    (out : Option Nat × RealMode F) : Prop where
  counted : out.1 = if ∀ a ∈ r.2, a.carry = true ∧ count + r.1.length ≠ 0 then some (count + r.1.length) else none
  few : count + r.1.length ≤ maxMapEntries
  entries : ∀ i (h : i < r.1.length), entryIn out.2.mem (memoryMapAddr + di + memoryMapEntrySize * i) = r.1[i].mapEntry
  outside : ∀ x, x < memoryMapAddr + di ∨ memoryMapAddr + 0xc00 ≤ x → out.2.mem x = s.mem x

theorem round_outside (m : Bytes) {di : Nat} {entry : List UInt8} (hlen : entry.length ≤ memoryMapEntrySize) {x : Nat}
    (hx : x < memoryMapAddr + di ∨ memoryMapAddr + di + memoryMapEntrySize ≤ x) :
    (store m (memoryMapAddr + di + 20) 4 0).write (memoryMapAddr + di) entry x = m x := by
  simp only [memoryMapEntrySize] at hlen hx
  have hstore : (leBytes 4 0).length = 4 := length_leBytes 4 0
  rcases hx with hx | hx
  · rw [Bytes.write_of_lt _ _ hx, store, Bytes.write_of_lt _ _ (by omega)]
  · rw [Bytes.write_of_le _ _ (by omega), store, Bytes.write_of_le _ _ (by omega)]

theorem round_entry (m : Bytes) {di : Nat} {a : MapAnswer} (hlen : 20 ≤ a.entry.length) :
    entryIn ((store m (memoryMapAddr + di + 20) 4 0).write (memoryMapAddr + di) a.entry) (memoryMapAddr + di) = a.mapEntry := by
  refine Uefi.entryIn_of_window fun k hk => ?_
  rw [Nat.zero_add]
  simp only [memoryMapEntrySize] at hk
  by_cases hin : k < a.entry.length
  · rw [Bytes.write_inside _ hin]
    rfl
  · have hzero : k - 20 < (leBytes 4 0).length := by
      rw [length_leBytes]
      omega
    have hplace : memoryMapAddr + di + k = memoryMapAddr + di + 20 + (k - 20) := by omega
    rw [Bytes.write_of_le _ _ (by omega), hplace, store, Bytes.write_inside _ hzero]
    have hall : ∀ i < 4, (leBytes 4 0).getD i 0 = 0 := by decide
    exact (hall _ (by omega)).trans (List.getD_eq_default a.entry 0 (Nat.le_of_not_lt hin)).symm

theorem Collected.cons {s s' : RealMode F} {count : Nat} {a : MapAnswer} {r : List MapAnswer × Option MapAnswer}
    {out : Option Nat × RealMode F}
    (h : Collected s' (memoryMapEntrySize * (count + 1)) (count + 1) r out)
    (hentry : entryIn s'.mem (memoryMapAddr + memoryMapEntrySize * count) = a.mapEntry)
    (hout : ∀ x, x < memoryMapAddr + memoryMapEntrySize * count ∨ memoryMapAddr + 0xc00 ≤ x → s'.mem x = s.mem x) :
    Collected s (memoryMapEntrySize * count) count (a :: r.1, r.2) out := by
  have hlen : count + (a :: r.1).length = count + 1 + r.1.length := by
    rw [List.length_cons]
    omega
  refine ⟨by rw [hlen]; exact h.counted, by rw [hlen]; exact h.few, fun i hi => ?_, fun x hx => ?_⟩
  · cases i with
    | zero =>
      rw [List.getElem_cons_zero, ← hentry, Nat.mul_zero, Nat.add_zero]
      refine Uefi.entryIn_of_window fun k hk => h.outside _ (.inl ?_)
      simp only [memoryMapEntrySize] at hk ⊢
      omega
    | succ i =>
      have hplace : memoryMapAddr + memoryMapEntrySize * count + memoryMapEntrySize * (i + 1) =
          memoryMapAddr + memoryMapEntrySize * (count + 1) + memoryMapEntrySize * i := by
        simp only [memoryMapEntrySize]
        omega
      rw [List.getElem_cons_succ, hplace]
      exact h.entries i (Nat.lt_of_succ_lt_succ hi)
  · rw [h.outside x (hx.imp_left fun h => by simp only [memoryMapEntrySize] at h ⊢; omega), hout x hx]

theorem e820Loop_spec {b : BiosServices F} (hb : StoresEntries b) {n count : Nat} {ebx : UInt32} {s : RealMode F}
    (hn : n + count = maxMapEntries) (hpos : 0 < n) :
    Collected s (memoryMapEntrySize * count) count (mapAnswers b n ebx s.bios)
      (e820Loop b n (memoryMapEntrySize * count) count ebx s) := by
  induction n generalizing count ebx s with
  | zero => omega
  | succ n ih =>
    have hfits := hb.fits ebx s.bios
    have hstores := hb.stores ebx s.bios
    rw [e820Loop, mapAnswers]
    generalize b.memoryMap ebx s.bios = call at hfits hstores
    obtain ⟨a, bios⟩ := call
    simp only at hfits hstores ⊢
    have hroom : count < 128 := by
      simp only [maxMapEntries] at hn
      omega
    have hout : ∀ x, x < memoryMapAddr + memoryMapEntrySize * count ∨ memoryMapAddr + 0xc00 ≤ x →
        (store s.mem (memoryMapAddr + memoryMapEntrySize * count + 20) 4 0).write
          (memoryMapAddr + memoryMapEntrySize * count) a.entry x = s.mem x := fun x hx =>
      round_outside s.mem hfits (hx.imp_right fun h => by simp only [memoryMapEntrySize]; omega)
    have hentry : a.Good → entryIn ((store s.mem (memoryMapAddr + memoryMapEntrySize * count + 20) 4 0).write
        (memoryMapAddr + memoryMapEntrySize * count) a.entry) (memoryMapAddr + memoryMapEntrySize * count) =
          a.mapEntry := fun hgood => round_entry s.mem (by
      rw [hstores hgood]
      exact UInt16.le_iff_toNat_le.1 hgood.2.2)
    generalize (store s.mem (memoryMapAddr + memoryMapEntrySize * count + 20) 4 0).write
      (memoryMapAddr + memoryMapEntrySize * count) a.entry = mem at hout hentry ⊢
    by_cases hgood : a.Good
    · have hcarry : ¬ a.carry = true := by simp [hgood.1]
      -- an answer that ends the map
      have hend : Collected s (memoryMapEntrySize * count) count ([a], none) (some (count + 1), ⟨bios, mem⟩) := by
        refine Collected.cons (r := ([], none))
          ⟨by simp, ?_, fun _ hi => absurd hi (Nat.not_lt_zero _), fun x hx => rfl⟩ (hentry hgood) hout
        simp only [maxMapEntries, List.length_nil]
        omega
      rw [if_neg hcarry, if_neg (not_not.2 hgood.2.1), if_neg (UInt16.not_lt.2 hgood.2.2), if_neg (not_not.2 hgood)]
      by_cases hlast : a.ebx = 0
      · rw [if_pos hlast, if_pos hlast, ite_self]
        exact hend
      · rw [if_neg hlast, if_neg hlast]
        by_cases hfull : count + 1 ≥ maxMapEntries
        · have hzero : n = 0 := by omega
          subst hzero
          rw [if_pos hfull]
          exact hend
        · rw [if_neg hfull]
          have hnext := @ih (count + 1) a.ebx ⟨bios, mem⟩ (by omega) (by omega)
          exact hnext.cons (hentry hgood) hout
    · -- nothing more is asked
      rw [if_pos hgood]
      have hno : ∀ c, (c = if a.carry = true ∧ count ≠ 0 then some count else none) →
          Collected s (memoryMapEntrySize * count) count ([], some a) (c, ⟨bios, mem⟩) := fun c hc =>
        ⟨by simp only [hc, List.length_nil, Nat.add_zero, Option.mem_def, Option.some.injEq, forall_eq'], by
          simp only [maxMapEntries, List.length_nil]
          omega, fun _ hi => absurd hi (Nat.not_lt_zero _), hout⟩
      by_cases hcarry : a.carry = true
      · rw [if_pos hcarry]
        exact hno _ (by simp [hcarry])
      · have hnone : (if a.carry = true ∧ count ≠ 0 then some count else none) = none := if_neg fun h => hcarry h.1
        rw [if_neg hcarry]
        by_cases heax : a.eax = smapSignature
        · have hcx : a.cx < 20 := UInt16.not_le.1 fun h => hgood ⟨by simpa using hcarry, heax, h⟩
          rw [if_neg (not_not.2 heax), if_pos hcx]
          exact hno _ hnone.symm
        · rw [if_pos heax]
          exact hno _ hnone.symm

/-- With a BIOS that stores what it says: the map is refused when an answer is no answer, or the first one is an
error; else the table has the answers, in their order and no more than 128 of them, what a short one leaves is zero,
and nothing beside the table is written. -/
theorem e820_collected {b : BiosServices F} (hb : StoresEntries b) (s : RealMode F) :
    Collected s 0 0 (mapAnswers b maxMapEntries 0 s.bios) (collectE820 b s) :=
  @e820Loop_spec F b hb maxMapEntries 0 0 s rfl (by decide)

/-! ### The video mode -/

/-- What the BIOS promises of a mode block: no more than its 256 bytes, and all of them when it reports success. -/
structure FillsBlocks (b : BiosServices F) : Prop where
  fits : ∀ mode f, (b.modeInfo mode f).1.2.length ≤ 0x100
  fills : ∀ mode f, (b.modeInfo mode f).1.1 = 0x004f → (b.modeInfo mode f).1.2.length = 0x100

/-- A mode with a linear framebuffer of 32 bits a pixel. -/
def suits (ax : UInt16) (block : Bytes) : Bool :=
  ax = 0x004f && le16 block 0 &&& 0x0080 ≠ 0 && block 0x19 = 32 && block 0x1b = 6 && le32 block 0x28 ≠ 0

/-- The first of the modes that suits, with its block. -/
def pickMode (b : BiosServices F) : List UInt16 → F → Option (UInt16 × List UInt8) × F
  | [], f => (none, f)
  | mode :: modes, f =>
    let ((ax, block), f) := b.modeInfo mode f
    if suits ax (bytesOf block) then (some (mode, block), f) else pickMode b modes f

/-- What trying the modes leaves, when `r` is picked. -/
structure Tried (s : RealMode F) (r : Option (UInt16 × List UInt8) × F) (out : Option UInt16 × RealMode F) : Prop where
  mode : out.1 = r.1.map Prod.fst
  bios : out.2.bios = r.2
  block : ∀ mode block, r.1 = some (mode, block) → ∀ k < 0x100, out.2.mem (vbeInfoAddr + k) = bytesOf block k
  outside : ∀ x, x < vbeInfoAddr ∨ vbeInfoAddr + 0x100 ≤ x → out.2.mem x = s.mem x

theorem tryVbeMode_eq {b : BiosServices F} (hb : FillsBlocks b) (mode : UInt16) (s : RealMode F) :
    (tryVbeMode b mode s).1 = suits (b.modeInfo mode s.bios).1.1 (bytesOf (b.modeInfo mode s.bios).1.2) := by
  have hfills := hb.fills mode s.bios
  rw [tryVbeMode]
  generalize b.modeInfo mode s.bios = call at hfills
  obtain ⟨⟨ax, block⟩, f⟩ := call
  simp only at hfills ⊢
  by_cases hax : ax = 0x004f
  · have hlen := hfills hax
    have hbyte : ∀ k < 0x100, s.mem.write vbeInfoAddr block (vbeInfoAddr + k) = bytesOf block (0 + k) := fun k hk => by
      rw [Nat.zero_add]
      exact Bytes.write_inside s.mem (by omega)
    have h16 : le16 (s.mem.write vbeInfoAddr block) vbeInfoAddr = le16 (bytesOf block) 0 := by
      rw [le16, le16]
      exact congrArg _ (leNat_of_window fun k hk => hbyte k (by omega))
    have h32 : le32 (s.mem.write vbeInfoAddr block) (vbeInfoAddr + 0x28) = le32 (bytesOf block) 0x28 := by
      rw [le32, le32]
      refine congrArg _ (leNat_of_window fun k hk => ?_)
      rw [Nat.add_assoc, hbyte _ (by omega), Nat.zero_add]
    rw [suits, h16, h32, hbyte 0x19 (by decide), hbyte 0x1b (by decide)]
  · simp [suits, hax]

theorem tryVbeModes_spec {b : BiosServices F} (hb : FillsBlocks b) (modes : List UInt16) (s : RealMode F) :
    Tried s (pickMode b modes s.bios) (tryVbeModes b modes s) := by
  induction modes generalizing s with
  | nil => exact ⟨rfl, rfl, nofun, fun _ _ => rfl⟩
  | cons mode modes ih =>
    have hfits := hb.fits mode s.bios
    have hfills := hb.fills mode s.bios
    have hsuits := tryVbeMode_eq hb mode s
    have hnext : (tryVbeMode b mode s).2 =
      ⟨(b.modeInfo mode s.bios).2, s.mem.write vbeInfoAddr (b.modeInfo mode s.bios).1.2⟩ := rfl
    rw [tryVbeModes, pickMode]
    generalize tryVbeMode b mode s = r at hsuits hnext ⊢
    obtain ⟨ok, s'⟩ := r
    generalize b.modeInfo mode s.bios = call at hfits hfills hsuits hnext
    obtain ⟨⟨ax, block⟩, f⟩ := call
    simp only at hfits hfills hsuits hnext ⊢
    subst hnext
    have hout : ∀ x, x < vbeInfoAddr ∨ vbeInfoAddr + 0x100 ≤ x → s.mem.write vbeInfoAddr block x = s.mem x :=
      fun x hx => hx.elim (fun h => Bytes.write_of_lt _ _ h) fun h => Bytes.write_of_le _ _ (by omega)
    rw [← hsuits]
    cases ok with
    | true =>
      have hax : ax = 0x004f := by
        have hall := hsuits.symm
        simp only [suits, Bool.and_eq_true, decide_eq_true_iff] at hall
        exact hall.1.1.1.1
      refine ⟨rfl, rfl, fun mode' block' heq k hk => ?_, hout⟩
      cases heq
      exact Bytes.write_inside s.mem (by rw [hfills hax]; exact hk)
    | false =>
      have hrest := ih ⟨f, s.mem.write vbeInfoAddr block⟩
      exact ⟨hrest.mode, hrest.bios, hrest.block, fun x hx => (hrest.outside x hx).trans (hout x hx)⟩

/-! ### The whole way -/

/-- The framebuffer that a mode block describes. -/
def blockFramebuffer (block : Bytes) : FramebufferInfo where
  address := (le32 block 0x28).toUInt64
  width := (le16 block 0x12).toUInt32
  height := (le16 block 0x14).toUInt32
  pitch := (le16 block 0x10).toUInt32
  bpp := (block 0x19).toUInt32
  redMaskSize := (block 0x1f).toUInt32
  redMaskShift := (block 0x20).toUInt32
  greenMaskSize := (block 0x21).toUInt32
  greenMaskShift := (block 0x22).toUInt32
  blueMaskSize := (block 0x23).toUInt32
  blueMaskShift := (block 0x24).toUInt32

theorem vbeFramebuffer_block {m block : Bytes} (h : ∀ k < 0x100, m (vbeInfoAddr + k) = block k) :
    vbeFramebuffer m = blockFramebuffer block := by
  have hfield (o n : Nat) (ho : o + n ≤ 0x100) : leNat m (vbeInfoAddr + o) n = leNat block o n :=
    leNat_of_window fun k hk => by rw [Nat.add_assoc, h _ (by omega)]
  simp only [vbeFramebuffer, blockFramebuffer, le16, le32]
  rw [hfield 0x28 4 (by decide), hfield 0x12 2 (by decide), hfield 0x14 2 (by decide), hfield 0x10 2 (by decide),
    h 0x19 (by decide), h 0x1f (by decide), h 0x20 (by decide), h 0x21 (by decide), h 0x22 (by decide), h 0x23 (by decide),
    h 0x24 (by decide)]

/-- The machine when it asks for the memory map. -/
def platformState (b : BiosServices F) (drive : UInt8) (s : RealMode F) : RealMode F :=
  let s := (checkEdd b drive s).2
  if hasBootPartition s.mem then s else (loadKernelExtent b drive s).2

theorem bootKernel_ok {b : BiosServices F} {drive : UInt8} {s : RealMode F} {e : Entered F}
    (h : bootKernel b drive s = .ok e) (hmode : e.mode ≠ none) :
    prepareNativePlatform b e.filesystemBoot (platformState b drive s) = .ok e := by
  have hfs : ∀ {fs s}, prepareNativePlatform b fs s = .ok e → e.filesystemBoot = fs := fun {fs s} h => by
    unfold prepareNativePlatform at h
    split at h
    · cases h
    split at h
    · cases h
    · cases h
      rfl
  unfold bootKernel at h
  unfold platformState
  generalize checkEdd b drive s = r at h ⊢
  obtain ⟨edd, s⟩ := r
  cases edd with
  | false => cases h
  | true =>
    simp only at h ⊢
    split at h
    next hpart =>
      rw [if_pos hpart, hfs h]
      exact h
    next hpart =>
      rw [if_neg hpart]
      generalize loadKernelExtent b drive s = r at h ⊢
      obtain ⟨read, s⟩ := r
      cases read with
      | false => cases h
      | true =>
        simp only at h
        split at h
        · cases h
          exact absurd rfl hmode
        · rw [hfs h]
          exact h

/-- What the firmware said from the state `s` on, as stage 2 enters protected mode with it. -/
structure Reported (b : BiosServices F) (s : RealMode F) (e : Entered F) : Prop where
  count : e.e820Count = (mapAnswers b maxMapEntries 0 s.bios).1.length
  few : e.e820Count ≤ maxMapEntries
  entries : ∀ i (h : i < (mapAnswers b maxMapEntries 0 s.bios).1.length),
    entryIn e.state.mem (memoryMapAddr + memoryMapEntrySize * i) = (mapAnswers b maxMapEntries 0 s.bios).1[i].mapEntry
  mode : ∃ mode block, (pickMode b vbeModes (collectE820 b s).2.bios).1 = some (mode, block) ∧ e.mode = some mode ∧
    ∀ k < 0x100, e.state.mem (vbeInfoAddr + k) = bytesOf block k

theorem prepareNativePlatform_ok {b : BiosServices F} (hb : StoresEntries b) (hv : FillsBlocks b) {fs : Bool}
    {s : RealMode F} {e : Entered F} (h : prepareNativePlatform b fs s = .ok e) : Reported b s e := by
  have hmap := @e820Loop_spec F b hb maxMapEntries 0 0 s rfl (by decide)
  unfold prepareNativePlatform at h
  rw [show e820Loop b maxMapEntries (memoryMapEntrySize * 0) 0 0 s = collectE820 b s from rfl] at hmap
  generalize hcollect : collectE820 b s = r at h hmap
  obtain ⟨count, s₁⟩ := r
  have hmodes := tryVbeModes_spec hv vbeModes s₁
  cases count with
  | none => cases h
  | some count =>
    simp only at h
    unfold setupVbe at h
    generalize tryVbeModes b vbeModes s₁ = r at h hmodes
    obtain ⟨mode, s₂⟩ := r
    cases mode with
    | none => cases h
    | some mode =>
      simp only at h
      by_cases hax : (b.setMode (mode ||| 0x4000) s₂.bios).1 = 0x004f
      · rw [if_pos hax] at h
        cases h
        obtain ⟨hcounted, hfew, hentries, -⟩ := hmap
        simp only [Nat.zero_add] at hcounted hfew
        have hcount : count = (mapAnswers b maxMapEntries 0 s.bios).1.length := by
          split at hcounted
          · exact Option.some.inj hcounted
          · cases hcounted
        -- the block is beside the table
        refine ⟨hcount, hcount ▸ hfew, fun i hi => ?_, ?_⟩
        · refine Eq.trans ?_ (hentries i hi)
          refine Uefi.entryIn_of_window fun k hk => hmodes.outside _ (.inl ?_)
          have hlt : i < 128 := Nat.lt_of_lt_of_le hi hfew
          simp only [memoryMapAddr, memoryMapEntrySize, vbeInfoAddr] at hk ⊢
          omega
        · have hmode := hmodes.mode
          have hblock := hmodes.block
          generalize hpick : pickMode b vbeModes s₁.bios = p at hmode hblock
          obtain ⟨picked, f'⟩ := p
          cases picked with
          | none => cases hmode
          | some picked =>
            cases hmode
            refine ⟨picked.1, picked.2, ?_, rfl, hblock _ _ rfl⟩
            rw [hcollect, hpick]
      · rw [if_neg hax] at h
        cases h

/-- The BIOS stores what it says. Stage 2 has set a video mode and enters protected mode; if that ends in a kernel,
whatever else it read and wrote on the way, the kernel's memory map has the answers of the BIOS, and its framebuffer
is the one of the first mode that suits. -/
theorem handoff_reports_firmware {D : Type} {b : BiosServices F} (hb : StoresEntries b) (hv : FillsBlocks b)
    {bootDrive : UInt8} {s : RealMode F} {e : Entered F} (hreal : bootKernel b bootDrive s = .ok e) (hmode : e.mode ≠ none)
    {drive : BiosDrive D} {machine : Machine} (hcount : machine.e820Count = .ofNat e.e820Count) {t t' : Bios D}
    (hmem : t.mem = e.state.mem) {entry : UInt64} (h : stage2PmMain drive machine t = (.handoff entry, t')) :
    memoryMapOf t'.mem (bootInfoAt t'.mem bootInfoAddr) =
        (mapAnswers b maxMapEntries 0 (platformState b bootDrive s).bios).1.map MapAnswer.mapEntry ∧
      ∃ mode block, (pickMode b vbeModes (collectE820 b (platformState b bootDrive s)).2.bios).1 = some (mode, block) ∧
        e.mode = some mode ∧ (bootInfoAt t'.mem bootInfoAddr).framebuffer = blockFramebuffer (bytesOf block) := by
  obtain ⟨hlen, hfew, hentries, mode, block, hpick, hset, hblock⟩ :=
    prepareNativePlatform_ok hb hv (bootKernel_ok hreal hmode)
  obtain ⟨imageBytes, summary, s₁, s₂, hand⟩ := stage2PmMain_handoff h
  obtain ⟨hann, hinfo, hkept⟩ := hand.info
  have hbound : e.e820Count ≤ 128 := hfew
  have hn : (bootInfoAt t'.mem bootInfoAddr).memoryMapEntries.toNat = e.e820Count := by
    rw [hinfo.map.2, hcount, UInt16.toNat_toUInt32, UInt16.toNat_ofNat', Nat.mod_eq_of_lt (by omega)]
  have hsize : (bootInfoAt t'.mem bootInfoAddr).memoryMapEntrySize.toNat = memoryMapEntrySize := by rw [hann.abi.2.2.2]; rfl
  have haddr : (bootInfoAt t'.mem bootInfoAddr).memoryMapAddress.toNat = memoryMapAddr := by rw [hinfo.map.1]; rfl
  refine ⟨?_, mode, block, hpick, hset, ?_⟩
  · rw [memoryMapOf, hn, hsize, haddr, hlen]
    refine List.ext_getElem (by simp) fun i h₁ h₂ => ?_
    rw [List.length_map, List.length_range] at h₁
    have hlt : i < 128 := by omega
    rw [List.getElem_map, List.getElem_range, List.getElem_map, ← hentries i h₁]
    refine Uefi.entryIn_of_window fun k hk => ?_
    rw [← hmem]
    simp only [memoryMapEntrySize] at hk ⊢
    exact hkept _ (by omega) (by simp only [memoryMapAddr, loaderNameAddr]; omega)
  · rw [hinfo.framebuffer, hmem]
    exact vbeFramebuffer_block hblock

end

/-! ### A BIOS for the theorems -/

/-- 1024 by 768, with 32 bits a pixel, at 3.5 GiB. -/
def pcModeBlock : List UInt8 := packBytes
  [(2, 0x9b), (14, 0), (2, 4096), (2, 1024), (2, 768), (3, 0), (1, 32), (1, 0), (1, 6), (3, 0), (1, 8), (1, 16), (1, 8), (1, 8),
    (1, 8), (1, 0), (3, 0), (4, 0xe0000000), (212, 0)]

/-- Two entries, the second one of 20 bytes, and a framebuffer in the second of the modes. -/
def pcServices : BiosServices Unit where
  checkExtensions _ f := ((false, 0xaa55, 1), f)
  extendedRead _ _ _ f := (none, f)
  memoryMap ebx f :=
    if ebx = 0 then (⟨false, smapSignature, 1, 24, packBytes [(8, 0), (8, 0x8000000), (4, 1), (4, 1)]⟩, f)
    else (⟨false, smapSignature, 0, 20, packBytes [(8, 0xfffc0000), (8, 0x40000), (4, 2)]⟩, f)
  modeInfo mode f := (if mode = 0x0143 then (0x004f, pcModeBlock) else (0x014f, []), f)
  setMode _ f := (0x004f, f)

/-- After stage 1, with a FAT32 partition; the kernel of the boot before is still in the window. -/
def pcRealMode : RealMode Unit where
  bios := ()
  mem := Bytes.write (Bytes.write (fun _ => 0) 0x7dc2 [0x0c]) kernelImageAddr lowKernel

theorem storesEntries_pcServices : StoresEntries pcServices := by
  refine ⟨fun ebx () => ?_, fun ebx () _ => ?_⟩
  all_goals
    simp only [pcServices]
    split <;> decide

theorem fillsBlocks_pcServices : FillsBlocks pcServices := by
  have hlen : pcModeBlock.length = 0x100 := length_packBytes _
  refine ⟨fun mode f => ?_, fun mode f => ?_⟩
  · simp only [pcServices]
    split
    · exact Nat.le_of_eq hlen
    · exact Nat.zero_le _
  · simp only [pcServices]
    split
    · exact fun _ => hlen
    · exact fun h => absurd h (by decide)

theorem e820_collected_pc :
    Collected pcRealMode 0 0 (mapAnswers pcServices maxMapEntries 0 ()) (collectE820 pcServices pcRealMode) ∧
      (collectE820 pcServices pcRealMode).1 = some 2 := by
  have hall := e820_collected storesEntries_pcServices pcRealMode
  exact ⟨hall, by decide⟩

/-- What stage 2 enters protected mode with. -/
def pcEntered : Entered Unit where
  filesystemBoot := true
  e820Count := 2
  mode := some 0x0143
  state := (setupVbe pcServices (collectE820 pcServices pcRealMode).2).2

def pcEnteredMachine : Machine := { pcMachine with e820Count := 2 }

def pcEnteredState : Bios Unit := { staged [] with mem := pcEntered.state.mem }

def pcEnteredBoot : Ending × Bios Unit := stage2PmMain deadDrive pcEnteredMachine pcEnteredState

theorem bootKernel_pc : bootKernel pcServices 0x80 pcRealMode = .ok pcEntered := by
  have hedd : checkEdd pcServices 0x80 pcRealMode = (true, pcRealMode) := rfl
  have hpart : hasBootPartition pcRealMode.mem = true := by decide
  have hmap : (collectE820 pcServices pcRealMode).1 = some 2 := by decide
  have hmode : (setupVbe pcServices (collectE820 pcServices pcRealMode).2).1 = some 0x0143 := by decide +kernel
  rw [bootKernel, hedd]
  simp only [hpart, if_true]
  rw [prepareNativePlatform, Prod.fst_eq_iff.1 hmap]
  simp only
  rw [Prod.fst_eq_iff.1 hmode]
  rfl

theorem handoff_reports_firmware_pc :
    pcEnteredBoot.1 = .handoff 0xffffffff80000000 ∧
    memoryMapOf pcEnteredBoot.2.mem (bootInfoAt pcEnteredBoot.2.mem bootInfoAddr) =
        [⟨0, 0x8000000, 1, 1⟩, ⟨0xfffc0000, 0x40000, 2, 0⟩] ∧
      (bootInfoAt pcEnteredBoot.2.mem bootInfoAddr).framebuffer = ⟨0xe0000000, 1024, 768, 4096, 32, 8, 16, 8, 8, 8, 0⟩ := by
  have hend : pcEnteredBoot.1 = .handoff 0xffffffff80000000 := by decide +kernel
  have hmode : pcEntered.mode ≠ none := nofun
  have hcount : pcEnteredMachine.e820Count = .ofNat pcEntered.e820Count := rfl
  have hmem : pcEnteredState.mem = pcEntered.state.mem := by simp only [pcEnteredState]
  have hboot : stage2PmMain deadDrive pcEnteredMachine pcEnteredState = (.handoff 0xffffffff80000000, pcEnteredBoot.2) :=
    Prod.fst_eq_iff.1 hend
  obtain ⟨hmap, mode, block, hpick, -, hfb⟩ := handoff_reports_firmware storesEntries_pcServices fillsBlocks_pcServices
    bootKernel_pc hmode hcount hmem hboot
  have hfirst : ∀ f, (pickMode pcServices vbeModes f).1 = some (0x0143, pcModeBlock) := fun () => rfl
  rw [hfirst] at hpick
  obtain ⟨-, rfl⟩ := Prod.mk.inj (Option.some.inj hpick)
  exact ⟨hend, hmap.trans (by decide), hfb.trans (by decide)⟩

end JoshBios.Stage2
