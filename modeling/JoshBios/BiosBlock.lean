import JoshBios.HealthStore
import JoshBios.RealMode
import JoshBios.UefiPlace
import JoshBios.Lib.Refine

/-! # The drive behind the real-mode thunk (`boot/bios_block.S`)

Protected mode reaches the disk through `int 0x13`: `bios_block_read` and `bios_block_write` check their arguments, fill in a
disk address packet, and go down to real mode and back. The BIOS can only reach the first megabyte, so a read of more than
that goes through a buffer at `0x60000`, 64 sectors at a time, and a health record through one at `0x5d000`. `Stage2` takes a
`BiosDrive` for all of this. `block_calls_refine` is what entitles it to: with a BIOS that serves a drive, the calls made of
the thunk answer what the drive answers, and write to memory what they were asked for and their buffers, and nothing else. -/

namespace JoshBios.Int13

open Stage2 (RealMode BiosDrive biosBounceSectors)
open Health (HealthRecord recordAt)
open Lib

/-- `bios_dap`. -/
structure DiskPacket where
  count : UInt16
  offset : UInt16
  segment : UInt16
  lba : UInt64
deriving DecidableEq

/-- Where the data is in memory. -/
def DiskPacket.address (p : DiskPacket) : Nat := 16 * p.segment.toNat + p.offset.toNat

def DiskPacket.bytes (p : DiskPacket) : Nat := 512 * p.count.toNat

/-- `int 0x13` with a packet, by `ah` and `dl`: the carry, and the BIOS and the memory after it. -/
abbrev DiskBios (F : Type) := (operation drive : UInt8) → DiskPacket → RealMode F → Bool × RealMode F

-- BIOS_BOUNCE_ADDR, HEALTH_BUFFER_ADDR
def biosBounceAddr : UInt32 := 0x60000
def healthBufferAddr : UInt32 := 0x5d000

def packetFor (lba : UInt64) (count buffer : UInt32) : DiskPacket where
  count := count.toUInt16
  offset := (buffer &&& 0x0f).toUInt16
  segment := (buffer >>> 4).toUInt16
  lba

section
variable {F : Type} (i : DiskBios F) (bootDrive : UInt8)

/-- `bios_block_common`: whether it returns 0. -/
def biosBlockCommon (operation : UInt8) (lba : UInt64) (count buffer : UInt32) (s : RealMode F) : Bool × RealMode F :=
  if count = 0 then (false, s)
  else if count > 127 then (false, s)
  else if buffer ≥ 0x100000 then (false, s)
  else
    let edx := (count <<< 9) + buffer
    -- the carry of the addition
    if edx < buffer then (false, s)
    else if edx > 0x100000 then (false, s)
    else
      let (carry, s) := i operation bootDrive (packetFor lba count buffer) s
      (!carry, s)

def biosBlockRead : UInt64 → UInt32 → UInt32 → RealMode F → Bool × RealMode F := biosBlockCommon i bootDrive 0x42

def biosBlockWrite : UInt64 → UInt32 → UInt32 → RealMode F → Bool × RealMode F := biosBlockCommon i bootDrive 0x43

/-- The loop of `bios_block_read_bounced`, `n` chunks at most. -/
def bouncedLoop : (n : Nat) → (lba : UInt64) → (remaining destination : UInt32) → RealMode F → Bool × RealMode F
  | 0, _, _, _, s => (true, s)
  | n + 1, lba, remaining, destination, s =>
    if remaining = 0 then (true, s) else
    let chunk := if remaining > biosBounceSectors then biosBounceSectors else remaining
    match biosBlockRead i bootDrive lba chunk biosBounceAddr s with
    | (false, s) => (false, s)
    | (true, s) =>
      let bytes := chunk * 512
      bouncedLoop n (lba + chunk.toUInt64) (remaining - chunk) (destination + bytes)
        ⟨s.bios, memcopy s.mem destination.toNat biosBounceAddr.toNat bytes.toNat⟩

def biosBlockReadBounced (lba : UInt64) (sectorCount buffer : UInt32) (s : RealMode F) : Bool × RealMode F :=
  if buffer = 0 ∨ sectorCount = 0 then (false, s) else bouncedLoop i bootDrive sectorCount.toNat lba sectorCount buffer s

/-- `health_read_copy`; the caller's record is not part of the memory. -/
def healthReadCopy (lba : UInt64) (record : HealthRecord) (s : RealMode F) : (Bool × HealthRecord) × RealMode F :=
  match biosBlockRead i bootDrive lba 1 healthBufferAddr s with
  | (false, s) => ((false, record), s)
  | (true, s) =>
    let record := recordAt (s.mem.from healthBufferAddr.toNat)
    ((Health.valid record, record), s)

def healthWriteCopy (lba : UInt64) (record : HealthRecord) (s : RealMode F) : Bool × RealMode F :=
  let mem := memzero s.mem healthBufferAddr.toNat 512
  let mem := mem.write healthBufferAddr.toNat (record.bytes.slice 0 Health.recordSize.toNat)
  match biosBlockWrite i bootDrive lba 1 healthBufferAddr ⟨s.bios, mem⟩ with
  | (false, s) => (false, s)
  | (true, s) =>
    let ((have_, verify), s) := healthReadCopy i bootDrive lba Stage2.zeroRecord s
    (have_ && verify.generation == record.generation && verify.checksum == record.checksum, s)

end

/-! ### The thunk -/

/-- The requests that the BIOS gets to see. -/
structure Accepted (count buffer : UInt32) : Prop where
  some_ : count ≠ 0
  few : count.toNat ≤ 127
  low : buffer.toNat + 512 * count.toNat ≤ 0x100000

theorem toNat_span (count buffer : UInt32) (hcount : count.toNat ≤ 127) (hbuffer : buffer.toNat < 0x100000) :
    ((count <<< 9) + buffer).toNat = buffer.toNat + 512 * count.toNat := by
  have hshift : (count <<< 9).toNat = 512 * count.toNat := by
    rw [UInt32.toNat_shiftLeft, show (9 : UInt32).toNat % 32 = 9 from rfl, Nat.shiftLeft_eq, Nat.mod_eq_of_lt (by omega)]
    omega
  rw [UInt32.toNat_add, hshift, Nat.mod_eq_of_lt (by omega), Nat.add_comm]

/-- The packet of a request asks for the same sectors, at the same place, and in one segment. -/
theorem packetFor_spec {count buffer : UInt32} (h : Accepted count buffer) (lba : UInt64) :
    (packetFor lba count buffer).count.toNat = count.toNat ∧ (packetFor lba count buffer).address = buffer.toNat ∧
      (packetFor lba count buffer).offset.toNat + 512 * count.toNat ≤ 0x10000 := by
  have hpos : 0 < count.toNat := Nat.pos_of_ne_zero fun h₀ => h.some_ (UInt32.toNat_inj.1 h₀)
  have hfew := h.few
  have hlow := h.low
  have hoffset : (buffer &&& 0x0f).toUInt16.toNat = buffer.toNat % 16 := by
    rw [UInt32.toNat_toUInt16, UInt32.toNat_and, show (0x0f : UInt32).toNat = 2 ^ 4 - 1 from rfl,
      Nat.and_two_pow_sub_one_eq_mod]
    omega
  have hsegment : (buffer >>> 4).toUInt16.toNat = buffer.toNat / 16 := by
    rw [UInt32.toNat_toUInt16, UInt32.toNat_shiftRight, show (4 : UInt32).toNat % 32 = 4 from rfl, Nat.shiftRight_eq_div_pow]
    omega
  refine ⟨?_, ?_, ?_⟩
  · rw [packetFor, UInt32.toNat_toUInt16]
    omega
  · rw [DiskPacket.address, packetFor, hoffset, hsegment]
    omega
  · rw [packetFor, hoffset]
    omega

section
variable {F : Type} (i : DiskBios F) (bootDrive operation : UInt8) (lba : UInt64) {count buffer : UInt32}

theorem biosBlockCommon_accepted (h : Accepted count buffer) (s : RealMode F) :
    biosBlockCommon i bootDrive operation lba count buffer s =
      (!(i operation bootDrive (packetFor lba count buffer) s).1, (i operation bootDrive (packetFor lba count buffer) s).2) := by
  have hpos : 0 < count.toNat := Nat.pos_of_ne_zero fun h₀ => h.some_ (UInt32.toNat_inj.1 h₀)
  have hfew := h.few
  have hlow := h.low
  have hbuffer : buffer.toNat < 0x100000 := by omega
  have hspan := toNat_span count buffer hfew hbuffer
  rw [biosBlockCommon, if_neg h.some_, if_neg (UInt32.not_lt.2 (UInt32.le_iff_toNat_le.2 hfew)),
    if_neg (UInt32.not_le.2 (UInt32.lt_iff_toNat_lt.2 hbuffer)),
    if_neg (UInt32.not_lt.2 (UInt32.le_iff_toNat_le.2 (by rw [hspan]; omega))),
    if_neg (UInt32.not_lt.2 (UInt32.le_iff_toNat_le.2 (by rw [hspan]; exact hlow)))]

theorem biosBlockCommon_refused (h : ¬ Accepted count buffer) (s : RealMode F) :
    biosBlockCommon i bootDrive operation lba count buffer s = (false, s) := by
  unfold biosBlockCommon
  simp only
  split
  · rfl
  next hsome =>
    split
    · rfl
    next hfew =>
      split
      · rfl
      next hbuffer =>
        split
        · rfl
        split
        · rfl
        next hlow =>
          have hfew' : count.toNat ≤ 127 := UInt32.le_iff_toNat_le.1 (UInt32.not_lt.1 hfew)
          have hspan := toNat_span count buffer hfew' (UInt32.lt_iff_toNat_lt.1 (UInt32.not_le.1 hbuffer))
          have hlow' := UInt32.le_iff_toNat_le.1 (UInt32.not_lt.1 hlow)
          rw [hspan] at hlow'
          exact absurd ⟨hsome, hfew', hlow'⟩ h

/-- Whatever is asked of the thunk: the BIOS does not see the request, or it sees one for the same sectors and the same
memory, which is in one segment and in the first megabyte. -/
theorem block_request (count buffer : UInt32) (s : RealMode F) :
    (¬ Accepted count buffer ∧ biosBlockCommon i bootDrive operation lba count buffer s = (false, s)) ∨
      ∃ p : DiskPacket, p.lba = lba ∧ p.count.toNat = count.toNat ∧ p.address = buffer.toNat ∧ 0 < p.bytes ∧
        p.offset.toNat + p.bytes ≤ 0x10000 ∧ p.address + p.bytes ≤ 0x100000 ∧
        biosBlockCommon i bootDrive operation lba count buffer s =
          (!(i operation bootDrive p s).1, (i operation bootDrive p s).2) := by
  by_cases h : Accepted count buffer
  · obtain ⟨hcount, haddress, hsegment⟩ := packetFor_spec h lba
    have hpos : count.toNat ≠ 0 := fun h₀ => h.some_ (UInt32.toNat_inj.1 h₀)
    have hlow := h.low
    have hbytes : (packetFor lba count buffer).bytes = 512 * count.toNat := by rw [DiskPacket.bytes, hcount]
    exact .inr ⟨packetFor lba count buffer, rfl, hcount, haddress, by omega, by omega, by omega,
      biosBlockCommon_accepted i bootDrive operation lba h s⟩
  · exact .inl ⟨h, biosBlockCommon_refused i bootDrive operation lba h s⟩

end

/-! ### A BIOS that serves a drive -/

/-- A packet the BIOS has to serve: no more sectors than it can, in one segment. -/
structure DiskPacket.Sound (p : DiskPacket) : Prop where
  some_ : p.count ≠ 0
  few : p.count.toNat ≤ 127
  segment : p.offset.toNat + p.bytes ≤ 0x10000

/-- What `int 0x13` promises: the drive `bootDrive` is `drive`, a read stores what is read and a write takes what is there.
The addresses in `Own` are the BIOS's: its data, and the stack it is called on. -/
structure Serves {F : Type} (i : DiskBios F) (bootDrive : UInt8) (Own : Nat → Prop) (drive : BiosDrive F) : Prop where
  read : ∀ p s, p.Sound →
    (i 0x42 bootDrive p s).1 = (drive.read s.bios p.lba p.count.toUInt32).isNone ∧ (i 0x42 bootDrive p s).2.bios = s.bios ∧
      AgreeOn (fun x => ¬ Own x ∧ (x < p.address ∨ p.address + p.bytes ≤ x)) s.mem (i 0x42 bootDrive p s).2.mem ∧
      ∀ data, drive.read s.bios p.lba p.count.toUInt32 = some data →
        ∀ k < p.bytes, ¬ Own (p.address + k) → (i 0x42 bootDrive p s).2.mem (p.address + k) = data k
  write : ∀ p s, p.Sound → (∀ k < p.bytes, ¬ Own (p.address + k)) →
    ((!(i 0x43 bootDrive p s).1), (i 0x43 bootDrive p s).2.bios) =
        drive.write s.bios p.lba p.count.toUInt32 (bytesOf (s.mem.slice p.address p.bytes)) ∧
      AgreeOn (fun x => ¬ Own x) s.mem (i 0x43 bootDrive p s).2.mem

theorem Accepted.sound {count buffer : UInt32} (h : Accepted count buffer) (lba : UInt64) : (packetFor lba count buffer).Sound := by
  obtain ⟨hcount, -, hsegment⟩ := packetFor_spec h lba
  refine ⟨fun h₀ => h.some_ (UInt32.toNat_inj.1 ?_), by rw [hcount]; exact h.few, ?_⟩
  · rw [← hcount, h₀]
    rfl
  · rw [DiskPacket.bytes, hcount]
    exact hsegment

/-- The `n` bytes that were read, if they were, are at `a`; besides them and the scratch space nothing was written. -/
structure Stored {F : Type} (Own Scratch : Nat → Prop) (s : RealMode F) (read : Option Bytes) (a n : Nat)
    (out : Bool × RealMode F) : Prop where
  ok : out.1 = read.isSome
  bios : out.2.bios = s.bios
  data : ∀ bytes, read = some bytes → ∀ k < n, out.2.mem (a + k) = bytes k
  outside : AgreeOn (fun x => ¬ Own x ∧ ¬ Scratch x ∧ (x < a ∨ a + n ≤ x)) s.mem out.2.mem

/-- The bounce buffer, and the buffer for a health record. -/
def Bounce (x : Nat) : Prop := 0x60000 ≤ x ∧ x < 0x68000

def HealthBuffer (x : Nat) : Prop := 0x5d000 ≤ x ∧ x < 0x5d200

theorem accepted_healthBuffer : Accepted 1 healthBufferAddr := ⟨by decide, by decide, by decide⟩

theorem toNat_chunk (remaining : UInt32) :
    (if remaining > biosBounceSectors then biosBounceSectors else remaining).toNat = min remaining.toNat 64 := by
  have hmin : biosBounceSectors.toNat = 64 := rfl
  split
  next hgt =>
    have hlt := UInt32.lt_iff_toNat_lt.1 hgt
    omega
  next hle =>
    have hle' := UInt32.le_iff_toNat_le.1 (UInt32.not_lt.1 hle)
    omega

theorem accepted_chunk {chunk : UInt32} (hpos : chunk.toNat ≠ 0) (hfew : chunk.toNat ≤ 64) : Accepted chunk biosBounceAddr := by
  have hat : biosBounceAddr.toNat = 0x60000 := rfl
  refine ⟨fun h₀ => hpos ?_, by omega, by omega⟩
  rw [h₀]
  rfl

theorem slice_healthBuffer (m : Bytes) (record : HealthRecord) :
    bytesOf (((memzero m 0x5d000 512).write 0x5d000 (record.bytes.slice 0 Health.recordSize.toNat)).slice 0x5d000 512) =
      record.bytes := by
  have hsize : Health.recordSize.toNat = 56 := rfl
  have hlen : (record.bytes.slice 0 Health.recordSize.toNat).length = 56 := Bytes.length_slice _ _ _
  have hzero : ∀ k, 56 ≤ k → record.bytes k = 0 := fun k hk =>
    List.getD_eq_default _ 0 (by
      rw [length_packBytes]
      simpa [HealthRecord.fields] using hk)
  funext k
  by_cases hk : k < 512
  · have hbyte : bytesOf (((memzero m 0x5d000 512).write 0x5d000 (record.bytes.slice 0 Health.recordSize.toNat)).slice
        0x5d000 512) k = (memzero m 0x5d000 512).write 0x5d000 (record.bytes.slice 0 Health.recordSize.toNat) (0x5d000 + k) := by
      rw [bytesOf, List.getD_eq_getElem _ 0 (by rw [Bytes.length_slice]; exact hk)]
      simp only [Bytes.slice, List.getElem_map, List.getElem_range]
    rw [hbyte]
    by_cases hrec : k < 56
    · rw [Bytes.write_inside _ (by omega), List.getD_eq_getElem _ 0 (by omega)]
      simp only [Bytes.slice, List.getElem_map, List.getElem_range, Nat.zero_add]
    · rw [Bytes.write_of_le _ _ (by omega), memzero_inside m (by omega) (by omega), hzero k (by omega)]
  · rw [hzero k (by omega)]
    exact List.getD_eq_default _ 0 (by rw [Bytes.length_slice]; omega)

section
variable {F : Type} {i : DiskBios F} {bootDrive : UInt8} {Own : Nat → Prop} {drive : BiosDrive F}
  (h : Serves i bootDrive Own drive)
include h

theorem biosBlockRead_spec {count buffer : UInt32} (ha : Accepted count buffer) (lba : UInt64) (s : RealMode F)
    (hown : ∀ k < 512 * count.toNat, ¬ Own (buffer.toNat + k)) :
    Stored Own (fun _ => False) s (drive.read s.bios lba count) buffer.toNat (512 * count.toNat)
      (biosBlockRead i bootDrive lba count buffer s) := by
  obtain ⟨hcount, haddress, -⟩ := packetFor_spec ha lba
  obtain ⟨hcarry, hbios, houtside, hdata⟩ := h.read (packetFor lba count buffer) s (ha.sound lba)
  have hbytes : (packetFor lba count buffer).bytes = 512 * count.toNat := by rw [DiskPacket.bytes, hcount]
  have hsame : (packetFor lba count buffer).count.toUInt32 = count := UInt32.toNat_inj.1 (by
    rw [UInt16.toNat_toUInt32, hcount])
  rw [haddress, hbytes] at houtside
  rw [haddress, hbytes, hsame] at hdata
  rw [hsame] at hcarry
  rw [biosBlockRead, biosBlockCommon_accepted i bootDrive _ lba ha]
  refine ⟨?_, hbios, fun bytes hread k hk => hdata bytes hread k hk (hown k hk), houtside.mono fun x hx => ⟨hx.1, hx.2.2⟩⟩
  show (!(i 0x42 bootDrive (packetFor lba count buffer) s).1) = _
  rw [hcarry, Option.not_isNone]
  rfl

theorem bouncedLoop_spec (hbuffer : ∀ x, Bounce x → ¬ Own x) (n : Nat) {lba : UInt64} {remaining destination : UInt32}
    {base done : Nat} {out : Bytes} {s : RealMode F} (hn : remaining.toNat ≤ n)
    (hdest : remaining ≠ 0 → destination.toNat = base + done) (htop : base + done + 512 * remaining.toNat ≤ 2 ^ 32)
    (hapart : ∀ x, base ≤ x → x < base + done + 512 * remaining.toNat → ¬ Own x ∧ ¬ Bounce x)
    (hout : ∀ k < done, s.mem (base + k) = out k) :
    Stored Own Bounce s (Stage2.bounceLoop drive s.bios n lba remaining done out) base (done + 512 * remaining.toNat)
      (bouncedLoop i bootDrive n lba remaining destination s) := by
  induction n generalizing lba remaining destination done out s with
  | zero =>
    have hzero : remaining.toNat = 0 := by omega
    refine ⟨rfl, rfl, fun bytes hread k hk => ?_, fun x _ => rfl⟩
    cases hread
    exact hout k (by omega)
  | succ n ih =>
    rw [Stage2.bounceLoop, bouncedLoop]
    by_cases hzero : remaining = 0
    · rw [if_pos hzero, if_pos hzero]
      refine ⟨rfl, rfl, fun bytes hread k hk => ?_, fun x _ => rfl⟩
      cases hread
      have hzero' : remaining.toNat = 0 := by rw [hzero]; rfl
      exact hout k (by omega)
    rw [if_neg hzero, if_neg hzero]
    simp only
    have hpos : remaining.toNat ≠ 0 := fun h₀ => hzero (UInt32.toNat_inj.1 h₀)
    have hchunk := toNat_chunk remaining
    generalize (if remaining > biosBounceSectors then biosBounceSectors else remaining) = chunk at hchunk ⊢
    have hat : biosBounceAddr.toNat = 0x60000 := rfl
    have ha : Accepted chunk biosBounceAddr := accepted_chunk (by omega) (by omega)
    have hread := biosBlockRead_spec h ha lba s fun k hk => hbuffer _ ⟨by omega, by omega⟩
    obtain ⟨hok, hbios, hdata, houtside⟩ := hread
    generalize drive.read s.bios lba chunk = r at hok hdata
    generalize biosBlockRead i bootDrive lba chunk biosBounceAddr s = t at hok hbios hdata houtside
    obtain ⟨ok, s'⟩ := t
    simp only at hok hbios hdata houtside
    -- the thunk writes nothing but the buffer
    have hkept : ∀ x, ¬ Own x → ¬ Bounce x → s.mem x = s'.mem x := fun x hx hb =>
      houtside x ⟨hx, not_false, by unfold Bounce at hb; omega⟩
    cases r with
    | none =>
      obtain rfl : ok = false := hok
      exact ⟨rfl, hbios, nofun, fun x hx => hkept x hx.1 hx.2.1⟩
    | some bytes =>
      obtain rfl : ok = true := hok
      have hle : chunk.toNat ≤ remaining.toNat := by omega
      have hdest' := hdest hzero
      have hbytes : (chunk * 512).toNat = chunk.toNat * sectorSize := by
        rw [UInt32.toNat_mul, show (512 : UInt32).toNat = 512 from rfl, show sectorSize = 512 from rfl]
        omega
      have hrest : (remaining - chunk).toNat = remaining.toNat - chunk.toNat :=
        UInt32.toNat_sub_of_le _ _ (UInt32.le_iff_toNat_le.2 hle)
      have hsize : chunk.toNat * sectorSize = 512 * chunk.toNat := Nat.mul_comm _ _
      simp only
      rw [hbytes, hsize, hdest', hat, ← hbios]
      have hinside : ∀ k < 512 * chunk.toNat,
          memcopy s'.mem (base + done) 0x60000 (512 * chunk.toNat) (base + (done + k)) = bytes k := fun k hk => by
        have hfirst := (hapart (base + done) (by omega) (by omega)).2
        rw [← Nat.add_assoc, memcopy_at s'.mem (by unfold Bounce at hfirst; omega) hk]
        exact hdata bytes rfl k hk
      have hbefore : ∀ k < done, memcopy s'.mem (base + done) 0x60000 (512 * chunk.toNat) (base + k) = out k := fun k hk => by
        obtain ⟨hown, hb⟩ := hapart (base + k) (by omega) (by omega)
        rw [memcopy_outside s'.mem (by omega), ← hkept _ hown hb, hout k hk]
      have hnext := @ih (lba + chunk.toUInt64) (remaining - chunk) (destination + chunk * 512) (done + 512 * chunk.toNat)
        (fun x => if x < done then out x else bytes (x - done))
        ⟨s'.bios, memcopy s'.mem (base + done) 0x60000 (512 * chunk.toNat)⟩ (by omega) (fun hne => ?_)
        (by omega) (fun x h₁ h₂ => hapart x h₁ (by omega)) (fun k hk => ?_)
      · rw [show done + 512 * chunk.toNat + 512 * (remaining - chunk).toNat = done + 512 * remaining.toNat by omega] at hnext
        refine ⟨hnext.ok, hnext.bios.trans hbios, hnext.data, fun x hx => ?_⟩
        rw [hkept x hx.1 hx.2.1, ← hnext.outside x hx]
        exact (memcopy_outside s'.mem (by omega)).symm
      · have hne' : (remaining - chunk).toNat ≠ 0 := fun h₀ => hne (UInt32.toNat_inj.1 h₀)
        rw [UInt32.toNat_add, hbytes, hdest', hsize]
        omega
      · by_cases hk' : k < done
        · rw [if_pos hk']
          exact hbefore k hk'
        · obtain ⟨j, rfl⟩ := Nat.exists_eq_add_of_le (Nat.not_lt.1 hk')
          rw [if_neg hk', Nat.add_sub_cancel_left]
          exact hinside j (by omega)

theorem biosBlockReadBounced_spec (hbuffer : ∀ x, Bounce x → ¬ Own x) {sectorCount buffer : UInt32} (hnull : buffer ≠ 0)
    (htop : buffer.toNat + 512 * sectorCount.toNat ≤ 2 ^ 32)
    (hapart : ∀ x, buffer.toNat ≤ x → x < buffer.toNat + 512 * sectorCount.toNat → ¬ Own x ∧ ¬ Bounce x) (lba : UInt64)
    (s : RealMode F) :
    Stored Own Bounce s (Stage2.biosBlockReadBounced drive s.bios lba sectorCount) buffer.toNat (512 * sectorCount.toNat)
      (biosBlockReadBounced i bootDrive lba sectorCount buffer s) := by
  rw [Stage2.biosBlockReadBounced, biosBlockReadBounced]
  by_cases hzero : sectorCount = 0
  · rw [if_pos hzero, if_pos (Or.inr hzero)]
    exact ⟨rfl, rfl, nofun, fun x _ => rfl⟩
  · rw [if_neg hzero, if_neg (by simp [hnull, hzero])]
    have hspec := @bouncedLoop_spec F i bootDrive Own drive h hbuffer sectorCount.toNat lba sectorCount buffer buffer.toNat 0
      (fun _ => 0) s (Nat.le_refl _) (fun _ => rfl) htop hapart nofun
    rw [Nat.zero_add] at hspec
    exact hspec

/-- What `health_read_copy` answers, and what it writes. -/
theorem healthReadCopy_spec (hbuffer : ∀ x, HealthBuffer x → ¬ Own x) (lba : UInt64) (record : HealthRecord) (s : RealMode F) :
    (healthReadCopy i bootDrive lba record s).1 = Stage2.healthReadCopy drive s.bios lba record ∧
      (healthReadCopy i bootDrive lba record s).2.bios = s.bios ∧
      AgreeOn (fun x => ¬ Own x ∧ ¬ HealthBuffer x) s.mem (healthReadCopy i bootDrive lba record s).2.mem := by
  have hat : healthBufferAddr.toNat = 0x5d000 := rfl
  have hone : 512 * (1 : UInt32).toNat = 512 := rfl
  have hread := biosBlockRead_spec h accepted_healthBuffer lba s fun k hk => hbuffer _ ⟨by omega, by omega⟩
  obtain ⟨hok, hbios, hdata, houtside⟩ := hread
  rw [healthReadCopy, Stage2.healthReadCopy]
  generalize drive.read s.bios lba 1 = r at hok hdata
  generalize biosBlockRead i bootDrive lba 1 healthBufferAddr s = t at hok hbios hdata houtside
  obtain ⟨ok, s'⟩ := t
  have hkept : AgreeOn (fun x => ¬ Own x ∧ ¬ HealthBuffer x) s.mem s'.mem :=
    houtside.mono fun x hx => ⟨hx.1, not_false, by have hb := hx.2; unfold HealthBuffer at hb; omega⟩
  cases r with
  | none =>
    obtain rfl : ok = false := hok
    exact ⟨rfl, hbios, hkept⟩
  | some sector =>
    obtain rfl : ok = true := hok
    have hrecord : recordAt (s'.mem.from healthBufferAddr.toNat) = recordAt sector :=
      Health.recordAt_congr fun k hk => hdata sector rfl k (by omega)
    simp only [hrecord]
    exact ⟨trivial, hbios, hkept⟩

theorem healthWriteCopy_spec (hbuffer : ∀ x, HealthBuffer x → ¬ Own x) (lba : UInt64) (record : HealthRecord) (s : RealMode F) :
    ((healthWriteCopy i bootDrive lba record s).1, (healthWriteCopy i bootDrive lba record s).2.bios) =
        Stage2.healthWriteCopy drive s.bios lba record ∧
      AgreeOn (fun x => ¬ Own x ∧ ¬ HealthBuffer x) s.mem (healthWriteCopy i bootDrive lba record s).2.mem := by
  obtain ⟨hcount, haddress, -⟩ := packetFor_spec accepted_healthBuffer lba
  have hat : healthBufferAddr.toNat = 0x5d000 := rfl
  have hbytes : (packetFor lba 1 healthBufferAddr).bytes = 512 := by rw [DiskPacket.bytes, hcount]; rfl
  have hsame : (packetFor lba 1 healthBufferAddr).count.toUInt32 = 1 := rfl
  have hlen : (record.bytes.slice 0 Health.recordSize.toNat).length = 56 := Bytes.length_slice _ _ _
  have hslice := slice_healthBuffer s.mem record
  -- the record goes into the buffer
  have hfill : AgreeOn (fun x => ¬ Own x ∧ ¬ HealthBuffer x) s.mem
      ((memzero s.mem 0x5d000 512).write 0x5d000 (record.bytes.slice 0 Health.recordSize.toNat)) := by
    intro x hx
    have hb := hx.2
    unfold HealthBuffer at hb
    rcases Nat.lt_or_ge x 0x5d000 with hlt | hge
    · rw [Bytes.write_of_lt _ _ hlt, memzero_outside s.mem (.inl hlt)]
    · rw [Bytes.write_of_le _ _ (by omega), memzero_outside s.mem (.inr (by omega))]
  rw [healthWriteCopy, biosBlockWrite, hat]
  simp only
  generalize (memzero s.mem 0x5d000 512).write 0x5d000 (record.bytes.slice 0 Health.recordSize.toNat) = mem at hslice hfill ⊢
  obtain ⟨hwrite, houtside⟩ := h.write (packetFor lba 1 healthBufferAddr) ⟨s.bios, mem⟩ (accepted_healthBuffer.sound lba)
    fun k hk => hbuffer _ ⟨by omega, by omega⟩
  rw [haddress, hbytes, hsame, hat, show (packetFor lba 1 healthBufferAddr).lba = lba from rfl] at hwrite
  simp only [hslice] at hwrite
  rw [biosBlockCommon_accepted i bootDrive _ lba accepted_healthBuffer, Stage2.healthWriteCopy, ← hwrite]
  generalize i 0x43 bootDrive (packetFor lba 1 healthBufferAddr) ⟨s.bios, mem⟩ = t at houtside
  obtain ⟨carry, s'⟩ := t
  have hkept : AgreeOn (fun x => ¬ Own x ∧ ¬ HealthBuffer x) s.mem s'.mem := fun x hx =>
    (hfill x hx).trans (houtside x hx.1)
  cases carry with
  | true => exact ⟨rfl, hkept⟩
  | false =>
    obtain ⟨hread, hbios, hverify⟩ := healthReadCopy_spec h hbuffer lba Stage2.zeroRecord s'
    simp only [Bool.not_false]
    rw [← hread]
    exact ⟨Prod.ext rfl hbios, fun x hx => (hkept x hx).trans (hverify x hx)⟩

end

/-! ### Runs of calls -/

/-- What stage 2 calls the thunk for. -/
inductive BlockCall where
  | read (lba : UInt64) (sectorCount buffer : UInt32)
  | healthRead (lba : UInt64) (record : HealthRecord)
  | healthWrite (lba : UInt64) (record : HealthRecord)

/-- What the caller has afterwards: what is in its buffer, its record, or whether the record was written. -/
inductive BlockAnswer where
  | read (data : Option (List UInt8))
  | healthRead (ok : Bool) (record : HealthRecord)
  | healthWritten (ok : Bool)
deriving DecidableEq

/-- The call, by the thunk. -/
def thunkCall {F : Type} (i : DiskBios F) (bootDrive : UInt8) : BlockCall → RealMode F → BlockAnswer × RealMode F
  | .read lba sectorCount buffer, s =>
    let (ok, s) := biosBlockReadBounced i bootDrive lba sectorCount buffer s
    (.read (if ok then some (s.mem.slice buffer.toNat (512 * sectorCount.toNat)) else none), s)
  | .healthRead lba record, s =>
    let ((ok, record), s) := healthReadCopy i bootDrive lba record s
    (.healthRead ok record, s)
  | .healthWrite lba record, s =>
    let (ok, s) := healthWriteCopy i bootDrive lba record s
    (.healthWritten ok, s)

/-- The call, by the drive that `Stage2` has. -/
def driveCall {D : Type} (drive : BiosDrive D) : BlockCall → D → BlockAnswer × D
  | .read lba sectorCount _, d =>
    (.read ((Stage2.biosBlockReadBounced drive d lba sectorCount).map fun data => data.slice 0 (512 * sectorCount.toNat)), d)
  | .healthRead lba record, d =>
    let (ok, record) := Stage2.healthReadCopy drive d lba record
    (.healthRead ok record, d)
  | .healthWrite lba record, d =>
    let (ok, d) := Stage2.healthWriteCopy drive d lba record
    (.healthWritten ok, d)

/-- The buffer of the call is in `Target`. -/
def BlockCall.Into (Target : Nat → Prop) : BlockCall → Prop
  | .read _ sectorCount buffer => buffer ≠ 0 ∧ buffer.toNat + 512 * sectorCount.toNat ≤ 2 ^ 32 ∧
      ∀ k < 512 * sectorCount.toNat, Target (buffer.toNat + k)
  | .healthRead _ _ => True
  | .healthWrite _ _ => True

section
variable {F : Type} {i : DiskBios F} {bootDrive : UInt8} {Own : Nat → Prop} {drive : BiosDrive F}
  (h : Serves i bootDrive Own drive) (hbounce : ∀ x, Bounce x → ¬ Own x) (hhealth : ∀ x, HealthBuffer x → ¬ Own x)
  {Target : Nat → Prop} (htarget : ∀ x, Target x → ¬ Own x ∧ ¬ Bounce x)
include h hbounce hhealth htarget

theorem thunkCall_spec {c : BlockCall} (hc : c.Into Target) (s : RealMode F) :
    (thunkCall i bootDrive c s).1 = (driveCall drive c s.bios).1 ∧
      (thunkCall i bootDrive c s).2.bios = (driveCall drive c s.bios).2 ∧
      AgreeOn (fun x => ¬ Own x ∧ ¬ Bounce x ∧ ¬ HealthBuffer x ∧ ¬ Target x) s.mem (thunkCall i bootDrive c s).2.mem := by
  cases c with
  | read lba sectorCount buffer =>
    obtain ⟨hnull, htop, hinto⟩ := hc
    have hin : ∀ x, buffer.toNat ≤ x → x < buffer.toNat + 512 * sectorCount.toNat → Target x := fun x h₁ h₂ => by
      obtain ⟨k, rfl⟩ := Nat.exists_eq_add_of_le h₁
      exact hinto k (by omega)
    obtain ⟨hok, hbios, hdata, houtside⟩ :=
      biosBlockReadBounced_spec h hbounce hnull htop (fun x h₁ h₂ => htarget x (hin x h₁ h₂)) lba s
    rw [thunkCall, driveCall]
    generalize biosBlockReadBounced i bootDrive lba sectorCount buffer s = t at hok hbios hdata houtside
    obtain ⟨ok, s'⟩ := t
    generalize Stage2.biosBlockReadBounced drive s.bios lba sectorCount = r at hok hdata
    refine ⟨congrArg BlockAnswer.read ?_, hbios, houtside.mono fun x hx => ⟨hx.1, hx.2.1, ?_⟩⟩
    · cases r with
      | none =>
        obtain rfl : ok = false := hok
        rfl
      | some data =>
        obtain rfl : ok = true := hok
        exact congrArg some (slice_of_window fun k hk => by rw [Nat.zero_add]; exact hdata data rfl k hk)
    · by_contra hx'
      exact hx.2.2.2 (hin x (by omega) (by omega))
  | healthRead lba record =>
    obtain ⟨hanswer, hbios, hkept⟩ := healthReadCopy_spec h hhealth lba record s
    rw [thunkCall, driveCall, ← hanswer]
    exact ⟨rfl, hbios, hkept.mono fun x hx => ⟨hx.1, hx.2.2.1⟩⟩
  | healthWrite lba record =>
    obtain ⟨hanswer, hkept⟩ := healthWriteCopy_spec h hhealth lba record s
    rw [thunkCall, driveCall, ← hanswer]
    exact ⟨rfl, rfl, hkept.mono fun x hx => ⟨hx.1, hx.2.2.1⟩⟩

/-- With a BIOS that serves a drive, and buffers that are not the BIOS's and apart from the bounce buffer: any calls,
in any order, are answered as the drive answers them, bytes and failures alike, and leave it as it leaves itself; of
the memory they change their buffers and the two of stage 2. -/
theorem block_calls_refine {calls : List BlockCall} (hcalls : ∀ c ∈ calls, c.Into Target) (s : RealMode F) :
    answers (thunkCall i bootDrive) calls s = answers (driveCall drive) calls s.bios ∧
      (runOps (thunkCall i bootDrive) calls s).bios = runOps (driveCall drive) calls s.bios ∧
      AgreeOn (fun x => ¬ Own x ∧ ¬ Bounce x ∧ ¬ HealthBuffer x ∧ ¬ Target x) s.mem
        (runOps (thunkCall i bootDrive) calls s).mem := by
  have hrefines : Refines (BlockCall.Into Target) (thunkCall i bootDrive) (driveCall drive) fun _ t d => t.bios = d ∧
      AgreeOn (fun x => ¬ Own x ∧ ¬ Bounce x ∧ ¬ HealthBuffer x ∧ ¬ Target x) s.mem t.mem := by
    refine ⟨?_, ?_⟩
    · rintro n c t d hc ⟨rfl, -⟩
      exact (thunkCall_spec h hbounce hhealth htarget hc t).1
    · rintro n c t d hc ⟨rfl, hmem⟩
      obtain ⟨-, hbios, hkept⟩ := thunkCall_spec h hbounce hhealth htarget hc t
      exact ⟨hbios, fun x hx => (hmem x hx).trans (hkept x hx)⟩
  exact hrefines.answers_eq (n := 0) hcalls ⟨rfl, fun _ _ => rfl⟩

end

/-- A BIOS for a drive. -/
def biosOf {D : Type} (drive : BiosDrive D) : DiskBios D := fun operation _ p s =>
  if operation = 0x42 then
    match drive.read s.bios p.lba p.count.toUInt32 with
    | none => (true, s)
    | some data => (false, ⟨s.bios, s.mem.write p.address (data.slice 0 p.bytes)⟩)
  else
    let (ok, d) := drive.write s.bios p.lba p.count.toUInt32 (bytesOf (s.mem.slice p.address p.bytes))
    (!ok, ⟨d, s.mem⟩)

theorem serves_biosOf {D : Type} (drive : BiosDrive D) (bootDrive : UInt8) (Own : Nat → Prop) :
    Serves (biosOf drive) bootDrive Own drive := by
  refine ⟨fun p s _ => ?_, fun p s _ _ => ?_⟩
  · simp only [biosOf, if_true]
    cases drive.read s.bios p.lba p.count.toUInt32 with
    | none => exact ⟨rfl, rfl, fun _ _ => rfl, nofun⟩
    | some data =>
      have hlen : (data.slice 0 p.bytes).length = p.bytes := Bytes.length_slice _ _ _
      refine ⟨rfl, rfl, fun x hx => ?_, fun bytes hbytes k hk _ => ?_⟩
      · rcases hx.2 with hx | hx
        · exact (Bytes.write_of_lt _ _ hx).symm
        · exact (Bytes.write_of_le _ _ (by omega)).symm
      · cases hbytes
        show s.mem.write p.address (data.slice 0 p.bytes) (p.address + k) = data k
        rw [Bytes.write_inside _ (by omega), List.getD_eq_getElem _ 0 (by omega)]
        simp only [Bytes.slice, List.getElem_map, List.getElem_range, Nat.zero_add]
  · simp only [biosOf, show ¬ (0x43 : UInt8) = 0x42 from by decide, if_false, Bool.not_not]
    exact ⟨trivial, fun _ _ => rfl⟩

/-- A record is read, another one is stored, and 100 sectors go to the staging window. -/
def someCalls : List BlockCall :=
  [.healthRead Health.healthLbaA Stage2.zeroRecord, .healthWrite Health.healthLbaB Health.healthDefault,
    .read 2048 100 0x1000000]

theorem block_calls_refine_fresh :
    answers (thunkCall (biosOf Stage2.plainDrive) 0x80) someCalls ⟨Stage2.freshDisk, fun _ => 0⟩ =
        answers (driveCall Stage2.plainDrive) someCalls Stage2.freshDisk ∧
      (runOps (thunkCall (biosOf Stage2.plainDrive) 0x80) someCalls ⟨Stage2.freshDisk, fun _ => 0⟩).bios =
        runOps (driveCall Stage2.plainDrive) someCalls Stage2.freshDisk ∧
      AgreeOn (fun x => ¬ x < 0x7000 ∧ ¬ Bounce x ∧ ¬ HealthBuffer x ∧ ¬ 0x1000000 ≤ x) (fun _ => 0)
        (runOps (thunkCall (biosOf Stage2.plainDrive) 0x80) someCalls ⟨Stage2.freshDisk, fun _ => 0⟩).mem := by
  have habove {a x : Nat} (ha : 0x7000 ≤ a) (hx : a ≤ x) : ¬ x < 0x7000 := Nat.not_lt.2 (Nat.le_trans ha hx)
  refine block_calls_refine (serves_biosOf Stage2.plainDrive 0x80 fun x => x < 0x7000) (fun x hx => habove (by decide) hx.1)
    (fun x hx => habove (by decide) hx.1) (fun x hx => ⟨habove (by decide) hx, fun hb => ?_⟩) (fun c hc => ?_) _
  · exact absurd hb.2 (Nat.not_lt.2 (Nat.le_trans (by decide) hx))
  · rcases List.mem_cons.1 hc with rfl | hc
    · trivial
    rcases List.mem_cons.1 hc with rfl | hc
    · trivial
    obtain rfl := List.mem_singleton.1 hc
    exact ⟨by decide, by decide, fun k _ => Nat.le_add_right _ k⟩

end JoshBios.Int13
