import JoshBios.CrcSpec
import JoshBios.PartitionTable

/-! # GPTs

`parse_gpt` reads the entry array twice: once for its CRC, in chunks of a sector, and once entry by entry. Both times the
bytes are those of the sectors from the start of the array on, up to the end of its last entry (`entryArray`), so what the
search looks at is what the CRC vouches for. -/

namespace JoshBios.Partition

/-! ### The header -/

/-- The fields of a header that the search goes by. -/
def gptHeader (header : Bytes) : GptHeader where
  firstUsable := le64 header 40
  lastUsable := le64 header 48
  entriesLba := le64 header 72
  entryCount := le32 header 80
  entrySize := le32 header 84

/-- The header without its own CRC. -/
def withoutCrc (header : Bytes) : Bytes := fun i => if 16 ≤ i ∧ i < 20 then 0 else header i

structure HeaderOk (device : BlockDevice) (header : Bytes) : Prop where
  signature : header.slice 0 8 = gptSignature
  size : 92 ≤ (le32 header 12).toNat ∧ (le32 header 12).toNat ≤ 512
  current : le64 header 24 = 1
  usable : le64 header 40 ≤ le64 header 48 ∧ le64 header 48 < device.sectorCount
  count : 1 ≤ (gptHeader header).entryCount.toNat ∧ (gptHeader header).entryCount.toNat ≤ 4096
  entrySize : (gptHeader header).entrySize.toNat ∈ [128, 256, 512]
  crc : crc32 ((withoutCrc header).slice 0 (le32 header 12).toNat) = le32 header 16

namespace GptHeader
variable (h : GptHeader)

/-- The size of the entry array in bytes. -/
def arrayBytes : Nat := h.entryCount.toNat * h.entrySize.toNat

/-- The number of sectors that the array takes up. -/
def arraySectors : Nat := (h.arrayBytes + 511) / 512

/-- The entry array in its sectors. -/
def entryArray (sectors : List Bytes) : List UInt8 := (sectorBytes sectors).take h.arrayBytes

/-- Entry `i` of the array. -/
def entry (array : List UInt8) (i : Nat) : Bytes := bytesOf (array.drop (i * h.entrySize.toNat))

/-- An entry with a type, whose range is in order, and the partition that it describes. -/
structure Describes (e : Bytes) (p : Partition) : Prop where
  used : bytesAllZero e 0 16 = false
  first : h.firstUsable ≤ le64 e 32
  order : le64 e 32 ≤ le64 e 40
  last : le64 e 40 ≤ h.lastUsable
  partition : p = { scheme := .gpt, firstLba := le64 e 32, sectorCount := le64 e 40 - le64 e 32 + 1, mbrType := 0
                    gptTypeGuid := e.slice 0 16, gptUniqueGuid := e.slice 16 16 }

end GptHeader

theorem entrySize_iff {size : UInt32} : ¬ (size < 128 ∨ size > 512 ∨ 512 % size ≠ 0) ↔ size.toNat ∈ [128, 256, 512] := by
  have hmod : (512 % size = 0) ↔ 512 % size.toNat = 0 := by
    rw [← UInt32.toNat_inj, UInt32.toNat_mod]
    rfl
  rw [not_or, not_or, UInt32.not_lt, gt_iff_lt, UInt32.not_lt, not_not, hmod, UInt32.le_iff_toNat_le, UInt32.le_iff_toNat_le]
  simp only [List.mem_cons, List.not_mem_nil, or_false]
  constructor
  · rintro ⟨hlo, hhi, hdvd⟩
    obtain ⟨q, hq⟩ := Nat.dvd_of_mod_eq_zero hdvd
    have hlo' : 128 ≤ size.toNat := hlo
    have hq4 : q ≤ 4 := by
      by_contra hgt
      have := Nat.mul_le_mul hlo' (Nat.succ_le_of_lt (Nat.not_le.1 hgt))
      omega
    interval_cases q <;> omega
  · rintro (h | h | h) <;> rw [h] <;> decide

/-! ### The sectors of the array -/

theorem sectorsAt_length {device : BlockDevice} {n : Nat} {lba : UInt64} {sectors : List Bytes}
    (h : sectorsAt device n lba = some sectors) : sectors.length = n := by
  induction n generalizing lba sectors with
  | zero => cases h; rfl
  | succ n ih =>
    cases hread : device.blockRead lba 1 with
    | none => rw [sectorsAt, hread] at h; cases h
    | some sector =>
      rw [sectorsAt_succ hread, Option.map_eq_some_iff] at h
      obtain ⟨rest, hrest, rfl⟩ := h
      rw [List.length_cons, ih hrest]

theorem blockRead_of_sectorsAt {device : BlockDevice} {n : Nat} {lba : UInt64} {sectors : List Bytes}
    (h : sectorsAt device n lba = some sectors) {k : Nat} (hk : k < n) :
    device.blockRead (lba + UInt64.ofNat k) 1 = sectors[k]? := by
  induction n generalizing lba sectors k with
  | zero => omega
  | succ n ih =>
    cases hread : device.blockRead lba 1 with
    | none => rw [sectorsAt, hread] at h; cases h
    | some sector =>
      rw [sectorsAt_succ hread, Option.map_eq_some_iff] at h
      obtain ⟨rest, hrest, rfl⟩ := h
      cases k with
      | zero => rw [show lba + UInt64.ofNat 0 = lba from UInt64.add_zero lba, hread]; rfl
      | succ k =>
        rw [List.getElem?_cons_succ, ← ih hrest (by omega), UInt64.add_assoc, UInt64.ofNat_add k 1, UInt64.add_comm 1]
        rfl

theorem sectorBytes_getD {sectors : List Bytes} {k : Nat} {sector : Bytes} (h : sectors[k]? = some sector) {r : Nat}
    (hr : r < 512) : (sectorBytes sectors).getD (512 * k + r) 0 = sector r := by
  induction sectors generalizing k with
  | nil => cases h
  | cons s sectors ih =>
    rw [sectorBytes_cons]
    have hlen : (s.slice 0 sectorSize).length = 512 := Bytes.length_slice _ _ _
    cases k with
    | zero =>
      cases h
      rw [Nat.mul_zero, Nat.zero_add, List.getD_append _ _ _ _ (hlen.symm ▸ hr), List.getD_eq_getElem _ _ (hlen.symm ▸ hr)]
      simp only [Bytes.slice, List.getElem_map, List.getElem_range, Nat.zero_add]
    | succ k =>
      rw [List.getD_append_right _ _ _ _ (by omega), hlen, show 512 * (k + 1) + r - 512 = 512 * k + r by omega]
      exact ih h

/-- Where an entry is: entries do not straddle sectors. -/
theorem entry_place {size i : Nat} (h : size ∈ [128, 256, 512]) :
    512 * (i / (512 / size)) + i % (512 / size) * size = i * size ∧ i % (512 / size) * size + size ≤ 512 := by
  simp only [List.mem_cons, List.not_mem_nil, or_false] at h
  rcases h with rfl | rfl | rfl <;> omega

/-! ### The entries in their sectors -/

namespace GptHeader
variable {h : GptHeader}

theorem size_ge (hsize : h.entrySize.toNat ∈ [128, 256, 512]) : 48 ≤ h.entrySize.toNat := by
  simp only [List.mem_cons, List.not_mem_nil, or_false] at hsize
  omega

theorem index_place (hsize : h.entrySize.toNat ∈ [128, 256, 512]) (index : UInt32) :
    (index / (512 / h.entrySize)).toUInt64 = UInt64.ofNat (index.toNat / (512 / h.entrySize.toNat)) ∧
    (index % (512 / h.entrySize) * h.entrySize).toNat =
      index.toNat % (512 / h.entrySize.toNat) * h.entrySize.toNat := by
  have hper : (512 / h.entrySize).toNat = 512 / h.entrySize.toNat := UInt32.toNat_div _ _
  have hplace := (entry_place (i := index.toNat) hsize).2
  constructor
  · rw [← hper, ← UInt32.toNat_div]
    exact (UInt64.ofNat_uInt32ToNat _).symm
  · rw [UInt32.toNat_mul, UInt32.toNat_mod, hper, Nat.mod_eq_of_lt (by omega)]

theorem index_succ {n : Nat} {index : UInt32} (hn : index.toNat + (n + 1) = h.entryCount.toNat) :
    (index + 1).toNat = index.toNat + 1 := by
  have := h.entryCount.toNat_lt
  rw [UInt32.toNat_add]
  exact Nat.mod_eq_of_lt (by change index.toNat + 1 < 2 ^ 32; omega)

theorem sector_lt (hsize : h.entrySize.toNat ∈ [128, 256, 512]) {i : Nat} (hi : i < h.entryCount.toNat) :
    i / (512 / h.entrySize.toNat) < h.arraySectors := by
  have hplace := entry_place (i := i) hsize
  have hend : i * h.entrySize.toNat + h.entrySize.toNat ≤ h.arrayBytes := by
    rw [arrayBytes, ← Nat.succ_mul]
    exact Nat.mul_le_mul_right _ hi
  rw [arraySectors]
  simp only [List.mem_cons, List.not_mem_nil, or_false] at hsize
  omega

theorem entry_eq (hsize : h.entrySize.toNat ∈ [128, 256, 512]) {sectors : List Bytes} {i : Nat}
    (hi : i < h.entryCount.toNat) {sector : Bytes} (hs : sectors[i / (512 / h.entrySize.toNat)]? = some sector) {k : Nat}
    (hk : k < h.entrySize.toNat) :
    sector (i % (512 / h.entrySize.toNat) * h.entrySize.toNat + k) = h.entry (h.entryArray sectors) i k := by
  obtain ⟨hplace, hinside⟩ := entry_place (i := i) hsize
  have hend : i * h.entrySize.toNat + k < h.arrayBytes := by
    have := Nat.mul_le_mul_right h.entrySize.toNat (Nat.succ_le_of_lt hi)
    rw [Nat.succ_mul] at this
    exact Nat.lt_of_lt_of_le (Nat.add_lt_add_left hk _) this
  rw [← sectorBytes_getD hs (by omega), ← Nat.add_assoc, hplace, entry, entryArray, bytesOf, List.getD_eq_getElem?_getD,
    List.getD_eq_getElem?_getD, List.getElem?_drop, List.getElem?_take, if_pos hend]

theorem describes_iff {e : Bytes} {p : Partition} (hused : bytesAllZero e 0 16 = false) : h.Describes e p ↔
    ¬ (le64 e 32 > le64 e 40 ∨ le64 e 32 < h.firstUsable ∨ le64 e 40 > h.lastUsable) ∧
      p = { scheme := .gpt, firstLba := le64 e 32, sectorCount := le64 e 40 - le64 e 32 + 1, mbrType := 0
            gptTypeGuid := e.slice 0 16, gptUniqueGuid := e.slice 16 16 } := by
  rw [not_or, not_or, gt_iff_lt, gt_iff_lt, UInt64.not_lt, UInt64.not_lt, UInt64.not_lt]
  constructor
  · intro hd
    exact ⟨⟨hd.order, hd.first, hd.last⟩, hd.partition⟩
  · rintro ⟨⟨horder, hfirst, hlast⟩, hp⟩
    exact ⟨hused, hfirst, horder, hlast, hp⟩

end GptHeader

/-! ### The search -/

section
variable {device : BlockDevice} {h : GptHeader} {sectors : List Bytes}

/-- One step of the search, in terms of the array. -/
theorem findEntry_succ (hsize : h.entrySize.toNat ∈ [128, 256, 512])
    (hread : sectorsAt device h.arraySectors h.entriesLba = some sectors) (n : Nat) {index : UInt32}
    (hi : index.toNat < h.entryCount.toNat) {e : Bytes} (he : h.entry (h.entryArray sectors) index.toNat = e) :
    findEntry device h (n + 1) index =
      if bytesAllZero e 0 16 then findEntry device h n (index + 1)
      else if le64 e 32 > le64 e 40 || le64 e 32 < h.firstUsable || le64 e 40 > h.lastUsable then .error .corrupt
      else .ok
        { scheme := .gpt, firstLba := le64 e 32, sectorCount := le64 e 40 - le64 e 32 + 1, mbrType := 0
          gptTypeGuid := e.slice 0 16, gptUniqueGuid := e.slice 16 16 } := by
  obtain ⟨hlba, hoffset⟩ := h.index_place hsize index
  have hlt := h.sector_lt hsize hi
  have hget := blockRead_of_sectorsAt hread hlt
  obtain ⟨sector, hs⟩ : ∃ sector, sectors[index.toNat / (512 / h.entrySize.toNat)]? = some sector :=
    ⟨_, List.getElem?_eq_getElem (by rwa [sectorsAt_length hread])⟩
  have hbyte : ∀ k < 48, sector ((index % (512 / h.entrySize) * h.entrySize).toNat + k) = e k := fun k hk => by
    rw [hoffset, ← he]
    exact h.entry_eq hsize hi hs (Nat.lt_of_lt_of_le hk (h.size_ge hsize))
  have hslice : ∀ o n, o + n ≤ 48 →
      sector.slice ((index % (512 / h.entrySize) * h.entrySize).toNat + o) n = e.slice o n := fun o n hle =>
    slice_of_window fun k hk => by rw [Nat.add_assoc, hbyte _ (by omega)]
  have hle64 : ∀ o, o + 8 ≤ 48 →
      le64 sector ((index % (512 / h.entrySize) * h.entrySize).toNat + o) = le64 e o := fun o hle =>
    congrArg UInt64.ofNat (leNat_of_window fun k hk => by rw [Nat.add_assoc, hbyte _ (by omega)])
  have hfree := hslice 0 16 (by decide)
  rw [Nat.add_zero] at hfree
  rw [findEntry, hlba, hget, hs]
  simp only [bytesAllZero, hfree, hslice 16 16 (by decide), hle64 32 (by decide), hle64 40 (by decide)]
  rfl

theorem findEntry_ok_iff (hsize : h.entrySize.toNat ∈ [128, 256, 512])
    (hread : sectorsAt device h.arraySectors h.entriesLba = some sectors) {n : Nat} {index : UInt32}
    (hn : index.toNat + n = h.entryCount.toNat) {p : Partition} :
    findEntry device h n index = .ok p ↔ ∃ i, index.toNat ≤ i ∧ i < h.entryCount.toNat ∧
      (∀ j, index.toNat ≤ j → j < i → bytesAllZero (h.entry (h.entryArray sectors) j) 0 16 = true) ∧
      h.Describes (h.entry (h.entryArray sectors) i) p := by
  induction n generalizing index with
  | zero =>
    constructor
    · rintro ⟨⟩
    · rintro ⟨i, hle, hlt, -⟩
      omega
  | succ n ih =>
    have hnext := h.index_succ hn
    rw [findEntry_succ hsize hread n (by omega) rfl]
    cases hfree : bytesAllZero (h.entry (h.entryArray sectors) index.toNat) 0 16 with
    | true =>
      rw [if_pos rfl, ih (by omega), hnext]
      constructor
      · rintro ⟨i, hle, hlt, hbefore, hd⟩
        refine ⟨i, by omega, hlt, fun j hj hji => ?_, hd⟩
        rcases Nat.eq_or_lt_of_le hj with rfl | hgt
        · exact hfree
        · exact hbefore j hgt hji
      · rintro ⟨i, hle, hlt, hbefore, hd⟩
        -- a free entry describes nothing
        have hne : index.toNat ≠ i := by
          rintro rfl
          have := hd.used
          rw [hfree] at this
          cases this
        exact ⟨i, by omega, hlt, fun j hj hji => hbefore j (by omega) hji, hd⟩
    | false =>
      rw [if_neg Bool.false_ne_true, ite_error_eq_ok, Except.ok.injEq, eq_comm (b := p), Bool.or_eq_true, Bool.or_eq_true,
        decide_eq_true_eq, decide_eq_true_eq, decide_eq_true_eq, or_assoc, ← h.describes_iff hfree]
      constructor
      · intro hd
        exact ⟨index.toNat, Nat.le_refl _, by omega, fun j hj hji => absurd hji (Nat.not_lt.2 hj), hd⟩
      · rintro ⟨i, hle, hlt, hbefore, hd⟩
        rcases Nat.eq_or_lt_of_le hle with rfl | hgt
        · exact hd
        · have := hbefore index.toNat (Nat.le_refl _) hgt
          rw [hfree] at this
          cases this

/-- The bytes that the search looks at, by sector and place: the type of each entry up to the first used one, and of that
one what goes into the partition. -/
def entryBytesRead (device : BlockDevice) (h : GptHeader) : (n : Nat) → (index : UInt32) → List (UInt64 × Nat)
  | 0, _ => []
  | n + 1, index =>
    let perSector := 512 / h.entrySize
    let lba := h.entriesLba + (index / perSector).toUInt64
    match device.blockRead lba 1 with
    | none => []
    | some sector =>
      let entry := (index % perSector * h.entrySize).toNat
      if bytesAllZero sector entry 16 then
        ((List.range 16).map fun k => (lba, entry + k)) ++ entryBytesRead device h n (index + 1)
      else (List.range 48).map fun k => (lba, entry + k)

/-- Byte `x` of a sector is one of the array's. -/
def InArray (device : BlockDevice) (h : GptHeader) (sectors : List Bytes) (x : UInt64 × Nat) : Prop :=
  ∃ k < h.arrayBytes, x = (h.entriesLba + UInt64.ofNat (k / 512), k % 512) ∧
    ∃ sector, device.blockRead x.1 1 = some sector ∧ (h.entryArray sectors)[k]? = some (sector x.2)

theorem length_sectorBytes (sectors : List Bytes) : (sectorBytes sectors).length = 512 * sectors.length := by
  induction sectors with
  | nil => rfl
  | cons s sectors ih =>
    have hlen : (s.slice 0 sectorSize).length = 512 := Bytes.length_slice _ _ _
    rw [sectorBytes_cons, List.length_append, ih, hlen, List.length_cons]
    omega

theorem inArray_place (hread : sectorsAt device h.arraySectors h.entriesLba = some sectors) {k : Nat}
    (hk : k < h.arrayBytes) : InArray device h sectors (h.entriesLba + UInt64.ofNat (k / 512), k % 512) := by
  have hlen := sectorsAt_length hread
  have hsec : k / 512 < h.arraySectors := by rw [GptHeader.arraySectors]; omega
  have hsome : sectors[k / 512]? = some (sectors.get ⟨k / 512, hlen ▸ hsec⟩) := List.getElem?_eq_getElem _
  refine ⟨k, hk, rfl, _, (blockRead_of_sectorsAt hread hsec).trans hsome, ?_⟩
  have hin : k < (sectorBytes sectors).length := by rw [length_sectorBytes]; omega
  have hbyte := sectorBytes_getD hsome (Nat.mod_lt k (by decide : 0 < 512))
  rw [Nat.div_add_mod, List.getD_eq_getElem _ _ hin] at hbyte
  rw [GptHeader.entryArray, List.getElem?_take, if_pos hk, List.getElem?_eq_getElem hin, hbyte]

theorem entryBytesRead_inArray (hsize : h.entrySize.toNat ∈ [128, 256, 512])
    (hread : sectorsAt device h.arraySectors h.entriesLba = some sectors) {n : Nat} {index : UInt32}
    (hn : index.toNat + n = h.entryCount.toNat) : ∀ x ∈ entryBytesRead device h n index, InArray device h sectors x := by
  induction n generalizing index with
  | zero => rintro x ⟨⟩
  | succ n ih =>
    obtain ⟨hlba, hoffset⟩ := h.index_place hsize index
    obtain ⟨hplace, hinside⟩ := entry_place (i := index.toNat) hsize
    have h48 := h.size_ge hsize
    have hend : index.toNat * h.entrySize.toNat + h.entrySize.toNat ≤ h.arrayBytes := by
      rw [GptHeader.arrayBytes, ← Nat.succ_mul]
      exact Nat.mul_le_mul_right _ (by omega)
    have hhere : ∀ k < 48, InArray device h sectors (h.entriesLba + (index / (512 / h.entrySize)).toUInt64,
        (index % (512 / h.entrySize) * h.entrySize).toNat + k) := fun k hk => by
      have hin := inArray_place hread (k := index.toNat * h.entrySize.toNat + k) (by omega)
      have hlt : index.toNat % (512 / h.entrySize.toNat) * h.entrySize.toNat + k < 512 := by omega
      rw [← hplace, Nat.add_assoc, Nat.mul_add_div (by decide), Nat.mul_add_mod, Nat.div_eq_of_lt hlt, Nat.add_zero,
        Nat.mod_eq_of_lt hlt] at hin
      rwa [hlba, hoffset]
    have hnext := h.index_succ hn
    intro x hx
    rw [entryBytesRead] at hx
    cases hsector : device.blockRead (h.entriesLba + (index / (512 / h.entrySize)).toUInt64) 1 with
    | none => simp only [hsector, List.not_mem_nil] at hx
    | some sector =>
      simp only [hsector] at hx
      split at hx
      · rcases List.mem_append.1 hx with hx | hx
        · obtain ⟨k, hk, rfl⟩ := List.mem_map.1 hx
          exact hhere k (by have := List.mem_range.1 hk; omega)
        · exact ih (by omega) x hx
      · obtain ⟨k, hk, rfl⟩ := List.mem_map.1 hx
        exact hhere k (List.mem_range.1 hk)

end

/-! ### Accepted GPTs -/

theorem GptHeader.array_toNat {h : GptHeader} (hcount : h.entryCount.toNat ≤ 4096)
    (hsize : h.entrySize.toNat ∈ [128, 256, 512]) :
    (h.entryCount.toUInt64 * h.entrySize.toUInt64).toNat = h.arrayBytes ∧
    ((h.entryCount.toUInt64 * h.entrySize.toUInt64 + 512 - 1) / 512).toNat = h.arraySectors := by
  have hle : h.arrayBytes ≤ 4096 * 512 := by
    refine Nat.mul_le_mul hcount ?_
    simp only [List.mem_cons, List.not_mem_nil, or_false] at hsize
    omega
  have hprod : (h.entryCount.toUInt64 * h.entrySize.toUInt64).toNat = h.arrayBytes := by
    rw [UInt64.toNat_mul, UInt32.toNat_toUInt64, UInt32.toNat_toUInt64]
    exact Nat.mod_eq_of_lt (by change h.arrayBytes < 2 ^ 64; omega)
  refine ⟨hprod, ?_⟩
  have hadd : (h.entryCount.toUInt64 * h.entrySize.toUInt64 + 512).toNat = h.arrayBytes + 512 := by
    rw [UInt64.toNat_add, hprod]
    exact Nat.mod_eq_of_lt (by change h.arrayBytes + 512 < 2 ^ 64; omega)
  have hone : (1 : UInt64) ≤ h.entryCount.toUInt64 * h.entrySize.toUInt64 + 512 := by
    rw [UInt64.le_iff_toNat_le, hadd]
    change 1 ≤ _
    omega
  rw [UInt64.toNat_div, UInt64.toNat_sub_of_le _ _ hone, hadd]
  rfl

/-- The CRC that the chunks of the sectors add up to is the array's. -/
theorem GptHeader.entriesCrc_eq {h : GptHeader} (hcount : h.entryCount.toNat ≤ 4096)
    (hsize : h.entrySize.toNat ∈ [128, 256, 512]) (device : BlockDevice) :
    entriesCrc device ((h.entryCount.toUInt64 * h.entrySize.toUInt64 + 512 - 1) / 512).toNat h.entriesLba
      (h.entryCount.toUInt64 * h.entrySize.toUInt64) 0 =
        (sectorsAt device h.arraySectors h.entriesLba).map fun sectors => crc32 (h.entryArray sectors) := by
  obtain ⟨hbytes, hsectors⟩ := array_toNat hcount hsize
  have hcrc := entriesCrc_crc32 device h.arraySectors h.entriesLba (h.entryCount.toUInt64 * h.entrySize.toUInt64) []
  rw [hbytes] at hcrc
  rw [hsectors]
  exact hcrc

theorem headerChecks_iff {device : BlockDevice} {header : Bytes} : HeaderOk device header ↔
    ¬ header.slice 0 8 ≠ gptSignature ∧ ¬ (le32 header 12 < gptHeaderMinSize ∨ le32 header 12 > 512) ∧
    ¬ (le64 header 24 ≠ gptHeaderLba ∨ le64 header 40 > le64 header 48 ∨ le64 header 48 ≥ device.sectorCount) ∧
    ¬ ((gptHeader header).entryCount = 0 ∨ (gptHeader header).entryCount > 4096 ∨ (gptHeader header).entrySize < 128 ∨
      (gptHeader header).entrySize > 512 ∨ 512 % (gptHeader header).entrySize ≠ 0) ∧
    ¬ crc32Update 0 (withoutCrc header) (le32 header 12).toNat ≠ le32 header 16 := by
  have hsize : ¬ (le32 header 12 < gptHeaderMinSize ∨ le32 header 12 > 512) ↔
      92 ≤ (le32 header 12).toNat ∧ (le32 header 12).toNat ≤ 512 := by
    rw [not_or, UInt32.not_lt, gt_iff_lt, UInt32.not_lt, UInt32.le_iff_toNat_le, UInt32.le_iff_toNat_le]
    rfl
  have husable : ¬ (le64 header 24 ≠ gptHeaderLba ∨ le64 header 40 > le64 header 48 ∨
      le64 header 48 ≥ device.sectorCount) ↔
      le64 header 24 = 1 ∧ le64 header 40 ≤ le64 header 48 ∧ le64 header 48 < device.sectorCount := by
    rw [not_or, not_or, not_not, gt_iff_lt, UInt64.not_lt, ge_iff_le, UInt64.not_le]
    rfl
  have hcount : ¬ ((gptHeader header).entryCount = 0 ∨ (gptHeader header).entryCount > 4096 ∨
      (gptHeader header).entrySize < 128 ∨ (gptHeader header).entrySize > 512 ∨ 512 % (gptHeader header).entrySize ≠ 0) ↔
      (1 ≤ (gptHeader header).entryCount.toNat ∧ (gptHeader header).entryCount.toNat ≤ 4096) ∧
        (gptHeader header).entrySize.toNat ∈ [128, 256, 512] := by
    rw [not_or, not_or, entrySize_iff, gt_iff_lt, UInt32.not_lt, UInt32.le_iff_toNat_le, ← UInt32.toNat_inj, ← and_assoc,
      Nat.one_le_iff_ne_zero]
    rfl
  rw [crc32Update_zero, hsize, husable, hcount, not_not, not_not]
  constructor
  · intro h
    exact ⟨h.signature, h.size, ⟨h.current, h.usable⟩, ⟨h.count, h.entrySize⟩, h.crc⟩
  · rintro ⟨hsig, hlen, ⟨hcur, huse⟩, ⟨hcnt, hentry⟩, hcrc⟩
    exact ⟨hsig, hlen, hcur, huse, hcnt, hentry, hcrc⟩

/-- A GPT in order, of which the first used entry describes a partition. -/
structure GoodGpt (device : BlockDevice) (header : Bytes) (sectors : List Bytes) (p : Partition) : Prop where
  headerRead : device.blockRead 1 1 = some header
  headerOk : HeaderOk device header
  inside : (gptHeader header).entriesLba.toNat + (gptHeader header).arraySectors ≤ device.sectorCount.toNat
  arrayRead : sectorsAt device (gptHeader header).arraySectors (gptHeader header).entriesLba = some sectors
  crc : crc32 ((gptHeader header).entryArray sectors) = le32 header 88
  first : ∃ i < (gptHeader header).entryCount.toNat,
    (∀ j < i, bytesAllZero ((gptHeader header).entry ((gptHeader header).entryArray sectors) j) 0 16 = true) ∧
    (gptHeader header).Describes ((gptHeader header).entry ((gptHeader header).entryArray sectors) i) p

theorem parseGpt_eq_ok {device : BlockDevice} {p : Partition} :
    parseGpt device = .ok p ↔ ∃ header sectors, GoodGpt device header sectors p := by
  cases hheader : device.blockRead 1 1 with
  | none =>
    rw [parseGpt, show device.blockRead gptHeaderLba 1 = none from hheader]
    constructor
    · rintro ⟨⟩
    · rintro ⟨_, _, hgood⟩
      cases hheader.symm.trans hgood.headerRead
  | some header =>
    rw [parseGpt, show device.blockRead gptHeaderLba 1 = some header from hheader]
    simp only [ite_error_eq_ok, Bool.or_eq_true, decide_eq_true_eq, or_assoc, Bool.not_eq_true', Bool.not_eq_false]
    have hentriesCrc (hok : HeaderOk device header) :
        entriesCrc device (((le32 header 80).toUInt64 * (le32 header 84).toUInt64 + 512 - 1) / 512).toNat (le64 header 72)
          ((le32 header 80).toUInt64 * (le32 header 84).toUInt64) 0 =
            (sectorsAt device (gptHeader header).arraySectors (gptHeader header).entriesLba).map
              fun sectors => crc32 ((gptHeader header).entryArray sectors) :=
      (gptHeader header).entriesCrc_eq hok.count.2 hok.entrySize device
    constructor
    · rintro ⟨hsig, hlen, huse, hcount, hheaderCrc, hrange, hentries⟩
      have hok : HeaderOk device header := headerChecks_iff.2 ⟨hsig, hlen, huse, hcount, hheaderCrc⟩
      rw [hentriesCrc hok] at hentries
      cases hread : sectorsAt device (gptHeader header).arraySectors (gptHeader header).entriesLba with
      | none => rw [hread] at hentries; cases hentries
      | some sectors =>
        rw [hread] at hentries
        obtain ⟨hcrc, hfind⟩ := ite_error_eq_ok.1 hentries
        obtain ⟨i, -, hi, hfree, hd⟩ := (findEntry_ok_iff hok.entrySize hread (Nat.zero_add _)).1 hfind
        refine ⟨header, sectors, hheader, hok, ?_, hread, not_not.1 hcrc, i, hi, fun j hj => hfree j (Nat.zero_le _) hj, hd⟩
        rw [← (GptHeader.array_toNat hok.count.2 hok.entrySize).2]
        exact (rangeValid_iff.1 hrange).2
    · rintro ⟨header', sectors, hsame, hok, hrange, hread, hcrc, i, hi, hfree, hd⟩
      cases hheader.symm.trans hsame
      obtain ⟨hsig, hlen, huse, hcount, hheaderCrc⟩ := headerChecks_iff.1 hok
      have hfind : findEntry device (gptHeader header) (gptHeader header).entryCount.toNat 0 = .ok p :=
        (findEntry_ok_iff hok.entrySize hread (Nat.zero_add _)).2 ⟨i, Nat.zero_le _, hi, fun j _ hj => hfree j hj, hd⟩
      have hsectors := (GptHeader.array_toNat hok.count.2 hok.entrySize).2
      have hpos : 0 < (gptHeader header).arraySectors :=
        Nat.lt_of_le_of_lt (Nat.zero_le _) (GptHeader.sector_lt hok.entrySize hi)
      refine ⟨hsig, hlen, huse, hcount, hheaderCrc, rangeValid_iff.2 ⟨?_, ?_⟩, ?_⟩
      · exact toNat_pos.1 (Nat.lt_of_lt_of_eq hpos hsectors.symm)
      · rw [← hsectors] at hrange
        exact hrange
      · rw [hentriesCrc hok, hread]
        exact ite_error_eq_ok.2 ⟨not_not.2 hcrc, hfind⟩

/-- `parse_gpt` accepts a GPT iff its header and its entry array are in order and the first used entry describes a
partition, which is the result; and the search looks only at bytes that the CRC of the array vouches for. -/
theorem parseGpt_ok_iff (device : BlockDevice) (p : Partition) :
    (parseGpt device = .ok p ↔ ∃ header sectors, GoodGpt device header sectors p) ∧
    ∀ header sectors, HeaderOk device header →
      sectorsAt device (gptHeader header).arraySectors (gptHeader header).entriesLba = some sectors →
      ∀ x ∈ entryBytesRead device (gptHeader header) (gptHeader header).entryCount.toNat 0,
        InArray device (gptHeader header) sectors x :=
  ⟨parseGpt_eq_ok, fun _ _ hok hread => entryBytesRead_inArray hok.entrySize hread (Nat.zero_add _)⟩

end JoshBios.Partition
