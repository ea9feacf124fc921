import JoshBios.UefiMain

/-! # The memory map of one attempt

`capture_map` stores the translation of the descriptors that the firmware has put in the buffer (`captureLoop_eq`), and
their number. It replaces the map of an earlier attempt, or does not succeed (`captureMap_spec`); only if the descriptors
are too short does it report success and leave the map as it is (`captureMap_short`). -/

namespace JoshBios.Uefi

variable {F : Type}

/-! ### What the kernel reads -/

def entryIn (m : Bytes) (a : Nat) : MemoryMapEntry where
  base := le64 m a
  length := le64 m (a + 8)
  type := le32 m (a + 16)
  flags := le32 m (a + 20)

/-- The entries behind the boot information, as many as it says. -/
def memoryMapAt (m : Bytes) (info : UInt64) : List MemoryMapEntry :=
  (List.range (le32 m (info.toNat + entriesOffset)).toNat).map fun n => entryIn m (entryAddress info n)

/-- All descriptors of an answer. -/
def MapAnswer.descriptors (a : MapAnswer) : List Descriptor :=
  (List.range (a.size.toNat / a.descriptorSize.toNat)).map fun i => descriptorAt a.data (i * a.descriptorSize.toNat)

/-- Descriptors without pages are dropped. -/
def translation (ds : List Descriptor) : List MemoryMapEntry := (ds.filter (·.numberOfPages ≠ 0)).map Descriptor.entry

theorem translation_cons (d : Descriptor) (ds : List Descriptor) :
    translation (d :: ds) = if d.numberOfPages = 0 then translation ds else d.entry :: translation ds := by
  rw [translation, List.filter_cons]
  by_cases h : d.numberOfPages = 0
  · rw [if_pos h, if_neg (by simp [h])]
    rfl
  · rw [if_neg h, if_pos (by simp [h])]
    rfl

/-- The kernel's memory map is the one of the answer. -/
structure HandsOver (a : MapAnswer) (m : Bytes) (info : UInt64) : Prop where
  map : memoryMapAt m info = translation a.descriptors
  bound : (translation a.descriptors).length ≤ maxMemoryEntries

theorem MemoryMapEntry.length_bytes (e : MemoryMapEntry) : e.bytes.length = Stage2.memoryMapEntrySize := length_packBytes _

theorem entryIn_of_window {m m' : Bytes} {a a' : Nat} (h : ∀ k < Stage2.memoryMapEntrySize, m (a + k) = m' (a' + k)) :
    entryIn m a = entryIn m' a' := by
  have hfield (o n : Nat) (ho : o + n ≤ 24) : leNat m (a + o) n = leNat m' (a' + o) n :=
    leNat_of_window fun k hk => by rw [Nat.add_assoc, Nat.add_assoc, h _ (by rw [Stage2.memoryMapEntrySize]; omega)]
  simp only [entryIn, le64, le32]
  rw [hfield 8 8 (by decide), hfield 16 4 (by decide), hfield 20 4 (by decide), show leNat m a 8 = leNat m' a' 8 from
    hfield 0 8 (by decide)]

theorem entryIn_write (m : Bytes) (a : Nat) (e : MemoryMapEntry) : entryIn (m.write a e.bytes) a = e := by
  have hwindow : ∀ k < Stage2.memoryMapEntrySize, m.write a e.bytes (a + k) = bytesOf e.bytes (0 + k) := fun k hk => by
    rw [Nat.zero_add]
    exact Bytes.write_inside m (by rw [e.length_bytes]; exact hk)
  have hbase : le64 (bytesOf e.bytes) 0 = e.base := le64_packBytes [] e.base _ rfl
  have hlength : le64 (bytesOf e.bytes) (0 + 8) = e.length := le64_packBytes [(8, e.base.toNat)] e.length _ rfl
  have htype : le32 (bytesOf e.bytes) (0 + 16) = e.type :=
    le32_packBytes [(8, e.base.toNat), (8, e.length.toNat)] e.type _ rfl
  have hflags : le32 (bytesOf e.bytes) (0 + 20) = e.flags :=
    le32_packBytes [(8, e.base.toNat), (8, e.length.toNat), (4, e.type.toNat)] e.flags _ rfl
  rw [entryIn_of_window hwindow, entryIn, hbase, hlength, htype, hflags]

theorem descriptorAt_of_window {b b' : Bytes} {o o' : Nat} (h : ∀ k < 40, b (o + k) = b' (o' + k)) :
    descriptorAt b o = descriptorAt b' o' := by
  have hfield (i n : Nat) (hi : i + n ≤ 40) : leNat b (o + i) n = leNat b' (o' + i) n :=
    leNat_of_window fun k hk => by rw [Nat.add_assoc, Nat.add_assoc, h _ (by omega)]
  simp only [descriptorAt, le64, le32]
  rw [hfield 8 8 (by decide), hfield 24 8 (by decide), show leNat b o 4 = leNat b' o' 4 from hfield 0 4 (by decide)]

/-! ### Storing the entries -/

/-- The entries `es`, stored from entry `n` on. -/
def storeEntries (metadata : UInt64) : List MemoryMapEntry → (n : Nat) → Bytes → EfiStatus × Nat × Bytes
  | [], n, m => (efiSuccess, n, m)
  | e :: es, n, m =>
    if n ≥ maxMemoryEntries then (efiOutOfResources, n, m)
    else storeEntries metadata es (n + 1) (m.write (entryAddress metadata n) e.bytes)

theorem storeEntries_ok (metadata : UInt64) {es : List MemoryMapEntry} {n : Nat} (h : n + es.length ≤ maxMemoryEntries)
    (m : Bytes) :
    ∃ m', storeEntries metadata es n m = (efiSuccess, n + es.length, m') ∧
      (∀ j < n, entryIn m' (entryAddress metadata j) = entryIn m (entryAddress metadata j)) ∧
      ∀ j < es.length, some (entryIn m' (entryAddress metadata (n + j))) = es[j]? := by
  induction es generalizing n m with
  | nil => exact ⟨m, rfl, fun _ _ => rfl, nofun⟩
  | cons e es ih =>
    rw [List.length_cons] at h
    obtain ⟨m', hstore, hkeep, hnew⟩ := ih (n := n + 1) (by omega) (m.write (entryAddress metadata n) e.bytes)
    refine ⟨m', ?_, fun j hj => ?_, fun j hj => ?_⟩
    · rw [storeEntries, if_neg (by omega), hstore, List.length_cons]
      congr 2
      omega
    · rw [hkeep j (by omega)]
      refine entryIn_of_window fun k hk => Bytes.write_of_lt m _ ?_
      rw [Stage2.memoryMapEntrySize] at hk
      simp only [entryAddress, Stage2.memoryMapEntrySize]
      omega
    · cases j with
      | zero => rw [Nat.add_zero, hkeep n (by omega), entryIn_write, List.getElem?_cons_zero]
      | succ j =>
        rw [List.length_cons] at hj
        rw [List.getElem?_cons_succ, ← hnew j (by omega), Nat.add_right_comm, Nat.add_assoc]

theorem storeEntries_full (metadata : UInt64) {es : List MemoryMapEntry} {n : Nat} (hn : n ≤ maxMemoryEntries)
    (h : maxMemoryEntries < n + es.length) (m : Bytes) : (storeEntries metadata es n m).1 = efiOutOfResources := by
  induction es generalizing n m with
  | nil => exact absurd h (by rw [List.length_nil]; omega)
  | cons e es ih =>
    rw [List.length_cons] at h
    rw [storeEntries]
    split
    · rfl
    · exact ih (by omega) (by omega) _

/-! ### One attempt -/

/-- The buffer is below 4 GiB and does not meet the page of the metadata. -/
structure Buffer (raw cap metadata : UInt64) : Prop where
  below : raw.toNat + cap.toNat ≤ 2 ^ 32
  apart : raw.toNat + cap.toNat ≤ metadata.toNat ∨ metadata.toNat + 4096 ≤ raw.toNat

section
variable {raw cap metadata ds size : UInt64}

theorem Buffer.entryAddress (h : Buffer raw cap metadata) {n : Nat} (hn : n < maxMemoryEntries) {j : Nat}
    (hj : j < cap.toNat) : raw.toNat + j < entryAddress metadata n ∨ entryAddress metadata n + 24 ≤ raw.toNat + j := by
  have hapart := h.apart
  rw [maxMemoryEntries] at hn
  simp only [Uefi.entryAddress, memoryMapOffset, Stage2.bootInfoSize, Stage2.memoryMapEntrySize]
  omega

theorem toNat_next {i : Nat} (hsize : size.toNat ≤ 2 ^ 32) (hi : i ≤ size.toNat / ds.toNat) {off : UInt64}
    (hoff : off.toNat = i * ds.toNat) : (off + ds).toNat = (i + 1) * ds.toNat := by
  have hle : i * ds.toNat ≤ size.toNat := Nat.le_trans (Nat.mul_le_mul_right _ hi) (Nat.div_mul_le_self _ _)
  have hds := ds.toNat_lt
  have hlt : i * ds.toNat + ds.toNat < 2 ^ 64 := by
    rcases Nat.eq_zero_or_pos i with rfl | hpos
    · omega
    · have := Nat.le_mul_of_pos_left ds.toNat hpos
      omega
  rw [UInt64.toNat_add, hoff, Nat.mod_eq_of_lt hlt, Nat.add_mul, Nat.one_mul]

/-- The loop of `capture_map` stores the translation of the descriptors in the buffer. -/
theorem captureLoop_eq (hds : descriptorBytes ≤ ds) (hbuf : Buffer raw cap metadata) (hsize : size.toNat ≤ cap.toNat)
    {data : Bytes} {k i : Nat} (hk : i + k = size.toNat / ds.toNat) {off : UInt64} (hoff : off.toNat = i * ds.toNat)
    (n : Nat) {m : Bytes} (hm : ∀ j < size.toNat, m (raw.toNat + j) = data j) :
    captureLoop raw metadata ds size (k + 1) off n m =
      storeEntries metadata (translation ((List.range' i k).map fun j => descriptorAt data (j * ds.toNat))) n m := by
  have hpos : 40 ≤ ds.toNat := UInt64.le_iff_toNat_le.1 hds
  have hbelow := hbuf.below
  induction k generalizing i off n m with
  | zero =>
    rw [Nat.add_zero] at hk
    have hnext := toNat_next (by omega) (Nat.le_of_eq hk) hoff
    have hlast : size.toNat < size.toNat / ds.toNat * ds.toNat + ds.toNat := Nat.lt_div_mul_add (by omega)
    have hend : ¬ off + ds ≤ size := by
      rw [UInt64.le_iff_toNat_le, hnext, Nat.add_mul, Nat.one_mul]
      rw [← hk] at hlast
      omega
    rw [captureLoop, decide_eq_false hend]
    rfl
  | succ k ih =>
    have hnext : (off + ds).toNat = (i + 1) * ds.toNat := @toNat_next ds size i (by omega) (by omega) off hoff
    have hle : (i + 1) * ds.toNat ≤ size.toNat := by
      refine Nat.le_trans (Nat.mul_le_mul_right _ ?_) (Nat.div_mul_le_self size.toNat ds.toNat)
      omega
    have hin : off + ds ≤ size := by
      rw [UInt64.le_iff_toNat_le, hnext]
      exact hle
    have hread : descriptorAt m (raw.toNat + off.toNat) = descriptorAt data (i * ds.toNat) := by
      refine descriptorAt_of_window fun j hj => ?_
      rw [Nat.add_mul, Nat.one_mul] at hle
      rw [hoff, Nat.add_assoc]
      exact hm _ (by omega)
    rw [captureLoop, decide_eq_true hin, Bool.not_true, if_neg Bool.false_ne_true]
    simp only [hread, List.range'_succ, List.map_cons, translation_cons]
    generalize descriptorAt data (i * ds.toNat) = d
    by_cases hzero : d.numberOfPages = 0
    · rw [if_pos hzero, if_pos hzero, ih (i := i + 1) (by omega) hnext n hm]
    · rw [if_neg hzero, if_neg hzero, storeEntries]
      split
      · rfl
      next hroom =>
        refine ih (i := i + 1) (by omega) hnext (n + 1) fun j hj => ?_
        rw [← hm j hj]
        rcases hbuf.entryAddress (Nat.lt_of_not_le hroom) (j := j) (by omega) with hlt | hge
        · exact Bytes.write_of_lt m _ hlt
        · exact Bytes.write_of_le m _ (by rw [d.entry.length_bytes]; exact hge)

/-- The map that an attempt leaves: the entries, and their number. -/
theorem memoryMapAt_store {es : List MemoryMapEntry} (h : es.length ≤ maxMemoryEntries) {m : Bytes}
    (hm : ∀ j < es.length, some (entryIn m (entryAddress metadata j)) = es[j]?) :
    memoryMapAt (Stage2.store m (metadata.toNat + entriesOffset) 4 es.length) metadata = es := by
  rw [maxMemoryEntries] at h
  generalize hm' : Stage2.store m (metadata.toNat + entriesOffset) 4 es.length = m'
  have hcount : (le32 m' (metadata.toNat + entriesOffset)).toNat = es.length := by
    rw [← hm', Stage2.store, le32, leNat_leBytes fun k hk => Bytes.write_inside m (by rw [length_leBytes]; exact hk),
      UInt32.toNat_ofNat']
    omega
  have hentry (j : Nat) : entryIn m' (entryAddress metadata j) = entryIn m (entryAddress metadata j) := by
    rw [← hm', Stage2.store]
    refine entryIn_of_window fun k _ => Bytes.write_of_le m _ ?_
    rw [length_leBytes]
    simp only [entryAddress, entriesOffset, memoryMapOffset, Stage2.bootInfoSize]
    omega
  rw [memoryMapAt, hcount]
  refine List.ext_getElem? fun j => ?_
  rw [List.getElem?_map]
  rcases Nat.lt_or_ge j es.length with hj | hj
  · rw [List.getElem?_range hj, Option.map_some, hentry, hm j hj]
  · rw [List.getElem?_eq_none (by rw [List.length_range]; exact hj), List.getElem?_eq_none hj, Option.map_none]

variable {fw : BootFirmware F} {u : Loader F} {a : MapAnswer} {f : F}

theorem captureMap_error (hmap : fw.getMemoryMap cap u.firmware = (a, f)) (hs : efiError a.status = true) :
    captureMap fw raw cap metadata u = ((a.status, a.key), { u with firmware := f }) := by
  rw [captureMap, hmap]
  simp only [hs, if_true, Bool.true_or]

theorem captureMap_short (hmap : fw.getMemoryMap cap u.firmware = (a, f)) (hs : efiError a.status = false)
    (hds : a.descriptorSize < descriptorBytes) :
    captureMap fw raw cap metadata u = ((a.status, a.key),
      { u with firmware := f, mem := u.mem.write raw.toNat (a.data.slice 0 a.size.toNat) }) := by
  rw [captureMap, hmap]
  simp only [hs, hds, decide_true, Bool.or_true, if_true, Bool.false_eq_true, if_false]

theorem captureMap_stores (hmap : fw.getMemoryMap cap u.firmware = (a, f)) (hs : efiError a.status = false)
    (hds : descriptorBytes ≤ a.descriptorSize) (hbuf : Buffer raw cap metadata) (hsize : a.size ≤ cap) :
    captureMap fw raw cap metadata u =
      match storeEntries metadata (translation a.descriptors) 0 (u.mem.write raw.toNat (a.data.slice 0 a.size.toNat)) with
      | (s, n, m) =>
        if efiError s then ((s, a.key), { u with firmware := f, mem := m })
        else ((efiSuccess, a.key), say "JOSHUEFI_MEMORY_MAP_OK\r\n"
          { u with firmware := f, mem := Stage2.store m (metadata.toNat + entriesOffset) 4 n }) := by
  have hdata : ∀ j < a.size.toNat, u.mem.write raw.toNat (a.data.slice 0 a.size.toNat) (raw.toNat + j) = a.data j :=
    fun j hj => by
      rw [Bytes.write_inside _ (by rw [Bytes.length_slice]; exact hj), Bytes.slice, List.getD_eq_getElem?_getD,
        List.getElem?_map, List.getElem?_range hj, Option.map_some, Option.getD_some, Nat.zero_add]
  have hstart : (0 : UInt64).toNat = 0 * a.descriptorSize.toNat := (Nat.zero_mul _).symm
  have hloop := captureLoop_eq hds hbuf (UInt64.le_iff_toNat_le.1 hsize) (Nat.zero_add _) hstart 0 hdata
  rw [← List.range_eq_range', ← MapAnswer.descriptors] at hloop
  have hshort : decide (a.descriptorSize < descriptorBytes) = false := decide_eq_false (UInt64.not_lt.2 hds)
  rw [captureMap, hmap]
  simp only [hs, hshort, Bool.or_self, Bool.false_eq_true, if_false, hloop]

theorem captureMap_ok (hmap : fw.getMemoryMap cap u.firmware = (a, f)) (hs : efiError a.status = false)
    (hds : descriptorBytes ≤ a.descriptorSize) (hbuf : Buffer raw cap metadata) (hsize : a.size ≤ cap)
    (hbound : (translation a.descriptors).length ≤ maxMemoryEntries) :
    ∃ u', captureMap fw raw cap metadata u = ((efiSuccess, a.key), u') ∧ u'.firmware = f ∧ HandsOver a u'.mem metadata := by
  obtain ⟨m, hstore, -, hentries⟩ := storeEntries_ok metadata (n := 0) (by rw [Nat.zero_add]; exact hbound)
    (u.mem.write raw.toNat (a.data.slice 0 a.size.toNat))
  simp only [Nat.zero_add] at hstore hentries
  rw [captureMap_stores hmap hs hds hbuf hsize, hstore]
  exact ⟨_, rfl, rfl, memoryMapAt_store hbound hentries, hbound⟩

theorem captureMap_full (hmap : fw.getMemoryMap cap u.firmware = (a, f)) (hs : efiError a.status = false)
    (hds : descriptorBytes ≤ a.descriptorSize) (hbuf : Buffer raw cap metadata) (hsize : a.size ≤ cap)
    (hbound : ¬ (translation a.descriptors).length ≤ maxMemoryEntries) :
    (captureMap fw raw cap metadata u).1.1 = efiOutOfResources := by
  have hfull := storeEntries_full metadata (n := 0) (Nat.zero_le _) (by rw [Nat.zero_add]; exact Nat.lt_of_not_le hbound)
    (u.mem.write raw.toNat (a.data.slice 0 a.size.toNat))
  rw [captureMap_stores hmap hs hds hbuf hsize]
  generalize storeEntries metadata (translation a.descriptors) 0 _ = r at hfull
  obtain ⟨s, n, m⟩ := r
  obtain rfl : s = efiOutOfResources := hfull
  rfl

/-- An attempt that succeeds: the key of the answer, and its map unless the descriptors are too short. -/
theorem captureMap_spec (hmap : fw.getMemoryMap cap u.firmware = (a, f)) (hbuf : Buffer raw cap metadata)
    (hfits : efiError a.status = false → a.size ≤ cap) {s : EfiStatus} {key : UInt64} {u' : Loader F}
    (hcapture : captureMap fw raw cap metadata u = ((s, key), u')) (hs : efiError s = false) :
    efiError a.status = false ∧ key = a.key ∧ u'.firmware = f ∧
      (descriptorBytes ≤ a.descriptorSize → HandsOver a u'.mem metadata) := by
  cases hstatus : efiError a.status with
  | true =>
    rw [captureMap_error hmap hstatus] at hcapture
    cases hcapture
    rw [hs] at hstatus
    cases hstatus
  | false =>
    by_cases hds : descriptorBytes ≤ a.descriptorSize
    · by_cases hbound : (translation a.descriptors).length ≤ maxMemoryEntries
      · obtain ⟨u₁, hok, hfirm, hover⟩ := captureMap_ok hmap hstatus hds hbuf (hfits hstatus) hbound
        rw [hok] at hcapture
        cases hcapture
        exact ⟨rfl, rfl, hfirm, fun _ => hover⟩
      · have hfull := captureMap_full hmap hstatus hds hbuf (hfits hstatus) hbound
        rw [hcapture] at hfull
        obtain rfl : s = efiOutOfResources := hfull
        exact absurd hs (by decide)
    · rw [captureMap_short hmap hstatus (UInt64.not_le.1 hds)] at hcapture
      cases hcapture
      exact ⟨rfl, rfl, rfl, fun hle => absurd hle hds⟩

end

end JoshBios.Uefi
