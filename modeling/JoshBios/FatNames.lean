import JoshBios.FatPath

/-! # Spellings (`josh_fat32_open_path`)

A name in a directory is eleven bytes, in capitals and padded with spaces. `canonical` is what a segment of a path spells:
the segment in capitals, without a dot that nothing follows. The eleven bytes and the canonical spelling determine each
other (`shortName_eq_iff`), so a segment finds the entries of its own name only. A path is opened by its segments and not
by its text (`openPath_spelling`): its slashes only separate them. -/

namespace JoshBios.Fat32

/-! ### Letters -/

theorem nameChar_upper (c : UInt8) : nameChar (upper c) = nameChar c := by
  revert c
  exact forall_uint8 (by decide +kernel)

theorem upper_upper (c : UInt8) : upper (upper c) = upper c := by
  revert c
  exact forall_uint8 (by decide +kernel)

theorem upper_eq_dot_iff (c : UInt8) : upper c = 0x2e ↔ c = 0x2e := by
  revert c
  exact forall_uint8 (by decide +kernel)

theorem upper_no_mark (c : UInt8) : nameChar c = true → upper c ≠ 0x00 ∧ upper c ≠ 0xe5 ∧ upper c ≠ 0x20 := by
  revert c
  exact forall_uint8 (by decide +kernel)

theorem map_upper_upper (cs : List UInt8) : (cs.map upper).map upper = cs.map upper := by
  rw [List.map_map]
  exact List.map_congr_left fun c _ => upper_upper c

theorem nameChars_upper {cs : List UInt8} :
    (∀ c ∈ cs.map upper, nameChar c = true) ↔ ∀ c ∈ cs, nameChar c = true := by
  rw [List.forall_mem_map]
  simp only [nameChar_upper]

theorem space_not_mem {cs : List UInt8} (h : ∀ c ∈ cs, nameChar c = true) : (0x20 : UInt8) ∉ cs.map upper := by
  intro hmem
  obtain ⟨c, hc, heq⟩ := List.mem_map.1 hmem
  exact (upper_no_mark c (h c hc)).2.2 heq

/-! ### Names -/

theorem isShortName_upper {segment shortName : List UInt8} :
    IsShortName (segment.map upper) shortName ↔ IsShortName segment shortName := by
  constructor
  · rintro ⟨base, ext, hseg, hpos, h8, h3, hchars, rfl⟩
    obtain ⟨base₀, ext₀, hseg₀, rfl, rfl⟩ : ∃ base₀ ext₀, (segment = base₀ ∧ ext₀ = [] ∨ segment = base₀ ++ 0x2e :: ext₀) ∧
        base₀.map upper = base ∧ ext₀.map upper = ext := by
      rcases hseg with ⟨hbase, rfl⟩ | hseg
      · exact ⟨segment, [], Or.inl ⟨rfl, rfl⟩, hbase, rfl⟩
      · obtain ⟨base₀, rest, rfl, hbase, hrest⟩ := List.map_eq_append_iff.1 hseg
        obtain ⟨dot, ext₀, rfl, hdot, hext⟩ := List.map_eq_cons_iff.1 hrest
        exact ⟨base₀, ext₀, Or.inr (by rw [(upper_eq_dot_iff _).1 hdot]), hbase, hext⟩
    rw [List.length_map] at hpos h8 h3
    rw [← List.map_append, nameChars_upper] at hchars
    rw [map_upper_upper, map_upper_upper]
    exact ⟨base₀, ext₀, hseg₀, hpos, h8, h3, hchars, rfl⟩
  · rintro ⟨base, ext, hseg, hpos, h8, h3, hchars, rfl⟩
    refine ⟨base.map upper, ext.map upper, ?_, ?_, ?_, ?_, ?_, ?_⟩
    · rcases hseg with ⟨rfl, rfl⟩ | rfl
      · exact Or.inl ⟨rfl, rfl⟩
      · exact Or.inr List.map_append
    · rwa [List.length_map]
    · rwa [List.length_map]
    · rwa [List.length_map]
    · rwa [← List.map_append, nameChars_upper]
    · rw [map_upper_upper, map_upper_upper]

theorem shortName_error {segment : List UInt8} {status : Status} (h : shortNameFromSegment segment = .error status) :
    status = .badPath := by
  simp only [shortNameFromSegment] at h
  split at h
  · cases h; rfl
  split at h
  · cases h; rfl
  next dot _ =>
    generalize (if dot = segment.length then 0 else segment.length - dot - 1) = extLen at h
    split at h
    · cases h; rfl
    split at h
    · cases h
    · cases h; rfl

theorem shortName_badPath {segment : List UInt8} (h : ∀ shortName, ¬ IsShortName segment shortName) :
    shortNameFromSegment segment = .error .badPath := by
  cases hname : shortNameFromSegment segment with
  | error status => rw [shortName_error hname]
  | ok shortName => exact absurd (shortName_ok_iff.1 hname) (h shortName)

theorem shortName_upper (segment : List UInt8) :
    shortNameFromSegment (segment.map upper) = shortNameFromSegment segment := by
  cases hname : shortNameFromSegment segment with
  | error status =>
    rw [shortName_error hname]
    refine shortName_badPath fun shortName hlegal => ?_
    rw [shortName_ok_iff.2 (isShortName_upper.1 hlegal)] at hname
    cases hname
  | ok shortName => exact shortName_ok_iff.2 (isShortName_upper.2 (shortName_ok_iff.1 hname))

theorem shortName_congr {segment segment' : List UInt8} (h : segment.map upper = segment'.map upper) :
    shortNameFromSegment segment = shortNameFromSegment segment' := by
  rw [← shortName_upper segment, h, shortName_upper]

/-! ### What a name spells -/

/-- The segment in capitals, without a dot that nothing follows. -/
def canonical (segment : List UInt8) : List UInt8 :=
  if (segment.map upper).getLast? = some 0x2e then (segment.map upper).dropLast else segment.map upper

def spelling (base ext : List UInt8) : List UInt8 := if ext = [] then base else base ++ 0x2e :: ext

theorem spelling_inj {base ext base' ext' : List UInt8} (hbase : (0x2e : UInt8) ∉ base) (hext : (0x2e : UInt8) ∉ ext)
    (hbase' : (0x2e : UInt8) ∉ base') (hext' : (0x2e : UInt8) ∉ ext') :
    spelling base ext = spelling base' ext' ↔ base = base' ∧ ext = ext' := by
  refine ⟨fun h => ?_, fun h => by rw [h.1, h.2]⟩
  rw [spelling, spelling] at h
  split at h
  next hnil =>
    split at h
    next hnil' => exact ⟨h, hnil.trans hnil'.symm⟩
    · exact absurd (h ▸ List.mem_append_right _ (List.mem_cons_self ..)) hbase
  · split at h
    · exact absurd (h ▸ List.mem_append_right _ (List.mem_cons_self ..)) hbase'
    · obtain ⟨rfl, -, rfl⟩ := (List.append_cons_inj_of_notMem hbase hext).1 h
      exact ⟨rfl, rfl⟩

theorem getLast?_ne_dot {cs : List UInt8} (h : (0x2e : UInt8) ∉ cs) : cs.getLast? ≠ some 0x2e :=
  fun hlast => h (List.mem_of_getLast? hlast)

theorem canonical_eq {segment base ext : List UInt8} (hseg : segment = base ∧ ext = [] ∨ segment = base ++ 0x2e :: ext)
    (hchars : ∀ c ∈ base ++ ext, nameChar c = true) : canonical segment = spelling (base.map upper) (ext.map upper) := by
  rw [List.forall_mem_append] at hchars
  have hbase := dot_not_mem (nameChars_upper.2 hchars.1)
  have hext := dot_not_mem (nameChars_upper.2 hchars.2)
  rw [canonical]
  rcases hseg with ⟨rfl, rfl⟩ | rfl
  · rw [if_neg (getLast?_ne_dot hbase)]
    rfl
  have hmap : (base ++ 0x2e :: ext).map upper = base.map upper ++ [0x2e] ++ ext.map upper := by
    rw [List.map_append, List.append_assoc]
    rfl
  rw [hmap]
  by_cases hnil : ext.map upper = []
  · rw [hnil, List.append_nil, List.getLast?_concat, if_pos rfl, List.dropLast_concat, spelling, if_pos rfl]
  · rw [List.getLast?_append_of_ne_nil _ hnil, if_neg (getLast?_ne_dot hext), spelling, if_neg hnil, List.append_assoc]
    rfl

/-- The eleven bytes of a segment and what it spells determine each other. -/
theorem shortName_eq_iff {segment segment' shortName shortName' : List UInt8} (h : IsShortName segment shortName)
    (h' : IsShortName segment' shortName') : shortName = shortName' ↔ canonical segment = canonical segment' := by
  obtain ⟨base, ext, hseg, -, h8, -, hchars, rfl⟩ := h
  obtain ⟨base', ext', hseg', -, h8', -, hchars', rfl⟩ := h'
  rw [canonical_eq hseg hchars, canonical_eq hseg' hchars']
  rw [List.forall_mem_append] at hchars hchars'
  have hlen : ((base.map upper).rightpad 8 0x20).length = ((base'.map upper).rightpad 8 0x20).length := by
    rw [List.length_rightpad, List.length_rightpad, List.length_map, List.length_map, Nat.max_eq_left h8,
      Nat.max_eq_left h8']
  have hfree {cs : List UInt8} (hcs : ∀ c ∈ cs, nameChar c = true) := dot_not_mem (nameChars_upper.2 hcs)
  rw [spelling_inj (hfree hchars.1) (hfree hchars.2) (hfree hchars'.1) (hfree hchars'.2)]
  constructor
  · intro h
    obtain ⟨hbase, hext⟩ := List.append_inj h hlen
    exact ⟨rightpad_inj (space_not_mem hchars.1) (space_not_mem hchars'.1) hbase,
      rightpad_inj (space_not_mem hchars.2) (space_not_mem hchars'.2) hext⟩
  · rintro ⟨hbase, hext⟩
    rw [hbase, hext]

/-- A name is eleven bytes, and is not taken for the end of a directory, for a deleted entry or for a name without a base. -/
theorem IsShortName.bytes {segment shortName : List UInt8} (h : IsShortName segment shortName) :
    shortName.length = 11 ∧ ∀ b ∈ shortName.head?, b ≠ 0x00 ∧ b ≠ 0xe5 ∧ b ≠ 0x20 := by
  obtain ⟨base, ext, -, hpos, h8, h3, hchars, rfl⟩ := h
  constructor
  · rw [List.length_append, List.length_rightpad, List.length_rightpad, List.length_map, List.length_map,
      Nat.max_eq_left h8, Nat.max_eq_left h3]
  · obtain ⟨c, cs, rfl⟩ := List.exists_cons_of_length_pos hpos
    intro b hb
    rw [← Option.some.inj hb]
    exact upper_no_mark c (hchars c (List.mem_cons_self ..))

/-- The code makes a name of exactly the segments of the 8.3 grammar, and any other segment is a bad path. The name
begins with a character that no other meaning has, and two segments have the same name iff they spell the same. -/
theorem shortName_unambiguous :
    (∀ segment shortName, shortNameFromSegment segment = .ok shortName ↔ IsShortName segment shortName) ∧
    (∀ segment, (∀ shortName, ¬ IsShortName segment shortName) → shortNameFromSegment segment = .error .badPath) ∧
    (∀ segment shortName, shortNameFromSegment segment = .ok shortName →
      shortName.length = 11 ∧ ∀ b ∈ shortName.head?, b ≠ 0x00 ∧ b ≠ 0xe5 ∧ b ≠ 0x20) ∧
    ∀ segment segment' shortName shortName', shortNameFromSegment segment = .ok shortName →
      shortNameFromSegment segment' = .ok shortName' →
      (shortName = shortName' ↔ canonical segment = canonical segment') :=
  ⟨fun _ _ => shortName_ok_iff, fun _ => shortName_badPath, fun _ _ h => (shortName_ok_iff.1 h).bytes,
    fun _ _ _ _ h h' => shortName_eq_iff (shortName_ok_iff.1 h) (shortName_ok_iff.1 h')⟩

/-! ### Paths -/

/-- The same segments, up to the case of the letters. -/
def SameSegments (path path' : List UInt8) : Prop :=
  (segments path).map (List.map upper) = (segments path').map (List.map upper)

instance (path path' : List UInt8) : Decidable (SameSegments path path') :=
  inferInstanceAs (Decidable ((segments path).map (List.map upper) = (segments path').map (List.map upper)))

theorem segments_append_slash (path path' : List UInt8) :
    segments (path ++ 0x2f :: path') = segments path ++ segments path' := by
  rw [segments, List.splitOn_append_cons_self, List.filter_append, segments, segments]

section
variable (device : BlockDevice) (fs : Fat32)

theorem resolve_congr {directory : UInt32} {segment segment' : List UInt8} {rest rest' : List (List UInt8)}
    (h : segment.map upper = segment'.map upper) (hrest : rest.map (List.map upper) = rest'.map (List.map upper)) :
    resolve device fs directory segment rest = resolve device fs directory segment' rest' := by
  induction rest generalizing directory segment segment' rest' with
  | nil =>
    obtain rfl : rest' = [] := List.map_eq_nil_iff.1 hrest.symm
    rw [resolve, resolve, shortName_congr h]
  | cons next rest ih =>
    obtain ⟨next', rest', rfl, hnext, hrest⟩ := List.map_eq_cons_iff.1 hrest.symm
    rw [resolve, resolve, shortName_congr h]
    simp only [ih hnext.symm hrest.symm]

theorem openPath_congr {path path' : List UInt8} (h : SameSegments path path') :
    openPath device fs path = openPath device fs path' := by
  rw [openPath_eq, openPath_eq]
  rw [SameSegments] at h
  cases hseg : segments path with
  | nil =>
    rw [hseg] at h
    rw [List.map_eq_nil_iff.1 h.symm]
  | cons segment rest =>
    rw [hseg] at h
    obtain ⟨segment', rest', hseg', hsegment, hrest⟩ := List.map_eq_cons_iff.1 h.symm
    rw [hseg']
    exact resolve_congr device fs hsegment.symm hrest.symm

end

/-- Paths that spell the same segments open the same file or fail with the same status: the case of the letters does
not matter, nor do slashes at the start, at the end or after another slash. -/
theorem openPath_spelling (device : BlockDevice) (fs : Fat32) :
    (∀ path path', SameSegments path path' → openPath device fs path = openPath device fs path') ∧
    ∀ path path', openPath device fs (0x2f :: path) = openPath device fs path ∧
      openPath device fs (path ++ [0x2f]) = openPath device fs path ∧
      openPath device fs (path ++ 0x2f :: 0x2f :: path') = openPath device fs (path ++ 0x2f :: path') := by
  refine ⟨fun path path' => openPath_congr device fs, fun path path' => ⟨?_, ?_, ?_⟩⟩
  · exact openPath_congr device fs (by rw [SameSegments, segments_slash])
  · exact openPath_congr device fs (by
      rw [SameSegments, segments_append_slash, show segments [] = [] from rfl, List.append_nil])
  · exact openPath_congr device fs (by
      rw [SameSegments, segments_append_slash, segments_slash, segments_append_slash])

/-- The file of the small volume, by another spelling. -/
theorem openPath_spelling_one :
    openPath diskWithFile smallVolume [0x2f, 0x2f, 0x41, 0x2f] = openPath diskWithFile smallVolume [0x61] :=
  (openPath_spelling diskWithFile smallVolume).1 [0x2f, 0x2f, 0x41, 0x2f] [0x61] (by decide)

end JoshBios.Fat32
