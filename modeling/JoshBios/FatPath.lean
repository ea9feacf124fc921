import JoshBios.FatDirectory

/-! # Paths (`josh_fat32_open_path`)

The segments of a path are the non-empty pieces between its slashes. `Resolves` says what a list of segments stands for, and
`openPath_resolves` that the code finds this and nothing else; the number of bytes of the path bounds its rounds. -/

namespace JoshBios.Fat32

open Lib (follow nodeAt)

/-! ### Short names -/

/-- A character of a short name, in a path. -/
def nameChar (c : UInt8) : Bool :=
  (0x41 ≤ c && c ≤ 0x5a) || (0x61 ≤ c && c ≤ 0x7a) || (0x30 ≤ c && c ≤ 0x39) || punctuation.contains c

def upper (c : UInt8) : UInt8 := if 0x61 ≤ c && c ≤ 0x7a then c - 0x61 + 0x41 else c

/-- The segment is a legal 8.3 name, and these are its eleven bytes in a directory. -/
def IsShortName (segment shortName : List UInt8) : Prop :=
  ∃ base ext : List UInt8, (segment = base ∧ ext = [] ∨ segment = base ++ 0x2e :: ext) ∧
    0 < base.length ∧ base.length ≤ 8 ∧ ext.length ≤ 3 ∧ (∀ c ∈ base ++ ext, nameChar c = true) ∧
    shortName = (base.map upper).rightpad 8 0x20 ++ (ext.map upper).rightpad 3 0x20

theorem asciiUpper_eq (c : UInt8) : asciiUpper c = if nameChar c then some (upper c) else none := by
  revert c
  exact forall_uint8 (by decide +kernel)

theorem nameChar_ne_dot {c : UInt8} (h : nameChar c = true) : c ≠ 0x2e := by
  rintro rfl
  exact absurd h (by decide)

theorem mapM_asciiUpper {cs out : List UInt8} :
    cs.mapM asciiUpper = some out ↔ (∀ c ∈ cs, nameChar c = true) ∧ out = cs.map upper := by
  induction cs generalizing out with
  | nil =>
    rw [List.mapM_nil]
    constructor
    · intro h
      exact ⟨fun c hc => absurd hc List.not_mem_nil, (Option.some.inj h).symm⟩
    · rintro ⟨-, rfl⟩
      rfl
  | cons c cs ih =>
    rw [List.mapM_cons, asciiUpper_eq]
    by_cases hc : nameChar c = true
    · rw [if_pos hc]
      simp only [Option.bind_eq_bind, Option.bind_some, Option.bind_eq_some_iff, ih, Option.pure_def, Option.some.injEq,
        List.forall_mem_cons, hc, true_and, List.map_cons]
      constructor
      · rintro ⟨_, ⟨hcs, rfl⟩, rfl⟩
        exact ⟨hcs, rfl⟩
      · rintro ⟨hcs, rfl⟩
        exact ⟨_, ⟨hcs, rfl⟩, rfl⟩
    · rw [if_neg hc]
      simp [hc]

section
variable {segment : List UInt8}

theorem findDot_free {i dot : Nat} {cs : List UInt8} (h : (0x2e : UInt8) ∉ cs) : findDot segment i dot cs = some dot := by
  induction cs generalizing i with
  | nil => rfl
  | cons c cs ih =>
    rw [List.mem_cons, not_or] at h
    rw [findDot, if_neg (Ne.symm h.1)]
    exact ih h.2

theorem findDot_skip {i dot : Nat} {base cs : List UInt8} (h : (0x2e : UInt8) ∉ base) :
    findDot segment i dot (base ++ cs) = findDot segment (i + base.length) dot cs := by
  induction base generalizing i with
  | nil => rfl
  | cons c base ih =>
    rw [List.mem_cons, not_or] at h
    rw [List.cons_append, findDot, if_neg (Ne.symm h.1), ih h.2, List.length_cons, Nat.add_right_comm, Nat.add_assoc]

theorem findDot_second {i dot : Nat} {cs : List UInt8} (hdot : dot ≠ segment.length) (h : (0x2e : UInt8) ∈ cs) :
    findDot segment i dot cs = none := by
  induction cs generalizing i with
  | nil => cases h
  | cons c cs ih =>
    rw [findDot]
    by_cases hc : c = 0x2e
    · rw [if_pos hc, if_pos hdot]
    · rw [if_neg hc]
      exact ih ((List.mem_cons.1 h).resolve_left (Ne.symm hc))

theorem findDot_cases (segment : List UInt8) :
    (segment.all (· ≠ 0x2e) ∧ findDot segment 0 segment.length segment = some segment.length) ∨
    (∃ base ext, segment = base ++ 0x2e :: ext ∧ (0x2e : UInt8) ∉ base ∧ (0x2e : UInt8) ∉ ext ∧
      findDot segment 0 segment.length segment = some base.length) ∨
    (∃ base ext, segment = base ++ 0x2e :: ext ∧ (0x2e : UInt8) ∉ base ∧ (0x2e : UInt8) ∈ ext ∧
      findDot segment 0 segment.length segment = none) := by
  by_cases hfree : (0x2e : UInt8) ∈ segment
  · obtain ⟨base, ext, hseg, hbase⟩ := List.eq_append_cons_of_mem hfree
    have hlen : base.length ≠ segment.length := by
      rw [hseg, List.length_append, List.length_cons]
      omega
    have hfind : findDot segment 0 segment.length segment = findDot segment (base.length + 1) base.length ext := by
      conv_lhs => arg 4; rw [hseg]
      rw [findDot_skip hbase, Nat.zero_add, findDot, if_pos rfl, if_neg (not_not.2 rfl)]
    by_cases hext : (0x2e : UInt8) ∈ ext
    · exact Or.inr (Or.inr ⟨base, ext, hseg, hbase, hext, hfind.trans (findDot_second hlen hext)⟩)
    · exact Or.inr (Or.inl ⟨base, ext, hseg, hbase, hext, hfind.trans (findDot_free hext)⟩)
  · refine Or.inl ⟨List.all_eq_true.2 fun c hc => ?_, findDot_free hfree⟩
    exact decide_eq_true fun h => hfree (h ▸ hc)

/-- The name that is made of a base and an extension. -/
def packName (base ext : List UInt8) : Except Status (List UInt8) :=
  match base.mapM asciiUpper, ext.mapM asciiUpper with
  | some base, some ext => .ok (base ++ .replicate (8 - base.length) 0x20 ++ ext ++ .replicate (3 - ext.length) 0x20)
  | _, _ => .error .badPath

/-- Base and extension, as the code cuts them, make the name if and only if they are legal. -/
theorem shortName_parts {base ext shortName : List UInt8} (hlen : segment.length = base.length + ext.length ∨
      segment.length = base.length + 1 + ext.length)
    (hparts : shortNameFromSegment segment =
      if segment.length = 0 || segment.length > 12 then .error .badPath
      else if base.length = 0 || base.length > 8 || ext.length > 3 then .error .badPath
      else packName base ext) :
    shortNameFromSegment segment = .ok shortName ↔
      0 < base.length ∧ base.length ≤ 8 ∧ ext.length ≤ 3 ∧ (∀ c ∈ base ++ ext, nameChar c = true) ∧
      shortName = (base.map upper).rightpad 8 0x20 ++ (ext.map upper).rightpad 3 0x20 := by
  rw [hparts, List.forall_mem_append, packName]
  simp only [ite_error_eq_ok, Bool.or_eq_true, decide_eq_true_iff, not_or]
  constructor
  · rintro ⟨-, ⟨⟨hpos, h8⟩, h3⟩, h⟩
    cases hb : base.mapM asciiUpper with
    | none => rw [hb] at h; cases h
    | some b =>
      cases he : ext.mapM asciiUpper with
      | none => rw [hb, he] at h; cases h
      | some e =>
        rw [hb, he] at h
        obtain ⟨hbase, rfl⟩ := mapM_asciiUpper.1 hb
        obtain ⟨hext, rfl⟩ := mapM_asciiUpper.1 he
        refine ⟨Nat.pos_of_ne_zero hpos, Nat.le_of_not_lt h8, Nat.le_of_not_lt h3, ⟨hbase, hext⟩, ?_⟩
        rw [← Except.ok.inj h]
        simp only [List.rightpad, List.append_assoc]
  · rintro ⟨hpos, h8, h3, ⟨hbase, hext⟩, rfl⟩
    refine ⟨by omega, ⟨⟨by omega, by omega⟩, by omega⟩, ?_⟩
    rw [mapM_asciiUpper.2 ⟨hbase, rfl⟩, mapM_asciiUpper.2 ⟨hext, rfl⟩]
    simp only [List.rightpad, List.append_assoc]

theorem dot_not_mem {cs : List UInt8} (h : ∀ c ∈ cs, nameChar c = true) : (0x2e : UInt8) ∉ cs :=
  fun hdot => nameChar_ne_dot (h _ hdot) rfl

theorem shortName_ok_iff {shortName : List UInt8} :
    shortNameFromSegment segment = .ok shortName ↔ IsShortName segment shortName := by
  rcases findDot_cases segment with
    ⟨hfree, hfind⟩ | ⟨base, ext, hseg, hbase, hext, hfind⟩ | ⟨base, ext, hseg, hbase, hext, hfind⟩
  · -- no dot: the segment is the base
    have hparts := @shortName_parts segment segment [] shortName (Or.inl rfl)
      (by
        simp only [shortNameFromSegment, hfind, List.take_length, if_true, List.take_zero, List.length_nil]
        rfl)
    rw [hparts]
    constructor
    · rintro h
      exact ⟨segment, [], Or.inl ⟨rfl, rfl⟩, h⟩
    · rintro ⟨base, ext, ⟨rfl, rfl⟩ | hseg, h⟩
      · exact h
      · rw [hseg] at hfree
        simp at hfree
  · -- one dot
    have hlen : segment.length = base.length + 1 + ext.length := by
      rw [hseg, List.length_append, List.length_cons]
      omega
    have htake : segment.take base.length = base := by rw [hseg, List.take_left]
    have hdrop : segment.drop (base.length + 1) = ext := by
      rw [hseg, ← List.drop_drop, List.drop_left]
      rfl
    have hparts := @shortName_parts segment base ext shortName (Or.inr hlen)
      (by
        have hne : base.length ≠ segment.length := by omega
        have hextlen : segment.length - base.length - 1 = ext.length := by omega
        simp only [shortNameFromSegment, hfind, htake, hdrop, if_neg hne, hextlen, List.take_length]
        rfl)
    rw [hparts]
    constructor
    · rintro h
      exact ⟨base, ext, Or.inr hseg, h⟩
    · rintro ⟨base', ext', ⟨hseg', rfl⟩ | hseg', h⟩
      · refine absurd ?_ (dot_not_mem fun c hc => h.2.2.2.1 c (List.mem_append_left _ hc))
        rw [← hseg', hseg]
        exact List.mem_append_right _ (List.mem_cons_self ..)
      · obtain ⟨rfl, -, rfl⟩ := (List.append_cons_inj_of_notMem hbase hext).1 (hseg.symm.trans hseg')
        exact h
  · -- more than one dot
    refine iff_of_false ?_ ?_
    · intro h
      simp only [shortNameFromSegment, hfind, ite_error_eq_ok, reduceCtorEq, and_false] at h
    · rintro ⟨base', ext', ⟨hseg', rfl⟩ | hseg', h⟩
      · refine dot_not_mem (fun c hc => h.2.2.2.1 c (List.mem_append_left _ hc)) ?_
        rw [← hseg', hseg]
        exact List.mem_append_right _ (List.mem_cons_self ..)
      · have hbase' := dot_not_mem fun c hc => h.2.2.2.1 c (List.mem_append_left _ hc)
        have hext' := dot_not_mem fun c hc => h.2.2.2.1 c (List.mem_append_right _ hc)
        obtain ⟨rfl, -, rfl⟩ := (List.append_cons_inj_of_notMem hbase' hext').1 (hseg'.symm.trans hseg)
        exact hext' hext

end

/-! ### Segments -/

/-- The non-empty pieces between the slashes. -/
def segments (path : List UInt8) : List (List UInt8) := (path.splitOn 0x2f).filter (· ≠ [])

theorem segments_slash (path : List UInt8) : segments (0x2f :: path) = segments path := by
  have hsplit : (0x2f :: path).splitOn 0x2f = [] :: path.splitOn 0x2f :=
    List.splitOn_append_cons_self_of_not_mem List.not_mem_nil path
  rw [segments, hsplit, List.filter_cons_of_neg (by simp), segments]

theorem segments_dropSlashes (path : List UInt8) : segments (path.dropWhile (· = 0x2f)) = segments path := by
  induction path with
  | nil => rfl
  | cons c path ih =>
    by_cases hc : c = 0x2f
    · rw [List.dropWhile_cons_of_pos (by simp [hc]), ih, hc, segments_slash]
    · rw [List.dropWhile_cons_of_neg (by simp [hc])]

theorem head_dropSlashes {path : List UInt8} {c : UInt8} {cs : List UInt8} (h : path.dropWhile (· = 0x2f) = c :: cs) :
    c ≠ 0x2f := by
  have hhead := List.head?_dropWhile_not (fun c : UInt8 => decide (c = 0x2f)) path
  rw [h] at hhead
  simpa using hhead

theorem segments_cons {c : UInt8} {cs : List UInt8} (hc : c ≠ 0x2f) :
    segments (c :: cs) =
      (c :: cs).takeWhile (· ≠ 0x2f) :: segments ((c :: cs).drop ((c :: cs).takeWhile (· ≠ 0x2f)).length) := by
  have hne : (c :: cs).takeWhile (· ≠ 0x2f) ≠ [] := by
    rw [List.takeWhile_cons_of_pos (by simpa using hc)]
    exact nofun
  have hfree : (0x2f : UInt8) ∉ (c :: cs).takeWhile (· ≠ 0x2f) := fun hmem => by
    simpa using List.mem_takeWhile_imp hmem
  have hsplit := List.takeWhile_append_dropWhile (p := fun c : UInt8 => decide (c ≠ 0x2f)) (l := c :: cs)
  have hdrop : (c :: cs).drop ((c :: cs).takeWhile (· ≠ 0x2f)).length = (c :: cs).dropWhile (· ≠ 0x2f) := by
    conv_lhs => arg 2; rw [← hsplit]
    rw [List.drop_left]
  rw [hdrop]
  generalize (c :: cs).takeWhile (· ≠ 0x2f) = segment at hne hfree hsplit
  cases hrest : (c :: cs).dropWhile (· ≠ 0x2f) with
  | nil =>
    rw [hrest, List.append_nil] at hsplit
    rw [← hsplit, segments, List.splitOn_eq_singleton hfree, List.filter_cons_of_pos (by simpa using hne)]
    rfl
  | cons c' rest =>
    have hslash : c' = 0x2f := by
      have hhead := List.head?_dropWhile_not (fun c : UInt8 => decide (c ≠ 0x2f)) (c :: cs)
      rw [hrest] at hhead
      simpa using hhead
    rw [hrest, hslash] at hsplit
    rw [← hsplit, segments, List.splitOn_append_cons_self_of_not_mem hfree, List.filter_cons_of_pos (by simpa using hne),
      hslash, segments_slash, segments]

/-! ### Resolving a path -/

/-- The lookup of a name comes to an entry of a file or directory. -/
def Finds (device : BlockDevice) (fs : Fat32) (directory : UInt32) (shortName : List UInt8) (file : File) : Prop :=
  ∃ k, firstVerdict device fs shortName k directory = some (.ok file)

/-- A segment names an entry of a directory. -/
def Names (device : BlockDevice) (fs : Fat32) (directory : UInt32) (segment : List UInt8) (file : File) : Prop :=
  ∃ shortName, IsShortName segment shortName ∧ Finds device fs directory shortName file

/-- What a list of segments stands for, from a directory on. -/
inductive Resolves (device : BlockDevice) (fs : Fat32) : UInt32 → List (List UInt8) → File → Prop
  | last {directory : UInt32} {segment : List UInt8} {file : File} :
      Names device fs directory segment file → Resolves device fs directory [segment] file
  | step {directory : UInt32} {segment segment' : List UInt8} {rest : List (List UInt8)} {found file : File} :
      Names device fs directory segment found → found.attributes &&& attrDirectory ≠ 0 →
      clusterValid fs found.firstCluster = true → Resolves device fs found.firstCluster (segment' :: rest) file →
      Resolves device fs directory (segment :: segment' :: rest) file

/-- The loop over the segments, in terms of these: without a bound on its rounds. -/
def resolve (device : BlockDevice) (fs : Fat32) (directory : UInt32) (segment : List UInt8) :
    List (List UInt8) → Except Status File
  | [] =>
    match shortNameFromSegment segment with
    | .error status => .error status
    | .ok shortName => findInDirectory device fs directory shortName
  | segment' :: rest =>
    match shortNameFromSegment segment with
    | .error status => .error status
    | .ok shortName =>
      match findInDirectory device fs directory shortName with
      | .error status => .error status
      | .ok found =>
        if found.attributes &&& attrDirectory = 0 then .error .notDirectory
        else if !clusterValid fs found.firstCluster then .error .corrupt
        else resolve device fs found.firstCluster segment' rest

section
variable {device : BlockDevice} {fs : Fat32}

theorem find_ok_iff (h : Sound device fs) {directory : UInt32} {shortName : List UInt8} {file : File} :
    findInDirectory device fs directory shortName = .ok file ↔ Finds device fs directory shortName file := by
  have hscan := findInDirectory_scan h directory shortName
  constructor
  · intro hok
    by_contra hnone
    have hall : ∀ k, firstVerdict device fs shortName k directory = none := by
      intro k
      cases hr : firstVerdict device fs shortName k directory with
      | none => rfl
      | some r =>
        refine absurd ⟨k, ?_⟩ hnone
        rw [hr, ← hscan.decided k r hr, hok]
    by_cases hcycle : (chain device fs (fs.clusterCount.toNat + 1) directory).Nodup
    · have hends : ∀ c, nodeAt (link device fs) (fs.clusterCount.toNat + 1) directory ≠ some c :=
        fun c hc => chain_cyclic h hc hcycle
      obtain ⟨last, m, hlast, hl⟩ := Lib.exists_end hends
      rw [hscan.ended hall m last hlast hl] at hok
      cases hok
    · rw [hscan.cyclic hall _ hcycle] at hok
      cases hok
  · rintro ⟨k, hk⟩
    exact hscan.decided k _ hk

theorem names_iff (h : Sound device fs) {directory : UInt32} {segment : List UInt8} {file : File} :
    Names device fs directory segment file ↔
      ∃ shortName, shortNameFromSegment segment = .ok shortName ∧
        findInDirectory device fs directory shortName = .ok file := by
  simp only [Names, shortName_ok_iff, find_ok_iff h]

theorem resolve_ok_iff (h : Sound device fs) {directory : UInt32} {segment : List UInt8} {rest : List (List UInt8)}
    {file : File} :
    resolve device fs directory segment rest = .ok file ↔ Resolves device fs directory (segment :: rest) file := by
  induction rest generalizing directory segment with
  | nil =>
    rw [resolve]
    constructor
    · intro hok
      refine .last ((names_iff h).2 ?_)
      cases hname : shortNameFromSegment segment with
      | error status => rw [hname] at hok; cases hok
      | ok shortName =>
        rw [hname] at hok
        exact ⟨shortName, rfl, hok⟩
    · intro hres
      cases hres with
      | last hnames =>
        obtain ⟨shortName, hname, hfind⟩ := (names_iff h).1 hnames
        rw [hname]
        exact hfind
  | cons segment' rest ih =>
    rw [resolve]
    constructor
    · intro hok
      cases hname : shortNameFromSegment segment with
      | error status => rw [hname] at hok; cases hok
      | ok shortName =>
        rw [hname] at hok
        simp only at hok
        cases hfind : findInDirectory device fs directory shortName with
        | error status => rw [hfind] at hok; cases hok
        | ok found =>
          rw [hfind] at hok
          simp only [ite_error_eq_ok] at hok
          obtain ⟨hdir, hvalid, hrest⟩ := hok
          exact .step ((names_iff h).2 ⟨shortName, hname, hfind⟩) hdir (by simpa using hvalid) (ih.1 hrest)
    · intro hres
      cases hres with
      | step hnames hdir hvalid hrest =>
        obtain ⟨shortName, hname, hfind⟩ := (names_iff h).1 hnames
        rw [hname]
        simp only [hfind, if_neg hdir, hvalid, Bool.not_true, Bool.false_eq_true, if_false]
        exact ih.2 hrest

/-- The loop of the code, with no fewer rounds than bytes of the path, goes through the segments. -/
theorem openSegments_eq {n : Nat} {directory : UInt32} {path : List UInt8} (hn : path.length ≤ n) {c : UInt8}
    {cs : List UInt8} (hpath : path = c :: cs) (hc : c ≠ 0x2f) {segment : List UInt8} {rest : List (List UInt8)}
    (hseg : segments path = segment :: rest) :
    openSegments device fs n directory path = resolve device fs directory segment rest := by
  induction n generalizing directory path c cs segment rest with
  | zero =>
    rw [hpath, List.length_cons] at hn
    omega
  | succ n ih =>
    subst hpath
    have hfirst := @segments_cons c cs hc
    rw [hseg] at hfirst
    obtain ⟨hsegment, hrest⟩ := List.cons.inj hfirst
    rw [← segments_dropSlashes] at hrest
    rw [openSegments, ← hsegment]
    rw [← hsegment] at hrest
    have hshort : ((c :: cs).drop segment.length |>.dropWhile (· = 0x2f)).length ≤ n := by
      refine Nat.le_trans ((List.dropWhile_sublist _).length_le) ?_
      rw [List.length_drop]
      have hpos : 0 < segment.length := by
        rw [hsegment, List.takeWhile_cons_of_pos (by simpa using hc)]
        exact Nat.succ_pos _
      omega
    simp only
    generalize hleft : ((c :: cs).drop segment.length).dropWhile (· = 0x2f) = left at hrest hshort ⊢
    cases left with
    | nil =>
      have hnil : rest = [] := hrest
      rw [hnil, resolve]
      cases shortNameFromSegment segment with
      | error status => rfl
      | ok shortName =>
        simp only [if_true]
        cases findInDirectory device fs directory shortName with
        | error status => rfl
        | ok found => rfl
    | cons c' cs' =>
      have hc' := head_dropSlashes hleft
      rw [segments_cons hc'] at hrest
      rw [hrest, resolve]
      cases shortNameFromSegment segment with
      | error status => rfl
      | ok shortName =>
        simp only
        cases findInDirectory device fs directory shortName with
        | error status => rfl
        | ok found =>
          simp only [reduceCtorEq, if_false]
          rw [ih hshort rfl hc' (segments_cons hc')]

theorem openPath_eq (path : List UInt8) :
    openPath device fs path =
      match segments path with
      | [] => .ok { firstCluster := fs.rootCluster, size := 0, attributes := attrDirectory }
      | segment :: rest => resolve device fs fs.rootCluster segment rest := by
  rw [← segments_dropSlashes, openPath]
  generalize hleft : path.dropWhile (· = 0x2f) = left
  cases left with
  | nil => rfl
  | cons c cs =>
    have hc := head_dropSlashes hleft
    have hseg := @segments_cons c cs hc
    rw [hseg]
    exact openSegments_eq (Nat.le_refl _) rfl hc hseg

end

/-- A name is looked up by one flat scan of its directory; a path goes through its segments one by one and opens what
they stand for, the root directory when there are none. -/
theorem openPath_resolves {device : BlockDevice} {partition : Partition} {fs : Fat32}
    (hm : mount device partition = .ok fs) :
    (∀ directory shortName,
      DirectoryScan device fs directory shortName (findInDirectory device fs directory shortName)) ∧
    (∀ path, openPath device fs path =
      match segments path with
      | [] => .ok { firstCluster := fs.rootCluster, size := 0, attributes := attrDirectory }
      | segment :: rest => resolve device fs fs.rootCluster segment rest) ∧
    ∀ path file, openPath device fs path = .ok file ↔
      segments path = [] ∧ file = { firstCluster := fs.rootCluster, size := 0, attributes := attrDirectory } ∨
      Resolves device fs fs.rootCluster (segments path) file := by
  obtain ⟨boot, -, hgeometry⟩ := mount_ok hm
  have h := hgeometry.sound
  refine ⟨findInDirectory_scan h, openPath_eq, fun path file => ?_⟩
  rw [openPath_eq]
  cases hseg : segments path with
  | nil =>
    constructor
    · intro hok
      exact Or.inl ⟨rfl, (Except.ok.inj hok).symm⟩
    · rintro (⟨-, rfl⟩ | hres)
      · rfl
      · cases hres
  | cons segment rest =>
    rw [resolve_ok_iff h]
    simp

/-- The volume with one file in its root directory. -/
def diskWithFile : BlockDevice :=
  smallDisk fun i =>
    if i = 513 then some (bytesOf (packBytes [(1, 0x41), (10, 0x20202020202020202020), (1, 0), (14, 0), (2, 3), (4, 10)]))
    else none

/-- The volume with a directory in its root directory, and a file in that. -/
def diskWithDirectory : BlockDevice :=
  smallDisk fun i =>
    if i = 513 then
      some (bytesOf (packBytes [(1, 0x41), (10, 0x20202020202020202020), (1, 0x10), (14, 0), (2, 3), (4, 0)]))
    else if i = 514 then
      some (bytesOf (packBytes [(1, 0x42), (10, 0x20202020202020202020), (1, 0), (14, 0), (2, 4), (4, 10)]))
    else none

theorem openPath_resolves_nested :
    Resolves diskWithDirectory smallVolume 2 [[0x61], [0x62]] { firstCluster := 4, size := 10, attributes := 0 } := by
  have hok : openPath diskWithDirectory smallVolume [0x2f, 0x61, 0x2f, 0x62] =
      .ok { firstCluster := 4, size := 10, attributes := 0 } :=
    eq_ok_of_toOption (by decide)
  have hsegments : segments [0x2f, 0x61, 0x2f, 0x62] = [[0x61], [0x62]] := by decide
  have hmount : mount diskWithDirectory smallPartition = .ok smallVolume := smallDisk_mounts _
  rcases ((openPath_resolves hmount).2.2 _ _).1 hok with ⟨hnil, -⟩ | hresolves
  · rw [hsegments] at hnil
    cases hnil
  · rw [hsegments] at hresolves
    exact hresolves

end JoshBios.Fat32
