import JoshBios.ConfigGrammar

/-! # What the parser accepts (`josh_boot_config_parse`)

The state of the parser after some well-formed entries is a function of these (`configOf`, `seenOf`), and a line either adds
an entry or offends. `parse_grammar` says that the parser accepts the grammatical texts and no others, what it returns for
them, and for all others what its status is about. -/

namespace JoshBios.Config

/-! ### The record -/

/-- The record of the values: texts up to a NUL and NULs from there on, numbers, and zero for what is not given. -/
def configOf (value : Field → List UInt8) : BootConfig where
  version := UInt32.ofNat (decimal (value .version))
  timeoutSeconds := UInt32.ofNat (decimal (value .timeout))
  flags := flagsOf (value .flags)
  defaultEntry := (value .default).rightpad (entryIdMax + 1) 0
  entryId := (value .entry).rightpad (entryIdMax + 1) 0
  displayName := (value .name).rightpad (nameMax + 1) 0
  kernelPath := (value .kernel).rightpad (pathMax + 1) 0
  previousKernelPath := (value .previousKernel).rightpad (pathMax + 1) 0
  recoveryKernelPath := (value .recoveryKernel).rightpad (pathMax + 1) 0
  commandLine := (value .cmdline).rightpad (cmdlineMax + 1) 0

theorem configOf_nil : configOf (given []) = zeroConfig := by decide

theorem copyValue_zero {capacity : Nat} {value : List UInt8} (h : value.length < capacity) :
    copyValue (([] : List UInt8).rightpad capacity 0) capacity value = some (value.rightpad capacity 0) := by
  have hdrop : (([] : List UInt8).rightpad capacity 0).drop (value.length + 1) =
      List.replicate (capacity - (value.length + 1)) 0 := by
    rw [List.rightpad, List.nil_append, List.length_nil, Nat.sub_zero, List.drop_replicate]
  have hsub : capacity - value.length = capacity - (value.length + 1) + 1 := by omega
  rw [copyValue, if_neg (by omega), hdrop, List.rightpad, hsub, List.replicate_succ]

theorem setText_zero {check : List UInt8 → Bool} {capacity : Nat} {get : BootConfig → List UInt8}
    {put : BootConfig → List UInt8 → BootConfig} {config : BootConfig} {value : List UInt8}
    (hzero : get config = ([] : List UInt8).rightpad capacity 0) (hlen : check value = true → value.length < capacity) :
    setText check capacity get put config value =
      if check value = true then .ok (put config (value.rightpad capacity 0)) else .error .invalidValue := by
  rw [setText]
  by_cases hv : check value = true
  · rw [if_neg (by simp [hv]), if_pos hv, hzero, copyValue_zero (hlen hv)]
  · rw [if_pos (by simpa using hv), if_neg hv]

theorem IsId.lt {value : List UInt8} (h : IsId value) : value.length < entryIdMax + 1 := Nat.lt_succ_of_le h.length.2
theorem IsPath.lt {value : List UInt8} (h : IsPath value) : value.length < pathMax + 1 := Nat.lt_succ_of_le h.length.2
theorem IsPrintable.lt {least most : Nat} {value : List UInt8} (h : IsPrintable least most value) :
    value.length < most + 1 := Nat.lt_succ_of_le h.length.2

/-- The version of a well-formed numeral is wrong for a reason of its own. -/
def WrongVersion (f : Field) (value : List UInt8) : Prop :=
  f = .version ∧ IsNumeral value ∧ decimal value < 2 ^ 32 ∧ decimal value ≠ 1

/-- What setting a field for the first time comes to. -/
def Sets (value : Field → List UInt8) (f : Field) (v : List UInt8) (result : Except Status BootConfig) : Prop :=
  (ValueOk f v ∧ result = .ok (configOf (Function.update value f v))) ∨
  (WrongVersion f v ∧ result = .error .unsupportedVersion) ∨
  (¬ ValueOk f v ∧ ¬ WrongVersion f v ∧ result = .error .invalidValue)

theorem setText_sets {value : Field → List UInt8} {f : Field} {v : List UInt8} (check : List UInt8 → Bool) (capacity : Nat)
    (get : BootConfig → List UInt8) (put : BootConfig → List UInt8 → BootConfig)
    (hzero : get (configOf value) = ([] : List UInt8).rightpad capacity 0) (hlen : check v = true → v.length < capacity)
    (hput : put (configOf value) (v.rightpad capacity 0) = configOf (Function.update value f v))
    (hok : check v = true ↔ ValueOk f v) (hver : f ≠ .version) :
    Sets value f v (setText check capacity get put (configOf value) v) := by
  rw [setText_zero hzero hlen]
  by_cases hv : check v = true
  · rw [if_pos hv, hput]
    exact Or.inl ⟨hok.1 hv, rfl⟩
  · rw [if_neg hv]
    exact Or.inr (Or.inr ⟨fun h => hv (hok.2 h), fun h => hver h.1, rfl⟩)

theorem toNat_decimal {n : UInt32} {v : List UInt8} (h : n.toNat = decimal v) : UInt32.ofNat (decimal v) = n := by
  rw [← h, UInt32.ofNat_toNat]

theorem setVersion_sets (value : Field → List UInt8) (v : List UInt8) :
    Sets value .version v (setVersion (configOf value) v) := by
  rw [setVersion]
  cases hn : parseU32 v with
  | none =>
    have hbad := parseU32_eq_none.1 hn
    refine Or.inr (Or.inr ⟨fun h => hbad ⟨h.1, ?_⟩, fun h => hbad ⟨h.2.1, h.2.2.1⟩, rfl⟩)
    rw [h.2]
    decide
  | some n =>
    obtain ⟨hnum, heq⟩ := parseU32_iff.1 hn
    simp only
    by_cases hone : n = configVersion
    · have hval : decimal v = 1 := by rw [← heq, hone]; rfl
      rw [if_neg (not_not.2 hone)]
      refine Or.inl ⟨⟨hnum, hval⟩, ?_⟩
      rw [← toNat_decimal heq]
      rfl
    · rw [if_pos hone]
      refine Or.inr (Or.inl ⟨⟨rfl, hnum, heq ▸ n.toNat_lt, fun hval => hone (UInt32.toNat_inj.1 ?_)⟩, rfl⟩)
      rw [heq, hval]
      rfl

theorem setTimeout_sets (value : Field → List UInt8) (v : List UInt8) :
    Sets value .timeout v (setTimeout (configOf value) v) := by
  have hver : ¬ WrongVersion .timeout v := fun h => Field.noConfusion h.1
  rw [setTimeout]
  cases hn : parseU32 v with
  | none =>
    have hbad := parseU32_eq_none.1 hn
    exact Or.inr (Or.inr ⟨fun h => hbad ⟨h.1, Nat.lt_of_le_of_lt h.2 (by decide)⟩, hver, rfl⟩)
  | some n =>
    obtain ⟨hnum, heq⟩ := parseU32_iff.1 hn
    simp only
    by_cases hbig : n > 30
    · rw [if_pos hbig]
      have hlt := UInt32.lt_iff_toNat_lt.1 hbig
      rw [heq] at hlt
      exact Or.inr (Or.inr ⟨fun h => absurd h.2 (Nat.not_le.2 hlt), hver, rfl⟩)
    · rw [if_neg hbig]
      have hle := UInt32.le_iff_toNat_le.1 (UInt32.not_lt.1 hbig)
      rw [heq] at hle
      refine Or.inl ⟨⟨hnum, hle⟩, ?_⟩
      rw [← toNat_decimal heq]
      rfl

theorem setFlags_sets (value : Field → List UInt8) (v : List UInt8) : Sets value .flags v (setFlags (configOf value) v) := by
  have hver : ¬ WrongVersion .flags v := fun h => Field.noConfusion h.1
  rw [setFlags]
  cases hn : parseFlags v with
  | none =>
    refine Or.inr (Or.inr ⟨fun h => ?_, hver, rfl⟩)
    rw [parseFlags_iff.2 ⟨h, rfl⟩] at hn
    cases hn
  | some flags =>
    obtain ⟨hflags, rfl⟩ := parseFlags_iff.1 hn
    exact Or.inl ⟨hflags, rfl⟩

theorem applyField_sets {value : Field → List UInt8} {f : Field} (hf : value f = []) (v : List UInt8) :
    Sets value f v (applyField (configOf value) f v) := by
  cases f with
  | version => exact setVersion_sets value v
  | timeout => exact setTimeout_sets value v
  | flags => exact setFlags_sets value v
  | default =>
    exact setText_sets entryIdValid (entryIdMax + 1) (·.defaultEntry) (fun c t => { c with defaultEntry := t })
      (by rw [configOf, hf]) (fun h => (entryIdValid_iff.1 h).lt) rfl entryIdValid_iff nofun
  | entry =>
    exact setText_sets entryIdValid (entryIdMax + 1) (·.entryId) (fun c t => { c with entryId := t })
      (by rw [configOf, hf]) (fun h => (entryIdValid_iff.1 h).lt) rfl entryIdValid_iff nofun
  | name =>
    exact setText_sets displayNameValid (nameMax + 1) (·.displayName) (fun c t => { c with displayName := t })
      (by rw [configOf, hf]) (fun h => (displayNameValid_iff.1 h).lt) rfl displayNameValid_iff nofun
  | kernel =>
    exact setText_sets pathValid (pathMax + 1) (·.kernelPath) (fun c t => { c with kernelPath := t })
      (by rw [configOf, hf]) (fun h => (pathValid_iff.1 h).lt) rfl pathValid_iff nofun
  | previousKernel =>
    exact setText_sets pathValid (pathMax + 1) (·.previousKernelPath) (fun c t => { c with previousKernelPath := t })
      (by rw [configOf, hf]) (fun h => (pathValid_iff.1 h).lt) rfl pathValid_iff nofun
  | recoveryKernel =>
    exact setText_sets pathValid (pathMax + 1) (·.recoveryKernelPath) (fun c t => { c with recoveryKernelPath := t })
      (by rw [configOf, hf]) (fun h => (pathValid_iff.1 h).lt) rfl pathValid_iff nofun
  | cmdline =>
    exact setText_sets commandLineValid (cmdlineMax + 1) (·.commandLine) (fun c t => { c with commandLine := t })
      (by rw [configOf, hf]) (fun h => (commandLineValid_iff.1 h).lt) rfl commandLineValid_iff nofun

/-! ### Keys -/

theorem fieldFromKey_iff {key : List UInt8} {f : Field} : fieldFromKey key = some f ↔ key = ascii f.key := by
  constructor
  · intro h
    rw [fieldFromKey, Option.map_eq_some_iff] at h
    obtain ⟨⟨name, f'⟩, hfind, rfl⟩ := h
    have hall : ∀ p ∈ fieldNames, p.1 = p.2.key := by decide
    have hspan := List.find?_some hfind
    rw [hall _ (List.mem_of_find?_eq_some hfind), spanEqual, beq_iff_eq] at hspan
    exact hspan
  · rintro rfl
    cases f <;> decide

theorem key_free (f : Field) : (0x3d : UInt8) ∉ ascii f.key := by cases f <;> decide

theorem key_ne_nil (f : Field) : ascii f.key ≠ [] := by cases f <;> decide

theorem mask_and_mask (f g : Field) : f.mask &&& g.mask = if f = g then g.mask else 0 := by
  cases f <;> cases g <;> rfl

def seenOf (es : List Entry) : UInt32 := es.foldl (fun seen e => seen ||| e.1.mask) 0

theorem seenOf_append (es : List Entry) (e : Entry) : seenOf (es ++ [e]) = seenOf es ||| e.1.mask := by
  rw [seenOf, List.foldl_append]
  rfl

theorem keys_append (es : List Entry) (e : Entry) : keys (es ++ [e]) = keys es ++ [e.1] := List.map_append

theorem or_and_distrib (a b c : UInt32) : (a ||| b) &&& c = a &&& c ||| b &&& c :=
  UInt32.toNat_inj.1 (by simp only [UInt32.toNat_and, UInt32.toNat_or, Nat.and_or_distrib_right])

theorem seenOf_and_mask (es : List Entry) (f : Field) : seenOf es &&& f.mask = if f ∈ keys es then f.mask else 0 := by
  induction es using List.reverseRecOn with
  | nil => cases f <;> rfl
  | append_singleton es e ih =>
    rw [seenOf_append, or_and_distrib, ih, mask_and_mask, keys_append]
    simp only [List.mem_append, List.mem_singleton]
    by_cases hf : f ∈ keys es
    · by_cases he : e.1 = f
      · rw [if_pos hf, if_pos he, if_pos (Or.inl hf), UInt32.or_self]
      · rw [if_pos hf, if_neg he, if_pos (Or.inl hf), UInt32.or_zero]
    · by_cases he : e.1 = f
      · rw [if_neg hf, if_pos he, if_pos (Or.inr he.symm), UInt32.zero_or]
      · rw [if_neg hf, if_neg he, if_neg (not_or.2 ⟨hf, fun h => he h.symm⟩), UInt32.or_self]

theorem mask_ne_zero (f : Field) : f.mask ≠ 0 := by cases f <;> decide

theorem seen_iff {es : List Entry} {f : Field} : seenOf es &&& f.mask ≠ 0 ↔ f ∈ keys es := by
  rw [seenOf_and_mask]
  by_cases hf : f ∈ keys es
  · rw [if_pos hf]
    exact iff_of_true (mask_ne_zero f) hf
  · rw [if_neg hf]
    exact iff_of_false (not_not.2 rfl) hf

theorem seen_required_iff {es : List Entry} :
    seenOf es &&& requiredFields = requiredFields ↔ ∀ f ∈ Field.required, f ∈ keys es := by
  constructor
  · intro h f hf
    have hmask : requiredFields &&& f.mask = f.mask := by
      revert f
      decide
    rw [← seen_iff, ← hmask, ← UInt32.and_assoc, h, hmask]
    exact mask_ne_zero f
  · intro h
    have hand : ∀ f ∈ Field.required, f.mask &&& seenOf es = f.mask := by
      intro f hf
      rw [UInt32.and_comm, seenOf_and_mask, if_pos (h f hf)]
    simp only [Field.required, List.forall_mem_cons] at hand
    obtain ⟨h₁, h₂, h₃, h₄, h₅, h₆, -⟩ := hand
    rw [UInt32.and_comm, requiredFields]
    simp only [or_and_distrib, h₁, h₂, h₃, h₄, h₅, h₆]

theorem lookup_not_mem {es : List Entry} {f : Field} (hf : f ∉ keys es) : es.lookup f = none := by
  rw [List.lookup_eq_none_iff]
  intro p hp
  refine bne_iff_ne.2 ?_
  rintro rfl
  exact hf (List.mem_map_of_mem hp)

theorem given_not_mem {es : List Entry} {f : Field} (hf : f ∉ keys es) : given es f = [] := by
  rw [given, lookup_not_mem hf]
  rfl

theorem given_append {es : List Entry} {f : Field} (hf : f ∉ keys es) (v : List UInt8) :
    given (es ++ [(f, v)]) = Function.update (given es) f v := by
  funext g
  rw [given, List.lookup_append]
  by_cases hg : g = f
  · subst hg
    rw [lookup_not_mem hf, Function.update_self, List.lookup_cons_self]
    rfl
  · rw [Function.update_of_ne hg, given]
    cases es.lookup g with
    | none => simp [List.lookup_cons, beq_eq_false_iff_ne.2 hg]
    | some w => rfl

theorem given_of_mem {es : List Entry} (hes : (keys es).Nodup) {f : Field} {v : List UInt8} (h : (f, v) ∈ es) :
    given es f = v := by
  induction es with
  | nil => cases h
  | cons e es ih =>
    obtain ⟨hfree, hrest⟩ := List.nodup_cons.1 hes
    rcases List.mem_cons.1 h with rfl | h
    · rw [given, List.lookup_cons_self]
      rfl
    · have hne : f ≠ e.1 := by
        rintro rfl
        exact hfree (List.mem_map.2 ⟨_, h, rfl⟩)
      rw [given, List.lookup_cons]
      simp only [beq_eq_false_iff_ne.2 hne]
      exact ih hrest h

theorem given_ok {es : List Entry} (h : WellFormed es) (f : Field) : given es f = [] ∨ ValueOk f (given es f) := by
  by_cases hf : f ∈ keys es
  · obtain ⟨⟨f', v⟩, he, rfl⟩ := List.mem_map.1 hf
    rw [given_of_mem h.distinct he]
    exact Or.inr (h.values _ he)
  · exact Or.inl (given_not_mem hf)

theorem WellFormed.append {es : List Entry} {e : Entry} (h : WellFormed es) (hf : e.1 ∉ keys es) (hv : ValueOk e.1 e.2) :
    WellFormed (es ++ [e]) := by
  refine ⟨?_, fun e' he' => ?_⟩
  · rw [keys_append, List.nodup_append]
    refine ⟨h.distinct, List.pairwise_singleton _ _, fun f hfs f' hf' => ?_⟩
    rw [List.mem_singleton] at hf'
    rintro rfl
    exact hf (hf' ▸ hfs)
  · rcases List.mem_append.1 he' with he' | he'
    · exact h.values e' he'
    · rw [List.mem_singleton] at he'
      rw [he']
      exact hv

theorem WellFormed.left {es es' : List Entry} (h : WellFormed (es ++ es')) : WellFormed es := by
  have hdistinct := h.distinct
  rw [keys, List.map_append, List.nodup_append] at hdistinct
  exact ⟨hdistinct.1, fun e he => h.values e (List.mem_append_left _ he)⟩

theorem WellFormed.of_append {es : List Entry} {e : Entry} (h : WellFormed (es ++ [e])) :
    e.1 ∉ keys es ∧ ValueOk e.1 e.2 := by
  have hdistinct := h.distinct
  rw [keys_append, List.nodup_append] at hdistinct
  refine ⟨fun hf => ?_, h.values e (List.mem_append_right _ (List.mem_singleton_self e))⟩
  exact hdistinct.2.2 _ hf _ (List.mem_singleton_self _) rfl

/-! ### One line -/

/-- What is wrong with a line after the entries `es`. -/
inductive Offends (es : List Entry) (line : List UInt8) : Status → Prop
  | malformed : (∀ key value, line = key ++ 0x3d :: value → (0x3d : UInt8) ∉ key → key = []) → Offends es line .syntaxError
  | unsupported {key value : List UInt8} : line = key ++ 0x3d :: value → key = ascii "module" ∨ key = ascii "initrd" →
      Offends es line .unsupportedFeature
  | unknown {key value : List UInt8} : line = key ++ 0x3d :: value → (0x3d : UInt8) ∉ key → key ≠ [] →
      (∀ f : Field, key ≠ ascii f.key) → key ≠ ascii "module" → key ≠ ascii "initrd" → Offends es line .unknownKey
  | duplicate {f : Field} {value : List UInt8} : line = entryLine (f, value) → f ∈ keys es → Offends es line .duplicateKey
  | version {f : Field} {value : List UInt8} : line = entryLine (f, value) → f ∉ keys es → WrongVersion f value →
      Offends es line .unsupportedVersion
  | value {f : Field} {value : List UInt8} : line = entryLine (f, value) → f ∉ keys es → ¬ ValueOk f value →
      ¬ WrongVersion f value → Offends es line .invalidValue

/-- The parser on a line that is neither empty nor a comment. -/
def setLine (config : BootConfig) (seen : UInt32) (line : List UInt8) : Except Status (BootConfig × UInt32) :=
  let key := line.takeWhile (· ≠ 0x3d)
  if key.length = 0 ∨ key.length = line.length then .error .syntaxError
  else setField config seen key (line.drop (key.length + 1))

theorem setLine_of_key {key value : List UInt8} (hfree : (0x3d : UInt8) ∉ key) (hne : key ≠ []) (config : BootConfig)
    (seen : UInt32) : setLine config seen (key ++ 0x3d :: value) = setField config seen key value := by
  have hkey : ∀ c ∈ key, decide (c ≠ 0x3d) = true := fun c hc => decide_eq_true fun h => hfree (h ▸ hc)
  have htake : (key ++ 0x3d :: value).takeWhile (· ≠ 0x3d) = key := by
    rw [List.takeWhile_append_of_pos hkey]
    simp
  have hlen : ¬ (key.length = 0 ∨ key.length = (key ++ 0x3d :: value).length) := by
    rw [List.length_append, List.length_cons, not_or]
    exact ⟨fun h => hne (List.length_eq_zero_iff.1 h), by omega⟩
  have hdrop : (key ++ 0x3d :: value).drop (key.length + 1) = value := by
    rw [← List.drop_drop, List.drop_left]
    rfl
  simp only [setLine, htake, if_neg hlen, hdrop]

theorem setLine_malformed {line : List UInt8}
    (h : ∀ key value, line = key ++ 0x3d :: value → (0x3d : UInt8) ∉ key → key = []) (config : BootConfig) (seen : UInt32) :
    setLine config seen line = .error .syntaxError := by
  by_cases hmem : (0x3d : UInt8) ∈ line
  · obtain ⟨key, value, hline, hfree⟩ := List.eq_append_cons_of_mem hmem
    have hnil := h key value hline hfree
    rw [hline, hnil]
    rfl
  · have hline : ∀ c ∈ line, decide (c ≠ 0x3d) = true := fun c hc => decide_eq_true fun h => hmem (h ▸ hc)
    have htake : line.takeWhile (· ≠ 0x3d) = line := List.takeWhile_eq_self_iff.2 hline
    simp only [setLine, htake, or_true, if_true]

theorem setLine_entry (es : List Entry) (e : Entry) (config : BootConfig) :
    setLine config (seenOf es) (entryLine e) =
      if e.1 ∈ keys es then .error .duplicateKey
      else (applyField config e.1 e.2).map (·, seenOf (es ++ [e])) := by
  rw [entryLine, setLine_of_key (key_free e.1) (key_ne_nil e.1), setField, fieldFromKey_iff.2 rfl, seenOf_append]
  simp only [seen_iff]

theorem setLine_wellFormed {es : List Entry} {e : Entry} (h : WellFormed (es ++ [e])) :
    setLine (configOf (given es)) (seenOf es) (entryLine e) = .ok (configOf (given (es ++ [e])), seenOf (es ++ [e])) := by
  obtain ⟨hf, hv⟩ := h.of_append
  rw [setLine_entry, if_neg hf]
  rcases applyField_sets (given_not_mem hf) e.2 with ⟨-, hok⟩ | ⟨hwrong, -⟩ | ⟨hbad, -⟩
  · rw [hok, given_append hf]
    rfl
  · obtain ⟨hver, -, -, hne⟩ := hwrong
    rw [hver] at hv
    exact absurd hv.2 hne
  · exact absurd hv hbad

theorem setLine_offends {es : List Entry} {line : List UInt8} {status : Status} (h : Offends es line status) :
    setLine (configOf (given es)) (seenOf es) line = .error status := by
  cases h with
  | malformed hline => exact setLine_malformed hline _ _
  | @unsupported key value hline hkey =>
    rw [hline]
    rcases hkey with rfl | rfl
    · rw [setLine_of_key (by decide) (by decide)]
      rfl
    · rw [setLine_of_key (by decide) (by decide)]
      rfl
  | @unknown key value hline hfree hne hunknown hmodule hinitrd =>
    have hfield : fieldFromKey key = none :=
      Option.eq_none_iff_forall_ne_some.2 fun f hf => hunknown f (fieldFromKey_iff.1 hf)
    have hkey : unsupportedKey key = false := by
      simp only [unsupportedKey, spanEqual, Bool.or_eq_false_iff, beq_eq_false_iff_ne]
      exact ⟨hmodule, hinitrd⟩
    rw [hline, setLine_of_key hfree hne, setField, hfield, hkey]
    rfl
  | duplicate hline hf => rw [hline, setLine_entry, if_pos hf]
  | @version f v hline hf hwrong =>
    rw [hline, setLine_entry, if_neg hf]
    rcases applyField_sets (given_not_mem hf) v with ⟨hok, -⟩ | ⟨-, herr⟩ | ⟨-, hnot, -⟩
    · obtain ⟨hver, -, -, hne⟩ := hwrong
      rw [hver] at hok
      exact absurd hok.2 hne
    · rw [herr]
      rfl
    · exact absurd hwrong hnot
  | @value f v hline hf hbad hnot =>
    rw [hline, setLine_entry, if_neg hf]
    rcases applyField_sets (given_not_mem hf) v with ⟨hok, -⟩ | ⟨hwrong, -⟩ | ⟨-, -, herr⟩
    · exact absurd hok hbad
    · exact absurd hwrong hnot
    · rw [herr]
      rfl

/-- A line either goes on from the entries before it, or there is something wrong with it. -/
theorem line_cases {es : List Entry} (h : WellFormed es) (line : List UInt8) :
    (∃ e, line = entryLine e ∧ WellFormed (es ++ [e])) ∨ ∃ status, Offends es line status := by
  by_cases hmal : ∀ key value, line = key ++ 0x3d :: value → (0x3d : UInt8) ∉ key → key = []
  · exact Or.inr ⟨_, .malformed hmal⟩
  push Not at hmal
  obtain ⟨key, value, hline, hfree, hne⟩ := hmal
  by_cases hknown : ∃ f : Field, key = ascii f.key
  · obtain ⟨f, rfl⟩ := hknown
    by_cases hf : f ∈ keys es
    · exact Or.inr ⟨_, .duplicate hline hf⟩
    by_cases hv : ValueOk f value
    · exact Or.inl ⟨(f, value), hline, h.append hf hv⟩
    by_cases hwrong : WrongVersion f value
    · exact Or.inr ⟨_, .version hline hf hwrong⟩
    · exact Or.inr ⟨_, .value hline hf hv hwrong⟩
  · push Not at hknown
    by_cases hmodule : key = ascii "module"
    · exact Or.inr ⟨_, .unsupported hline (Or.inl hmodule)⟩
    by_cases hinitrd : key = ascii "initrd"
    · exact Or.inr ⟨_, .unsupported hline (Or.inr hinitrd)⟩
    · exact Or.inr ⟨_, .unknown hline hfree hne hknown hmodule hinitrd⟩

/-! ### All the lines -/

def setLines : List (List UInt8) → BootConfig → UInt32 → Except Status (BootConfig × UInt32)
  | [], config, seen => .ok (config, seen)
  | line :: lines, config, seen =>
    match setLine config seen line with
    | .error status => .error status
    | .ok (config, seen) => setLines lines config seen

theorem parseLine_eq (config : BootConfig) (seen : UInt32) (line : List UInt8) :
    parseLine config seen line =
      if isContent (stripCr line) = true then setLine config seen (stripCr line) else .ok (config, seen) := by
  rw [parseLine, isContent, setLine]
  cases stripCr line with
  | nil => rfl
  | cons c cs =>
    by_cases hc : c = 0x23
    · simp [hc]
    · simp [hc]

theorem parseLines_eq (lines : List (List UInt8)) (config : BootConfig) (seen : UInt32) :
    parseLines lines config seen = setLines ((lines.map stripCr).filter isContent) config seen := by
  induction lines generalizing config seen with
  | nil => rfl
  | cons line lines ih =>
    rw [parseLines, parseLine_eq, List.map_cons]
    by_cases hc : isContent (stripCr line) = true
    · rw [if_pos hc, List.filter_cons_of_pos hc, setLines]
      cases setLine config seen (stripCr line) with
      | error status => rfl
      | ok state => exact ih state.1 state.2
    · rw [if_neg hc, List.filter_cons_of_neg hc]
      exact ih config seen

theorem setLines_entries {es es' : List Entry} (h : WellFormed (es ++ es')) (rest : List (List UInt8)) :
    setLines (es'.map entryLine ++ rest) (configOf (given es)) (seenOf es) =
      setLines rest (configOf (given (es ++ es'))) (seenOf (es ++ es')) := by
  induction es' generalizing es with
  | nil => rw [List.append_nil, List.map_nil, List.nil_append]
  | cons e es' ih =>
    have happ : es ++ e :: es' = es ++ [e] ++ es' := by rw [List.append_assoc, List.singleton_append]
    rw [happ] at h ⊢
    rw [List.map_cons, List.cons_append, setLines, setLine_wellFormed (WellFormed.left h)]
    exact ih h

/-- The lines are the entries of a configuration, or there is a first line that offends. -/
theorem lines_cases (lines : List (List UInt8)) {es : List Entry} (h : WellFormed es) :
    (∃ es', lines = es'.map entryLine ∧ WellFormed (es ++ es')) ∨
    ∃ es' line post status, lines = es'.map entryLine ++ line :: post ∧ WellFormed (es ++ es') ∧
      Offends (es ++ es') line status := by
  induction lines generalizing es with
  | nil => exact Or.inl ⟨[], rfl, by rwa [List.append_nil]⟩
  | cons line lines ih =>
    rcases line_cases h line with ⟨e, rfl, he⟩ | ⟨status, hoff⟩
    · rcases ih he with ⟨es', rfl, hes'⟩ | ⟨es', line', post, status, rfl, hes', hoff⟩
      · rw [List.append_assoc] at hes'
        exact Or.inl ⟨e :: es', rfl, hes'⟩
      · rw [List.append_assoc] at hes' hoff
        exact Or.inr ⟨e :: es', line', post, status, rfl, hes', hoff⟩
    · exact Or.inr ⟨[], line, lines, status, rfl, by rwa [List.append_nil], by rwa [List.append_nil]⟩

theorem WellFormed.nil : WellFormed [] := ⟨List.nodup_nil, fun _ h => absurd h List.not_mem_nil⟩

theorem parseLines_offends {text : List UInt8} {es : List Entry} {line : List UInt8} {post : List (List UInt8)}
    {status : Status} (hlines : contentLines text = es.map entryLine ++ line :: post) (hes : WellFormed es)
    (hoff : Offends es line status) : parseLines (text.splitOn 0x0a) zeroConfig 0 = .error status := by
  have hrun := @setLines_entries [] es hes (line :: post)
  rw [← hlines, configOf_nil, List.nil_append, setLines, setLine_offends hoff] at hrun
  rw [parseLines_eq]
  exact hrun

theorem parseLines_entries {text : List UInt8} {es : List Entry} (hlines : contentLines text = es.map entryLine)
    (hes : WellFormed es) : parseLines (text.splitOn 0x0a) zeroConfig 0 = .ok (configOf (given es), seenOf es) := by
  have hrun := @setLines_entries [] es hes []
  rw [List.append_nil, ← hlines, configOf_nil, List.nil_append, setLines] at hrun
  rw [parseLines_eq]
  exact hrun

/-! ### The record is complete -/

theorem cString_rightpad {v : List UInt8} (capacity : Nat) (hv : (0 : UInt8) ∉ v) : cString (v.rightpad capacity 0) = v :=
  takeWhile_rightpad capacity hv

/-- The text fields of a record, with the sizes of their arrays. -/
def texts (config : BootConfig) : List (Field × List UInt8 × Nat) :=
  [(.default, config.defaultEntry, entryIdMax + 1), (.entry, config.entryId, entryIdMax + 1),
    (.name, config.displayName, nameMax + 1), (.kernel, config.kernelPath, pathMax + 1),
    (.previousKernel, config.previousKernelPath, pathMax + 1), (.recoveryKernel, config.recoveryKernelPath, pathMax + 1),
    (.cmdline, config.commandLine, cmdlineMax + 1)]

/-- The record holds the values: each text as a string that ends inside its array, each number as a number. -/
structure Holds (config : BootConfig) (value : Field → List UInt8) : Prop where
  version : config.version.toNat = decimal (value .version)
  timeout : config.timeoutSeconds.toNat = decimal (value .timeout)
  flags : config.flags = flagsOf (value .flags)
  strings : ∀ t ∈ texts config, cString t.2.1 = value t.1 ∧ t.2.1.length = t.2.2 ∧ (value t.1).length < t.2.2

theorem fits {P : List UInt8 → Prop} {v : List UInt8} {capacity : Nat} (hcapacity : 0 < capacity)
    (hlt : P v → v.length < capacity) (hfree : P v → (0 : UInt8) ∉ v) (hv : v = [] ∨ P v) :
    cString (v.rightpad capacity 0) = v ∧ (v.rightpad capacity 0).length = capacity ∧ v.length < capacity := by
  have hlen : v.length < capacity := by
    rcases hv with rfl | hok
    · exact hcapacity
    · exact hlt hok
  refine ⟨cString_rightpad capacity ?_, ?_, hlen⟩
  · rcases hv with rfl | hok
    · exact List.not_mem_nil
    · exact hfree hok
  · rw [List.rightpad, List.length_append, List.length_replicate]
    omega

theorem configOf_holds {es : List Entry} (h : WellFormed es) : Holds (configOf (given es)) (given es) := by
  have hok := given_ok h
  refine ⟨?_, ?_, rfl, ?_⟩
  · have hlt : decimal (given es .version) < 2 ^ 32 := by
      rcases hok .version with hnil | hval
      · rw [hnil]
        decide
      · rw [hval.2]
        decide
    rw [configOf, UInt32.toNat_ofNat', Nat.mod_eq_of_lt hlt]
  · have hlt : decimal (given es .timeout) < 2 ^ 32 := by
      rcases hok .timeout with hnil | hval
      · rw [hnil]
        decide
      · exact Nat.lt_of_le_of_lt hval.2 (by decide)
    rw [configOf, UInt32.toNat_ofNat', Nat.mod_eq_of_lt hlt]
  · simp only [texts, List.forall_mem_cons, configOf]
    exact ⟨fits (Nat.succ_pos _) IsId.lt IsId.zero_free (hok .default),
      fits (Nat.succ_pos _) IsId.lt IsId.zero_free (hok .entry),
      fits (Nat.succ_pos _) IsPrintable.lt IsPrintable.zero_free (hok .name),
      fits (Nat.succ_pos _) IsPath.lt IsPath.zero_free (hok .kernel),
      fits (Nat.succ_pos _) IsPath.lt IsPath.zero_free (hok .previousKernel),
      fits (Nat.succ_pos _) IsPath.lt IsPath.zero_free (hok .recoveryKernel),
      fits (Nat.succ_pos _) IsPrintable.lt IsPrintable.zero_free (hok .cmdline),
      fun _ h => absurd h List.not_mem_nil⟩

theorem sameEntry_iff {es : List Entry} (h : WellFormed es) :
    ((cString (configOf (given es)).defaultEntry).length ≠ (cString (configOf (given es)).entryId).length ||
      !spanEqual (cString (configOf (given es)).defaultEntry) (cString (configOf (given es)).entryId)) = true ↔
    given es .default ≠ given es .entry := by
  have hstrings := (configOf_holds h).strings
  simp only [texts, List.forall_mem_cons] at hstrings
  obtain ⟨⟨hdefault, -⟩, ⟨hentry, -⟩, -⟩ := hstrings
  rw [hdefault, hentry, spanEqual, Bool.or_eq_true, decide_eq_true_iff, Bool.not_eq_true', beq_eq_false_iff_ne]
  constructor
  · rintro (hlen | hne)
    · exact fun heq => hlen (congrArg List.length heq)
    · exact hne
  · exact Or.inr

/-! ### The whole text -/

/-- Why a text is rejected: its first offending line, a key that is missing, or an entry that is not the default. -/
inductive Rejects (text : List UInt8) : Status → Prop
  | line {es : List Entry} {line : List UInt8} {post : List (List UInt8)} {status : Status} :
      contentLines text = es.map entryLine ++ line :: post → WellFormed es → Offends es line status → Rejects text status
  | missing {es : List Entry} {f : Field} : contentLines text = es.map entryLine → WellFormed es → f ∈ Field.required →
      f ∉ keys es → Rejects text .missingRequired
  | otherEntry {es : List Entry} : contentLines text = es.map entryLine → WellFormed es →
      (∀ f ∈ Field.required, f ∈ keys es) → given es .default ≠ given es .entry → Rejects text .invalidValue

theorem parse_of_length {text : List UInt8} (hlen : 1 ≤ text.length ∧ text.length ≤ 1024) :
    parse text =
      match parseLines (text.splitOn 0x0a) zeroConfig 0 with
      | .error status => .error status
      | .ok (config, seen) =>
        if seen &&& requiredFields ≠ requiredFields then .error .missingRequired
        else if (cString config.defaultEntry).length ≠ (cString config.entryId).length ||
            !spanEqual (cString config.defaultEntry) (cString config.entryId) then .error .invalidValue
        else .ok config := by
  have hlong : ¬ (decide (text.length = 0) || decide (text.length > configMaxBytes)) = true := by
    rw [Bool.or_eq_true, decide_eq_true_iff, decide_eq_true_iff, configMaxBytes]
    omega
  unfold parse
  exact if_neg hlong

theorem parse_grammatical {text : List UInt8} (hlen : 1 ≤ text.length ∧ text.length ≤ 1024) {es : List Entry}
    (h : Grammatical text es) : parse text = .ok (configOf (given es)) := by
  rw [parse_of_length hlen, parseLines_entries h.lines h.wellFormed]
  simp only
  rw [if_neg (not_not.2 (seen_required_iff.2 h.required)), if_neg fun hne => (sameEntry_iff h.wellFormed).1 hne h.sameEntry]

theorem parse_rejects {text : List UInt8} (hlen : 1 ≤ text.length ∧ text.length ≤ 1024) {status : Status}
    (h : Rejects text status) : parse text = .error status := by
  rw [parse_of_length hlen]
  cases h with
  | line hlines hes hoff => rw [parseLines_offends hlines hes hoff]
  | missing hlines hes hf hmissing =>
    rw [parseLines_entries hlines hes]
    simp only
    rw [if_pos fun hall => hmissing (seen_required_iff.1 hall _ hf)]
  | otherEntry hlines hes hrequired hne =>
    rw [parseLines_entries hlines hes]
    simp only
    rw [if_neg (not_not.2 (seen_required_iff.2 hrequired)), if_pos ((sameEntry_iff hes).2 hne)]

/-- Every text is grammatical or rejected. -/
theorem grammatical_or_rejects (text : List UInt8) : (∃ es, Grammatical text es) ∨ ∃ status, Rejects text status := by
  rcases lines_cases (contentLines text) WellFormed.nil with ⟨es, hlines, hes⟩ | ⟨es, line, post, status, hlines, hes, hoff⟩
  · rw [List.nil_append] at hes
    by_cases hrequired : ∀ f ∈ Field.required, f ∈ keys es
    · by_cases hsame : given es .default = given es .entry
      · exact Or.inl ⟨es, hlines, hes, hrequired, hsame⟩
      · exact Or.inr ⟨_, .otherEntry hlines hes hrequired hsame⟩
    · push Not at hrequired
      obtain ⟨f, hf, hmissing⟩ := hrequired
      exact Or.inr ⟨_, .missing hlines hes hf hmissing⟩
  · rw [List.nil_append] at hes hoff
    exact Or.inr ⟨status, .line hlines hes hoff⟩

/-! ### The order of the lines -/

theorem perm_of_map {α β : Type} {f : α → β} {l : List β} {as : List α} (h : l.Perm (as.map f)) :
    ∃ as' : List α, as'.Perm as ∧ l = as'.map f := by
  have himage : List.Forall₂ (fun b a => b = f a) (as.map f) as :=
    List.forall₂_map_left_iff.2 (List.forall₂_same.2 fun _ _ => rfl)
  obtain ⟨as', hl, hperm⟩ := List.perm_comp_forall₂ h himage
  have heq : List.Forall₂ (· = ·) l (as'.map f) := List.forall₂_map_right_iff.2 hl
  rw [List.forall₂_eq_eq_eq] at heq
  exact ⟨as', hperm, heq⟩

theorem given_perm {es es' : List Entry} (hes : (keys es).Nodup) (h : es'.Perm es) : given es' = given es := by
  funext f
  by_cases hf : f ∈ keys es
  · obtain ⟨⟨f', v⟩, he, rfl⟩ := List.mem_map.1 hf
    rw [given_of_mem hes he, given_of_mem ((h.map Prod.fst).nodup_iff.2 hes) (h.mem_iff.2 he)]
  · rw [given_not_mem hf, given_not_mem fun hf' => hf ((h.map Prod.fst).mem_iff.1 hf')]

theorem Grammatical.perm {text text' : List UInt8} {es : List Entry} (h : Grammatical text es)
    (hperm : (contentLines text').Perm (contentLines text)) : ∃ es', Grammatical text' es' ∧ given es' = given es := by
  rw [h.lines] at hperm
  obtain ⟨es', hes', hlines⟩ := perm_of_map hperm
  have hgiven := given_perm h.wellFormed.distinct hes'
  have hkeys : (keys es').Perm (keys es) := hes'.map Prod.fst
  refine ⟨es', ⟨hlines, ⟨hkeys.nodup_iff.2 h.wellFormed.distinct, fun e he => h.wellFormed.values e (hes'.mem_iff.1 he)⟩,
    fun f hf => hkeys.mem_iff.2 (h.required f hf), ?_⟩, hgiven⟩
  rw [hgiven]
  exact h.sameEntry

/-- A text of 1 to 1024 bytes is accepted if and only if it is grammatical; the record then holds the values that its
lines give, whatever their order. Any other text is rejected for its first offending line, or else for what is
missing. -/
theorem parse_grammar (text : List UInt8) (hlen : 1 ≤ text.length ∧ text.length ≤ 1024) :
    (∀ config, parse text = .ok config ↔ ∃ es, Grammatical text es ∧ config = configOf (given es)) ∧
    (∀ es, Grammatical text es → Holds (configOf (given es)) (given es)) ∧
    (∀ text' config, 1 ≤ text'.length ∧ text'.length ≤ 1024 → (contentLines text').Perm (contentLines text) →
      parse text = .ok config → parse text' = .ok config) ∧
    ∀ status, parse text = .error status ↔ Rejects text status := by
  have hok : ∀ config, parse text = .ok config → ∃ es, Grammatical text es ∧ config = configOf (given es) := by
    intro config hparse
    rcases grammatical_or_rejects text with ⟨es, hes⟩ | ⟨status, hrej⟩
    · rw [parse_grammatical hlen hes] at hparse
      exact ⟨es, hes, (Except.ok.inj hparse).symm⟩
    · rw [parse_rejects hlen hrej] at hparse
      cases hparse
  refine ⟨fun config => ⟨hok config, ?_⟩, fun es hes => configOf_holds hes.wellFormed, ?_,
    fun status => ⟨?_, parse_rejects hlen⟩⟩
  · rintro ⟨es, hes, rfl⟩
    exact parse_grammatical hlen hes
  · intro text' config hlen' hperm hparse
    obtain ⟨es, hes, rfl⟩ := hok config hparse
    obtain ⟨es', hes', hgiven⟩ := hes.perm hperm
    rw [parse_grammatical hlen' hes', hgiven]
  · intro hparse
    rcases grammatical_or_rejects text with ⟨es, hes⟩ | ⟨status', hrej⟩
    · rw [parse_grammatical hlen hes] at hparse
      cases hparse
    · rw [parse_rejects hlen hrej] at hparse
      exact Except.error.inj hparse ▸ hrej

def smallText : List UInt8 := ascii "entry=a\r\n# comment\n\nversion=01\ndefault=a\ntimeout=0\nname=A\nkernel=/a"

theorem parse_smallText :
    ∃ config, parse smallText = .ok config ∧ isSet config.kernelPath = true ∧ cString config.kernelPath = ascii "/a" := by
  have hsome : ((parse smallText).toOption.map fun config => (isSet config.kernelPath, cString config.kernelPath)) =
      some (true, ascii "/a") := by decide
  cases hparse : parse smallText with
  | error status =>
    rw [hparse] at hsome
    cases hsome
  | ok config =>
    rw [hparse] at hsome
    exact ⟨config, rfl, Prod.mk.inj (Option.some.inj hsome)⟩

theorem parse_grammar_small :
    ∃ config es, parse smallText = .ok config ∧ Grammatical smallText es ∧ config = configOf (given es) := by
  obtain ⟨config, hparse, -⟩ := parse_smallText
  obtain ⟨es, hes, hconfig⟩ := ((parse_grammar smallText (by decide)).1 config).1 hparse
  exact ⟨config, es, hparse, hes, hconfig⟩

end JoshBios.Config
