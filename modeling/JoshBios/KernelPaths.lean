import JoshBios.UefiFiles
import JoshBios.ConfigParse

/-! # Paths on the UEFI side (`ascii_path_to_uefi`)

A path of the configuration becomes a string of 16-bit characters in a buffer of the caller, with backslashes for its
slashes. `asciiPathToUefiBuffer` is `asciiPathToUefi` with that buffer. The two sides check the path apart from each other:
`path_valid` bounds its length and lets no backslash through, `ascii_path_to_uefi` counts against the size of the buffer. So
every path that the parser lets through fits, and can be read back from the converted one (`asciiPath_uefiPath`). -/

namespace JoshBios.Uefi

open Health (BootSlot)
open Config (BootConfig HoldsPath isSet cString pathMax)

/-- A buffer of `CHAR16`. -/
abbrev Chars := Nat → UInt16

/-- The loop of `ascii_path_to_uefi` as it writes to the buffer `w`. -/
def convertPathBuffer (cap : Nat) : (o : Nat) → List UInt8 → Chars → Bool × Chars
  | o, [], w => (true, Function.update w o 0)
  | o, c :: cs, w =>
    if o + 1 ≥ cap then (false, w)
    else if c < 0x20 || c > 0x7e then (false, w)
    else convertPathBuffer cap (o + 1) cs (Function.update w o (if c = 0x2f then 0x5c else c.toUInt16))

/-- `ascii_path_to_uefi`, its result and what is in the buffer then. -/
def asciiPathToUefiBuffer (a : List UInt8) (w : Chars) (cap : Nat) : Bool × Chars :=
  if cap < 2 || a.getD 0 0 ≠ 0x2f then (false, w) else convertPathBuffer cap 0 (cString a) w

/-- The buffer with some characters from `o` on. -/
def Chars.write (w : Chars) (o : Nat) (l : List UInt16) : Chars :=
  fun k => if o ≤ k ∧ k < o + l.length then l.getD (k - o) 0 else w k

/-- The string in a buffer, up to the terminating zero. -/
def Chars.string (w : Chars) (cap : Nat) : List UInt16 := ((List.range cap).map w).takeWhile (· ≠ 0)

theorem Chars.write_cons (w : Chars) (o : Nat) (c : UInt16) (cs : List UInt16) :
    Chars.write (Function.update w o c) (o + 1) cs = w.write o (c :: cs) := by
  funext k
  rw [Chars.write, Chars.write, List.length_cons]
  rcases Nat.lt_trichotomy k o with hlt | rfl | hgt
  · rw [if_neg (by omega), if_neg (by omega), Function.update_of_ne (Nat.ne_of_lt hlt)]
  · rw [if_neg (by omega), if_pos (by omega), Function.update_self, Nat.sub_self, List.getD_cons_zero]
  · obtain ⟨j, rfl⟩ := Nat.exists_eq_add_of_lt hgt
    by_cases hj : j < cs.length
    · rw [if_pos (by omega), if_pos (by omega), show o + j + 1 - o = j + 1 by omega, List.getD_cons_succ,
        show o + j + 1 - (o + 1) = j by omega]
    · rw [if_neg (by omega), if_neg (by omega), Function.update_of_ne (by omega)]

theorem Chars.write_singleton (w : Chars) (o : Nat) (c : UInt16) : w.write o [c] = Function.update w o c := by
  rw [← Chars.write_cons]
  funext k
  exact if_neg (by rw [List.length_nil]; omega)

theorem Chars.string_write {path : List UInt16} (h0 : (0 : UInt16) ∉ path) {cap : Nat} (hlen : path.length < cap)
    (w : Chars) : (w.write 0 (path ++ [0])).string cap = path := by
  obtain ⟨n, rfl⟩ := Nat.exists_eq_add_of_le hlen
  have hfirst : (List.range (path.length + 1)).map (w.write 0 (path ++ [0])) = path ++ [0] := by
    refine List.ext_getElem (by simp) fun k hk hk' => ?_
    rw [List.getElem_map, List.getElem_range, Chars.write, if_pos ⟨Nat.zero_le _, by omega⟩, Nat.sub_zero,
      List.getD_eq_getElem _ _ hk']
  have hall : ∀ c ∈ path, decide (c ≠ 0) = true := fun c hc => decide_eq_true fun heq => h0 (heq ▸ hc)
  rw [Chars.string, List.range_add, List.map_append, hfirst, List.append_assoc, List.takeWhile_append_of_pos hall]
  simp

theorem convertPathBuffer_some {cap o : Nat} {cs : List UInt8} {path : List UInt16}
    (h : convertPath cap o cs = some path) (w : Chars) :
    convertPathBuffer cap o cs w = (true, w.write o (path ++ [0])) := by
  induction cs generalizing o path w with
  | nil =>
    obtain rfl : path = [] := (Option.some.inj h).symm
    exact congrArg (Prod.mk true) (w.write_singleton o 0).symm
  | cons c cs ih =>
    rw [convertPath] at h
    split at h
    · cases h
    next hroom =>
      split at h
      · cases h
      next hc =>
        obtain ⟨rest, hrest, rfl⟩ := Option.map_eq_some_iff.1 h
        rw [convertPathBuffer, if_neg hroom, if_neg hc, ih hrest, Chars.write_cons]
        rfl

theorem convertPathBuffer_none {cap o : Nat} {cs : List UInt8} (h : convertPath cap o cs = none) (w : Chars) :
    (convertPathBuffer cap o cs w).1 = false := by
  induction cs generalizing o w with
  | nil => cases h
  | cons c cs ih =>
    rw [convertPath] at h
    rw [convertPathBuffer]
    split
    · rfl
    next hroom =>
      split
      · rfl
      next hc =>
        rw [if_neg hroom, if_neg hc, Option.map_eq_none_iff] at h
        exact ih h _

theorem asciiPathToUefiBuffer_eq (a : List UInt8) (w : Chars) (cap : Nat) :
    (asciiPathToUefiBuffer a w cap).1 = (asciiPathToUefi a cap).isSome ∧
    ∀ path, asciiPathToUefi a cap = some path → (asciiPathToUefiBuffer a w cap).2 = w.write 0 (path ++ [0]) := by
  rw [asciiPathToUefi, asciiPathToUefiBuffer]
  split
  · exact ⟨rfl, nofun⟩
  cases hpath : convertPath cap 0 (cString a) with
  | none => exact ⟨convertPathBuffer_none hpath w, nofun⟩
  | some path =>
    rw [convertPathBuffer_some hpath]
    refine ⟨rfl, fun path' h => ?_⟩
    cases h
    rfl

/-! ### The paths that the parser lets through -/

/-- A character of a path, as the firmware takes it. -/
def uefiChar (c : UInt8) : UInt16 := if c = 0x2f then 0x5c else c.toUInt16

/-- A character of a path, as the configuration gives it. -/
def asciiChar (c : UInt16) : UInt8 := if c = 0x5c then 0x2f else c.toUInt8

def uefiPath (path : List UInt8) : List UInt16 := path.map uefiChar

def asciiPath (path : List UInt16) : List UInt8 := path.map asciiChar

theorem toUInt16_eq_iff {c d : UInt8} : c.toUInt16 = d.toUInt16 ↔ c = d := by
  rw [← UInt16.toNat_inj, UInt8.toNat_toUInt16, UInt8.toNat_toUInt16, UInt8.toNat_inj]

theorem asciiChar_uefiChar {c : UInt8} (h : c ≠ 0x5c) : asciiChar (uefiChar c) = c := by
  rw [uefiChar, asciiChar]
  by_cases hslash : c = 0x2f
  · rw [if_pos hslash, if_pos rfl, hslash]
  · have hne : c.toUInt16 ≠ 0x5c := fun heq => h ((@toUInt16_eq_iff c 0x5c).1 heq)
    rw [if_neg hslash, if_neg hne, UInt8.toUInt8_toUInt16]

theorem uefiChar_ne_zero {c : UInt8} (h : c ≠ 0) : uefiChar c ≠ 0 := by
  rw [uefiChar]
  split
  · decide
  · exact fun heq => h ((@toUInt16_eq_iff c 0).1 heq)

theorem asciiPath_uefiPath {path : List UInt8} (h : (0x5c : UInt8) ∉ path) : asciiPath (uefiPath path) = path := by
  rw [asciiPath, uefiPath, List.map_map]
  refine (List.map_congr_left fun c hc => ?_).trans (List.map_id path)
  exact asciiChar_uefiChar fun heq => h (heq ▸ hc)

theorem uefiPath_zero_free {path : List UInt8} (h : (0 : UInt8) ∉ path) : (0 : UInt16) ∉ uefiPath path := by
  intro hmem
  obtain ⟨c, hc, heq⟩ := List.mem_map.1 hmem
  exact uefiChar_ne_zero (fun hzero => h (hzero ▸ hc)) heq

theorem convertPath_eq {cap o : Nat} {cs : List UInt8} (hcs : ∀ c ∈ cs, 0x20 ≤ c ∧ c ≤ 0x7e) (ho : o + cs.length < cap) :
    convertPath cap o cs = some (uefiPath cs) := by
  induction cs generalizing o with
  | nil => rfl
  | cons c cs ih =>
    obtain ⟨hc, hcs⟩ := List.forall_mem_cons.1 hcs
    rw [List.length_cons] at ho
    rw [convertPath, if_neg (by omega), ih hcs (by omega), if_neg]
    · rfl
    · rw [Bool.or_eq_true, decide_eq_true_iff, decide_eq_true_iff, not_or, UInt8.not_lt, gt_iff_lt, UInt8.not_lt]
      exact hc

theorem getD_of_cString {a : List UInt8} {c : UInt8} (h : (cString a).head? = some c) : a.getD 0 0 = c := by
  cases a with
  | nil => cases h
  | cons b bs =>
    by_cases hb : b ≠ 0
    · rw [cString, List.takeWhile_cons_of_pos (by simpa using hb)] at h
      exact Option.some.inj h
    · rw [cString, List.takeWhile_cons_of_neg (by simpa using hb)] at h
      cases h

/-- Every path of an accepted configuration can be handed to the firmware. -/
theorem asciiPathToUefi_eq {a : List UInt8} (h : HoldsPath a) :
    asciiPathToUefi a (pathMax + 1) = some (uefiPath (cString a)) := by
  have hpath := Config.pathValid_iff.1 h.cString
  rw [asciiPathToUefi, getD_of_cString hpath.absolute, if_neg (by decide)]
  refine convertPath_eq (fun c hc => ⟨?_, (hpath.chars c hc).2.1⟩) ?_
  · exact UInt8.le_trans (by decide) (hpath.chars c hc).1
  · have hlen := hpath.length.2
    rw [pathMax]
    omega

theorem asciiPathToUefiBuffer_path {a : List UInt8} (h : HoldsPath a) (w : Chars) :
    asciiPathToUefiBuffer a w (pathMax + 1) = (true, w.write 0 (uefiPath (cString a) ++ [0])) := by
  obtain ⟨hok, hbuffer⟩ := asciiPathToUefiBuffer_eq a w (pathMax + 1)
  rw [asciiPathToUefi_eq h] at hok
  exact Prod.ext hok (hbuffer _ (asciiPathToUefi_eq h))

theorem length_uefiPath_lt {a : List UInt8} (h : HoldsPath a) : (uefiPath (cString a)).length < pathMax + 1 := by
  have hlen := (Config.pathValid_iff.1 h.cString).length.2
  rw [uefiPath, List.length_map, pathMax]
  omega

theorem asciiPath_string {a : List UInt8} (h : HoldsPath a) (w : Chars) :
    asciiPath ((asciiPathToUefiBuffer a w (pathMax + 1)).2.string (pathMax + 1)) = cString a := by
  have hpath := Config.pathValid_iff.1 h.cString
  rw [asciiPathToUefiBuffer_path h, Chars.string_write (uefiPath_zero_free hpath.zero_free) (length_uefiPath_lt h)]
  exact asciiPath_uefiPath fun hmem => (hpath.chars _ hmem).2.2 rfl

/-- Every path of a slot that the parser lets through is converted, character by character and with its terminating
zero, inside the buffer of the caller; and no other such path is converted to the same. -/
theorem kernel_paths_convert {text : List UInt8} {config : BootConfig} (hparse : Config.parse text = .ok config)
    {slot : BootSlot} (hset : isSet (slotPath config slot) = true) :
    (∀ w : Chars, asciiPathToUefiBuffer (slotPath config slot) w (pathMax + 1) =
      (true, w.write 0 (uefiPath (cString (slotPath config slot)) ++ [0]))) ∧
    (uefiPath (cString (slotPath config slot)) ++ [0]).length ≤ pathMax + 1 ∧
    ∀ (text' : List UInt8) (config' : BootConfig) (slot' : BootSlot) (w w' : Chars),
      Config.parse text' = .ok config' → isSet (slotPath config' slot') = true →
      (asciiPathToUefiBuffer (slotPath config slot) w (pathMax + 1)).2.string (pathMax + 1) =
        (asciiPathToUefiBuffer (slotPath config' slot') w' (pathMax + 1)).2.string (pathMax + 1) →
      cString (slotPath config slot) = cString (slotPath config' slot') := by
  have h := (Config.parse_accepted hparse).slotPath slot hset
  refine ⟨asciiPathToUefiBuffer_path h, ?_, fun text' config' slot' w w' hparse' hset' heq => ?_⟩
  · rw [List.length_append]
    exact length_uefiPath_lt h
  · have h' := (Config.parse_accepted hparse').slotPath slot' hset'
    rw [← asciiPath_string h w, heq, asciiPath_string h' w']

theorem kernel_paths_convert_small : ∃ config, Config.parse Config.smallText = .ok config ∧
    ∀ w : Chars, asciiPathToUefiBuffer config.kernelPath w 96 = (true, w.write 0 [0x5c, 0x61, 0]) := by
  obtain ⟨config, hparse, hset, hpath⟩ := Config.parse_smallText
  have hconvert := (@kernel_paths_convert _ _ hparse .current hset).1
  refine ⟨config, hparse, fun w => (hconvert w).trans ?_⟩
  rw [show slotPath config .current = config.kernelPath from rfl, hpath]
  rfl

end JoshBios.Uefi
