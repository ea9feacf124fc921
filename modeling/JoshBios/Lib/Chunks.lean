import JoshBios.Lib.Bytes

/-! # Chunks moved within one memory

A loader that stages an image in the memory it loads into moves a list of chunks: each is copied from its source
to its destination and padded with zeros, one after the other. If the destinations are apart, the result is
right for every chunk just when no byte that is still to be copied was overwritten with another value
(`placeAll_holds_iff`). -/

namespace JoshBios

structure Chunk where
  dest : Nat
  src : Nat
  size : Nat
  zeros : Nat
deriving DecidableEq, Repr

namespace Chunk

/-- The addresses that the chunk fills. -/
def Covers (c : Chunk) (i : Nat) : Prop := c.dest ≤ i ∧ i < c.dest + c.size + c.zeros

/-- The addresses that it is copied from. -/
def Reads (c : Chunk) (i : Nat) : Prop := c.src ≤ i ∧ i < c.src + c.size

/-- What the chunk of the memory `m` has for its address `i`. -/
def content (c : Chunk) (m : Bytes) (i : Nat) : UInt8 := if i < c.dest + c.size then m (c.src + (i - c.dest)) else 0

/-- The chunk of the memory `m₀` is in place in `m`. -/
def Holds (c : Chunk) (m₀ m : Bytes) : Prop := ∀ i, c.Covers i → m i = c.content m₀ i

def Apart (c d : Chunk) : Prop := c.dest + c.size + c.zeros ≤ d.dest ∨ d.dest + d.size + d.zeros ≤ c.dest

def place (m : Bytes) (c : Chunk) : Bytes := memzero (memcopy m c.dest c.src c.size) (c.dest + c.size) c.zeros

def placeAll (m : Bytes) (cs : List Chunk) : Bytes := cs.foldl place m

/-- Placing `c` leaves the bytes that `d` still needs as they are. -/
def Spares (m : Bytes) (c d : Chunk) : Prop := ∀ i, c.Covers i → d.Reads i → c.content m i = m i

/-- So does the copy of `c` itself, which goes upwards: below its source it can do no harm. -/
def SparesItself (m : Bytes) (c : Chunk) : Prop :=
  c.src < c.dest → ∀ i, c.dest ≤ i → c.Reads i → c.content m i = m i

structure Kept (m : Bytes) (cs : List Chunk) : Prop where
  later : cs.Pairwise (Spares m)
  own : ∀ c ∈ cs, c.SparesItself m

theorem place_outside {m : Bytes} {c : Chunk} {i : Nat} (h : ¬ c.Covers i) : place m c i = m i := by
  have h' : i < c.dest ∨ c.dest + c.size + c.zeros ≤ i := by
    by_contra hn
    exact h ⟨by omega, by omega⟩
  rw [place, memzero_outside _ (by omega), memcopy_outside _ (by omega)]

theorem agreeOn_place {P : Nat → Prop} {m m' : Bytes} (h : AgreeOn P m m') (c : Chunk) (hr : ∀ i, c.Reads i → P i) :
    AgreeOn (fun i => P i ∨ c.Covers i) (place m c) (place m' c) := by
  refine ((h.memcopy c.dest c.src c.size fun i h₁ h₂ => hr i ⟨h₁, h₂⟩).memzero (c.dest + c.size) c.zeros).mono ?_
  rintro i (hi | hi)
  · exact Or.inl (Or.inl hi)
  · have h₁ := hi.1
    have h₂ := hi.2
    by_cases hf : i < c.dest + c.size
    · exact Or.inl (Or.inr ⟨h₁, hf⟩)
    · exact Or.inr ⟨by omega, h₂⟩

theorem place_file (m : Bytes) (c : Chunk) {k : Nat} (hk : k < c.size) :
    place m c (c.dest + k) = memcopy m c.dest c.src c.size (c.dest + k) := by
  rw [place, memzero_outside _ (by omega)]

theorem content_file (c : Chunk) (m : Bytes) {k : Nat} (hk : k < c.size) : c.content m (c.dest + k) = m (c.src + k) := by
  rw [content, if_pos (by omega), Nat.add_sub_cancel_left]

theorem Apart.not_covers {c d : Chunk} (h : c.Apart d) {i : Nat} (hi : c.Covers i) : ¬ d.Covers i := by
  intro hd
  have h₁ := hi.1
  have h₂ := hi.2
  have h₃ := hd.1
  have h₄ := hd.2
  rcases h with h | h
  · omega
  · omega

theorem holds_place {m₀ m : Bytes} {c : Chunk} (hm : ∀ i, c.Reads i → m i = m₀ i) (hs : c.SparesItself m₀) :
    c.Holds m₀ (place m c) := by
  intro i hi
  by_cases hf : i < c.dest + c.size
  · obtain ⟨k, rfl⟩ := Nat.exists_eq_add_of_le hi.1
    have hk : k < c.size := by omega
    rw [place_file m c hk, content_file c m₀ hk, memcopy_exact m ?_ hk]
    · exact hm _ ⟨by omega, by omega⟩
    · intro hlt i h₁ h₂
      have hr : c.Reads i := ⟨by omega, h₂⟩
      have hsi := hs hlt i h₁ hr
      rw [content, if_pos (by omega)] at hsi
      rw [hm _ ⟨by omega, by omega⟩, hm i hr]
      exact hsi
  · rw [place, content, if_neg hf]
    exact memzero_inside _ (by omega) (by have := hi.2; omega)

section
variable {m₀ m : Bytes} {cs : List Chunk} (hout : ∀ i, (∀ c ∈ cs, ¬ c.Covers i) → m i = m₀ i)
  (hin : ∀ c ∈ cs, c.Holds m₀ m)
include hout hin

theorem reads_of_spares {d : Chunk} (hs : ∀ c ∈ cs, Spares m₀ c d) {i : Nat} (hi : d.Reads i) : m i = m₀ i := by
  by_cases hc : ∃ c ∈ cs, c.Covers i
  · obtain ⟨c, hc, hcov⟩ := hc
    rw [hin c hc i hcov]
    exact hs c hc i hcov hi
  · exact hout i fun c hmem hcov => hc ⟨c, hmem, hcov⟩

/-- After the chunks `cs`, one more chunk is placed right just when they spared it and it spares itself. -/
theorem holds_place_iff {d : Chunk} (hd : ∀ c ∈ cs, c.Apart d) :
    d.Holds m₀ (place m d) ↔ (∀ c ∈ cs, Spares m₀ c d) ∧ d.SparesItself m₀ := by
  refine ⟨fun h => ⟨?_, ?_⟩, fun h => holds_place (fun i hi => reads_of_spares hout hin h.1 hi) h.2⟩
  · intro c hc i hcov hr
    obtain ⟨k, rfl⟩ := Nat.exists_eq_add_of_le hr.1
    have hk : k < d.size := by have := hr.2; omega
    -- the destination of `d` does not reach a byte of `c`, so this one is copied before it could be overwritten
    have hnot := (hd c hc).not_covers hcov
    have hsafe : d.dest ≤ d.src ∨ d.src + k < d.dest := by
      by_contra hn
      exact hnot ⟨by omega, by omega⟩
    have hcopied := h (d.dest + k) ⟨by omega, by omega⟩
    rw [place_file m d hk, content_file d m₀ hk, memcopy_at m hsafe hk] at hcopied
    rw [← hin c hc _ hcov]
    exact hcopied
  · intro hlt i hi hr
    have hlt' := hr.2
    obtain ⟨k, rfl⟩ := Nat.exists_eq_add_of_le hr.1
    obtain ⟨t, ht⟩ := Nat.exists_eq_add_of_le hi
    have hk : k < d.size := by omega
    have htk : t < d.size := by omega
    -- the byte at `dest + k` was copied from `dest + t`, where the copy had already been
    have h₁ := h (d.dest + k) ⟨by omega, by omega⟩
    have h₂ := h (d.dest + t) ⟨by omega, by omega⟩
    rw [place_file m d hk, content_file d m₀ hk, memcopy_back m hlt (by omega) hk, ht] at h₁
    rw [place_file m d htk] at h₂
    rw [ht, ← h₂, h₁]

end

theorem placeAll_outside {m : Bytes} {cs : List Chunk} {i : Nat} (h : ∀ c ∈ cs, ¬ c.Covers i) :
    placeAll m cs i = m i := by
  induction cs generalizing m with
  | nil => rfl
  | cons c cs ih =>
    rw [placeAll, List.foldl_cons, ← placeAll, ih fun d hd => h d (List.mem_cons_of_mem c hd)]
    exact place_outside (h c (List.mem_cons_self ..))

/-- Every chunk is in place just when none lost a byte it still needed. -/
theorem placeAll_holds_iff (m : Bytes) {cs : List Chunk} (hd : cs.Pairwise Apart) :
    (∀ c ∈ cs, c.Holds m (placeAll m cs)) ↔ Kept m cs := by
  induction cs using List.reverseRecOn with
  | nil => exact ⟨fun _ => ⟨List.Pairwise.nil, nofun⟩, fun _ => nofun⟩
  | append_singleton cs d ih =>
    obtain ⟨hcs, -, hlast⟩ := List.pairwise_append.1 hd
    have hapart : ∀ c ∈ cs, c.Apart d := fun c hc => hlast c hc d (List.mem_singleton_self d)
    have hplace : placeAll m (cs ++ [d]) = place (placeAll m cs) d := by
      rw [placeAll, List.foldl_append]
      rfl
    -- the last chunk does not touch the others
    have hframe : ∀ c ∈ cs, c.Holds m (place (placeAll m cs) d) ↔ c.Holds m (placeAll m cs) := by
      intro c hc
      refine forall_congr' fun i => forall_congr' fun hi => ?_
      rw [place_outside ((hapart c hc).not_covers hi)]
    have hstep : (∀ c ∈ cs, c.Holds m (placeAll m cs)) →
        (d.Holds m (place (placeAll m cs) d) ↔ (∀ c ∈ cs, Spares m c d) ∧ d.SparesItself m) := fun hin =>
      holds_place_iff (fun i hi => placeAll_outside hi) hin hapart
    rw [hplace]
    constructor
    · intro h
      have hin : ∀ c ∈ cs, c.Holds m (placeAll m cs) := fun c hc => (hframe c hc).1 (h c (List.mem_append_left _ hc))
      have hkept := (ih hcs).1 hin
      obtain ⟨hsp, hself⟩ := (hstep hin).1 (h d (List.mem_append_right _ (List.mem_singleton_self d)))
      refine ⟨List.pairwise_append.2 ⟨hkept.later, List.pairwise_singleton _ _, fun c hc d' hd' => ?_⟩, fun c hc => ?_⟩
      · rw [List.mem_singleton.1 hd']
        exact hsp c hc
      · rcases List.mem_append.1 hc with hc | hc
        · exact hkept.own c hc
        · rw [List.mem_singleton.1 hc]
          exact hself
    · intro h
      obtain ⟨hlater, -, hsp⟩ := List.pairwise_append.1 h.later
      have hin := (ih hcs).2 ⟨hlater, fun c hc => h.own c (List.mem_append_left _ hc)⟩
      intro c hc
      rcases List.mem_append.1 hc with hc | hc
      · exact (hframe c hc).2 (hin c hc)
      · rw [List.mem_singleton.1 hc]
        exact (hstep hin).2 ⟨fun c hc => hsp c hc d (List.mem_singleton_self d),
          h.own d (List.mem_append_right _ (List.mem_singleton_self d))⟩

end Chunk

end JoshBios
