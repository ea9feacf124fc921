import JoshBios.FatChain

/-! # Reading a file (`josh_fat32_read_file`)

The bytes of a file are the contents of the clusters of its chain, one after the other; `contents` has none for the bytes
of a sector that the device cannot read. A read keeps three counters (clusters skipped, sector in the cluster, byte in the
sector); `Round` is one turn of its cluster loop in terms of the piece of the contents that the turn is about. -/

namespace JoshBios.Fat32

open Lib (follow nodeAt)

def sectorContents (device : BlockDevice) (lba : UInt64) : List (Option UInt8) :=
  match device.blockRead lba 1 with
  | none => .replicate 512 none
  | some sector => (sector.slice 0 512).map some

/-- `n` sectors from `lba` on. -/
def runContents (device : BlockDevice) : (n : Nat) → (lba : UInt64) → List (Option UInt8)
  | 0, _ => []
  | n + 1, lba => sectorContents device lba ++ runContents device n (lba + 1)

def clusterContents (device : BlockDevice) (fs : Fat32) (c : UInt32) : List (Option UInt8) :=
  match clusterLba fs c with
  | .error _ => []
  | .ok lba => runContents device fs.sectorsPerCluster.toNat lba

/-- The clusters of a list, one after the other. -/
def contents (device : BlockDevice) (fs : Fat32) (cs : List UInt32) : List (Option UInt8) :=
  cs.flatMap (clusterContents device fs)

def clusterBytes (fs : Fat32) : Nat := fs.sectorsPerCluster.toNat * 512

/-! ### The sector loop -/

section
variable {device : BlockDevice} {fs : Fat32}

@[simp] theorem length_sectorContents (lba : UInt64) : (sectorContents device lba).length = 512 := by
  rw [sectorContents]
  split
  · exact List.length_replicate
  · rw [List.length_map, Bytes.length_slice]

@[simp] theorem length_runContents (n : Nat) (lba : UInt64) : (runContents device n lba).length = n * 512 := by
  induction n generalizing lba with
  | zero => rw [Nat.zero_mul]; rfl
  | succ n ih =>
    rw [runContents, List.length_append, ih, length_sectorContents]
    omega

theorem drop_runContents {f n : Nat} (hf : f ≤ n) (lba : UInt64) :
    (runContents device n lba).drop (f * 512) = runContents device (n - f) (lba + UInt64.ofNat f) := by
  induction f generalizing n lba with
  | zero =>
    have hadd : lba + UInt64.ofNat 0 = lba := UInt64.add_zero lba
    rw [Nat.zero_mul, List.drop_zero, Nat.sub_zero, hadd]
  | succ f ih =>
    obtain ⟨n, rfl⟩ : ∃ m, n = m + 1 := ⟨n - 1, by omega⟩
    have hlen := @length_sectorContents device lba
    have hadd : lba + UInt64.ofNat (f + 1) = lba + 1 + UInt64.ofNat f := by
      rw [UInt64.ofNat_add, UInt64.add_assoc, UInt64.add_comm 1]
      rfl
    rw [runContents, show (f + 1) * 512 = (sectorContents device lba).length + f * 512 by omega, List.drop_append,
      List.drop_eq_nil_of_le (by omega), List.nil_append, Nat.add_sub_cancel_left, ih (by omega), hadd,
      Nat.add_sub_add_right]

theorem drop_take_slice (b : Bytes) {i n k : Nat} :
    ((b.slice 0 n).drop i).take k = b.slice i (min k (n - i)) := by
  refine List.ext_getElem? fun j => ?_
  simp only [Bytes.slice, List.getElem?_take, List.getElem?_drop, List.getElem?_map, Nat.zero_add]
  by_cases hj : j < k
  · by_cases hn : i + j < n
    · rw [if_pos hj, List.getElem?_range hn, List.getElem?_range (by omega)]
      rfl
    · rw [if_pos hj, List.getElem?_eq_none (by rw [List.length_range]; omega),
        List.getElem?_eq_none (by rw [List.length_range]; omega)]
      rfl
  · rw [if_neg hj, List.getElem?_eq_none (by rw [List.length_range]; omega)]
    rfl

theorem drop_take_append {α : Type} {l l' : List α} {i k : Nat} (hi : i ≤ l.length) :
    ((l ++ l').drop i).take k = (l.drop i).take k ++ l'.take (k - (l.length - i)) := by
  rw [List.drop_append_of_le_length hi, List.take_append, List.length_drop]

theorem toNat_pos_of_ne {n : UInt32} (h : n ≠ 0) : 0 < n.toNat := Nat.pos_iff_ne_zero.2 fun h0 => h (UInt32.toNat_inj.1 h0)

/-- The sector loop serves the bytes from `byteOffset` on, or fails at a sector among them. -/
theorem readSectors_spec (n : Nat) (lba : UInt64) {byteOffset : UInt32} (hb : byteOffset.toNat < 512) (r : Reading) :
    (none ∈ ((runContents device n lba).drop byteOffset.toNat).take r.remaining.toNat ∧
      ∃ r', readSectors device n lba byteOffset r = (.ioError, r')) ∨
    ∃ bs : List UInt8, ((runContents device n lba).drop byteOffset.toNat).take r.remaining.toNat = bs.map some ∧
      readSectors device n lba byteOffset r = (.ok, ⟨r.out ++ bs, r.remaining - UInt32.ofNat bs.length⟩) := by
  induction n generalizing lba byteOffset r with
  | zero =>
    refine Or.inr ⟨[], by simp [runContents], ?_⟩
    rw [readSectors, List.append_nil]
    simp
  | succ n ih =>
    rw [readSectors, runContents, drop_take_append (by rw [length_sectorContents]; omega), length_sectorContents]
    by_cases hz : r.remaining = 0
    · refine Or.inr ⟨[], by simp [hz], ?_⟩
      rw [if_pos hz, List.append_nil]
      simp
    have hpos := toNat_pos_of_ne hz
    rw [if_neg hz]
    cases hread : device.blockRead lba 1 with
    | none =>
      refine Or.inl ⟨List.mem_append_left _ ?_, r, rfl⟩
      rw [sectorContents, hread]
      simp only [List.drop_replicate, List.take_replicate, List.mem_replicate]
      exact ⟨by omega, trivial⟩
    | some sector =>
      -- what the turn takes, as a number
      have hsub : (512 - byteOffset).toNat = 512 - byteOffset.toNat :=
        UInt32.toNat_sub_of_le _ _ (UInt32.le_iff_toNat_le.2 (Nat.le_of_lt hb))
      have htake : (if 512 - byteOffset > r.remaining then r.remaining else 512 - byteOffset).toNat =
          min r.remaining.toNat (512 - byteOffset.toNat) := by
        split
        next hgt => have := UInt32.lt_iff_toNat_lt.1 hgt; omega
        next hgt => have := UInt32.le_iff_toNat_le.1 (UInt32.not_lt.1 hgt); omega
      simp only
      generalize (if 512 - byteOffset > r.remaining then r.remaining else 512 - byteOffset) = take at htake
      have hrem : (r.remaining - take).toNat = r.remaining.toNat - take.toNat :=
        UInt32.toNat_sub_of_le _ _ (UInt32.le_iff_toNat_le.2 (by omega))
      have hfirst : ((sectorContents device lba).drop byteOffset.toNat).take r.remaining.toNat =
          (sector.slice byteOffset.toNat take.toNat).map some := by
        rw [sectorContents, hread]
        simp only
        rw [← List.map_drop, ← List.map_take, drop_take_slice, htake]
      have hrest : r.remaining.toNat - (512 - byteOffset.toNat) = (r.remaining - take).toNat := by omega
      have hrec := @ih (lba + 1) 0 (by decide)
        { out := r.out ++ sector.slice byteOffset.toNat take.toNat, remaining := r.remaining - take }
      simp only [show (0 : UInt32).toNat = 0 from rfl, List.drop_zero] at hrec
      rw [hfirst, hrest]
      rcases hrec with ⟨hnone, r', hr'⟩ | ⟨bs, hbs, hr'⟩
      · exact Or.inl ⟨List.mem_append_right _ hnone, r', hr'⟩
      · refine Or.inr ⟨sector.slice byteOffset.toNat take.toNat ++ bs, by rw [hbs, List.map_append], ?_⟩
        have hsum : r.remaining - take - UInt32.ofNat bs.length = r.remaining - UInt32.ofNat (take.toNat + bs.length) := by
          rw [UInt32.ofNat_add, UInt32.ofNat_toNat, UInt32.sub_eq_add_neg, UInt32.sub_eq_add_neg, UInt32.sub_eq_add_neg,
            UInt32.neg_add, UInt32.sub_eq_add_neg, UInt32.add_assoc]
        rw [hr', List.length_append, Bytes.length_slice, List.append_assoc, hsum]

/-! ### One turn of the cluster loop -/

theorem length_clusterContents (h : Sound device fs) {c : UInt32} (hc : clusterValid fs c = true) :
    (clusterContents device fs c).length = clusterBytes fs := by
  obtain ⟨lba, hlba, -⟩ := h.clusterLba hc
  rw [clusterContents, hlba]
  exact length_runContents _ _

/-- What a read returns that is not at its end but cannot go on after `c`. -/
def stopStatus (device : BlockDevice) (fs : Fat32) (c : UInt32) : Status :=
  match nextCluster device fs c with
  | .error status => status
  | .ok _ => .corrupt

/-- The part of the cluster `c` that a turn is about. -/
def piece (device : BlockDevice) (fs : Fat32) (c offsetInCluster : UInt32) (r : Reading) : List (Option UInt8) :=
  ((clusterContents device fs c).drop offsetInCluster.toNat).take r.remaining.toNat

/-- One turn of the cluster loop, with bytes to come: all it can do, and what it returns. -/
inductive Round (device : BlockDevice) (fs : Fat32) (n : Nat) (visited c offsetInCluster : UInt32) (r : Reading) :
    Status × Reading → Prop
  | guard : fs.clusterCount < visited → Round device fs n visited c offsetInCluster r (.corrupt, r)
  | invalid : visited ≤ fs.clusterCount → clusterValid fs c = false →
      Round device fs n visited c offsetInCluster r (.corrupt, r)
  | unreadable {r' : Reading} : visited ≤ fs.clusterCount → clusterValid fs c = true →
      none ∈ piece device fs c offsetInCluster r → Round device fs n visited c offsetInCluster r (.ioError, r')
  | done {bs : List UInt8} : visited ≤ fs.clusterCount → clusterValid fs c = true →
      piece device fs c offsetInCluster r = bs.map some → bs.length = r.remaining.toNat →
      Round device fs n visited c offsetInCluster r (.ok, ⟨r.out ++ bs, 0⟩)
  | stuck {bs : List UInt8} : visited ≤ fs.clusterCount → clusterValid fs c = true →
      piece device fs c offsetInCluster r = bs.map some → bs.length + offsetInCluster.toNat = clusterBytes fs →
      bs.length < r.remaining.toNat → link device fs c = none →
      Round device fs n visited c offsetInCluster r
        (stopStatus device fs c, ⟨r.out ++ bs, r.remaining - UInt32.ofNat bs.length⟩)
  | goOn {bs : List UInt8} {next : UInt32} : visited ≤ fs.clusterCount → clusterValid fs c = true →
      piece device fs c offsetInCluster r = bs.map some → bs.length + offsetInCluster.toNat = clusterBytes fs →
      bs.length < r.remaining.toNat → link device fs c = some next →
      Round device fs n visited c offsetInCluster r
        (readClusters device fs n (visited + 1) next 0 ⟨r.out ++ bs, r.remaining - UInt32.ofNat bs.length⟩)

theorem toNat_sub_length {r : UInt32} {n : Nat} (h : n ≤ r.toNat) : (r - UInt32.ofNat n).toNat = r.toNat - n := by
  have hr := r.toNat_lt
  have hn : (UInt32.ofNat n).toNat = n := by
    rw [UInt32.toNat_ofNat', Nat.mod_eq_of_lt (by omega)]
  rw [UInt32.toNat_sub_of_le _ _ (UInt32.le_iff_toNat_le.2 (by omega)), hn]

theorem readClusters_round (h : Sound device fs) (n : Nat) (visited c : UInt32) {offsetInCluster : UInt32} {r : Reading}
    (hr : r.remaining ≠ 0) (ho : offsetInCluster.toNat < clusterBytes fs) :
    Round device fs n visited c offsetInCluster r (readClusters device fs (n + 1) visited c offsetInCluster r) := by
  rw [readClusters, if_neg hr]
  by_cases hv : visited > fs.clusterCount
  · rw [if_pos hv]
    exact .guard hv
  rw [if_neg hv]
  have hv' : visited ≤ fs.clusterCount := UInt32.not_lt.1 hv
  by_cases hc : clusterValid fs c = true
  · obtain ⟨lba, hlba, -⟩ := h.clusterLba hc
    have hlen := length_clusterContents h hc
    rw [hlba]
    simp only
    -- the sectors from the offset on, as the contents have them
    have hdiv : (offsetInCluster / 512).toNat = offsetInCluster.toNat / 512 := UInt32.toNat_div _ _
    have hmod : (offsetInCluster % 512).toNat = offsetInCluster.toNat % 512 := UInt32.toNat_mod _ _
    rw [clusterBytes] at ho
    have hlt := offsetInCluster.toNat_lt
    have hf : offsetInCluster.toNat / 512 ≤ fs.sectorsPerCluster.toNat := by omega
    have hlba' : lba + (offsetInCluster / 512).toUInt64 = lba + UInt64.ofNat (offsetInCluster.toNat / 512) := by
      congr 1
      rw [← UInt64.toNat_inj, UInt32.toNat_toUInt64, hdiv, UInt64.toNat_ofNat']
      omega
    have hpiece : ((runContents device (fs.sectorsPerCluster.toNat - (offsetInCluster / 512).toNat)
        (lba + (offsetInCluster / 512).toUInt64)).drop (offsetInCluster % 512).toNat).take r.remaining.toNat =
        piece device fs c offsetInCluster r := by
      rw [piece, clusterContents, hlba, hlba', hdiv, hmod, ← drop_runContents hf, List.drop_drop]
      congr 2
      omega
    have hspec := @readSectors_spec device (fs.sectorsPerCluster.toNat - (offsetInCluster / 512).toNat)
      (lba + (offsetInCluster / 512).toUInt64) (offsetInCluster % 512) (by omega) r
    rw [hpiece] at hspec
    rcases hspec with ⟨hnone, r', hr'⟩ | ⟨bs, hbs, hr'⟩
    · rw [hr']
      exact .unreadable hv' hc hnone
    · rw [hr']
      simp only
      have hbslen : bs.length = min r.remaining.toNat (clusterBytes fs - offsetInCluster.toNat) := by
        rw [← List.length_map (f := some), ← hbs, piece, List.length_take, List.length_drop, hlen]
      have hrem := toNat_sub_length (r := r.remaining) (n := bs.length) (by omega)
      by_cases hz : r.remaining - UInt32.ofNat bs.length = 0
      · rw [if_pos hz, hz]
        rw [hz, show (0 : UInt32).toNat = 0 from rfl] at hrem
        exact .done hv' hc hbs (by omega)
      · have hlt : bs.length < r.remaining.toNat := by
          refine Nat.lt_of_le_of_ne (by omega) fun heq => hz (UInt32.toNat_inj.1 ?_)
          rw [hrem, heq, Nat.sub_self]
          rfl
        rw [if_neg hz]
        have hfull : bs.length + offsetInCluster.toNat = clusterBytes fs := by
          rw [clusterBytes] at hbslen ⊢
          omega
        cases hnext : nextCluster device fs c with
        | error status =>
          have hst : stopStatus device fs c = status := by rw [stopStatus, hnext]
          simp only
          rw [← hst]
          exact .stuck hv' hc hbs hfull hlt (by rw [link, hnext])
        | ok next =>
          simp only
          by_cases heoc : next ≥ eocMin
          · have hst : stopStatus device fs c = .corrupt := by rw [stopStatus, hnext]
            rw [if_pos heoc, ← hst]
            exact .stuck hv' hc hbs hfull hlt (by rw [link, hnext]; exact if_pos heoc)
          · rw [if_neg heoc]
            exact .goOn hv' hc hbs hfull hlt (by rw [link, hnext]; exact if_neg heoc)
  · have hbad : clusterLba fs c = .error .corrupt := by
      rw [clusterLba, if_pos (by simpa using hc)]
    rw [hbad]
    exact .invalid hv' (by simpa using hc)

theorem stopStatus_ne_ok (c : UInt32) : stopStatus device fs c ≠ .ok := by
  rw [stopStatus]
  split
  next hn =>
    rintro rfl
    exact nextCluster_ne_ok device fs c hn
  · decide

/-! ### The whole loop -/

/-- The number of clusters that hold `n` bytes. -/
def clustersFor (fs : Fat32) (n : Nat) : Nat := (n + clusterBytes fs - 1) / clusterBytes fs

theorem Sound.clusterBytes_pos (h : Sound device fs) : 0 < clusterBytes fs := by
  have := h.spc_pos
  rw [clusterBytes]
  omega

theorem clustersFor_one (h : Sound device fs) {n : Nat} (hpos : 0 < n) (hn : n ≤ clusterBytes fs) : clustersFor fs n = 1 := by
  have hcb := h.clusterBytes_pos
  rw [clustersFor, Nat.div_eq_iff hcb]
  omega

theorem clustersFor_add (h : Sound device fs) {n : Nat} (hpos : 0 < n) :
    clustersFor fs (n + clusterBytes fs) = clustersFor fs n + 1 := by
  have hcb := h.clusterBytes_pos
  rw [clustersFor, clustersFor, show n + clusterBytes fs + clusterBytes fs - 1 = n + clusterBytes fs - 1 + clusterBytes fs by
    omega, Nat.add_div_right _ hcb]

theorem clustersFor_pos (h : Sound device fs) {n : Nat} (hpos : 0 < n) : 0 < clustersFor fs n := by
  have hcb := h.clusterBytes_pos
  exact Nat.div_pos (by omega) hcb

/-- What `remaining` bytes from `offset` on in the first `k` clusters from `c` are. -/
def window (device : BlockDevice) (fs : Fat32) (k : Nat) (c : UInt32) (offset remaining : Nat) : List (Option UInt8) :=
  ((contents device fs (chain device fs k c)).drop offset).take remaining

theorem window_one (c offset : UInt32) (r : Reading) :
    window device fs 1 c offset.toNat r.remaining.toNat = piece device fs c offset r := by
  rw [window, chain_one, contents, List.flatMap_singleton, piece]

theorem piece_subset_window (h : Sound device fs) {c offset : UInt32} {r : Reading} (hc : clusterValid fs c = true) (k : Nat)
    {x : Option UInt8} (hx : x ∈ piece device fs c offset r) :
    x ∈ window device fs (k + 1) c offset.toNat r.remaining.toNat := by
  have hlen := length_clusterContents h hc
  by_cases ho : offset.toNat ≤ clusterBytes fs
  · rw [window, chain, follow, contents, List.flatMap_cons, drop_take_append (by omega)]
    exact List.mem_append_left _ hx
  · rw [piece, List.drop_eq_nil_of_le (by omega), List.take_nil] at hx
    cases hx

theorem window_succ (h : Sound device fs) {c next offset : UInt32} {r : Reading} {bs : List UInt8} {k : Nat}
    (hnext : link device fs c = some next) (hpiece : piece device fs c offset r = bs.map some)
    (hfull : bs.length + offset.toNat = clusterBytes fs) (hlt : bs.length < r.remaining.toNat) :
    window device fs (k + 1) c offset.toNat r.remaining.toNat =
      bs.map some ++ window device fs k next 0 (r.remaining - UInt32.ofNat bs.length).toNat := by
  have hlen := length_clusterContents h (link_valid hnext)
  rw [window, window, chain, Lib.follow_of_some hnext, contents, List.flatMap_cons, drop_take_append (by omega), ← hpiece,
    piece, List.drop_zero, hlen, toNat_sub_length (Nat.le_of_lt hlt),
    show clusterBytes fs - offset.toNat = bs.length by omega]
  rfl

theorem length_piece (h : Sound device fs) {c offset : UInt32} {r : Reading} {bs : List UInt8} (hc : clusterValid fs c = true)
    (hpiece : piece device fs c offset r = bs.map some) :
    bs.length = min r.remaining.toNat (clusterBytes fs - offset.toNat) := by
  rw [← List.length_map (f := some), ← hpiece, piece, List.length_take, List.length_drop, length_clusterContents h hc]

theorem toNat_visited {visited : UInt32} (h : Sound device fs) (hv : visited ≤ fs.clusterCount) :
    (visited + 1).toNat = visited.toNat + 1 := by
  have hle := UInt32.le_iff_toNat_le.1 hv
  have hlt := h.clusters_lt
  rw [UInt32.toNat_add, show (1 : UInt32).toNat = 1 from rfl, Nat.mod_eq_of_lt (by omega)]

theorem goOn_numbers (h : Sound device fs) {offset : UInt32} {r : Reading} {bs : List UInt8}
    (hfull : bs.length + offset.toNat = clusterBytes fs) (hlt : bs.length < r.remaining.toNat) :
    r.remaining - UInt32.ofNat bs.length ≠ 0 ∧
      clustersFor fs (offset.toNat + r.remaining.toNat) =
        clustersFor fs ((0 : UInt32).toNat + (r.remaining - UInt32.ofNat bs.length).toNat) + 1 := by
  have hrem := toNat_sub_length (Nat.le_of_lt hlt)
  refine ⟨fun h0 => ?_, ?_⟩
  · rw [h0, show (0 : UInt32).toNat = 0 from rfl] at hrem
    omega
  · rw [hrem, ← clustersFor_add h (by rw [show (0 : UInt32).toNat = 0 from rfl]; omega),
      show (0 : UInt32).toNat = 0 from rfl]
    congr 1
    omega

/-- A read that ends well: how many clusters it went through, and what it delivered. -/
theorem readClusters_ok (h : Sound device fs) {n : Nat} {visited c offset : UInt32} {r r' : Reading}
    (hr : r.remaining ≠ 0) (ho : offset.toNat < clusterBytes fs)
    (hok : readClusters device fs n visited c offset r = (.ok, r')) {k : Nat}
    (hk : clustersFor fs (offset.toNat + r.remaining.toNat) = k) :
    visited.toNat + k ≤ fs.clusterCount.toNat + 1 ∧ (chain device fs k c).length = k ∧
      (∀ x ∈ chain device fs k c, clusterValid fs x = true) ∧
      ∃ bs : List UInt8, window device fs k c offset.toNat r.remaining.toNat = bs.map some ∧ r'.out = r.out ++ bs := by
  have hpos := toNat_pos_of_ne hr
  induction n generalizing visited c offset r k with
  | zero => cases hok
  | succ n ih =>
    have hround := readClusters_round h n visited c hr ho
    generalize readClusters device fs (n + 1) visited c offset r = result at hround hok
    cases hround with
    | guard => cases hok
    | invalid => cases hok
    | unreadable => cases hok
    | @done bs hv hc hpiece hlen =>
      have hmin := length_piece h hc hpiece
      obtain rfl : k = 1 := hk ▸ clustersFor_one h (by omega) (by omega)
      obtain rfl : _ = r' := congrArg Prod.snd hok
      have hv' := UInt32.le_iff_toNat_le.1 hv
      have hchain := @chain_one device fs c
      refine ⟨by omega, by rw [hchain]; rfl, fun x hx => ?_, bs, by rw [window_one, hpiece], rfl⟩
      rw [hchain, List.mem_singleton] at hx
      rw [hx]
      exact hc
    | @stuck bs => exact absurd (congrArg Prod.fst hok) (stopStatus_ne_ok c)
    | @goOn bs next hv hc hpiece hfull hlt hnext =>
      obtain ⟨hr₁, hk₁⟩ := goOn_numbers h hfull hlt
      have hpos₁ := toNat_pos_of_ne hr₁
      have ho₁ : (0 : UInt32).toNat < clusterBytes fs := h.clusterBytes_pos
      obtain ⟨k', rfl⟩ : ∃ k', k = k' + 1 := ⟨_, hk.symm.trans hk₁⟩
      obtain ⟨hvis, hlen, hvalid, bs', hwin, hout⟩ := ih hr₁ ho₁ hok (Nat.succ.inj (hk₁.symm.trans hk)) hpos₁
      rw [toNat_visited h hv] at hvis
      rw [chain, Lib.follow_of_some hnext]
      refine ⟨by omega, congrArg Nat.succ hlen, fun x hx => ?_, bs ++ bs', ?_, ?_⟩
      · rcases List.mem_cons.1 hx with rfl | hx
        · exact hc
        · exact hvalid x hx
      · rw [window_succ h hnext hpiece hfull hlt, List.map_append]
        exact congrArg (bs.map some ++ ·) hwin
      · rw [hout, List.append_assoc]

theorem readClusters_of_window (h : Sound device fs) {n : Nat} {visited c offset : UInt32} {r : Reading}
    (hr : r.remaining ≠ 0) (ho : offset.toNat < clusterBytes fs) (hfuel : fs.clusterCount.toNat + 2 ≤ visited.toNat + n)
    {k : Nat} (hk : clustersFor fs (offset.toNat + r.remaining.toNat) = k)
    (hvis : visited.toNat + k ≤ fs.clusterCount.toNat + 1) (hlen : (chain device fs k c).length = k)
    (hvalid : ∀ x ∈ chain device fs k c, clusterValid fs x = true)
    (hread : none ∉ window device fs k c offset.toNat r.remaining.toNat) :
    (readClusters device fs n visited c offset r).1 = .ok := by
  have hpos := toNat_pos_of_ne hr
  have hkpos : 0 < k := hk ▸ clustersFor_pos h (by omega)
  induction n generalizing visited c offset r k with
  | zero => omega
  | succ n ih =>
    obtain ⟨k, rfl⟩ : ∃ k', k = k' + 1 := ⟨k - 1, by omega⟩
    have hfirst : c ∈ chain device fs (k + 1) c := by
      rw [chain, follow]
      exact List.mem_cons_self ..
    have hround := readClusters_round h n visited c hr ho
    generalize readClusters device fs (n + 1) visited c offset r = result at hround
    cases hround with
    | guard hv => have := UInt32.lt_iff_toNat_lt.1 hv; omega
    | invalid hv hc => rw [hvalid c hfirst] at hc; cases hc
    | unreadable hv hc hnone => exact absurd (piece_subset_window h hc k hnone) hread
    | done => rfl
    | @stuck bs hv hc hpiece hfull hlt hnone =>
      obtain ⟨hr₁, hk₁⟩ := goOn_numbers h hfull hlt
      have hpos₁ := toNat_pos_of_ne hr₁
      have := clustersFor_pos h (n := (0 : UInt32).toNat + (r.remaining - UInt32.ofNat bs.length).toNat) (by omega)
      rw [chain, Lib.follow_of_none hnone, List.length_singleton] at hlen
      omega
    | @goOn bs next hv hc hpiece hfull hlt hnext =>
      obtain ⟨hr₁, hk₁⟩ := goOn_numbers h hfull hlt
      have hpos₁ := toNat_pos_of_ne hr₁
      have hv₁ := toNat_visited h hv
      have hk' : clustersFor fs ((0 : UInt32).toNat + (r.remaining - UInt32.ofNat bs.length).toNat) = k := by omega
      rw [chain, Lib.follow_of_some hnext] at hlen hvalid
      rw [window_succ h hnext hpiece hfull hlt] at hread
      exact ih hr₁ h.clusterBytes_pos (by omega) hk' (by omega) (Nat.succ.inj hlen)
        (fun x hx => hvalid x (List.mem_cons_of_mem c hx)) (fun hn => hread (List.mem_append_right _ hn)) hpos₁
        (hk' ▸ clustersFor_pos h (by omega))

/-- A read along a chain without end: it is taken for corrupt when the guard stops it, and no sector does before. -/
theorem readClusters_endless (h : Sound device fs) {n : Nat} {visited c offset : UInt32} {r : Reading}
    (hr : r.remaining ≠ 0) (ho : offset.toNat < clusterBytes fs) (hfuel : fs.clusterCount.toNat + 2 ≤ visited.toNat + n)
    {k : Nat} (hk : clustersFor fs (offset.toNat + r.remaining.toNat) = k)
    (hendless : ∀ m, (chain device fs m c).length = m) :
    (readClusters device fs n visited c offset r).1 = .corrupt ↔
      fs.clusterCount.toNat + 1 < visited.toNat + k ∧
      none ∉ window device fs (fs.clusterCount.toNat + 1 - visited.toNat) c offset.toNat r.remaining.toNat := by
  have hpos := toNat_pos_of_ne hr
  have hkpos : 0 < k := hk ▸ clustersFor_pos h (by omega)
  induction n generalizing visited c offset r k with
  | zero =>
    refine iff_of_true rfl ⟨by omega, ?_⟩
    rw [show fs.clusterCount.toNat + 1 - visited.toNat = 0 by omega]
    simp [window, chain, contents]
  | succ n ih =>
    obtain ⟨next, hnext⟩ : ∃ next, link device fs c = some next := by
      cases hl : link device fs c with
      | none =>
        have hlen := hendless 2
        rw [chain, Lib.follow_of_none hl] at hlen
        cases hlen
      | some next => exact ⟨next, rfl⟩
    have hround := readClusters_round h n visited c hr ho
    generalize readClusters device fs (n + 1) visited c offset r = result at hround
    cases hround with
    | guard hv =>
      have := UInt32.lt_iff_toNat_lt.1 hv
      refine iff_of_true rfl ⟨by omega, ?_⟩
      rw [show fs.clusterCount.toNat + 1 - visited.toNat = 0 by omega]
      simp [window, chain, contents]
    | invalid hv hc => rw [link_valid hnext] at hc; cases hc
    | unreadable hv hc hnone =>
      have := UInt32.le_iff_toNat_le.1 hv
      refine iff_of_false (by rintro ⟨⟩) fun hboth => hboth.2 ?_
      rw [show fs.clusterCount.toNat + 1 - visited.toNat = fs.clusterCount.toNat - visited.toNat + 1 by omega]
      exact piece_subset_window h hc _ hnone
    | @done bs hv hc hpiece hlen =>
      have := UInt32.le_iff_toNat_le.1 hv
      have hmin := length_piece h hc hpiece
      have := clustersFor_one h (n := offset.toNat + r.remaining.toNat) (by omega) (by omega)
      exact iff_of_false (by rintro ⟨⟩) fun hboth => by omega
    | @stuck bs hv hc hpiece hfull hlt hnone => rw [hnext] at hnone; cases hnone
    | @goOn bs next' hv hc hpiece hfull hlt hnext' =>
      obtain rfl : next = next' := Option.some.inj (hnext.symm.trans hnext')
      have hle := UInt32.le_iff_toNat_le.1 hv
      obtain ⟨hr₁, hk₁⟩ := goOn_numbers h hfull hlt
      have hpos₁ := toNat_pos_of_ne hr₁
      have hv₁ := toNat_visited h hv
      have hendless' : ∀ m, (chain device fs m next).length = m := by
        intro m
        have := hendless (m + 1)
        rw [chain, Lib.follow_of_some hnext] at this
        exact Nat.succ.inj this
      have ho₁ : (0 : UInt32).toNat < clusterBytes fs := h.clusterBytes_pos
      have hfuel₁ : fs.clusterCount.toNat + 2 ≤ (visited + 1).toNat + n := by omega
      have hrec := ih (r := ⟨r.out ++ bs, r.remaining - UInt32.ofNat bs.length⟩) hr₁ ho₁ hfuel₁ rfl hendless' hpos₁
        (clustersFor_pos h (Nat.lt_of_lt_of_le hpos₁ (Nat.le_add_left _ _)))
      refine hrec.trans ?_
      rw [hv₁, show fs.clusterCount.toNat + 1 - visited.toNat = fs.clusterCount.toNat + 1 - (visited.toNat + 1) + 1 by omega,
        window_succ h hnext hpiece hfull hlt, List.mem_append]
      simp only [List.mem_map, reduceCtorEq, and_false, exists_false, false_or, show (0 : UInt32).toNat = 0 from rfl] at hk₁ ⊢
      refine and_congr_left' ?_
      omega

/-! ### The whole read -/

theorem skipClusters_eq (n : Nat) (c : UInt32) : skipClusters device fs n c = nodeAt (link device fs) n c := by
  induction n generalizing c with
  | zero => rfl
  | succ n ih =>
    rw [skipClusters, nodeAt, link]
    cases nextCluster device fs c with
    | error status => rfl
    | ok next =>
      simp only
      split
      · rfl
      · exact ih next

theorem length_contents (h : Sound device fs) {cs : List UInt32} (hcs : ∀ x ∈ cs, clusterValid fs x = true) :
    (contents device fs cs).length = cs.length * clusterBytes fs := by
  induction cs with
  | nil => rw [List.length_nil, Nat.zero_mul]; rfl
  | cons c cs ih =>
    rw [contents, List.flatMap_cons, List.length_append, length_clusterContents h (hcs c (List.mem_cons_self ..)),
      List.length_cons, Nat.add_mul, Nat.one_mul, Nat.add_comm]
    exact congrArg (· + _) (ih fun x hx => hcs x (List.mem_cons_of_mem c hx))

theorem window_skip (h : Sound device fs) {s : Nat} {first c : UInt32} (hc : nodeAt (link device fs) s first = some c)
    (k o n : Nat) : window device fs (s + k) first (s * clusterBytes fs + o) n = window device fs k c o n := by
  have hlen := length_contents h (chain_valid hc)
  rw [chain, Lib.length_follow_of_nodeAt hc] at hlen
  have hdrop : (contents device fs (follow (link device fs) s first)).drop (s * clusterBytes fs + o) = [] :=
    List.drop_eq_nil_of_le (by omega)
  have happ : contents device fs (follow (link device fs) s first ++ follow (link device fs) k c) =
      contents device fs (follow (link device fs) s first) ++ contents device fs (follow (link device fs) k c) :=
    List.flatMap_append
  rw [window, window, chain, chain, Lib.follow_add hc, happ, List.drop_append, hdrop, List.nil_append, hlen,
    Nat.add_sub_cancel_left]

theorem toNat_clusterBytes (h : Sound device fs) :
    (fs.sectorsPerCluster.toUInt32 * 512).toNat = clusterBytes fs := by
  have hle := h.spc_le
  rw [UInt32.toNat_mul, UInt8.toNat_toUInt32, show (512 : UInt32).toNat = 512 from rfl, Nat.mod_eq_of_lt (by omega),
    clusterBytes]

theorem clustersFor_split (h : Sound device fs) (offset n : Nat) :
    clustersFor fs (offset + n) = offset / clusterBytes fs + clustersFor fs (offset % clusterBytes fs + n) := by
  have hcb := h.clusterBytes_pos
  have hdiv := Nat.div_add_mod offset (clusterBytes fs)
  rw [clustersFor, clustersFor]
  have hsum : offset + n + clusterBytes fs - 1 =
      offset % clusterBytes fs + n + clusterBytes fs - 1 + clusterBytes fs * (offset / clusterBytes fs) := by omega
  rw [hsum, Nat.add_mul_div_left _ _ hcb, Nat.add_comm]

end

/-- The bytes that a read is to deliver: what is asked for, as far as the file goes. -/
def wanted (file : File) (offset length : UInt32) : Nat := min length.toNat (file.size.toNat - offset.toNat)

section
variable {device : BlockDevice} {fs : Fat32} {file : File} {offset length : UInt32}

theorem toNat_served (length : UInt32) (hoff : offset ≤ file.size) :
    (if length > file.size - offset then file.size - offset else length).toNat = wanted file offset length := by
  have hsub := UInt32.toNat_sub_of_le _ _ hoff
  rw [wanted]
  split
  next hgt => have := UInt32.lt_iff_toNat_lt.1 hgt; omega
  next hgt => have := UInt32.le_iff_toNat_le.1 (UInt32.not_lt.1 hgt); omega

theorem readFile_empty (hfile : file.attributes &&& attrDirectory = 0) (hoff : offset ≤ file.size)
    (hn : wanted file offset length = 0) :
    readFile device fs file offset length = { status := .ok, bytesRead := 0, out := [] } := by
  have hserved := toNat_served length hoff
  rw [hn] at hserved
  simp only [readFile, hfile, ne_eq, not_true, if_false, gt_iff_lt, UInt32.not_lt.2 hoff]
  rw [if_pos (UInt32.toNat_inj.1 hserved)]

theorem toNat_skip (h : Sound device fs) (offset : UInt32) :
    (offset / (fs.sectorsPerCluster.toUInt32 * 512)).toNat = offset.toNat / clusterBytes fs := by
  rw [UInt32.toNat_div, toNat_clusterBytes h]

theorem toNat_inCluster (h : Sound device fs) (offset : UInt32) :
    (offset % (fs.sectorsPerCluster.toUInt32 * 512)).toNat = offset.toNat % clusterBytes fs := by
  rw [UInt32.toNat_mod, toNat_clusterBytes h]

theorem served_ne_zero (hoff : offset ≤ file.size) (hn : wanted file offset length ≠ 0) :
    (if length > file.size - offset then file.size - offset else length) ≠ 0 := by
  intro h0
  have hserved := toNat_served length hoff
  rw [h0] at hserved
  exact hn hserved.symm

/-- What a read enters the cluster loop with. -/
structure EntersLoop (device : BlockDevice) (fs : Fat32) (file : File) (offset length skip c inCluster served : UInt32) :
    Prop where
  first : clusterValid fs file.firstCluster = true
  reached : nodeAt (link device fs) (offset.toNat / clusterBytes fs) file.firstCluster = some c
  skip_eq : skip.toNat = offset.toNat / clusterBytes fs
  inCluster_eq : inCluster.toNat = offset.toNat % clusterBytes fs
  inCluster_lt : inCluster.toNat < clusterBytes fs
  served_eq : served.toNat = wanted file offset length
  served_ne : served ≠ 0

/-- A read of some bytes: the first cluster is invalid, the chain ends before the offset, or the loop decides. -/
theorem readFile_cases (hfile : file.attributes &&& attrDirectory = 0) (hoff : offset ≤ file.size)
    (h : Sound device fs) (hn : wanted file offset length ≠ 0) :
    ((clusterValid fs file.firstCluster = false ∨
        nodeAt (link device fs) (offset.toNat / clusterBytes fs) file.firstCluster = none) ∧
      readFile device fs file offset length = { status := .corrupt, bytesRead := 0, out := [] }) ∨
    ∃ skip c inCluster served status r,
      EntersLoop device fs file offset length skip c inCluster served ∧
      readClusters device fs (fs.clusterCount.toNat + 2) skip c inCluster ⟨[], served⟩ = (status, r) ∧
      readFile device fs file offset length =
        { status, bytesRead := if status = .ok then served else 0, out := r.out } := by
  have hserved := toNat_served length hoff
  have hz := served_ne_zero hoff hn
  simp only [readFile, if_neg (not_not.2 hfile), if_neg (UInt32.not_lt.2 hoff)]
  generalize (if length > file.size - offset then file.size - offset else length) = served at hserved hz
  rw [if_neg hz]
  by_cases hv : clusterValid fs file.firstCluster = true
  · have hin := toNat_inCluster h offset
    rw [if_neg (by simp [hv]), skipClusters_eq, toNat_skip h]
    cases hnode : nodeAt (link device fs) (offset.toNat / clusterBytes fs) file.firstCluster with
    | none => exact Or.inl ⟨Or.inr rfl, rfl⟩
    | some c =>
      generalize hres : readClusters device fs (fs.clusterCount.toNat + 2)
        (offset / (fs.sectorsPerCluster.toUInt32 * 512)) c (offset % (fs.sectorsPerCluster.toUInt32 * 512))
        ⟨[], served⟩ = result
      obtain ⟨status, r⟩ := result
      have henters : EntersLoop device fs file offset length _ c _ served :=
        ⟨hv, hnode, toNat_skip h offset, hin, hin ▸ Nat.mod_lt _ h.clusterBytes_pos, hserved, hz⟩
      refine Or.inr ⟨_, c, _, served, status, r, henters, hres, ?_⟩
      simp only [hres]
      cases status with
      | ok => rfl
      | _ => rfl
  · rw [if_pos (by simpa using hv)]
    exact Or.inl ⟨Or.inl (by simpa using hv), rfl⟩

end

end JoshBios.Fat32
