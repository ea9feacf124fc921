import JoshBios.FatRead

/-! # What a read serves

`readFile_serves` says of `josh_fat32_read_file` when it delivers the bytes of the file and which these are. The loop counts
the clusters that it goes through and gives up when there are more than the volume has: a chain without repetitions is never
that long, so the count does not stop it; but a chain with repetitions may be short enough to be served
(`readFile_detects_cycles_iff`). -/

namespace JoshBios.Fat32

open Lib (follow nodeAt)

/-- The clusters of the chain that a read has to go through, those before the offset included. -/
def clustersNeeded (fs : Fat32) (file : File) (offset length : UInt32) : Nat :=
  if file.attributes &&& attrDirectory ≠ 0 ∨ wanted file offset length = 0 then 0
  else clustersFor fs (offset.toNat + wanted file offset length)

/-- The bytes of the file that a read has to deliver, none for those of a sector that cannot be read. -/
def fileWindow (device : BlockDevice) (fs : Fat32) (file : File) (offset length : UInt32) : List (Option UInt8) :=
  window device fs (clustersNeeded fs file offset length) file.firstCluster offset.toNat (wanted file offset length)

section
variable {device : BlockDevice} {fs : Fat32} {file : File} {offset length : UInt32}

theorem needed_split (h : Sound device fs) (hfile : file.attributes &&& attrDirectory = 0)
    (hn : wanted file offset length ≠ 0) :
    clustersNeeded fs file offset length = offset.toNat / clusterBytes fs +
      clustersFor fs (offset.toNat % clusterBytes fs + wanted file offset length) := by
  rw [clustersNeeded, if_neg (not_or.2 ⟨not_not.2 hfile, hn⟩), clustersFor_split h]

theorem fileWindow_skip (h : Sound device fs) (hfile : file.attributes &&& attrDirectory = 0)
    (hn : wanted file offset length ≠ 0) {c : UInt32}
    (hc : nodeAt (link device fs) (offset.toNat / clusterBytes fs) file.firstCluster = some c) :
    fileWindow device fs file offset length =
      window device fs (clustersFor fs (offset.toNat % clusterBytes fs + wanted file offset length)) c
        (offset.toNat % clusterBytes fs) (wanted file offset length) := by
  rw [← window_skip h hc, fileWindow, needed_split h hfile hn, Nat.mul_comm, Nat.div_add_mod]

theorem readFile_window (h : Sound device fs) (hfile : file.attributes &&& attrDirectory = 0) (hoff : offset ≤ file.size)
    (hok : (readFile device fs file offset length).status = .ok) :
    (readFile device fs file offset length).bytesRead.toNat = wanted file offset length ∧
      (readFile device fs file offset length).out.map some = fileWindow device fs file offset length := by
  by_cases hn : wanted file offset length = 0
  · rw [readFile_empty hfile hoff hn, fileWindow, hn, window, List.take_zero]
    exact ⟨rfl, rfl⟩
  rcases readFile_cases hfile hoff h hn with ⟨-, heq⟩ | ⟨skip, c, inCluster, served, status, r, henters, hres, heq⟩
  · rw [heq] at hok
    cases hok
  · rw [heq] at hok ⊢
    obtain rfl : status = .ok := hok
    obtain ⟨-, -, -, bs, hwin, hout⟩ := readClusters_ok h henters.served_ne henters.inCluster_lt hres rfl
    rw [fileWindow_skip h hfile hn henters.reached, ← henters.inCluster_eq, ← henters.served_eq, hwin, hout]
    exact ⟨rfl, rfl⟩

/-- A read along a chain that is long enough and has no repetitions. -/
theorem readFile_of_chain (h : Sound device fs) (hfile : file.attributes &&& attrDirectory = 0) (hoff : offset ≤ file.size)
    {k : Nat} (hk : clustersNeeded fs file offset length = k)
    (hlen : (chain device fs k file.firstCluster).length = k)
    (hvalid : ∀ c ∈ chain device fs k file.firstCluster, clusterValid fs c = true)
    (hnodup : (chain device fs k file.firstCluster).Nodup) (hread : none ∉ fileWindow device fs file offset length) :
    (readFile device fs file offset length).status = .ok := by
  by_cases hn : wanted file offset length = 0
  · rw [readFile_empty hfile hoff hn]
  have hle := validClusters_card h hvalid hnodup
  rw [hlen] at hle
  rw [needed_split h hfile hn] at hk
  have hpos := clustersFor_pos h (n := offset.toNat % clusterBytes fs + wanted file offset length) (by omega)
  obtain ⟨c₀, hc₀⟩ : ∃ c, nodeAt (link device fs) (offset.toNat / clusterBytes fs) file.firstCluster = some c :=
    Lib.nodeAt_of_lt_length (n := k) (by rw [← chain, hlen]; omega)
  have hfirst : clusterValid fs file.firstCluster = true := by
    refine hvalid _ ?_
    obtain ⟨m, hm⟩ := Nat.exists_eq_add_one.2 (Nat.lt_of_lt_of_le hpos (Nat.le_add_left _ (offset.toNat / clusterBytes fs)))
    rw [← hk, hm, chain, follow]
    exact List.mem_cons_self ..
  rcases readFile_cases hfile hoff h hn with
    ⟨hbad | hnone, -⟩ | ⟨skip, c, inCluster, served, status, r, ⟨-, hc, hskip, hin, ho, hserved, hr⟩, hres, heq⟩
  · rw [hfirst] at hbad
    cases hbad
  · rw [hc₀] at hnone
    cases hnone
  · rw [← hk, chain, Lib.follow_add hc] at hlen hvalid
    rw [fileWindow_skip h hfile hn hc, ← hin, ← hserved] at hread
    rw [List.length_append, Lib.length_follow_of_nodeAt hc] at hlen
    have hok := @readClusters_of_window device fs h (fs.clusterCount.toNat + 2) skip c inCluster ⟨[], served⟩
      hr ho (by omega) _
      rfl (by rw [hin, hserved]; omega) (by rw [hin, hserved]; exact Nat.add_left_cancel hlen)
      (fun x hx => hvalid x (List.mem_append_right _ (by rw [hin, hserved] at hx; exact hx))) hread
    rw [hres] at hok
    rw [heq]
    exact hok

end

theorem readFile_out_le_wanted (device : BlockDevice) (fs : Fat32) (file : File) (offset length : UInt32)
    (h : Sound device fs) (hfile : file.attributes &&& attrDirectory = 0) (hoff : offset ≤ file.size) :
    (readFile device fs file offset length).out.length ≤ wanted file offset length := by
  by_cases hn : wanted file offset length = 0
  · rw [readFile_empty hfile hoff hn]
    exact Nat.zero_le _
  rcases readFile_cases hfile hoff h hn with ⟨-, heq⟩ | ⟨skip, c, inCluster, served, status, r, henters, hres, heq⟩
  · rw [heq]
    exact Nat.zero_le _
  · rw [heq, ← henters.served_eq]
    have hlen := (readClusters_length hres).1
    simp only [List.length_nil] at hlen
    exact Nat.le_of_add_right_le (Nat.le_of_eq (hlen.trans (Nat.zero_add _)))

theorem readFile_failed {device : BlockDevice} {fs : Fat32} {file : File} {offset length : UInt32}
    (h : (readFile device fs file offset length).status ≠ .ok) : (readFile device fs file offset length).bytesRead = 0 := by
  revert h
  simp only [readFile]
  repeat' split
  all_goals first | exact fun _ => rfl | exact fun h => absurd rfl h

/-- If a read returns OK, it has delivered the `n` bytes from `offset` on of the clusters along the FAT and no others; and
it does so whenever these clusters are there, all different, and the sectors with the bytes can be read. It never
delivers more than `n` bytes. -/
theorem readFile_serves {device : BlockDevice} {partition : Partition} {fs : Fat32} (hm : mount device partition = .ok fs)
    (file : File) (offset length : UInt32) (hfile : file.attributes &&& attrDirectory = 0) (hoff : offset ≤ file.size) :
    let n := min length.toNat (file.size.toNat - offset.toNat)
    let clusters := chain device fs ((offset.toNat + n + clusterBytes fs - 1) / clusterBytes fs) file.firstCluster
    let bytes := ((contents device fs clusters).drop offset.toNat).take n
    let result := readFile device fs file offset length
    (result.status = .ok → result.bytesRead.toNat = n ∧ result.out.length = n ∧ result.out.map some = bytes) ∧
    (n = 0 ∨ clusters.length = (offset.toNat + n + clusterBytes fs - 1) / clusterBytes fs ∧
        (∀ c ∈ clusters, clusterValid fs c = true) ∧ clusters.Nodup ∧ none ∉ bytes →
      result.status = .ok) ∧
    result.out.length ≤ n ∧
    (result.status ≠ .ok → result.bytesRead = 0) := by
  intro n clusters bytes result
  obtain ⟨boot, -, hgeometry⟩ := mount_ok hm
  have h := hgeometry.sound
  have hbytes : fileWindow device fs file offset length = bytes := by
    by_cases hn : wanted file offset length = 0
    · have hn' : n = 0 := hn
      rw [fileWindow, window, hn, List.take_zero]
      simp only [bytes, hn', List.take_zero]
    · rw [fileWindow, clustersNeeded, if_neg (not_or.2 ⟨not_not.2 hfile, hn⟩)]
      rfl
  refine ⟨fun hok => ?_, fun hchain => ?_, readFile_out_le_wanted device fs file offset length h hfile hoff, readFile_failed⟩
  · obtain ⟨hread, hout⟩ := readFile_window h hfile hoff hok
    exact ⟨hread, (readFile_out rfl hok).trans hread, hout.trans hbytes⟩
  · rcases hchain with hn | ⟨hlen, hvalid, hnodup, hreadable⟩
    · exact congrArg ReadResult.status (readFile_empty hfile hoff hn)
    · by_cases hn : wanted file offset length = 0
      · exact congrArg ReadResult.status (readFile_empty hfile hoff hn)
      · have hk : clustersNeeded fs file offset length = (offset.toNat + n + clusterBytes fs - 1) / clusterBytes fs := by
          rw [clustersNeeded, if_neg (not_or.2 ⟨not_not.2 hfile, hn⟩)]
          rfl
        exact readFile_of_chain h hfile hoff hk hlen hvalid hnodup (hbytes ▸ hreadable)

/-- The volume with a FAT whose entry of cluster 3 is `entry`; every other sector is full of `a`s. -/
def diskWithLink (entry : Nat) : BlockDevice :=
  smallDisk fun i => if i = 1 then some (bytesOf (packBytes [(12, 0), (4, entry)])) else some fun _ => 0x61

/-- The volume with the clusters 3, 5 and 4 in a chain, of which 4 has the FAT entry `last`; every sector is full of its own
number. -/
def scatteredDisk (last : Nat) : BlockDevice :=
  smallDisk fun i =>
    if i = 1 then some (bytesOf (packBytes [(12, 0), (4, 5), (4, last), (4, 4)])) else some fun _ => .ofNat i

theorem readFile_serves_scattered :
    mount (scatteredDisk 0x0fffffff) smallPartition = .ok smallVolume ∧
      (readFile (scatteredDisk 0x0fffffff) smallVolume ⟨3, 1300, 0⟩ 500 600).out.map some =
        .replicate 12 (some 2) ++ .replicate 512 (some 4) ++ .replicate 76 (some 3) := by
  have hmount : mount (scatteredDisk 0x0fffffff) smallPartition = .ok smallVolume := smallDisk_mounts _
  have hserved := (readFile_serves hmount ⟨3, 1300, 0⟩ 500 600 (by decide) (by decide)).1 (by decide +kernel)
  refine ⟨hmount, hserved.2.2.trans ?_⟩
  decide +kernel

/-! ### Chains that come back -/

/-- No data is served along a chain that comes back to a cluster among those needed; such a chain is reported. -/
def CyclesDetected (device : BlockDevice) (fs : Fat32) (file : File) (offset length : UInt32) : Prop :=
  let walked := chain device fs (clustersNeeded fs file offset length) file.firstCluster
  let result := readFile device fs file offset length
  (result.status = .ok → result.bytesRead ≠ 0 → walked.Nodup) ∧ (¬ walked.Nodup → result.status = .corrupt)

/-- The counter of the loop gets beyond the clusters of the volume, and no sector stops the read before. -/
def CountedOut (device : BlockDevice) (fs : Fat32) (file : File) (offset length : UInt32) : Prop :=
  fs.clusterCount.toNat + 1 < clustersNeeded fs file offset length ∧
    none ∉ window device fs (fs.clusterCount.toNat + 1) file.firstCluster offset.toNat (wanted file offset length)

section
variable {device : BlockDevice} {fs : Fat32} {file : File} {offset length : UInt32}

theorem window_short (h : Sound device fs) {k s o n : Nat} {first c : UInt32} (hc : nodeAt (link device fs) s first = some c)
    (hk : k ≤ s) : window device fs k first (s * clusterBytes fs + o) n = [] := by
  obtain ⟨c', hc'⟩ := Lib.nodeAt_of_le hc hk
  have hlen := length_contents h (chain_valid hc')
  rw [chain, Lib.length_follow_of_nodeAt hc'] at hlen
  have hmul := Nat.mul_le_mul_right (clusterBytes fs) hk
  have hdrop : (contents device fs (follow (link device fs) k first)).drop (s * clusterBytes fs + o) = [] :=
    List.drop_eq_nil_of_le (by omega)
  rw [window, chain, hdrop, List.take_nil]

/-- A read along a chain that comes back is taken for corrupt when the counter stops it, and only then. -/
theorem readFile_cyclic (h : Sound device fs) (hfile : file.attributes &&& attrDirectory = 0) (hoff : offset ≤ file.size)
    (hn : wanted file offset length ≠ 0)
    (hcycle : ¬ (chain device fs (clustersNeeded fs file offset length) file.firstCluster).Nodup) :
    (readFile device fs file offset length).status = .corrupt ↔ CountedOut device fs file offset length := by
  have hendless : ∀ m, (chain device fs m file.firstCluster).length = m := Lib.length_follow_of_cycle hcycle
  have hnode : ∀ m, ∃ c, nodeAt (link device fs) m file.firstCluster = some c := fun m =>
    Lib.nodeAt_of_lt_length (n := m + 1) (by rw [← chain, hendless]; exact Nat.lt_succ_self m)
  have hfirst : clusterValid fs file.firstCluster = true := by
    obtain ⟨c, hc⟩ := hnode 1
    refine chain_valid hc _ ?_
    rw [chain_one]
    exact List.mem_singleton_self _
  rcases readFile_cases hfile hoff h hn with
    ⟨hbad | hnone, -⟩ | ⟨skip, c, inCluster, served, status, r, ⟨-, hc, hskip, hin, ho, hserved, hr⟩, hres, heq⟩
  · rw [hfirst] at hbad
    cases hbad
  · obtain ⟨c, hc⟩ := hnode (offset.toNat / clusterBytes fs)
    rw [hc] at hnone
    cases hnone
  have hrest : ∀ m, (chain device fs m c).length = m := by
    intro m
    have hall := hendless (skip.toNat + m)
    rw [chain, hskip, Lib.follow_add hc, List.length_append, Lib.length_follow_of_nodeAt hc] at hall
    exact Nat.add_left_cancel hall
  have hoffset : offset.toNat = offset.toNat / clusterBytes fs * clusterBytes fs + inCluster.toNat := by
    rw [hin, Nat.mul_comm, Nat.div_add_mod]
  have hwin : window device fs (fs.clusterCount.toNat + 1) file.firstCluster offset.toNat (wanted file offset length) =
      window device fs (fs.clusterCount.toNat + 1 - skip.toNat) c inCluster.toNat (wanted file offset length) := by
    rw [hoffset]
    by_cases hle : skip.toNat ≤ fs.clusterCount.toNat + 1
    · rw [← window_skip h hc, ← hskip, Nat.add_sub_cancel' hle]
    · rw [window_short h hc (by omega), Nat.sub_eq_zero_of_le (Nat.le_of_not_le hle)]
      simp [window, chain, contents]
  have hloop := @readClusters_endless device fs h (fs.clusterCount.toNat + 2) skip c inCluster ⟨[], served⟩
    hr ho (by omega) _
    rfl hrest
  rw [hres] at hloop
  rw [heq, CountedOut, hwin, needed_split h hfile hn, ← hskip, ← hserved, ← hin]
  exact hloop

theorem offset_le_of_wanted (hn : wanted file offset length ≠ 0) : offset ≤ file.size := by
  by_contra hoff
  have hlt := UInt32.lt_iff_toNat_lt.1 (UInt32.not_le.1 hoff)
  rw [wanted] at hn
  omega

theorem clustersNeeded_rejected (h : ¬ (file.attributes &&& attrDirectory = 0 ∧ offset ≤ file.size ∧
    wanted file offset length ≠ 0)) : clustersNeeded fs file offset length = 0 := by
  rw [clustersNeeded, if_pos]
  by_contra hall
  rw [not_or, not_not] at hall
  exact h ⟨hall.1, offset_le_of_wanted hall.2, hall.2⟩

end

/-- The counter of the loop does not tell a chain with repetitions from one without before it exceeds the number of
clusters of the volume. -/
theorem readFile_detects_cycles_iff {device : BlockDevice} {partition : Partition} {fs : Fat32}
    (hm : mount device partition = .ok fs) (file : File) (offset length : UInt32) :
    CyclesDetected device fs file offset length ↔
      (chain device fs (clustersNeeded fs file offset length) file.firstCluster).Nodup ∨
      CountedOut device fs file offset length := by
  obtain ⟨boot, -, hgeometry⟩ := mount_ok hm
  by_cases hnodup : (chain device fs (clustersNeeded fs file offset length) file.firstCluster).Nodup
  · exact iff_of_true ⟨fun _ _ => hnodup, fun hc => absurd hnodup hc⟩ (Or.inl hnodup)
  by_cases hall : file.attributes &&& attrDirectory = 0 ∧ offset ≤ file.size ∧ wanted file offset length ≠ 0
  · have hiff := readFile_cyclic hgeometry.sound hall.1 hall.2.1 hall.2.2 hnodup
    refine ⟨fun hd => Or.inr (hiff.1 (hd.2 hnodup)), fun hor => ?_⟩
    have hcorrupt := hiff.2 (hor.resolve_left hnodup)
    refine ⟨fun hok => ?_, fun _ => hcorrupt⟩
    rw [hcorrupt] at hok
    cases hok
  · rw [clustersNeeded_rejected hall] at hnodup
    exact absurd List.nodup_nil hnodup

/-- A file of almost 4 GiB on a chain of three clusters that comes back. -/
theorem readFile_detects_cycles_scattered :
    chain (scatteredDisk 3) smallVolume 4 3 = [3, 5, 4, 3] ∧
      (readFile (scatteredDisk 3) smallVolume ⟨3, 0xffffffff, 0⟩ 0 0xffffffff).status = .corrupt := by
  have hchain : chain (scatteredDisk 3) smallVolume 4 3 = [3, 5, 4, 3] := by decide +kernel
  have hcycle : ¬ (chain (scatteredDisk 3) smallVolume 4 3).Nodup := by
    rw [hchain]
    decide
  have hfull : [3, 5, 4, 3].all (fun c => (clusterContents (scatteredDisk 3) smallVolume c).all Option.isSome) = true := by
    decide +kernel
  have hcounted : CountedOut (scatteredDisk 3) smallVolume ⟨3, 0xffffffff, 0⟩ 0 0xffffffff := by
    refine ⟨by decide +kernel, fun hnone => ?_⟩
    obtain ⟨c, hc, hmem⟩ := List.mem_flatMap.1 (List.mem_of_mem_drop (List.mem_of_mem_take hnone))
    have hsome := List.all_eq_true.1 hfull c (hchain ▸ Lib.mem_follow_of_cycle hcycle hc)
    cases List.all_eq_true.1 hsome none hmem
  have hmount : mount (scatteredDisk 3) smallPartition = .ok smallVolume := smallDisk_mounts _
  have hdetected := (readFile_detects_cycles_iff hmount ⟨3, 0xffffffff, 0⟩ 0 0xffffffff).2 (.inr hcounted)
  refine ⟨hchain, hdetected.2 fun hnodup => hcycle ?_⟩
  -- the first four clusters of the chain come back already
  obtain ⟨c, hc⟩ := Lib.endless_of_cycle hcycle 4
  have hsplit : clustersNeeded smallVolume ⟨3, 0xffffffff, 0⟩ 0 0xffffffff = 4 + 8388604 := by decide +kernel
  rw [hsplit, chain, Lib.follow_add hc] at hnodup
  exact (List.nodup_append.1 hnodup).1

/-- A file of two clusters on a chain of one that is its own successor. -/
theorem cyclic_chain_served :
    mount (diskWithLink 3) smallPartition = .ok smallVolume ∧
      (readFile (diskWithLink 3) smallVolume ⟨3, 1024, 0⟩ 0 1024).status = .ok ∧
      (readFile (diskWithLink 3) smallVolume ⟨3, 1024, 0⟩ 0 1024).bytesRead = 1024 ∧
      chain (diskWithLink 3) smallVolume (clustersNeeded smallVolume ⟨3, 1024, 0⟩ 0 1024) 3 = [3, 3] ∧
      ¬ CyclesDetected (diskWithLink 3) smallVolume ⟨3, 1024, 0⟩ 0 1024 := by
  have hchain : chain (diskWithLink 3) smallVolume (clustersNeeded smallVolume ⟨3, 1024, 0⟩ 0 1024) 3 = [3, 3] := by
    decide
  have hok : (readFile (diskWithLink 3) smallVolume ⟨3, 1024, 0⟩ 0 1024).status = .ok := by decide
  have hread : (readFile (diskWithLink 3) smallVolume ⟨3, 1024, 0⟩ 0 1024).bytesRead = 1024 := by decide
  refine ⟨smallDisk_mounts _, hok, hread, hchain, fun hd => ?_⟩
  have hnodup := hd.1 hok (by rw [hread]; decide)
  rw [hchain] at hnodup
  exact absurd hnodup (by decide)

end JoshBios.Fat32
