import JoshBios.FatGeometry
import JoshBios.Lib.Follow

/-! # Chains of clusters

`link` is one step along the FAT. Only valid clusters are gone on from, so a chain without repetitions is no longer than the
volume has clusters, and a longer one comes back to a cluster and never ends. -/

namespace JoshBios.Fat32

open Lib (follow nodeAt)

/-- The cluster after `c` in its chain; none at the end mark, and where the FAT cannot be followed. -/
def link (device : BlockDevice) (fs : Fat32) (c : UInt32) : Option UInt32 :=
  match nextCluster device fs c with
  | .error _ => none
  | .ok next => if next ≥ eocMin then none else some next

/-- The first `k` clusters of the chain from `c` on. -/
def chain (device : BlockDevice) (fs : Fat32) (k : Nat) (c : UInt32) : List UInt32 := follow (link device fs) k c

section
variable {device : BlockDevice} {fs : Fat32}

theorem nextCluster_valid {c next : UInt32} (h : nextCluster device fs c = .ok next) : clusterValid fs c = true := by
  simp only [nextCluster, ite_error_eq_ok] at h
  simpa using h.1

theorem link_valid {c next : UInt32} (h : link device fs c = some next) : clusterValid fs c = true := by
  rw [link] at h
  split at h
  · cases h
  next hn => exact nextCluster_valid hn

theorem chain_one (c : UInt32) : chain device fs 1 c = [c] := by
  rw [chain, follow]
  cases link device fs c with
  | none => rfl
  | some next => rfl

theorem chain_valid {n : Nat} {c c' : UInt32} (hc : nodeAt (link device fs) n c = some c') :
    ∀ x ∈ chain device fs n c, clusterValid fs x = true := by
  induction n generalizing c with
  | zero => exact fun x hx => absurd hx List.not_mem_nil
  | succ n ih =>
    rw [nodeAt] at hc
    cases hl : link device fs c with
    | none => rw [hl] at hc; cases hc
    | some next =>
      rw [hl] at hc
      rw [chain, Lib.follow_of_some hl]
      intro x hx
      rcases List.mem_cons.1 hx with rfl | hx
      · exact link_valid hl
      · exact ih hc x hx

theorem validClusters_card (h : Sound device fs) {S : List UInt32} (hS : ∀ x ∈ S, clusterValid fs x = true)
    (hnodup : S.Nodup) :
    S.length ≤ fs.clusterCount.toNat := by
  have hcard : (S.map fun x => x.toNat).length ≤ ((Finset.Ico 2 (fs.clusterCount.toNat + 2))).card := by
    rw [← List.toFinset_card_of_nodup (hnodup.map fun x y hxy => UInt32.toNat_inj.1 hxy)]
    refine Finset.card_le_card fun n hn => ?_
    obtain ⟨x, hx, rfl⟩ := List.mem_map.1 (List.mem_toFinset.1 hn)
    exact Finset.mem_Ico.2 ((clusterValid_iff h.clusters_lt).1 (hS x hx))
  rw [List.length_map, Nat.card_Ico, Nat.add_sub_cancel] at hcard
  exact hcard

end

end JoshBios.Fat32
