import JoshBios.FwRun

/-!
# Bounded trials

The number of trial boots is bounded although the limit is an argument of every selection: the counter is in the update
state, and only a staging that succeeds starts it again. Here each call of a run comes with a backend of its own; only the
number of slots is the same for all of them.
-/

namespace JoshBios.Fw
open Lib

variable {E : Type}

abbrev CallOn (E : Type) := Event (FlashBackend E × Op) (Sys E) Answer

/-- The slots that the state names exist, and a pending one is not the active one. -/
structure SlotInv (n : UInt32) (s : UpdateState) : Prop where
  active_lt : s.activeSlot < n
  previous_lt : s.previousGoodSlot < n
  pending : s.pendingSlot = slotNone ∨ (s.pendingSlot < n ∧ s.pendingSlot ≠ s.activeSlot)

/-- A selection that returns the pending slot. -/
def isTrial (ev : CallOn E) : Bool :=
  match ev.res with
  | .selected slot => ev.pre.state.pendingSlot != slotNone && slot == ev.pre.state.pendingSlot
  | _ => false

/-- The number of trial boots in a run. -/
def trials (hist : List (CallOn E)) : Nat := hist.countP isTrial

/-- The limit of a selection is at most `M`. -/
def LimitAtMost (M : Nat) (ev : CallOn E) : Prop := ∀ max, ev.op.2 = .select max → (effectiveMax max).toNat ≤ M

section
variable {B : FlashBackend E} {x y : Sys E} {op : Op} {a : Answer}

theorem SlotInv.default {n : UInt32} (hn : 2 ≤ n) : SlotInv n updateStateDefault := by
  have h2 : 2 ≤ n.toNat := UInt32.le_iff_toNat_le.1 hn
  have h0 : (0 : UInt32) < n := UInt32.lt_iff_toNat_lt.2 (by change 0 < n.toNat; omega)
  exact ⟨h0, h0, Or.inl rfl⟩

theorem Does.slotInv (h : Does B x op a y) (hi : SlotInv B.slotCount x.state) : SlotInv B.slotCount y.state := by
  cases h with
  | rejected | failed | idle | refused => exact hi
  | staged h => exact ⟨hi.active_lt, hi.active_lt, Or.inr h.slot_ne_active.symm⟩
  | expired => exact ⟨hi.active_lt, hi.previous_lt, Or.inl rfl⟩
  | tried => exact ⟨hi.active_lt, hi.previous_lt, hi.pending⟩
  | promoted hp => exact ⟨(hi.pending.resolve_left hp).1, hi.active_lt, Or.inl rfl⟩

end

section Run
variable {n : UInt32} {e₀ : E} {hist : List (CallOn E)} {x y : Sys E}

/-- The trials since the last staging are counted in the state, as long as they go on. -/
structure TrialCount (n : UInt32) (M : Nat) (later : List (CallOn E)) (y : Sys E) : Prop where
  slots : SlotInv n y.state
  counted : y.state.pendingSlot ≠ slotNone → trials later = y.state.pendingAttempts.toNat
  le : trials later ≤ M

theorem trials_cons_neg {ev : CallOn E} {later : List (CallOn E)} (h : isTrial ev = false) :
    trials (ev :: later) = trials later :=
  List.countP_cons_of_neg (by rw [h]; exact Bool.false_ne_true)

theorem isTrial_selected {call : FlashBackend E × Op} {slot : UInt32} {x y : Sys E} :
    isTrial ⟨call, x, .selected slot, y⟩ = true ↔ x.state.pendingSlot ≠ slotNone ∧ slot = x.state.pendingSlot := by
  rw [isTrial, Bool.and_eq_true, bne_iff_ne, beq_iff_eq]

theorem TrialCount.does {M : Nat} {later : List (CallOn E)} (hi : TrialCount n M later x) {B : FlashBackend E} {op : Op}
    {a : Answer} (hd : Does B x op a y) (hslots : B.slotCount = n) (hfail : a.status ≠ some .ok)
    (hlimit : LimitAtMost M ⟨(B, op), x, a, y⟩) : TrialCount n M (⟨(B, op), x, a, y⟩ :: later) y := by
  subst hslots
  have hslots := hd.slotInv hi.slots
  cases hd with
  | rejected | failed => exact ⟨hslots, hi.counted, hi.le⟩
  | staged => exact absurd rfl hfail
  | idle hp =>
    refine ⟨hslots, fun h => absurd hp h, ?_⟩
    rw [trials_cons_neg (Bool.eq_false_iff.2 fun h => (isTrial_selected.1 h).1 hp)]
    exact hi.le
  | expired hp =>
    have hne := (hi.slots.pending.resolve_left hp).2
    refine ⟨hslots, fun h => absurd rfl h, ?_⟩
    rw [trials_cons_neg (Bool.eq_false_iff.2 fun h => hne (isTrial_selected.1 h).2.symm)]
    exact hi.le
  | @tried max hp hm =>
    -- below the limit, so the counter does not wrap
    have hlt := UInt32.lt_iff_toNat_lt.1 hm
    have hmax := hlimit max rfl
    have hbound := (effectiveMax max).toNat_lt
    have hnext : (x.state.pendingAttempts + 1).toNat = x.state.pendingAttempts.toNat + 1 := by
      rw [UInt32.toNat_add]
      exact Nat.mod_eq_of_lt (by change x.state.pendingAttempts.toNat + 1 < 2 ^ 32; omega)
    have hold := hi.counted hp
    have hcount (y : Sys E) : trials (⟨(B, .select max), x, .selected x.state.pendingSlot, y⟩ :: later) =
        x.state.pendingAttempts.toNat + 1 := by
      rw [← hold]
      exact List.countP_cons_of_pos (isTrial_selected.2 ⟨hp, rfl⟩)
    refine ⟨hslots, fun _ => (hcount _).trans hnext.symm, ?_⟩
    rw [hcount]
    omega
  | refused => exact ⟨hslots, hi.counted, hi.le⟩
  | promoted => exact ⟨hslots, fun h => absurd rfl h, hi.le⟩

end Run

end JoshBios.Fw
