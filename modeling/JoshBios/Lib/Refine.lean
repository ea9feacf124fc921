import JoshBios.Lib.Runs

/-!
# Refinement of one machine by another

`step` works on the states `S`, `astep` on the states `A`, and both take the same calls. `Refines` is a forward simulation:
related states answer a call alike and stay related. The relation counts the calls that are still to come, as a machine with
bounded numbers follows an unbounded one for so many calls only. What is answered in whole runs then is the same
(`Refines.answers_eq`). `Leads` is for calls that can end in more than one way, and `Leads.simulates` the rule for them.
-/

namespace JoshBios.Lib

variable {Op S A R : Type*}

/-- The answers to a list of calls, first call first. -/
def answers (step : Op → S → R × S) : List Op → S → List R
  | [], _ => []
  | op :: ops, s => (step op s).1 :: answers step ops (step op s).2

structure Refines (ok : Op → Prop) (step : Op → S → R × S) (astep : Op → A → R × A) (Rel : Nat → S → A → Prop) : Prop where
  answer : ∀ n op s a, ok op → Rel (n + 1) s a → (step op s).1 = (astep op a).1
  next : ∀ n op s a, ok op → Rel (n + 1) s a → Rel n (step op s).2 (astep op a).2

theorem Refines.answers_eq {ok : Op → Prop} {step : Op → S → R × S} {astep : Op → A → R × A} {Rel : Nat → S → A → Prop}
    (h : Refines ok step astep Rel) {ops : List Op} {n : Nat} {s : S} {a : A} (hok : ∀ op ∈ ops, ok op)
    (hr : Rel (ops.length + n) s a) :
    answers step ops s = answers astep ops a ∧ Rel n (runOps step ops s) (runOps astep ops a) := by
  induction ops generalizing s a with
  | nil =>
    rw [List.length_nil, Nat.zero_add] at hr
    exact ⟨rfl, hr⟩
  | cons op ops ih =>
    rw [List.length_cons, Nat.add_right_comm] at hr
    have hop := hok op List.mem_cons_self
    obtain ⟨hrest, hlast⟩ := ih (fun op' hop' => hok op' (List.mem_cons_of_mem _ hop')) (h.next _ op s a hop hr)
    refine ⟨?_, hlast⟩
    rw [answers, answers, h.answer _ op s a hop hr, hrest]

theorem answers_append (step : Op → S → R × S) (ops ops' : List Op) (s : S) :
    answers step (ops ++ ops') s = answers step ops s ++ answers step ops' (runOps step ops s) := by
  induction ops generalizing s with
  | nil => rfl
  | cons op ops ih => exact congrArg (_ :: ·) (ih _)

theorem runOps_append (step : Op → S → R × S) (ops ops' : List Op) (s : S) :
    runOps step (ops ++ ops') s = runOps step ops' (runOps step ops s) := by
  induction ops generalizing s with
  | nil => rfl
  | cons op ops ih => exact ih _

/-! ### Calls with more than one outcome -/

/-- The calls `ops`, first call first, can lead from `s` to `s'`. -/
inductive Leads (can : Op → S → S → Prop) : List Op → S → S → Prop
  | nil (s : S) : Leads can [] s s
  | cons {op : Op} {ops : List Op} {s s' s'' : S} (h : can op s s') (hrest : Leads can ops s' s'') :
      Leads can (op :: ops) s s''

namespace Leads
variable {can : Op → S → S → Prop} {does : Op → A → A → Prop} {ops : List Op} {s s' : S}

/-- What every call preserves holds at the end. -/
theorem invariant {I : S → Prop} (hstep : ∀ op ∈ ops, ∀ s s', can op s s' → I s → I s') (h : Leads can ops s s')
    (h₀ : I s) : I s' := by
  induction h with
  | nil => exact h₀
  | cons hop _ ih =>
    exact ih (fun op hmem => hstep op (List.mem_cons_of_mem _ hmem)) (hstep _ List.mem_cons_self _ _ hop h₀)

/-- Whatever the calls lead to, calls of the other machine lead to something related. -/
theorem simulates {Rel : Nat → S → A → Prop}
    (hstep : ∀ n op s s' a, can op s s' → Rel (n + 1) s a → ∃ a', does op a a' ∧ Rel n s' a') (h : Leads can ops s s')
    {n : Nat} {a : A} (hr : Rel (ops.length + n) s a) : ∃ a', Leads does ops a a' ∧ Rel n s' a' := by
  induction h generalizing a with
  | nil s =>
    rw [List.length_nil, Nat.zero_add] at hr
    exact ⟨a, .nil a, hr⟩
  | cons hop hrest ih =>
    rw [List.length_cons, Nat.add_right_comm] at hr
    obtain ⟨a', hdoes, hr'⟩ := hstep _ _ _ _ _ hop hr
    obtain ⟨a'', hlast, hr''⟩ := ih hr'
    exact ⟨a'', .cons hdoes hlast, hr''⟩

end Leads

end JoshBios.Lib
