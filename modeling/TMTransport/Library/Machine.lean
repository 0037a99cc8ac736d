import Mathlib.Logic.Function.Basic

/-!
# Machines that take one atomic step at a time

A machine has a state and actions; an action says who acts, and how, where there
is a choice. An action that is not possible in a state has no step there.
`Reach` is the set of states that the machine can get into by actions within a
guard. The rule of proof is the inductive invariant, `Reach.invariant`.
-/

namespace Interleave

structure Machine (σ α : Type) where
  init : σ
  step : σ → α → Option σ

/-- A step that is possible under a condition. -/
theorem of_guarded {σ : Type} {p : Prop} [Decidable p] {s s' : σ}
    (h : (if p then some s else none) = some s') : p ∧ s = s' := by
  obtain ⟨hp, hs⟩ := Option.ite_none_right_eq_some.mp h
  exact ⟨hp, Option.some.inj hs⟩

namespace Machine

variable {σ α : Type}

/-- The states that actions within the guard lead to. -/
inductive Reach (M : Machine σ α) (G : σ → α → Prop) : σ → Prop where
  | init : Reach M G M.init
  | step {s s' : σ} {a : α} : Reach M G s → G s a → M.step s a = some s' → Reach M G s'

variable {M : Machine σ α} {G G' : σ → α → Prop} {s s' : σ}

/-- **The rule.** What holds at first and survives each action holds of every reachable state. -/
theorem Reach.invariant {I : σ → Prop} (h : Reach M G s) (hinit : I M.init)
    (hstep : ∀ s a s', I s → G s a → M.step s a = some s' → I s') : I s := by
  induction h with
  | init => exact hinit
  | step _ hg hs ih => exact hstep _ _ _ ih hg hs

/-- A weaker guard lets through all that a stronger one does. -/
theorem Reach.mono (h : Reach M G s) (hG : ∀ s a, G s a → G' s a) : Reach M G' s := by
  induction h with
  | init => exact .init
  | step _ hg hs ih => exact .step ih (hG _ _ hg) hs

/-- The machine, from a later state on. -/
def startingAt (M : Machine σ α) (s : σ) : Machine σ α := { M with init := s }

theorem Reach.trans (h : M.Reach G s) (h' : (M.startingAt s).Reach G s') : M.Reach G s' := by
  induction h' with
  | init => exact h
  | step _ hg hs ih => exact .step ih hg hs

/-- Take the actions one after the other, leaving out those that are not possible. -/
def exec (M : Machine σ α) : σ → List α → σ
  | s, [] => s
  | s, a :: as => M.exec ((M.step s a).getD s) as

/-- The actions are within the guard where they are taken. -/
def Within (M : Machine σ α) (G : σ → α → Prop) : σ → List α → Prop
  | _, [] => True
  | s, a :: as => G s a ∧ M.Within G ((M.step s a).getD s) as

theorem Reach.exec {l : List α} (h : Reach M G s) (hg : M.Within G s l) :
    Reach M G (M.exec s l) := by
  induction l generalizing s with
  | nil => exact h
  | cons a l ih =>
      refine ih ?_ hg.2
      cases hs : M.step s a with
      | none => exact h
      | some s' => exact h.step hg.1 hs

theorem Within.of_forall (hG : ∀ s a, G s a) (s : σ) (as : List α) : M.Within G s as := by
  induction as generalizing s with
  | nil => trivial
  | cons a as ih => exact ⟨hG s a, ih _⟩

theorem Within.append {as bs : List α} (h : M.Within G s as) (h' : M.Within G (M.exec s as) bs) :
    M.Within G s (as ++ bs) := by
  induction as generalizing s with
  | nil => exact h'
  | cons a as ih => exact ⟨h.1, ih h.2 h'⟩

/-- Does a test succeed before each of the actions? -/
def all (M : Machine σ α) (g : σ → α → Bool) : σ → List α → Bool
  | _, [] => true
  | s, a :: as => g s a && M.all g ((M.step s a).getD s) as

theorem Within.of_all {g : σ → α → Bool} {as : List α} (hg : ∀ s a, g s a = true → G s a)
    (h : M.all g s as = true) : M.Within G s as := by
  induction as generalizing s with
  | nil => trivial
  | cons a as ih =>
      simp only [all, Bool.and_eq_true] at h
      exact ⟨hg s a h.1, ih h.2⟩

end Machine

end Interleave
