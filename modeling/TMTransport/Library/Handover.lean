import Mathlib.Data.List.Basic

/-!
# A value that is handed on

A value goes from one visitor to the next. What each of them gets of it is a
function of the value; what it leaves of the value to those after it may depend on
what it got.

If the visitors are all to get what they would get of the value itself, then each
of them must get the same of what those before it leave, supposing that these got
what they should. This is not only necessary but enough (`passOn_eq_map_iff`).
-/

namespace Handover

variable {φ δ γ : Type}

/-- What the visitors get, one after the other. -/
def passOn (get : φ → δ → γ) (leave : φ → γ → δ → δ) : δ → List φ → List γ
  | _, [] => []
  | d, f :: fs => get f d :: passOn get leave (leave f (get f d) d) fs

/-- What visitors leave of `d'`, if each of them gets what it would get of `d`. -/
def remains (get : φ → δ → γ) (leave : φ → γ → δ → δ) (d d' : δ) (before : List φ) : δ :=
  before.foldl (fun e f => leave f (get f d) e) d'

variable {get : φ → δ → γ} {leave : φ → γ → δ → δ} {d d' : δ} {l : List φ}

theorem passOn_eq_map_iff : passOn get leave d' l = l.map (get · d) ↔
    ∀ before f rest, l = before ++ f :: rest → get f (remains get leave d d' before) = get f d := by
  induction l generalizing d' with
  | nil => simp [passOn]
  | cons f fs ih =>
      rw [passOn, List.map_cons, List.cons.injEq]
      constructor
      · intro h before g rest hl
        cases before with
        | nil =>
            obtain ⟨rfl, -⟩ := List.cons.inj hl
            exact h.1
        | cons b before =>
            obtain ⟨hb, hl'⟩ := List.cons.inj hl
            subst hb
            rw [h.1] at h
            exact ih.mp h.2 before g rest hl'
      · intro h
        have hf : get f d' = get f d := h [] f fs rfl
        refine ⟨hf, ?_⟩
        rw [hf, ih]
        intro before g rest hl
        exact h (f :: before) g rest (by rw [hl]; rfl)

/-- Where nothing is taken, everybody gets all. -/
theorem passOn_of_leaves (h : ∀ f c e, leave f c e = e) :
    passOn get leave d l = l.map (get · d) := by
  induction l with
  | nil => rfl
  | cons f fs ih => rw [passOn, h, ih, List.map_cons]

end Handover
