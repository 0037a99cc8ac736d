import Mathlib.Data.List.Basic
import Mathlib.Data.List.Forall2

/-!
# Covering a list by parts

A pattern is a list of parts, and a part says which stretches of a list it can
take. The pattern fits a list if its parts can take all of the list, one stretch
after the other. Expressions and wildcards are patterns of this kind.
-/

namespace Covering

variable {α β : Type} {takes takes' : β → List α → Bool} {p : β} {ps qs : List β} {xs : List α}

def covers (takes : β → List α → Bool) : List β → List α → Bool
  | [], xs => xs.isEmpty
  | p :: ps, xs => (List.range (xs.length + 1)).any fun k =>
      takes p (xs.take k) && covers takes ps (xs.drop k)

@[simp]
theorem covers_nil : covers takes [] xs = true ↔ xs = [] := by
  rw [covers, List.isEmpty_iff]

theorem covers_cons : covers takes (p :: ps) xs = true ↔
    ∃ us vs, xs = us ++ vs ∧ takes p us = true ∧ covers takes ps vs = true := by
  simp only [covers, List.any_eq_true, List.mem_range, Bool.and_eq_true]
  constructor
  · intro h
    obtain ⟨k, -, h1, h2⟩ := h
    exact ⟨xs.take k, xs.drop k, (List.take_append_drop k xs).symm, h1, h2⟩
  · intro h
    obtain ⟨us, vs, rfl, h1, h2⟩ := h
    refine ⟨us.length, ?_, ?_, ?_⟩
    · rw [List.length_append]
      omega
    · rwa [List.take_left]
    · rwa [List.drop_left]

theorem covers_singleton : covers takes [p] xs = true ↔ takes p xs = true := by
  rw [covers_cons]
  constructor
  · intro h
    obtain ⟨us, vs, rfl, h1, h2⟩ := h
    rw [covers_nil.mp h2, List.append_nil]
    exact h1
  · intro h
    exact ⟨xs, [], (List.append_nil xs).symm, h, covers_nil.mpr rfl⟩

theorem covers_map {γ : Type} (f : γ → β) (l : List γ) :
    covers takes (l.map f) xs = covers (fun c => takes (f c)) l xs := by
  induction l generalizing xs with
  | nil => rfl
  | cons c l ih => simp only [List.map_cons, covers, ih]

theorem covers_append : covers takes (ps ++ qs) xs = true ↔
    ∃ us vs, xs = us ++ vs ∧ covers takes ps us = true ∧ covers takes qs vs = true := by
  induction ps generalizing xs with
  | nil =>
      constructor
      · intro h
        exact ⟨[], xs, rfl, covers_nil.mpr rfl, h⟩
      · intro h
        obtain ⟨us, vs, rfl, h1, h2⟩ := h
        rw [covers_nil.mp h1]
        exact h2
  | cons p ps ih =>
      rw [List.cons_append, covers_cons]
      constructor
      · intro h
        obtain ⟨us, ws, rfl, h1, h2⟩ := h
        obtain ⟨vs, ws, rfl, h3, h4⟩ := ih.mp h2
        exact ⟨us ++ vs, ws, (List.append_assoc us vs ws).symm,
          covers_cons.mpr ⟨us, vs, rfl, h1, h3⟩, h4⟩
      · intro h
        obtain ⟨us, ws, rfl, h1, h2⟩ := h
        obtain ⟨us, vs, rfl, h3, h4⟩ := covers_cons.mp h1
        exact ⟨us, vs ++ ws, List.append_assoc us vs ws, h3, ih.mpr ⟨vs, ws, rfl, h4, h2⟩⟩

/-- Parts that take more fit more. -/
theorem covers_mono (h : ∀ p ∈ ps, ∀ us, takes p us = true → takes' p us = true)
    (hc : covers takes ps xs = true) : covers takes' ps xs = true := by
  induction ps generalizing xs with
  | nil => exact hc
  | cons p ps ih =>
      obtain ⟨us, vs, rfl, h1, h2⟩ := covers_cons.mp hc
      refine covers_cons.mpr ⟨us, vs, rfl, h p List.mem_cons_self us h1, ?_⟩
      exact ih (fun q hq => h q (List.mem_cons_of_mem p hq)) h2

/-- Where no part takes nothing, what is fitted is not shorter than the pattern. -/
theorem length_le_of_covers (h : ∀ p ∈ ps, takes p [] = false) (hc : covers takes ps xs = true) :
    ps.length ≤ xs.length := by
  induction ps generalizing xs with
  | nil => exact Nat.zero_le _
  | cons p ps ih =>
      obtain ⟨us, vs, rfl, h1, h2⟩ := covers_cons.mp hc
      have hvs := ih (fun q hq => h q (List.mem_cons_of_mem p hq)) h2
      cases us with
      | nil =>
          rw [h p List.mem_cons_self] at h1
          cases h1
      | cons u us =>
          rw [List.cons_append, List.length_cons, List.length_cons, List.length_append]
          omega

/-- Each part takes one element. -/
theorem covers_of_forall₂ (h : List.Forall₂ (fun p x => takes p [x] = true) ps xs) :
    covers takes ps xs = true := by
  induction h with
  | nil => exact covers_nil.mpr rfl
  | cons h1 _ ih => exact covers_cons.mpr ⟨_, _, rfl, h1, ih⟩

/-- Where the parts stand for one element each, only the list of these elements fits. -/
theorem covers_iff_map {f : β → α} (h : ∀ p ∈ ps, ∀ us, takes p us = true ↔ us = [f p]) :
    covers takes ps xs = true ↔ xs = ps.map f := by
  induction ps generalizing xs with
  | nil => exact covers_nil
  | cons p ps ih =>
      have ih' : ∀ {vs}, covers takes ps vs = true ↔ vs = ps.map f :=
        ih fun q hq => h q (List.mem_cons_of_mem p hq)
      rw [covers_cons, List.map_cons]
      constructor
      · intro hc
        obtain ⟨us, vs, rfl, h1, h2⟩ := hc
        rw [(h p List.mem_cons_self us).mp h1, ih'.mp h2]
        rfl
      · intro hx
        exact ⟨[f p], ps.map f, hx, (h p List.mem_cons_self _).mpr rfl, ih'.mpr rfl⟩

/-- What stands for itself only is in the list as often as in the pattern, at least. -/
theorem count_le_of_covers [BEq α] [LawfulBEq α] {takes : α → List α → Bool} {ps : List α} {w : α}
    (h : ∀ us, takes w us = true → us = [w]) (hc : covers takes ps xs = true) :
    ps.count w ≤ xs.count w := by
  induction ps generalizing xs with
  | nil => exact Nat.zero_le _
  | cons p ps ih =>
      obtain ⟨us, vs, rfl, h1, h2⟩ := covers_cons.mp hc
      have hvs := ih h2
      rw [List.count_append]
      by_cases hp : p = w
      · subst hp
        rw [h us h1, List.count_cons_self, List.count_cons_self, List.count_nil]
        omega
      · rw [List.count_cons_of_ne hp]
        omega

end Covering
