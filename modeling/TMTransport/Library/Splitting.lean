import Mathlib.Data.List.Basic
import Mathlib.Data.List.DropRight
import Mathlib.Data.List.TakeWhile

/-!
# Splitting lists at separators, and trimming them

What `List.splitOn` makes of a list, by what stands between the separators; and
lists without blanks at their ends.
-/

namespace Splitting

variable {α : Type} {p : α → Bool} {a : α} {xs ys : List α}

/-! ## Trimming -/

/-- Nothing that `p` says is blank stands at an end. -/
structure Trimmed (p : α → Bool) (xs : List α) : Prop where
  head : ∀ c, xs.head? = some c → p c = false
  last : ∀ c, xs.getLast? = some c → p c = false

theorem Trimmed.nil : Trimmed p [] where
  head := by simp
  last := by simp

theorem Trimmed.trim (h : Trimmed p xs) : (xs.dropWhile p).rdropWhile p = xs := by
  have hd : xs.dropWhile p = xs := by
    rw [List.dropWhile_eq_self_iff]
    intro hl
    rw [h.head xs[0] (by rw [List.head?_eq_getElem?, List.getElem?_eq_getElem hl])]
    simp
  rw [hd, List.rdropWhile_eq_self_iff]
  intro hl
  rw [h.last _ (List.getLast?_eq_some_getLast hl)]
  simp

theorem head_of_initial (h : ys <+: xs) {c : α} (hc : ys.head? = some c) :
    xs.head? = some c := by
  obtain ⟨zs, rfl⟩ := h
  rw [List.head?_append, hc]
  rfl

theorem trimmed_trim (p : α → Bool) (xs : List α) :
    Trimmed p ((xs.dropWhile p).rdropWhile p) where
  head := by
    intro c hc
    have h := List.head?_dropWhile_not p xs
    rw [head_of_initial (List.rdropWhile_prefix p _) hc] at h
    simpa using h
  last := by
    intro c hc
    have hne : (xs.dropWhile p).rdropWhile p ≠ [] := by
      rintro he
      rw [he] at hc
      simp at hc
    have h := List.rdropWhile_last_not p (xs.dropWhile p) hne
    rw [List.getLast?_eq_some_getLast hne, Option.some.injEq] at hc
    rw [← hc]
    simpa using h

/-- Trimming leaves an end alone that is not blank. -/
theorem getLast?_trim (h : ∀ c, xs.getLast? = some c → p c = false) :
    ((xs.dropWhile p).rdropWhile p).getLast? = xs.getLast? := by
  have hd : (xs.dropWhile p).getLast? = xs.getLast? := by
    cases hx : xs.getLast? with
    | none => rw [List.getLast?_eq_none_iff.mp hx]; rfl
    | some c =>
        obtain ⟨ys, rfl⟩ := List.getLast?_eq_some_iff.mp hx
        have hc := h c hx
        rw [List.dropWhile_append]
        split <;> simp [hc]
  have hr : (xs.dropWhile p).rdropWhile p = xs.dropWhile p := by
    rw [List.rdropWhile_eq_self_iff]
    intro hl
    rw [h _ (hd ▸ List.getLast?_eq_some_getLast hl)]
    simp
  rw [hr, hd]

theorem mem_of_mem_trim {c : α} (h : c ∈ (xs.dropWhile p).rdropWhile p) : c ∈ xs :=
  (List.dropWhile_sublist p).subset ((List.rdropWhile_prefix p _).subset h)

/-! ## Splitting -/

/-- What is not blank is not lost. -/
theorem mem_trim_iff {c : α} (hc : p c = false) : c ∈ (xs.dropWhile p).rdropWhile p ↔ c ∈ xs := by
  refine ⟨mem_of_mem_trim, fun h => ?_⟩
  rw [← List.takeWhile_append_dropWhile (p := p) (l := xs), List.mem_append] at h
  have h2 := h.resolve_left fun hm => by simp [List.mem_takeWhile_imp hm] at hc
  rw [← List.rdropWhile_append_rtakeWhile (p := p) (l := xs.dropWhile p), List.mem_append] at h2
  exact h2.resolve_right fun hm => by simp [List.mem_rtakeWhile_imp hm] at hc

/-- What is before and after the last `a`. -/
theorem append_cons_inj_of_not_mem {p q p' q' : List α} (hq : a ∉ q) (hq' : a ∉ q')
    (h : p ++ a :: q = p' ++ a :: q') : p = p' ∧ q = q' := by
  rcases List.append_eq_append_iff.mp h with ⟨m, hp', hm⟩ | ⟨m, hp, hm⟩
  · cases m with
    | nil => exact ⟨by simpa using hp'.symm, by simpa using hm⟩
    | cons c m =>
        have : a ∈ q := by
          rw [(List.cons.inj hm).2]
          simp
        exact absurd this hq
  · cases m with
    | nil => exact ⟨by simpa using hp, by simpa using hm.symm⟩
    | cons c m =>
        have : a ∈ q' := by
          rw [(List.cons.inj hm).2]
          simp
        exact absurd this hq'

variable [DecidableEq α]

/-- The first piece is what comes before the first separator. -/
theorem splitOn_cases (a : α) (xs : List α) :
    (a ∉ xs ∧ xs.splitOn a = [xs]) ∨
      ∃ p ys, a ∉ p ∧ xs = p ++ a :: ys ∧ xs.splitOn a = p :: ys.splitOn a := by
  by_cases h : a ∈ xs
  · obtain ⟨p, ys, hp, hxs⟩ := List.eq_append_cons_of_mem h
    exact .inr ⟨p, ys, hxs, hp, by rw [hp, List.splitOn_append_cons_self_of_not_mem hxs]⟩
  · exact .inl ⟨h, List.splitOn_eq_singleton h⟩

theorem length_splitOn (a : α) (xs : List α) : (xs.splitOn a).length = xs.count a + 1 := by
  induction hn : xs.length using Nat.strong_induction_on generalizing xs with
  | _ n ih =>
    rcases splitOn_cases a xs with ⟨h, hs⟩ | ⟨p, ys, hp, hxs, hs⟩
    · rw [hs, List.count_eq_zero_of_not_mem h]
      rfl
    · have hlt : ys.length < n := by rw [← hn, hxs]; simp; omega
      rw [hs, List.length_cons, ih _ hlt ys rfl, hxs, List.count_append,
        List.count_eq_zero_of_not_mem hp, List.count_cons_self]
      omega

theorem count_trim {q : α → Bool} (hq : q a = false) :
    ((xs.dropWhile q).rdropWhile q).count a = xs.count a := by
  have h1 : a ∉ xs.takeWhile q := fun hm => by simp [List.mem_takeWhile_imp hm] at hq
  have h2 : a ∉ (xs.dropWhile q).rtakeWhile q :=
    fun hm => by simp [List.mem_rtakeWhile_imp hm] at hq
  have h3 : xs.count a = (xs.dropWhile q).count a := by
    have h := congrArg (List.count a) (List.takeWhile_append_dropWhile (p := q) (l := xs))
    rw [List.count_append, List.count_eq_zero_of_not_mem h1] at h
    omega
  have h4 := congrArg (List.count a)
    (List.rdropWhile_append_rtakeWhile (p := q) (l := xs.dropWhile q))
  rw [List.count_append, List.count_eq_zero_of_not_mem h2] at h4
  omega

theorem not_mem_of_mem_splitOn {p : List α} (h : p ∈ xs.splitOn a) : a ∉ p := by
  induction hn : xs.length using Nat.strong_induction_on generalizing xs with
  | _ n ih =>
    rcases splitOn_cases a xs with ⟨hx, hs⟩ | ⟨q, ys, hq, hxs, hs⟩
    · rw [hs, List.mem_singleton] at h
      rw [h]
      exact hx
    · rw [hs] at h
      rcases List.mem_cons.mp h with h | h
      · rw [h]
        exact hq
      · exact ih _ (by rw [← hn, hxs]; simp; omega) h rfl

theorem exists_mem_splitOn {b : α} (h : b ∈ xs) (hne : b ≠ a) : ∃ p ∈ xs.splitOn a, b ∈ p := by
  induction hn : xs.length using Nat.strong_induction_on generalizing xs with
  | _ n ih =>
    rcases splitOn_cases a xs with ⟨hx, hs⟩ | ⟨q, ys, hq, hxs, hs⟩
    · exact ⟨xs, by rw [hs]; exact List.mem_singleton_self _, h⟩
    · rw [hxs, List.mem_append, List.mem_cons] at h
      rcases h with h | h | h
      · exact ⟨q, by rw [hs]; exact List.mem_cons_self, h⟩
      · exact absurd h hne
      · have hlt : ys.length < n := by rw [← hn, hxs]; simp; omega
        obtain ⟨p, hp, hb⟩ := ih _ hlt h rfl
        exact ⟨p, by rw [hs]; exact List.mem_cons_of_mem _ hp, hb⟩

theorem mem_of_mem_splitOn {p : List α} {b : α} (h : p ∈ xs.splitOn a) (hb : b ∈ p) : b ∈ xs := by
  induction hn : xs.length using Nat.strong_induction_on generalizing xs with
  | _ n ih =>
    rcases splitOn_cases a xs with ⟨hx, hs⟩ | ⟨q, ys, hq, hxs, hs⟩
    · rw [hs, List.mem_singleton] at h
      exact h ▸ hb
    · rw [hs] at h
      rw [hxs]
      rcases List.mem_cons.mp h with h | h
      · exact List.mem_append_left _ (h ▸ hb)
      · have hlt : ys.length < n := by rw [← hn, hxs]; simp; omega
        exact List.mem_append_right _ (List.mem_cons_of_mem _ (ih _ hlt h rfl))

/-! ## Joining -/

omit [DecidableEq α] in
theorem intercalate_append {sep : List α} {us vs : List (List α)} (hu : us ≠ []) (hv : vs ≠ []) :
    sep.intercalate (us ++ vs) = sep.intercalate us ++ sep ++ sep.intercalate vs := by
  induction us with
  | nil => exact absurd rfl hu
  | cons u us ih =>
      cases us with
      | nil => rw [List.singleton_append, List.intercalate_cons_of_ne_nil hv,
          List.intercalate_singleton]
      | cons u' us =>
          rw [List.cons_append, List.intercalate_cons_of_ne_nil (List.append_ne_nil_of_right_ne_nil
            _ hv), ih (List.cons_ne_nil _ _), List.intercalate_cons_cons]
          simp only [List.append_assoc]

/-- Where the pieces are divided, the list is divided at a separator. -/
theorem exists_of_splitOn_append {us vs : List (List α)} (h : xs.splitOn a = us ++ vs)
    (hu : us ≠ []) (hv : vs ≠ []) :
    ∃ u v, xs = u ++ a :: v ∧ u.splitOn a = us ∧ v.splitOn a = vs := by
  have hmem : ∀ p ∈ us ++ vs, a ∉ p := fun p hp => not_mem_of_mem_splitOn (h ▸ hp)
  have hjoin : [a].intercalate (xs.splitOn a) = xs := List.intercalate_splitOn a
  refine ⟨[a].intercalate us, [a].intercalate vs, ?_, ?_, ?_⟩
  · rw [← hjoin, h, intercalate_append hu hv, List.append_assoc]
    rfl
  · exact List.splitOn_intercalate a (fun p hp => hmem p (List.mem_append_left _ hp)) hu
  · exact List.splitOn_intercalate a (fun p hp => hmem p (List.mem_append_right _ hp)) hv

end Splitting
