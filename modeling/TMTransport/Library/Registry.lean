import Mathlib.Data.Finset.Erase
import Mathlib.Data.Finset.Insert
import Mathlib.Logic.Function.Basic

/-!
# A register kept in two maps

Each id has at most one owner. One map leads from an id to its owner, the other
from an owner to its ids. The second one is there to find what has to go when an
owner is released.

`assign` writes both maps, but it does not look for the id among the ids of the
owner that had it before. So the maps stay inverse to each other exactly as long
as no id is taken over from another owner (`inverse_play_iff`). As long as that is
so, they say what the history says (`Agrees.play`).
-/

namespace Registry

structure Maps (ι κ : Type) where
  owner : ι → Option κ
  held : κ → Finset ι

inductive Event (ι κ : Type) where
  | assigned (i : ι) (k : κ)
  | finished (i : ι)
  | released (k : κ)
  deriving DecidableEq

variable {ι κ : Type}

def Maps.empty : Maps ι κ := ⟨fun _ => none, fun _ => ∅⟩

/-- Both maps describe the same relation. -/
def Maps.Inverse (m : Maps ι κ) : Prop := ∀ i k, m.owner i = some k ↔ i ∈ m.held k

section Operations

variable [DecidableEq ι] [DecidableEq κ]

def Maps.assign (m : Maps ι κ) (i : ι) (k : κ) : Maps ι κ where
  owner := Function.update m.owner i (some k)
  held := Function.update m.held k (insert i (m.held k))

def Maps.finish (m : Maps ι κ) (i : ι) : Maps ι κ :=
  match m.owner i with
  | none => m
  | some k => ⟨Function.update m.owner i none,
      Function.update m.held k ((m.held k).erase i)⟩

def Maps.release (m : Maps ι κ) (k : κ) : Maps ι κ where
  owner := fun i => if i ∈ m.held k then none else m.owner i
  held := Function.update m.held k ∅

def Maps.play (m : Maps ι κ) : Event ι κ → Maps ι κ
  | .assigned i k => m.assign i k
  | .finished i => m.finish i
  | .released k => m.release k

/-- The owner of an id, by the history, of which the latest event comes first. -/
def ownerIn : List (Event ι κ) → ι → Option κ
  | [], _ => none
  | .assigned i k :: h, j => if j = i then some k else ownerIn h j
  | .finished i :: h, j => if j = i then none else ownerIn h j
  | .released k :: h, j => if ownerIn h j = some k then none else ownerIn h j

end Operations

/-- An id is not taken over from another owner. -/
def Unshared (m : Maps ι κ) : Event ι κ → Prop
  | .assigned i k => ∀ k', m.owner i = some k' → k' = k
  | _ => True

/-- Does an event end what an id's owner has? -/
def Event.Ends (i : ι) (k : κ) : Event ι κ → Prop
  | .assigned j _ => j = i
  | .finished j => j = i
  | .released k' => k' = k

variable {m : Maps ι κ} {h : List (Event ι κ)} {e : Event ι κ} {i : ι} {k : κ}

theorem inverse_empty : (Maps.empty : Maps ι κ).Inverse := by
  intro i k
  simp [Maps.empty]

variable [DecidableEq ι]

section Owner

variable [DecidableEq κ]

/-- The owner is who got the id last, if neither has been done with since. -/
theorem ownerIn_eq_some_iff : ownerIn h i = some k ↔
    ∃ since before, h = since ++ .assigned i k :: before ∧ ∀ e ∈ since, ¬ e.Ends i k := by
  constructor
  · intro hk
    induction h with
    | nil => cases hk
    | cons e h ih =>
        have later : ownerIn h i = some k → ¬ e.Ends i k →
            ∃ since before, e :: h = since ++ .assigned i k :: before ∧
              ∀ e' ∈ since, ¬ e'.Ends i k := by
          intro h1 h2
          obtain ⟨since, before, rfl, h3⟩ := ih h1
          exact ⟨e :: since, before, rfl, List.forall_mem_cons.mpr ⟨h2, h3⟩⟩
        cases e with
        | assigned j k' =>
            simp only [ownerIn] at hk
            split at hk
            · next hj =>
              subst hj
              obtain rfl := Option.some.inj hk
              exact ⟨[], h, rfl, by simp⟩
            · next hj => exact later hk (Ne.symm hj)
        | finished j =>
            simp only [ownerIn] at hk
            split at hk
            · cases hk
            · next hj => exact later hk (Ne.symm hj)
        | released k' =>
            simp only [ownerIn] at hk
            split at hk
            · cases hk
            · next hk' =>
              refine later hk ?_
              intro e
              subst e
              exact hk' hk
  · intro hk
    obtain ⟨since, before, rfl, hs⟩ := hk
    induction since with
    | nil => simp [ownerIn]
    | cons e since ih =>
        have h1 := ih fun e' he' => hs e' (List.mem_cons_of_mem _ he')
        have h2 := hs e List.mem_cons_self
        cases e with
        | assigned j k' => simpa [ownerIn, if_neg (Ne.symm h2)] using h1
        | finished j => simpa [ownerIn, if_neg (Ne.symm h2)] using h1
        | released k' =>
            have h3 : k' ≠ k := h2
            simp only [List.cons_append, ownerIn, h1, Option.some.injEq, if_neg (Ne.symm h3)]

/--
The same for a history in which more happens than the register is told of, and which has its own
word for what ends an entry.
-/
theorem ownerIn_filterMap_iff {ε : Type} {f : ε → Option (Event ι κ)} {ends : ε → Prop}
    (hends : ∀ e, ends e ↔ ∃ r, f e = some r ∧ r.Ends i k) {l : List ε} :
    ownerIn (l.filterMap f) i = some k ↔
      ∃ since before e, l = since ++ e :: before ∧ f e = some (.assigned i k) ∧
        ∀ e' ∈ since, ¬ ends e' := by
  rw [ownerIn_eq_some_iff]
  constructor
  · intro h
    obtain ⟨since, before, hl, hs⟩ := h
    obtain ⟨l₁, l₂, rfl, h₁, h₂⟩ := List.filterMap_eq_append_iff.mp hl
    obtain ⟨m₁, e, m₂, rfl, hm, he, -⟩ := List.filterMap_eq_cons_iff.mp h₂
    refine ⟨l₁ ++ m₁, m₂, e, by simp, he, fun e' he' hend => ?_⟩
    obtain ⟨r, hr, hend⟩ := (hends e').mp hend
    rcases List.mem_append.mp he' with h3 | h3
    · exact hs r (h₁ ▸ List.mem_filterMap.mpr ⟨e', h3, hr⟩) hend
    · rw [hm e' h3] at hr
      cases hr
  · intro h
    obtain ⟨since, before, e, rfl, he, hs⟩ := h
    refine ⟨since.filterMap f, before.filterMap f, by simp [he], fun r hr hend => ?_⟩
    obtain ⟨e', he', hr⟩ := List.mem_filterMap.mp hr
    exact hs e' he' ((hends e').mpr ⟨r, hr, hend⟩)

end Owner

section Maps

variable [DecidableEq κ]

/-- What the maps say after an event, if they were inverse to each other. -/
theorem inverse_play_iff (hm : m.Inverse) : (m.play e).Inverse ↔ Unshared m e := by
  cases e with
  | assigned i k =>
      constructor
      · intro h1 k' hk'
        by_contra hne
        have h2 : i ∈ (m.assign i k).held k' := by
          simpa [Maps.assign, Function.update_of_ne hne] using (hm i k').mp hk'
        have h3 := (h1 i k').mpr h2
        simp only [Maps.play, Maps.assign, Function.update_self, Option.some.injEq] at h3
        exact hne h3.symm
      · intro h1 j k'
        show Function.update m.owner i (some k) j = some k' ↔
          j ∈ Function.update m.held k (insert i (m.held k)) k'
        by_cases hj : j = i <;> by_cases hk : k' = k
        · subst hj; subst hk; simp
        · subst hj
          simp only [Function.update_self, Option.some.injEq, Function.update_of_ne hk]
          refine ⟨fun e => absurd e.symm hk, fun h2 => absurd (h1 k' ((hm _ _).mpr h2)) hk⟩
        · subst hk
          simp [hj, hm j k']
        · simp [Function.update_of_ne hj, Function.update_of_ne hk, hm j k']
  | finished i =>
      refine ⟨fun _ => trivial, fun _ j k' => ?_⟩
      show (m.finish i).owner j = some k' ↔ j ∈ (m.finish i).held k'
      cases hi : m.owner i with
      | none => simp only [Maps.finish, hi]; exact hm j k'
      | some k =>
          simp only [Maps.finish, hi]
          by_cases hk : k' = k
          · subst hk
            by_cases hj : j = i
            · subst hj; simp
            · simp [hj, hm j k']
          · by_cases hj : j = i
            · subst hj
              simp only [Function.update_self, Function.update_of_ne hk, reduceCtorEq, false_iff]
              intro h2
              exact hk (Option.some.inj (((hm j k').mpr h2).symm.trans hi))
            · simp [Function.update_of_ne hj, Function.update_of_ne hk, hm j k']
  | released k =>
      refine ⟨fun _ => trivial, fun _ j k' => ?_⟩
      show (if j ∈ m.held k then none else m.owner j) = some k' ↔ j ∈ Function.update m.held k ∅ k'
      by_cases hk : k' = k
      · subst hk
        by_cases hj : j ∈ m.held k' <;> simp [hj, hm j k']
      · rw [Function.update_of_ne hk]
        by_cases hj : j ∈ m.held k
        · simp only [if_pos hj, reduceCtorEq, false_iff]
          intro h2
          exact hk (Option.some.inj (((hm j k').mpr h2).symm.trans ((hm j k).mpr hj)))
        · simp [hj, hm j k']

/-- Whose an id is after an event, if the maps were inverse to each other. -/
theorem owner_play (hm : m.Inverse) (ho : m.owner = ownerIn h) :
    (m.play e).owner = ownerIn (e :: h) := by
  funext j
  cases e with
  | assigned i k =>
      simp only [Maps.play, Maps.assign, ownerIn, Function.update_apply, ho]
  | finished i =>
      simp only [ownerIn, ← ho]
      show (m.finish i).owner j = _
      cases hi : m.owner i with
      | none =>
          simp only [Maps.finish, hi]
          split
          · next hj => rw [hj, hi]
          · rfl
      | some k => simp only [Maps.finish, hi, Function.update_apply]
  | released k =>
      simp only [Maps.play, Maps.release, ownerIn, ← ho]
      by_cases hj : j ∈ m.held k
      · rw [if_pos hj, if_pos ((hm j k).mpr hj)]
      · rw [if_neg hj, if_neg fun h1 => hj ((hm j k).mp h1)]

theorem finish_of_owner (hi : m.owner i = some k) : m.finish i =
    ⟨Function.update m.owner i none, Function.update m.held k ((m.held k).erase i)⟩ := by
  rw [Maps.finish, hi]

theorem owner_of_finish {j : ι} (h : (m.finish i).owner j = some k) : m.owner j = some k := by
  cases hi : m.owner i with
  | none => rwa [Maps.finish, hi] at h
  | some k' =>
      simp only [Maps.finish, hi, Function.update_apply] at h
      split at h
      · cases h
      · exact h

theorem owner_of_assign {j : ι} {k' : κ} (h : (m.assign i k).owner j = some k') :
    k' = k ∨ m.owner j = some k' := by
  have h1 : Function.update m.owner i (some k) j = some k' := h
  rw [Function.update_apply] at h1
  split at h1
  · exact .inl (Option.some.inj h1).symm
  · exact .inr h1

/-- Who is released owns nothing any more. -/
theorem owner_of_release {j : ι} {k' : κ} (hm : m.Inverse)
    (h : (m.release k).owner j = some k') : k' ≠ k ∧ m.owner j = some k' := by
  simp only [Maps.release] at h
  split at h
  · cases h
  · next hj =>
    refine ⟨?_, h⟩
    intro e
    subst e
    exact hj ((hm j k').mp h)

/-- Who owns an id keeps it when another is released. -/
theorem owner_release_of_ne {j : ι} {k' : κ} (hm : m.Inverse) (h : m.owner j = some k')
    (hne : k' ≠ k) : (m.release k).owner j = some k' := by
  have hj : j ∉ m.held k := by
    intro h1
    exact hne (Option.some.inj (h.symm.trans ((hm j k).mpr h1)))
  exact (if_neg hj).trans h

/-- Who has nothing can be released without effect. -/
theorem release_of_empty (hk : m.held k = ∅) : m.release k = m := by
  have h1 : Function.update m.held k ∅ = m.held := by
    rw [← hk]
    exact Function.update_eq_self k m.held
  simp [Maps.release, hk, h1]

/-- The two maps describe the same relation, and it is the one that the history gives. -/
structure Agrees (m : Maps ι κ) (h : List (Event ι κ)) : Prop where
  inverse : m.Inverse
  owner : m.owner = ownerIn h

theorem agrees_empty : Agrees (Maps.empty : Maps ι κ) [] := ⟨inverse_empty, rfl⟩

theorem Agrees.play (ha : Agrees m h) (hu : Unshared m e) : Agrees (m.play e) (e :: h) :=
  ⟨(inverse_play_iff ha.inverse).mpr hu, owner_play ha.inverse ha.owner⟩

end Maps

end Registry
