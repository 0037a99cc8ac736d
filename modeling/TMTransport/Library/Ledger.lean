import Mathlib.Data.List.Basic

/-!
# An exact ledger

A ledger is a list of entries that open or close a key, of which the latest comes
first. `Held i k` says that the holder `i` has the key `k`. The ledger is exact if
the keys that are open are those that have a holder, which is then the only one,
and if the entries of each key open and close it in turns.

A change of `Held` is recorded right if it is one of three: no change, a new holder
for a key that has none, and the end of a key.
-/

namespace Ledger

inductive Mark where
  | opened
  | closed
  deriving DecidableEq

variable {ι κ : Type}

/-- Opened, closed, opened, …, from the last entry of the list on. -/
def Alternates : List Mark → Prop
  | [] => True
  | .opened :: marks => marks.head? ≠ some .opened ∧ Alternates marks
  | .closed :: marks => marks.head? = some .opened ∧ Alternates marks

def marks [DecidableEq κ] (k : κ) (entries : List (κ × Mark)) : List Mark :=
  (entries.filter (·.1 = k)).map Prod.snd

structure Exact [DecidableEq κ] (Held : ι → κ → Prop) (entries : List (κ × Mark)) : Prop where
  alternates : ∀ k, Alternates (marks k entries)
  open_iff : ∀ k, (marks k entries).head? = some .opened ↔ ∃ i, Held i k
  holder_unique : ∀ k i j, Held i k → Held j k → i = j

variable [DecidableEq κ] {Held Held' : ι → κ → Prop} {entries : List (κ × Mark)} {i : ι} {k : κ}

@[simp]
theorem marks_cons_self (k : κ) (m : Mark) (entries : List (κ × Mark)) :
    marks k ((k, m) :: entries) = m :: marks k entries := by
  simp [marks]

theorem marks_cons_ne {k k' : κ} (h : k' ≠ k) (m : Mark) (entries : List (κ × Mark)) :
    marks k ((k', m) :: entries) = marks k entries := by
  simp [marks, h]

theorem Alternates.of_append {as bs : List Mark} (h : Alternates (as ++ bs)) : Alternates bs := by
  induction as with
  | nil => exact h
  | cons m as ih =>
      cases m with
      | opened => exact ih h.2
      | closed => exact ih h.2

/-! ## Open keys -/

/-- The last entry of the key opens it. -/
def IsOpen (k : κ) (entries : List (κ × Mark)) : Prop := (marks k entries).head? = some .opened

theorem not_isOpen_nil (k : κ) : ¬ IsOpen k [] := by
  intro h
  cases h

theorem isOpen_cons_opened {k' : κ} :
    IsOpen k' ((k, .opened) :: entries) ↔ k = k' ∨ IsOpen k' entries := by
  by_cases h : k = k'
  · subst h
    exact iff_of_true (by rw [IsOpen, marks_cons_self]; rfl) (.inl rfl)
  · rw [IsOpen, marks_cons_ne h, or_iff_right h]
    rfl

theorem isOpen_cons_closed {k' : κ} :
    IsOpen k' ((k, .closed) :: entries) ↔ k ≠ k' ∧ IsOpen k' entries := by
  by_cases h : k = k'
  · subst h
    refine iff_of_false ?_ fun hopen => hopen.1 rfl
    rw [IsOpen, marks_cons_self]
    exact fun hclosed => by cases hclosed
  · rw [IsOpen, marks_cons_ne h, and_iff_right h]
    rfl

/-- An open key has been opened. -/
theorem mem_of_isOpen (h : IsOpen k entries) : (k, .opened) ∈ entries := by
  have hmem : Mark.opened ∈ marks k entries := List.mem_of_mem_head? h
  obtain ⟨e, he, hopened⟩ := List.mem_map.mp hmem
  obtain ⟨hmem, hk⟩ := List.mem_filter.mp he
  have heq : e = (k, .opened) := Prod.ext (of_decide_eq_true hk) hopened
  exact heq ▸ hmem

/-- Where the turns are kept, what is opened was not open. -/
theorem not_isOpen_of_opened {later : List (κ × Mark)}
    (h : Alternates (marks k (later ++ (k, .opened) :: entries))) : ¬ IsOpen k entries := by
  rw [marks, List.filter_append, List.map_append] at h
  have halternates : Alternates (marks k ((k, .opened) :: entries)) := h.of_append
  rw [marks_cons_self] at halternates
  exact halternates.1

/-- And what is closed was open. -/
theorem isOpen_of_closed {later : List (κ × Mark)}
    (h : Alternates (marks k (later ++ (k, .closed) :: entries))) : IsOpen k entries := by
  rw [marks, List.filter_append, List.map_append] at h
  have halternates : Alternates (marks k ((k, .closed) :: entries)) := h.of_append
  rw [marks_cons_self] at halternates
  exact halternates.1

theorem exact_nil (h : ∀ i k, ¬ Held i k) : Exact Held [] where
  alternates _ := trivial
  open_iff k := by simp [marks, h]
  holder_unique k i _ hi := absurd hi (h i k)

namespace Exact

theorem congr (h : Exact Held entries) (hHeld : ∀ i k, Held' i k ↔ Held i k) :
    Exact Held' entries := by
  have : Held' = Held := funext fun i => funext fun k => propext (hHeld i k)
  rwa [this]

/-- A key that nobody holds gets a holder. -/
theorem opened (h : Exact Held entries) (hk : ∀ i, ¬ Held i k)
    (hHeld : ∀ i' k', Held' i' k' ↔ Held i' k' ∨ i' = i ∧ k' = k) :
    Exact Held' ((k, .opened) :: entries) where
  alternates k' := by
    by_cases hkk : k = k'
    · subst hkk
      rw [marks_cons_self]
      refine ⟨fun hopen => ?_, h.alternates k⟩
      obtain ⟨j, hj⟩ := (h.open_iff k).mp hopen
      exact hk j hj
    · rw [marks_cons_ne hkk]
      exact h.alternates k'
  open_iff k' := by
    by_cases hkk : k = k'
    · subst hkk
      rw [marks_cons_self]
      exact ⟨fun _ => ⟨i, (hHeld i k).mpr (.inr ⟨rfl, rfl⟩)⟩, fun _ => rfl⟩
    · rw [marks_cons_ne hkk, h.open_iff k']
      refine exists_congr fun j => ⟨fun hj => (hHeld j k').mpr (.inl hj), fun hj => ?_⟩
      exact ((hHeld j k').mp hj).resolve_right fun hjk => hkk hjk.2.symm
  holder_unique k' j j' hj hj' := by
    rcases (hHeld j k').mp hj with hj | ⟨rfl, rfl⟩
    · rcases (hHeld j' k').mp hj' with hj' | ⟨rfl, rfl⟩
      · exact h.holder_unique k' j j' hj hj'
      · exact absurd hj (hk j)
    · rcases (hHeld j' k').mp hj' with hj' | ⟨rfl, -⟩
      · exact absurd hj' (hk j')
      · rfl

/-- A key that has a holder is given up. -/
theorem closed (h : Exact Held entries) (hk : Held i k)
    (hHeld : ∀ i' k', Held' i' k' ↔ Held i' k' ∧ k' ≠ k) :
    Exact Held' ((k, .closed) :: entries) where
  alternates k' := by
    by_cases hkk : k = k'
    · subst hkk
      rw [marks_cons_self]
      exact ⟨(h.open_iff k).mpr ⟨i, hk⟩, h.alternates k⟩
    · rw [marks_cons_ne hkk]
      exact h.alternates k'
  open_iff k' := by
    by_cases hkk : k = k'
    · subst hkk
      rw [marks_cons_self]
      refine ⟨fun hopen => ?_, fun ⟨j, hj⟩ => absurd rfl ((hHeld j k).mp hj).2⟩
      cases hopen
    · rw [marks_cons_ne hkk, h.open_iff k']
      exact exists_congr fun j => by rw [hHeld j k', and_iff_left (Ne.symm hkk)]
  holder_unique k' j j' hj hj' :=
    h.holder_unique k' j j' ((hHeld j k').mp hj).1 ((hHeld j' k').mp hj').1

end Exact

end Ledger
