import Mathlib.Data.List.Forall2
import Mathlib.Order.Lattice

/-!
# Comparing one field after the other

A comparison that looks at one field first, and at the others only if that does not
decide. What makes such comparisons strict weak orders is that each field has one, in
the form that is easy to hand on: if `a` is before `c`, then any `b` is after the one or
before the other.
-/

namespace FieldOrder

variable {α β : Type} {lt lt' : α → α → Bool} {a b c : α}

structure Ordered (lt : α → α → Bool) : Prop where
  asymm : ∀ {a b}, lt a b = true → ¬ lt b a = true
  between : ∀ {a c} b, lt a c = true → lt a b = true ∨ lt b c = true

/-- Neither is before the other. -/
def Same (lt : α → α → Bool) (a b : α) : Prop := ¬ lt a b = true ∧ ¬ lt b a = true

theorem Same.symm (h : Same lt a b) : Same lt b a := And.comm.mp h

/-- A comparison says before, after, or nothing. -/
theorem lt_or_gt_or_same (lt : α → α → Bool) (a b : α) :
    lt a b = true ∨ lt b a = true ∨ Same lt a b := by
  by_cases hab : lt a b = true
  · exact .inl hab
  · by_cases hba : lt b a = true
    · exact .inr (.inl hba)
    · exact .inr (.inr ⟨hab, hba⟩)

namespace Ordered

theorem trans (h : Ordered lt) (hab : lt a b = true) (hbc : lt b c = true) : lt a c = true :=
  (h.between c hab).resolve_right (h.asymm hbc)

theorem trans_same (h : Ordered lt) (hab : lt a b = true) (hbc : Same lt b c) : lt a c = true :=
  (h.between c hab).resolve_right hbc.2

theorem same_same (h : Ordered lt) (hab : Same lt a b) (hbc : Same lt b c) : Same lt a c :=
  ⟨fun hac => (h.between b hac).elim hab.1 hbc.1, fun hca => (h.between b hca).elim hbc.2 hab.2⟩

theorem isStrictWeakOrder (h : Ordered lt) : IsStrictWeakOrder α fun a b => lt a b = true where
  irrefl _ ha := h.asymm ha ha
  trans _ _ _ := h.trans
  incomp_trans _ _ _ := h.same_same

end Ordered

/-- The order of a field whose type has one. -/
def fieldLt [LinearOrder β] (f : α → β) (a b : α) : Bool := f a < f b

theorem ordered_fieldLt [LinearOrder β] (f : α → β) : Ordered (fieldLt f) where
  asymm h := by
    rw [fieldLt, decide_eq_true_iff]
    exact lt_asymm (of_decide_eq_true h)
  between b h := by
    rw [fieldLt, fieldLt, decide_eq_true_iff, decide_eq_true_iff]
    by_contra hn
    obtain ⟨hab, hbc⟩ := not_or.mp hn
    exact absurd (of_decide_eq_true h) (not_lt.mpr (le_trans (not_lt.mp hbc) (not_lt.mp hab)))

theorem same_fieldLt [LinearOrder β] {f : α → β} : Same (fieldLt f) a b ↔ f a = f b := by
  rw [Same, fieldLt, fieldLt, decide_eq_true_iff, decide_eq_true_iff, not_lt, not_lt]
  exact ⟨fun h => le_antisymm h.2 h.1, fun h => ⟨le_of_eq h.symm, le_of_eq h⟩⟩

/-! ## One, then the other -/

def thenLt (lt lt' : α → α → Bool) (a b : α) : Bool :=
  if lt a b then true else if lt b a then false else lt' a b

theorem thenLt_of_lt (h : lt a b = true) : thenLt lt lt' a b = true := if_pos h

theorem thenLt_of_gt (hlt : Ordered lt) (h : lt b a = true) : ¬ thenLt lt lt' a b = true := by
  rw [thenLt, if_neg (hlt.asymm h), if_pos h]
  exact Bool.false_ne_true

theorem thenLt_of_same (h : Same lt a b) : thenLt lt lt' a b = lt' a b := by
  rw [thenLt, if_neg h.1, if_neg h.2]

theorem same_thenLt : Same (thenLt lt lt') a b ↔ Same lt a b ∧ Same lt' a b := by
  rcases lt_or_gt_or_same lt a b with h | h | h
  · exact iff_of_false (fun hs => hs.1 (thenLt_of_lt h)) fun hs => hs.1.1 h
  · exact iff_of_false (fun hs => hs.2 (thenLt_of_lt h)) fun hs => hs.1.2 h
  · rw [Same, thenLt_of_same h, thenLt_of_same h.symm, and_iff_right h]
    rfl

theorem Ordered.thenLt (hlt : Ordered lt) (hlt' : Ordered lt') : Ordered (thenLt lt lt') where
  asymm := by
    intro a b h
    rcases lt_or_gt_or_same lt a b with hab | hba | hs
    · exact thenLt_of_gt hlt hab
    · exact absurd h (thenLt_of_gt hlt hba)
    · rw [thenLt_of_same hs] at h
      rw [thenLt_of_same hs.symm]
      exact hlt'.asymm h
  between := by
    intro a c b h
    rcases lt_or_gt_or_same lt a b with hab | hba | hab
    · exact .inl (thenLt_of_lt hab)
    · -- so `b` is before `c`, which is not before `a`
      refine .inr (thenLt_of_lt ((hlt.between c hba).resolve_right fun hca => ?_))
      exact thenLt_of_gt hlt hca h
    · rcases lt_or_gt_or_same lt b c with hbc | hcb | hbc
      · exact .inr (thenLt_of_lt hbc)
      · exact absurd h (thenLt_of_gt hlt (hlt.trans_same hcb hab.symm))
      · rw [thenLt_of_same (hlt.same_same hab hbc)] at h
        rw [thenLt_of_same hab, thenLt_of_same hbc]
        exact hlt'.between b h

/-! ## Lists -/

/-- Entry by entry. A list is after its beginnings. -/
def listLt (lt : α → α → Bool) : List α → List α → Bool
  | _, [] => false
  | [], _ :: _ => true
  | a :: as, b :: bs => if lt a b then true else if lt b a then false else listLt lt as bs

section Lists

variable {as bs cs : List α}

theorem listLt_cons_of_lt (h : lt a b = true) : listLt lt (a :: as) (b :: bs) = true := if_pos h

theorem listLt_cons_of_gt (hlt : Ordered lt) (h : lt b a = true) :
    ¬ listLt lt (a :: as) (b :: bs) = true := by
  rw [listLt, if_neg (hlt.asymm h), if_pos h]
  exact Bool.false_ne_true

theorem listLt_cons_of_same (h : Same lt a b) :
    listLt lt (a :: as) (b :: bs) = listLt lt as bs := by
  rw [listLt, if_neg h.1, if_neg h.2]

theorem not_listLt_nil : ¬ listLt lt as [] = true := by
  cases as <;> exact Bool.false_ne_true

theorem same_listLt : Same (listLt lt) as bs ↔ List.Forall₂ (Same lt) as bs := by
  induction as generalizing bs with
  | nil =>
      cases bs with
      | nil => exact iff_of_true ⟨Bool.false_ne_true, Bool.false_ne_true⟩ .nil
      | cons b bs => exact iff_of_false (fun h => h.1 rfl) (nomatch ·)
  | cons a as ih =>
      cases bs with
      | nil => exact iff_of_false (fun h => h.2 rfl) (nomatch ·)
      | cons b bs =>
          rw [List.forall₂_cons]
          rcases lt_or_gt_or_same lt a b with h | h | h
          · exact iff_of_false (fun hs => hs.1 (listLt_cons_of_lt h)) fun hs => hs.1.1 h
          · exact iff_of_false (fun hs => hs.2 (listLt_cons_of_lt h)) fun hs => hs.1.2 h
          · rw [Same, listLt_cons_of_same h, listLt_cons_of_same h.symm, and_iff_right h]
            exact ih

theorem Ordered.listLt (hlt : Ordered lt) : Ordered (listLt lt) where
  asymm := by
    intro as bs
    induction as generalizing bs with
    | nil => exact fun _ => not_listLt_nil
    | cons a as ih =>
        intro h
        cases bs with
        | nil => exact absurd h not_listLt_nil
        | cons b bs =>
            rcases lt_or_gt_or_same lt a b with hab | hba | hs
            · exact listLt_cons_of_gt hlt hab
            · exact absurd h (listLt_cons_of_gt hlt hba)
            · rw [listLt_cons_of_same hs] at h
              rw [listLt_cons_of_same hs.symm]
              exact ih h
  between := by
    intro as cs bs
    induction bs generalizing as cs with
    | nil =>
        intro h
        cases cs with
        | nil => exact absurd h not_listLt_nil
        | cons c cs => exact .inr rfl
    | cons b bs ih =>
        intro h
        cases as with
        | nil => exact .inl rfl
        | cons a as =>
            cases cs with
            | nil => exact absurd h not_listLt_nil
            | cons c cs =>
                rcases lt_or_gt_or_same lt a b with hab | hba | hab
                · exact .inl (listLt_cons_of_lt hab)
                · refine .inr (listLt_cons_of_lt ((hlt.between c hba).resolve_right fun hca => ?_))
                  exact listLt_cons_of_gt hlt hca h
                · rcases lt_or_gt_or_same lt b c with hbc | hcb | hbc
                  · exact .inr (listLt_cons_of_lt hbc)
                  · exact absurd h (listLt_cons_of_gt hlt (hlt.trans_same hcb hab.symm))
                  · rw [listLt_cons_of_same (hlt.same_same hab hbc)] at h
                    rw [listLt_cons_of_same hab, listLt_cons_of_same hbc]
                    exact ih h

end Lists

end FieldOrder
