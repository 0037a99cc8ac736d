import Mathlib.Data.List.Basic
import Mathlib.Data.List.Perm.Basic

/-!
# Maps that are sorted lists

A map whose order comes from a comparison. Keys of which neither is smaller are one
key to it, even if they differ.
-/

namespace SortedMap

variable {κ β : Type} {lt : κ → κ → Bool} {k : κ} {v : β} {es : List (κ × β)}

/-- Nothing happens if the key is there already. -/
def insert (lt : κ → κ → Bool) (k : κ) (v : β) : List (κ × β) → List (κ × β)
  | [] => [(k, v)]
  | e :: es =>
    if lt k e.1 then (k, v) :: e :: es
    else if lt e.1 k then e :: insert lt k v es
    else e :: es

def insertAll (lt : κ → κ → Bool) (es new : List (κ × β)) : List (κ × β) :=
  new.foldl (fun m e => insert lt e.1 e.2 m) es

/-- The map can tell these keys from each other. -/
def Apart (lt : κ → κ → Bool) (a b : κ) : Prop := lt a b = true ∨ lt b a = true

instance (a b : κ) : Decidable (Apart lt a b) := inferInstanceAs (Decidable (_ ∨ _))

theorem Apart.symm {a b : κ} (h : Apart lt a b) : Apart lt b a := Or.comm.mp h

theorem insert_perm (h : ∀ e ∈ es, Apart lt k e.1) : (insert lt k v es).Perm ((k, v) :: es) := by
  induction es with
  | nil => exact .refl _
  | cons e es ih =>
      rw [insert]
      split
      · exact .refl _
      · next hlt =>
        have hgt : lt e.1 k = true := (h e (List.mem_cons_self ..)).resolve_left hlt
        rw [if_pos hgt]
        exact ((ih fun e' he' => h e' (List.mem_cons_of_mem _ he')).cons e).trans (.swap ..)

theorem insertAll_perm {new : List (κ × β)} (hnew : new.Pairwise fun a b => Apart lt a.1 b.1)
    (h : ∀ e ∈ new, ∀ e' ∈ es, Apart lt e.1 e'.1) : (insertAll lt es new).Perm (new ++ es) := by
  induction new generalizing es with
  | nil => exact .refl _
  | cons e new ih =>
      obtain ⟨hfirst, hnew⟩ := List.pairwise_cons.mp hnew
      have he := insert_perm (v := e.2) (h e (List.mem_cons_self ..))
      refine (ih hnew fun a ha b hb => ?_).trans ((he.append_left new).trans List.perm_middle)
      rcases List.mem_cons.mp (he.mem_iff.mp hb) with rfl | hb
      · exact (hfirst a ha).symm
      · exact h a (List.mem_cons_of_mem _ ha) b hb

section Erase

variable [DecidableEq κ]

def erase (k : κ) (es : List (κ × β)) : List (κ × β) := es.filter fun e => e.1 ≠ k

/-- A key that is there once takes one value with it. -/
theorem perm_lookup_erase [BEq κ] [LawfulBEq κ] (hn : (es.map Prod.fst).Nodup) (k : κ) :
    (es.map Prod.snd).Perm ((es.lookup k).toList ++ (erase k es).map Prod.snd) := by
  induction es with
  | nil => exact .refl _
  | cons e es ih =>
      obtain ⟨hnot, hn⟩ := List.nodup_cons.mp hn
      by_cases hk : e.1 = k
      · have hnone : ∀ e' ∈ es, e'.1 ≠ k := fun e' he' hk' =>
          hnot (List.mem_map.mpr ⟨e', he', hk'.trans hk.symm⟩)
        have hes : erase k es = es := List.filter_eq_self.mpr fun e' he' => by
          simpa using hnone e' he'
        have hlookup : (e :: es).lookup k = some e.2 := by
          rw [List.lookup_cons, beq_iff_eq.mpr hk.symm]
        have herase : erase k (e :: es) = es := by
          rw [erase, List.filter_cons_of_neg (by simpa using hk)]
          exact hes
        rw [hlookup, herase]
        exact .refl _
      · have hlookup : (e :: es).lookup k = es.lookup k := by
          rw [List.lookup_cons, beq_false_of_ne (Ne.symm hk)]
        have herase : erase k (e :: es) = e :: erase k es :=
          List.filter_cons_of_pos (by simpa using hk)
        rw [hlookup, herase]
        exact ((ih hn).cons e.2).trans List.perm_middle.symm

end Erase

end SortedMap
