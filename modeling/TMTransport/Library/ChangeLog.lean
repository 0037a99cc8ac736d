import Mathlib.Data.List.Basic
import Mathlib.Logic.Function.Basic

/-!
# Copies that follow a change log

A map changes by puts and deletions of single keys, which a log keeps in order. A
copy of the map is made of a snapshot and of what the log says after some point.
Here is what the entries of a log say of one key, and what two copies have in common
that have seen the same entries.
-/

namespace ChangeLog

variable {κ α : Type}

/-- One entry: the key gets a value, or loses it. -/
structure Entry (κ α : Type) where
  key : κ
  value : Option α
  deriving DecidableEq

/-- No entry is about `k`. -/
def Untouched (k : κ) (l : List (Entry κ α)) : Prop := ∀ e ∈ l, e.key ≠ k

variable {m m' : κ → Option α} {l l' : List (Entry κ α)} {e : Entry κ α} {k : κ}

theorem untouched_nil (k : κ) : Untouched k ([] : List (Entry κ α)) := fun _ h => by cases h

theorem untouched_cons : Untouched k (e :: l) ↔ e.key ≠ k ∧ Untouched k l :=
  List.forall_mem_cons

theorem untouched_append : Untouched k (l ++ l') ↔ Untouched k l ∧ Untouched k l' :=
  List.forall_mem_append

variable [DecidableEq κ]

instance (k : κ) (l : List (Entry κ α)) : Decidable (Untouched k l) :=
  inferInstanceAs (Decidable (∀ e ∈ l, e.key ≠ k))

def Entry.apply (m : κ → Option α) (e : Entry κ α) : κ → Option α :=
  Function.update m e.key e.value

/-- The map after the entries, the first of which comes first. -/
def replay (m : κ → Option α) (l : List (Entry κ α)) : κ → Option α := l.foldl Entry.apply m

@[simp]
theorem replay_nil (m : κ → Option α) : replay m [] = m := rfl

@[simp]
theorem replay_cons (m : κ → Option α) (e : Entry κ α) (l : List (Entry κ α)) :
    replay m (e :: l) = replay (e.apply m) l := rfl

theorem replay_append (m : κ → Option α) (l l' : List (Entry κ α)) :
    replay m (l ++ l') = replay (replay m l) l' :=
  List.foldl_append

theorem replay_of_untouched (h : Untouched k l) (m : κ → Option α) : replay m l k = m k := by
  induction l generalizing m with
  | nil => rfl
  | cons e l ih =>
      obtain ⟨hne, hrest⟩ := untouched_cons.mp h
      rw [replay_cons, ih hrest]
      exact Function.update_of_ne (Ne.symm hne) _ _

/-- Of a key that some entry is about, the log says all. -/
theorem replay_of_touched (h : ¬ Untouched k l) (m m' : κ → Option α) :
    replay m l k = replay m' l k := by
  induction l generalizing m m' with
  | nil => exact absurd (untouched_nil k) h
  | cons e l ih =>
      rw [replay_cons, replay_cons]
      by_cases hrest : Untouched k l
      · have hkey : e.key = k := by
          by_contra hne
          exact h (untouched_cons.mpr ⟨hne, hrest⟩)
        rw [replay_of_untouched hrest, replay_of_untouched hrest]
        simp only [Entry.apply, hkey, Function.update_self]
      · exact ih hrest _ _

/-- Copies that agree on a key still do when they have seen the same entries. -/
theorem replay_congr (h : m k = m' k) (l : List (Entry κ α)) : replay m l k = replay m' l k := by
  by_cases hk : Untouched k l
  · rw [replay_of_untouched hk, replay_of_untouched hk, h]
  · exact replay_of_touched hk m m'

/-- Entries that all say what `v` says. -/
theorem replay_of_agree {v : κ → Option α} (h : ∀ e ∈ l, e.value = v e.key) (m : κ → Option α)
    (k : κ) : replay m l k = if Untouched k l then m k else v k := by
  induction l generalizing m with
  | nil => exact (if_pos (untouched_nil k)).symm
  | cons e l ih =>
      obtain ⟨he, hrest⟩ := List.forall_mem_cons.mp h
      rw [replay_cons, ih hrest]
      by_cases hl : Untouched k l
      · rw [if_pos hl]
        by_cases hkey : e.key = k
        · rw [if_neg fun hall => (untouched_cons.mp hall).1 hkey, ← hkey, ← he]
          exact Function.update_self _ _ _
        · rw [if_pos (untouched_cons.mpr ⟨hkey, hl⟩)]
          exact Function.update_of_ne (Ne.symm hkey) _ _
      · rw [if_neg hl, if_neg fun hall => hl (untouched_cons.mp hall).2]

/-- The entries that put what a list of pairs says. -/
def puts (kvs : List (κ × α)) : List (Entry κ α) := kvs.map fun kv => ⟨kv.1, some kv.2⟩

/-! ## Parts of a log -/

/-- The part from position `a` to position `b`. -/
def slice {β : Type} (l : List β) (a b : Nat) : List β := (l.take b).drop a

section Slice

variable {β : Type} {l l' : List β} {a b c : Nat}

theorem slice_eq_nil (h : b ≤ a) (l : List β) : slice l a b = [] :=
  List.drop_eq_nil_of_le (Nat.le_trans (List.length_take_le _ _) h)

theorem slice_append_slice (hab : a ≤ b) (hbc : b ≤ c) (l : List β) :
    slice l a b ++ slice l b c = slice l a c := by
  have hfirst : slice l a b = (slice l a c).take (b - a) := by
    rw [slice, slice, List.take_drop, Nat.add_sub_cancel' hab, List.take_take, Nat.min_eq_left hbc]
  have hsecond : slice l b c = (slice l a c).drop (b - a) := by
    rw [slice, slice, List.drop_drop, Nat.add_sub_cancel' hab]
  rw [hfirst, hsecond, List.take_append_drop]

theorem slice_append (h : b ≤ l.length) (l' : List β) (a : Nat) :
    slice (l ++ l') a b = slice l a b := by
  rw [slice, slice, List.take_append_of_le_length h]

theorem slice_length (h : a ≤ l.length) (l' : List β) :
    slice (l ++ l') a (l ++ l').length = slice l a l.length ++ l' := by
  rw [slice, slice, List.take_length, List.take_length, List.drop_append_of_le_length h]

theorem take_drop_eq_slice (l : List β) (a n : Nat) : (l.drop a).take n = slice l a (a + n) := by
  rw [slice, List.drop_take, Nat.add_sub_cancel_left]

end Slice

end ChangeLog
