import Mathlib.Data.List.Basic

/-!
# Objects made at the first request

Objects are kept under keys. A request that finds nothing under its key has an object
made, to its own wishes, and leaves it there. All later requests with that key get the
same object, whatever their own wishes are.

So everybody gets what they want exactly if requests with the same key want the same,
from the first one on that gets an object made (`all_suited_iff`).
-/

namespace Memo

/-- A request. It says how an object is made, if one has to be made. -/
structure Request (κ β : Type) where
  key : κ
  wanted : β
  /-- Making an object would succeed. -/
  makes : Bool

/-- What is kept, the latest first. -/
abbrev Store (κ β : Type) := List (κ × β)

/-- Who got what. -/
structure Answer (κ β : Type) where
  request : Request κ β
  got : Option β

variable {κ β : Type} [DecidableEq κ]

def Store.get (s : Store κ β) (r : Request κ β) : Store κ β × Option β :=
  match s.lookup r.key with
  | some b => (s, some b)
  | none => if r.makes then ((r.key, r.wanted) :: s, some r.wanted) else (s, none)

/-- Answer the requests one after the other. -/
def Store.serve : Store κ β → List (Request κ β) → List (Answer κ β)
  | _, [] => []
  | s, r :: rs => ⟨r, (s.get r).2⟩ :: Store.serve (s.get r).1 rs

/-- Nobody gets anything but what they want. -/
def Answer.Suited (a : Answer κ β) : Prop := ∀ b, a.got = some b → b = a.request.wanted

/-- What is kept already is right for a request. -/
def Store.Fits (s : Store κ β) (r : Request κ β) : Prop :=
  ∀ b, s.lookup r.key = some b → b = r.wanted

variable {s : Store κ β} {r : Request κ β} {rs : List (Request κ β)}

theorem get_of_found {b : β} (h : s.lookup r.key = some b) : s.get r = (s, some b) := by
  simp [Store.get, h]

theorem get_of_made (h : s.lookup r.key = none) (hm : r.makes = true) :
    s.get r = ((r.key, r.wanted) :: s, some r.wanted) := by
  simp [Store.get, h, hm]

theorem get_of_failed (h : s.lookup r.key = none) (hm : r.makes = false) :
    s.get r = (s, none) := by
  simp [Store.get, h, hm]

theorem fits_cons {k : κ} {b : β} (h : s.lookup k = none) :
    Store.Fits ((k, b) :: s) r ↔ (k = r.key → b = r.wanted) ∧ s.Fits r := by
  by_cases hk : r.key = k
  · subst hk
    simp [Store.Fits, h]
  · have hb : (r.key == k) = false := by simpa using hk
    simp [Store.Fits, List.lookup_cons, hb, Ne.symm hk]

/-- **Who is suited**, if something is kept already. -/
theorem serve_suited_iff : (∀ a ∈ s.serve rs, a.Suited) ↔
    (∀ r ∈ rs, s.Fits r) ∧
      rs.Pairwise fun r r' => r.makes = true → r.key = r'.key → r.wanted = r'.wanted := by
  induction rs generalizing s with
  | nil => simp [Store.serve]
  | cons r rs ih =>
      rw [Store.serve, List.forall_mem_cons, ih, List.forall_mem_cons, List.pairwise_cons]
      cases h : s.lookup r.key with
      | some b =>
          -- What is there serves `r`, and then everybody with the same key.
          have hr : s.Fits r ↔ b = r.wanted := by simp [Store.Fits, h]
          rw [get_of_found h, hr]
          constructor
          · intro ⟨h1, h2, h3⟩
            have hb : b = r.wanted := h1 b rfl
            refine ⟨⟨hb, h2⟩, fun r' hr' _ hk => ?_, h3⟩
            rw [← hb]
            exact h2 r' hr' b (hk ▸ h)
          · intro ⟨⟨hb, h2⟩, _, h3⟩
            refine ⟨?_, h2, h3⟩
            intro b' hb'
            cases hb'
            exact hb
      | none =>
          have hr : s.Fits r := by simp [Store.Fits, h]
          cases hm : r.makes with
          | false =>
              rw [get_of_failed h hm]
              simp [Answer.Suited, hr]
          | true =>
              have h1 : (Answer.mk r (some r.wanted)).Suited := by simp [Answer.Suited]
              rw [get_of_made h hm]
              simp only [fits_cons h, h1, hr, true_and, forall_true_left]
              constructor
              · intro ⟨h2, h3⟩
                exact ⟨fun r' hr' => (h2 r' hr').2, fun r' hr' => (h2 r' hr').1, h3⟩
              · intro ⟨h2, h3, h4⟩
                exact ⟨fun r' hr' => ⟨h3 r' hr', h2 r' hr'⟩, h4⟩

/-- **Everybody is suited** exactly if those with the same key want the same. -/
theorem all_suited_iff : (∀ a ∈ Store.serve [] rs, a.Suited) ↔
    rs.Pairwise fun r r' => r.makes = true → r.key = r'.key → r.wanted = r'.wanted := by
  rw [serve_suited_iff]
  simp [Store.Fits]

end Memo
