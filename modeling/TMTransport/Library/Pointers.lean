import Mathlib.Data.List.Nodup
import Mathlib.Data.List.Infix

/-!
# Singly linked lists in memory

`next` says where a node points, if anywhere. `Spine next a l` says that following
`next` from `a` visits the nodes of `l`, in order, and ends there.

The list is determined by `next` and has no node twice. There are two ways to
change it: `Spine.link` hangs a second list after the last node, `Spine.unlink`
takes one node out. Neither depends on nodes that are not visited.
-/

namespace Pointers

variable {α : Type}

/-- Following `next` from `a` visits `l` and ends. -/
def Spine (next : α → Option α) : α → List α → Prop
  | a, [] => next a = none
  | a, b :: l => next a = some b ∧ Spine next b l

/-- The last node of `l` hung after `a`. -/
def tip : α → List α → α
  | a, [] => a
  | _, b :: l => tip b l

theorem tip_mem (a : α) (l : List α) : tip a l ∈ a :: l := by
  induction l generalizing a with
  | nil => simp [tip]
  | cons b l ih => exact List.mem_cons_of_mem _ (ih b)

theorem getLast?_cons_eq_tip (a : α) (l : List α) : (a :: l).getLast? = some (tip a l) := by
  induction l generalizing a with
  | nil => rfl
  | cons b l ih => rw [List.getLast?_cons_cons]; exact ih b

namespace Spine

variable {next next' : α → Option α} {a b p : α} {l m : List α}

/-- The list is determined by where it starts. -/
theorem unique (h : Spine next a l) (h' : Spine next a m) : l = m := by
  induction l generalizing a m with
  | nil =>
      cases m with
      | nil => rfl
      | cons b m => exact absurd (h'.1.symm.trans h) (by simp)
  | cons b l ih =>
      cases m with
      | nil => exact absurd (h.1.symm.trans h') (by simp)
      | cons c m =>
          obtain rfl : b = c := Option.some.inj (h.1.symm.trans h'.1)
          rw [ih h.2 h'.2]

/-- From a node that is visited, the rest is visited. -/
theorem drop {l₁ l₂ : List α} (h : Spine next a (l₁ ++ b :: l₂)) : Spine next b l₂ := by
  induction l₁ generalizing a with
  | nil => exact h.2
  | cons c l₁ ih => exact ih h.2

/-- Where a node points, by its position. -/
theorem next_of_split {x : α} {pre post : List α} (h : Spine next a l)
    (hs : a :: l = pre ++ x :: post) : next x = post.head? := by
  induction l generalizing a pre with
  | nil =>
      cases pre with
      | nil =>
          simp only [List.nil_append, List.cons.injEq] at hs
          obtain ⟨rfl, rfl⟩ := hs
          exact h
      | cons c pre => simp at hs
  | cons b l ih =>
      cases pre with
      | nil =>
          simp only [List.nil_append, List.cons.injEq] at hs
          obtain ⟨rfl, rfl⟩ := hs
          exact h.1
      | cons c pre =>
          simp only [List.cons_append, List.cons.injEq] at hs
          exact ih h.2 hs.2

/-- A node that is visited points to one that is visited. -/
theorem mem_of_next (h : Spine next a l) (hp : p ∈ a :: l) (hn : next p = some b) : b ∈ l := by
  induction l generalizing a with
  | nil =>
      obtain rfl := List.mem_singleton.mp hp
      exact absurd (hn.symm.trans h) (by simp)
  | cons c l ih =>
      rcases List.mem_cons.mp hp with rfl | hp
      · obtain rfl : b = c := Option.some.inj (hn.symm.trans h.1)
        simp
      · exact List.mem_cons_of_mem _ (ih h.2 hp)

/-- Whoever has come as far as `p` and goes on comes to the node after it. -/
theorem prefix_next {pre : List α} (h : Spine next a l) (hp : pre <+: a :: l)
    (hlast : pre.getLast? = some p) (hn : next p = some b) : pre ++ [b] <+: a :: l := by
  obtain ⟨post, hs⟩ := hp
  obtain ⟨pre', rfl⟩ : ∃ pre', pre = pre' ++ [p] := List.getLast?_eq_some_iff.mp hlast
  have h1 := h.next_of_split (show a :: l = pre' ++ p :: post by rw [← hs]; simp)
  rw [hn] at h1
  obtain ⟨post', rfl⟩ : ∃ post', post = b :: post' := by
    cases post with
    | nil => cases h1
    | cons c post' => exact ⟨post', by rw [Option.some.inj h1]⟩
  exact ⟨post', by rw [← hs]; simp⟩

/-- Where a node on the way points to another one. -/
theorem split_next (h : Spine next a l) (hp : p ∈ a :: l) (hn : next p = some b) :
    ∃ l₁ l₂, l = l₁ ++ b :: l₂ ∧ tip a l₁ = p := by
  induction l generalizing a with
  | nil =>
      obtain rfl := List.mem_singleton.mp hp
      exact absurd (hn.symm.trans h) (by simp)
  | cons c l ih =>
      rcases List.mem_cons.mp hp with rfl | hp
      · obtain rfl : b = c := Option.some.inj (hn.symm.trans h.1)
        exact ⟨[], l, rfl, rfl⟩
      · obtain ⟨l₁, l₂, rfl, ht⟩ := ih h.2 hp
        exact ⟨c :: l₁, l₂, rfl, ht⟩

/-- Only the last node points nowhere. -/
theorem eq_tip (h : Spine next a l) (hp : p ∈ a :: l) (hn : next p = none) : p = tip a l := by
  induction l generalizing a with
  | nil => exact List.mem_singleton.mp hp
  | cons c l ih =>
      rcases List.mem_cons.mp hp with rfl | hp
      · exact absurd (hn.symm.trans h.1) (by simp)
      · exact ih h.2 hp

theorem next_tip (h : Spine next a l) : next (tip a l) = none := by
  induction l generalizing a with
  | nil => exact h
  | cons c l ih => exact ih h.2

/-- No node is visited twice. -/
theorem nodup (h : Spine next a l) : (a :: l).Nodup := by
  induction l generalizing a with
  | nil => simp
  | cons b l ih =>
      refine List.nodup_cons.mpr ⟨fun hm => ?_, ih h.2⟩
      obtain ⟨l₁, l₂, hs⟩ := List.append_of_mem hm
      have h2 : Spine next a l₂ := by
        have h3 : Spine next a (b :: l) := h
        rw [hs] at h3
        exact h3.drop
      have hlen := congrArg List.length (h2.unique h)
      have hlen' := congrArg List.length hs
      simp only [List.length_cons, List.length_append] at hlen hlen'
      omega

/-- Only the nodes visited matter. -/
theorem congr (h : Spine next a l) (he : ∀ x ∈ a :: l, next' x = next x) : Spine next' a l := by
  induction l generalizing a with
  | nil => exact (he a (by simp)).trans h
  | cons b l ih =>
      exact ⟨(he a (by simp)).trans h.1, ih h.2 (fun x hx => he x (List.mem_cons_of_mem _ hx))⟩

/-- Hang a second list after the last node. -/
theorem link (h : Spine next a l) (ht : next' (tip a l) = some b) (hm : Spine next' b m)
    (he : ∀ x ∈ a :: l, x ≠ tip a l → next' x = next x) : Spine next' a (l ++ b :: m) := by
  induction l generalizing a with
  | nil => exact ⟨ht, hm⟩
  | cons c l ih =>
      have hne : a ≠ tip c l := fun e =>
        (List.nodup_cons.mp h.nodup).1 (e ▸ tip_mem c l)
      exact ⟨(he a (by simp) hne).trans h.1,
        ih h.2 ht (fun x hx hxt => he x (List.mem_cons_of_mem _ hx) hxt)⟩

/-- Take one node out: the one before it now points where it pointed. -/
theorem unlink {l₁ l₂ : List α} (h : Spine next a (l₁ ++ b :: l₂))
    (ht : next' (tip a l₁) = next b)
    (he : ∀ x ∈ a :: (l₁ ++ b :: l₂), x ≠ tip a l₁ → x ≠ b → next' x = next x) :
    Spine next' a (l₁ ++ l₂) := by
  have hnd := h.nodup
  induction l₁ generalizing a with
  | nil =>
      simp only [List.nil_append, List.nodup_cons, List.mem_cons, not_or] at hnd h he ⊢
      cases l₂ with
      | nil => exact ht.trans h.2
      | cons c l₂ =>
          refine ⟨ht.trans h.2.1, h.2.2.congr fun x hx => he x (Or.inr (Or.inr hx)) ?_ ?_⟩
          · rintro rfl; exact hnd.1.2 hx
          · rintro rfl; exact hnd.2.1 hx
  | cons c l₁ ih =>
      simp only [List.cons_append] at hnd h he ⊢
      have hnd' := List.nodup_cons.mp hnd
      refine ⟨(he a (by simp) ?_ ?_).trans h.1, ih h.2 ht ?_ hnd'.2⟩
      · rintro e
        refine hnd'.1 ?_
        rw [e]
        rcases List.mem_cons.mp (tip_mem c l₁) with h1 | h1
        · simp only [tip] at h1 ⊢; rw [h1]; simp
        · exact List.mem_cons_of_mem _ (List.mem_append_left _ h1)
      · rintro rfl
        exact hnd'.1 (by simp)
      · exact fun x hx h1 h2 => he x (List.mem_cons_of_mem _ hx) h1 h2

end Spine

end Pointers
