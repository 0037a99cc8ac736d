import Mathlib.Data.List.Basic
import Mathlib.Data.List.Infix
import Mathlib.Data.List.Nodup
import Mathlib.Logic.Function.Basic

/-!
# A list kept in a key-value store as a chain of records

Each item of the list has a *link record*, whose value names the item after it,
and possibly further records of its own. A `Layout` says which keys and values
these are. `Holds` says that a store holds a given list, hung after a head item
that is not itself part of the list.

The two results used everywhere are `Holds.link`, which reads a link off the
position of an item in the list, and `Holds.append`, which says that rewriting
the last link and adding the records of a batch under unused keys extends the
list by exactly that batch.
-/

namespace LinkedStore

variable {κ ν ι τ : Type}

/-- How a list is laid out in a store: ids `ι`, data `τ`, keys `κ`, values `ν`. -/
structure Layout (κ ν ι τ : Type) where
  /-- The id that means "nothing follows". -/
  nil : ι
  /-- The key of an item's link record. -/
  linkKey : ι → κ
  /-- The value of an item's link record, from its data and the id that follows it. -/
  linkVal : τ → ι → ν
  /-- The further records of an item. -/
  extra : ι → τ → List (κ × ν)

namespace Layout

variable (Λ : Layout κ ν ι τ)

/-- The link records of `l` hung after `a`, the last of them naming `z`. -/
def linksTo : ι × τ → List (ι × τ) → ι → List (κ × ν)
  | a, [], z => [(Λ.linkKey a.1, Λ.linkVal a.2 z)]
  | a, b :: l, z => (Λ.linkKey a.1, Λ.linkVal a.2 b.1) :: linksTo b l z

/-- The further records of the items of `l`. -/
def extras (l : List (ι × τ)) : List (κ × ν) := l.flatMap (fun b => Λ.extra b.1 b.2)

/-- All records of `l` hung after `a`. -/
def records (a : ι × τ) (l : List (ι × τ)) : List (κ × ν) := Λ.linksTo a l Λ.nil ++ Λ.extras l

/-- The records that a batch `b :: m` brings along. -/
def batch (b : ι × τ) (m : List (ι × τ)) : List (κ × ν) :=
  Λ.linksTo b m Λ.nil ++ Λ.extras (b :: m)

/-- The id at the front of `l`, or `nil`. -/
def frontId : List (ι × τ) → ι
  | [] => Λ.nil
  | b :: _ => b.1

@[simp] theorem frontId_nil : Λ.frontId [] = Λ.nil := rfl

@[simp] theorem frontId_cons (b : ι × τ) (l : List (ι × τ)) : Λ.frontId (b :: l) = b.1 := rfl

@[simp] theorem extras_nil : Λ.extras [] = [] := rfl

theorem extras_append (l m : List (ι × τ)) : Λ.extras (l ++ m) = Λ.extras l ++ Λ.extras m := by
  simp [extras]

end Layout

/-- The last item of `l` hung after `a`. -/
def lastOf : ι × τ → List (ι × τ) → ι × τ
  | a, [] => a
  | _, b :: l => lastOf b l

theorem lastOf_mem (a : ι × τ) (l : List (ι × τ)) : lastOf a l ∈ a :: l := by
  induction l generalizing a with
  | nil => simp [lastOf]
  | cons b l ih => exact List.mem_cons_of_mem _ (ih b)

theorem lastOf_split (a : ι × τ) (l : List (ι × τ)) : ∃ pre, a :: l = pre ++ [lastOf a l] := by
  induction l generalizing a with
  | nil => exact ⟨[], rfl⟩
  | cons b l ih =>
      obtain ⟨pre, h⟩ := ih b
      exact ⟨a :: pre, congrArg (List.cons a) h⟩

theorem lastOf_of_split {a x : ι × τ} {l pre : List (ι × τ)} (h : a :: l = pre ++ [x]) :
    lastOf a l = x := by
  obtain ⟨pre', h'⟩ := lastOf_split a l
  have := h.symm.trans h'
  exact (by simpa using (List.append_inj' this rfl).2 : x = lastOf a l).symm

/-! ## Neighbours in a list without repetitions -/

section Neighbours

variable {α : Type} {l : List α} {a b : α}

/-- An item is in one place only. -/
theorem split_unique {p p' q q' : List α} (hnd : l.Nodup) (h : l = p ++ a :: q)
    (h' : l = p' ++ a :: q') : p = p' ∧ q = q' := by
  subst h
  obtain ⟨hq, hp⟩ : a ∉ q ∧ a ∉ p := by
    have := List.nodup_append.mp hnd
    exact ⟨(List.nodup_cons.mp this.2.1).1, fun hm => this.2.2 a hm a List.mem_cons_self rfl⟩
  obtain ⟨hpre, -, hpost⟩ := (List.append_cons_inj_of_notMem hp hq).mp h'
  exact ⟨hpre, hpost⟩

/-- No two items come right after the same one. -/
theorem adjacent_unique {b' : α} (hnd : l.Nodup) (h : [a, b] <:+: l) (h' : [a, b'] <:+: l) :
    b = b' := by
  obtain ⟨p, q, hp⟩ := h
  obtain ⟨p', q', hp'⟩ := h'
  have hl : l = p ++ a :: b :: q := by rw [← hp]; simp
  have hl' : l = p' ++ a :: b' :: q' := by rw [← hp']; simp
  exact (List.cons.inj (split_unique hnd hl hl').2).1

/-- Nothing comes after the last item. -/
theorem not_last_of_adjacent (hnd : l.Nodup) (h : [a, b] <:+: l) : ¬ ∃ pre, l = pre ++ [a] := by
  rintro ⟨pre, hpre⟩
  obtain ⟨p, q, hp⟩ := h
  have hl : l = p ++ a :: b :: q := by rw [← hp]; simp
  cases (split_unique hnd hl hpre).2

/-- Two stretches of the list that meet in one item make one stretch. -/
theorem infix_cons_of_adjacent {m : List α} (hnd : l.Nodup) (h : [a, b] <:+: l)
    (h' : b :: m <:+: l) : a :: b :: m <:+: l := by
  obtain ⟨p, q, hp⟩ := h
  obtain ⟨p', q', hp'⟩ := h'
  have hl : l = (p ++ [a]) ++ b :: q := by rw [← hp]; simp
  have hl' : l = p' ++ b :: (m ++ q') := by rw [← hp']; simp
  obtain ⟨rfl, rfl⟩ := split_unique hnd hl hl'
  exact ⟨p, q', by rw [hl]; simp⟩

/-- Whoever has come as far as `a` and goes on comes to the item right after it. -/
theorem prefix_of_adjacent {pre : List α} (hnd : l.Nodup) (hpre : pre ++ [a] <+: l)
    (h : [a, b] <:+: l) : pre ++ [a, b] <+: l := by
  obtain ⟨p, q, hp⟩ := h
  obtain ⟨post, hpost⟩ := hpre
  have hl : l = p ++ a :: b :: q := by rw [← hp]; simp
  have hl' : l = pre ++ a :: post := by rw [← hpost]; simp
  obtain ⟨rfl, -⟩ := split_unique hnd hl hl'
  exact ⟨q, hp⟩

end Neighbours

section Links

variable {Λ : Layout κ ν ι τ}

theorem linksTo_append (a b : ι × τ) (l m : List (ι × τ)) (z : ι) :
    Λ.linksTo a (l ++ b :: m) z = Λ.linksTo a l b.1 ++ Λ.linksTo b m z := by
  induction l generalizing a with
  | nil => rfl
  | cons c l ih => simp [Layout.linksTo, ih c]

/-- The keys of the links do not depend on where the last one points. -/
theorem linksTo_keys (a : ι × τ) (l : List (ι × τ)) (z : ι) :
    (Λ.linksTo a l z).map Prod.fst = (a :: l).map (fun b => Λ.linkKey b.1) := by
  induction l generalizing a with
  | nil => rfl
  | cons b l ih => simp [Layout.linksTo, ih b]

theorem records_keys (a : ι × τ) (l : List (ι × τ)) :
    (Λ.records a l).map Prod.fst =
      (a :: l).map (fun b => Λ.linkKey b.1) ++ (Λ.extras l).map Prod.fst := by
  simp [Layout.records, linksTo_keys]

/-- A link record, by the position of its item. -/
theorem link_mem_of_split {a x : ι × τ} {l pre post : List (ι × τ)}
    (h : a :: l = pre ++ x :: post) :
    (Λ.linkKey x.1, Λ.linkVal x.2 (Λ.frontId post)) ∈ Λ.linksTo a l Λ.nil := by
  induction l generalizing a pre with
  | nil =>
      cases pre with
      | nil =>
          simp only [List.nil_append, List.cons.injEq] at h
          obtain ⟨rfl, rfl⟩ := h
          simp [Layout.linksTo]
      | cons p pre => simp at h
  | cons b l ih =>
      cases pre with
      | nil =>
          simp only [List.nil_append, List.cons.injEq] at h
          obtain ⟨rfl, rfl⟩ := h
          simp [Layout.linksTo]
      | cons p pre =>
          simp only [List.cons_append, List.cons.injEq] at h
          exact List.mem_cons_of_mem _ (ih h.2)

/-- Repointing the last link leaves every other link as it was. -/
theorem mem_linksTo_repoint {a : ι × τ} {l : List (ι × τ)} {y z : ι} {r : κ × ν}
    (hnd : ((a :: l).map (fun b => Λ.linkKey b.1)).Nodup) (h : r ∈ Λ.linksTo a l y) :
    r = (Λ.linkKey (lastOf a l).1, Λ.linkVal (lastOf a l).2 y) ∨
      (r ∈ Λ.linksTo a l z ∧ r.1 ≠ Λ.linkKey (lastOf a l).1) := by
  induction l generalizing a with
  | nil => exact Or.inl (by simpa [Layout.linksTo, lastOf] using h)
  | cons b l ih =>
      obtain ⟨hna, hnd'⟩ := List.nodup_cons.mp hnd
      rcases List.mem_cons.mp h with rfl | h'
      · refine Or.inr ⟨by simp [Layout.linksTo], ?_⟩
        intro he
        exact hna (List.mem_map.mpr ⟨_, lastOf_mem b l, he.symm⟩)
      · rcases ih hnd' h' with h1 | ⟨h1, h2⟩
        · exact Or.inl h1
        · exact Or.inr ⟨List.mem_cons_of_mem _ h1, h2⟩

end Links

/-- The store `get` holds the list `l`, hung after the head item `a`. -/
structure Holds (Λ : Layout κ ν ι τ) (get : κ → Option ν) (a : ι × τ) (l : List (ι × τ)) :
    Prop where
  /-- No two records share a key. -/
  distinct : ((Λ.records a l).map Prod.fst).Nodup
  /-- Every record is in the store. -/
  stored : ∀ r ∈ Λ.records a l, get r.1 = some r.2
  /-- No item has the id that means "nothing follows". -/
  named : ∀ b ∈ l, b.1 ≠ Λ.nil

namespace Holds

variable {Λ : Layout κ ν ι τ} {get : κ → Option ν} {a : ι × τ} {l : List (ι × τ)}

theorem linkKeys_nodup (h : Holds Λ get a l) :
    ((a :: l).map (fun b => Λ.linkKey b.1)).Nodup := by
  have := h.distinct
  rw [records_keys] at this
  exact (List.nodup_append.mp this).1

/-- Every id occurs once, the head's included. -/
theorem ids_nodup (h : Holds Λ get a l) : ((a :: l).map Prod.fst).Nodup := by
  have := h.linkKeys_nodup
  rw [show (fun b : ι × τ => Λ.linkKey b.1) = Λ.linkKey ∘ Prod.fst from rfl, ← List.map_map] at this
  exact List.Nodup.of_map _ this

/-- The link record of an item names the item after it. -/
theorem link (h : Holds Λ get a l) {x : ι × τ} {pre post : List (ι × τ)}
    (hs : a :: l = pre ++ x :: post) :
    get (Λ.linkKey x.1) = some (Λ.linkVal x.2 (Λ.frontId post)) :=
  h.stored _ (List.mem_append_left _ (link_mem_of_split hs))

/-- The further records of an item are in the store. -/
theorem extra (h : Holds Λ get a l) {x : ι × τ} (hx : x ∈ l) {r : κ × ν}
    (hr : r ∈ Λ.extra x.1 x.2) : get r.1 = some r.2 :=
  h.stored _ (List.mem_append_right _ (List.mem_flatMap.mpr ⟨x, hx, hr⟩))

theorem linkKey_bound (h : Holds Λ get a l) {x : ι × τ} (hx : x ∈ a :: l) :
    get (Λ.linkKey x.1) ≠ none := by
  obtain ⟨pre, post, hs⟩ := List.append_of_mem hx
  rw [h.link hs]; simp

/-- An item is determined by its id. -/
theorem eq_of_id (h : Holds Λ get a l) {x y : ι × τ} (hx : x ∈ a :: l) (hy : y ∈ a :: l)
    (hxy : x.1 = y.1) : x = y :=
  List.inj_on_of_nodup_map h.ids_nodup hx hy hxy

/-- Only the last item's link names nothing. -/
theorem last_of_nil (h : Holds Λ get a l) {x : ι × τ} {pre post : List (ι × τ)}
    (hs : a :: l = pre ++ x :: post) (hf : Λ.frontId post = Λ.nil) : x = lastOf a l := by
  cases post with
  | nil => exact (lastOf_of_split hs).symm
  | cons b post =>
      refine absurd hf (h.named b ?_)
      cases pre with
      | nil =>
          simp only [List.nil_append, List.cons.injEq] at hs
          rw [hs.2]; simp
      | cons p pre =>
          simp only [List.cons_append, List.cons.injEq] at hs
          rw [hs.2]; simp

/-- The empty list: a head whose link names nothing. -/
theorem empty (h : get (Λ.linkKey a.1) = some (Λ.linkVal a.2 Λ.nil)) : Holds Λ get a [] where
  distinct := by simp [Layout.records, Layout.linksTo]
  stored := by
    intro r hr
    simp only [Layout.records, Layout.linksTo, Layout.extras_nil, List.append_nil,
      List.mem_singleton] at hr
    rw [hr]; exact h
  named := by simp

/-- A list of one batch, hung after the head. -/
theorem start {b : ι × τ} {m : List (ι × τ)} (hnamed : ∀ x ∈ b :: m, x.1 ≠ Λ.nil)
    (hnd : (Λ.linkKey a.1 :: (Λ.batch b m).map Prod.fst).Nodup)
    (hlast : get (Λ.linkKey a.1) = some (Λ.linkVal a.2 b.1))
    (hput : ∀ r ∈ Λ.batch b m, get r.1 = some r.2) : Holds Λ get a (b :: m) := by
  have hrec : Λ.records a (b :: m) = (Λ.linkKey a.1, Λ.linkVal a.2 b.1) :: Λ.batch b m := by
    simp [Layout.records, Layout.batch, Layout.linksTo]
  refine ⟨by rw [hrec]; exact hnd, ?_, hnamed⟩
  intro r hr
  rw [hrec] at hr
  rcases List.mem_cons.mp hr with rfl | hr
  · exact hlast
  · exact hput r hr

/--
**Appending a batch.** The last link is rewritten to name the first new item, and
the new items' records go under keys that were not in use.
-/
theorem append (h : Holds Λ get a l) {b : ι × τ} {m : List (ι × τ)} {get' : κ → Option ν}
    (hnamed : ∀ x ∈ b :: m, x.1 ≠ Λ.nil)
    (hnew : ((Λ.batch b m).map Prod.fst).Nodup)
    (hfree : ∀ r ∈ Λ.batch b m, get r.1 = none)
    (hlast : get' (Λ.linkKey (lastOf a l).1) = some (Λ.linkVal (lastOf a l).2 b.1))
    (hput : ∀ r ∈ Λ.batch b m, get' r.1 = some r.2)
    (hkeep : ∀ k, get k ≠ none → k ≠ Λ.linkKey (lastOf a l).1 → get' k = get k) :
    Holds Λ get' a (l ++ b :: m) := by
  have hrec : ∀ r, r ∈ Λ.records a (l ++ b :: m) ↔
      (r ∈ Λ.linksTo a l b.1 ∨ r ∈ Λ.extras l) ∨ r ∈ Λ.batch b m := by
    intro r
    simp only [Layout.records, Layout.batch, linksTo_append, Layout.extras_append, List.mem_append]
    tauto
  have hold : ∀ r ∈ Λ.records a l, get r.1 = some r.2 := h.stored
  refine ⟨?_, ?_, ?_⟩
  · -- old keys are in use, new ones are not
    have hperm : ((Λ.records a (l ++ b :: m)).map Prod.fst).Perm
        ((Λ.records a l).map Prod.fst ++ (Λ.batch b m).map Prod.fst) := by
      simp only [Layout.records, Layout.batch, linksTo_append, Layout.extras_append,
        List.map_append, linksTo_keys, List.append_assoc]
      refine List.Perm.append_left _ ?_
      exact List.perm_append_comm_assoc _ _ _
    rw [hperm.nodup_iff, List.nodup_append]
    refine ⟨h.distinct, hnew, ?_⟩
    intro k hk k' hk' hkk
    obtain ⟨r, hr, rfl⟩ := List.mem_map.mp hk
    obtain ⟨r', hr', rfl⟩ := List.mem_map.mp hk'
    have h1 := hold r hr
    rw [hkk, hfree r' hr'] at h1
    exact absurd h1 (by simp)
  · intro r hr
    have hlk := List.nodup_append.mp (records_keys (Λ := Λ) a l ▸ h.distinct)
    rcases (hrec r).mp hr with (hl | he) | hb
    · rcases mem_linksTo_repoint (z := Λ.nil) hlk.1 hl with rfl | ⟨h1, h2⟩
      · exact hlast
      · have h3 := hold r (List.mem_append_left _ h1)
        rw [hkeep r.1 (by rw [h3]; simp) h2, h3]
    · have h3 := hold r (List.mem_append_right _ he)
      rw [hkeep r.1 (by rw [h3]; simp) ?_, h3]
      intro hk
      refine hlk.2.2 (Λ.linkKey (lastOf a l).1)
        (List.mem_map.mpr ⟨_, lastOf_mem a l, rfl⟩) r.1 (List.mem_map.mpr ⟨r, he, rfl⟩) hk.symm
    · exact hput r hb
  · intro x hx
    rcases List.mem_append.mp hx with hx | hx
    · exact h.named x hx
    · exact hnamed x hx

end Holds

end LinkedStore
