import TMTransport.SharedMemory.LockFreeInvariant

/-!
# The runs of the lock-free chain

The chain is the list of the nodes of the appends that returned true. It grows at
its end, and what leaves the segment was never on it.

The code relies on its callers to append after items of the chain. `loadUntil`
finds a node by its name or its offset as soon as the node has been constructed,
and an item that is hung after such a node is not on the chain, although the
append has returned true.
-/

namespace LockFreeChain

open Interleave Pointers

variable {D ι : Type} {C : Chain D} {s s' : State ι D} {m m' : Segment D}

/-- How the segment can change in one step. -/
inductive Change (s : State ι D) : Segment D → Prop where
  | none : Change s s.mem
  | construct {p : Int} {x : StorageItem D} (h : s.mem.object p = .none) :
      Change s (s.mem.construct p x)
  | link {t : ι} {ret : List Int} {p newItem : Int} {data : List (String × D)}
      (h : s.pc t = .linking ret p newItem data) : Change s (s.mem.storeNext p (newItem - p))
  | append {t : ι} {current first : Int} {rest : List Int} {x : StorageItem D}
      (h : s.pc t = .swapping current first rest) (hx : s.mem.object current = some x)
      (hn : x.next = 0) : Change s (s.mem.storeNext current (first - current))
  | release {t : ι} {d : Destroying} {p : Int} (h : s.pc t = .releasing d p) :
      Change s (s.mem.destroyPtr p)

/-- The appends that have returned, and no others, make up the chain, and every reader is on it. -/
structure Sound (C : Chain D) (s : State ι D) : Prop where
  /-- Following `next` from the head visits the nodes of the appends that returned true, in
  order. -/
  chain : Spine s.mem.next C.head (appended s.returned)
  nodup : (s.chain C).Nodup
  live : ∀ p ∈ s.chain C, (s.mem.object p).isSome
  /-- A failed append has released its own nodes, once each. -/
  failed : ∀ r ∈ s.returned, r.result = false → r.released = r.items.reverse
  /-- A reader that follows `next` from the head has seen the first nodes of the chain. -/
  readers : ∀ t, s.seen t <+: s.chain C
  faultless : s.faulty = false

/-- What may become of the segment. -/
structure Grows (C : Chain D) (s s' : State ι D) : Prop where
  chain : s.chain C <+: s'.chain C
  /-- A `next` that is set on the chain is never changed again. -/
  frozen : ∀ p ∈ s.chain C, ∀ x, s.mem.object p = some x →
    ∃ x', s'.mem.object p = some x' ∧ (x.next ≠ 0 → x'.next = x.next)

/-- What is released is not on the chain, and a process is releasing it. -/
def ReleasesOwn (C : Chain D) (s s' : State ι D) : Prop :=
  ∀ p, (s.mem.object p).isSome → s'.mem.object p = none →
    p ∉ s.chain C ∧ ∃ t d, s.pc t = .releasing d p ∧ p ∈ d.items

theorem Inv.sound (h : Inv C s) : Sound C s :=
  ⟨h.spine, h.spine.nodup, h.live, h.failed, h.readers, h.faultless⟩

theorem Inv.frozen {p : Int} {x : StorageItem D} (h : Inv C s) (hc : Change s m)
    (hp : p ∈ s.chain C) (hx : s.mem.object p = some x) :
    ∃ x', m.object p = some x' ∧ (x.next ≠ 0 → x'.next = x.next) := by
  cases hc with
  | none => exact ⟨x, hx, fun _ => rfl⟩
  | construct hfree =>
      refine ⟨x, ?_, fun _ => rfl⟩
      rw [Segment.construct_object_of_ne, hx]
      rintro rfl
      rw [hfree] at hx; cases hx
  | @link t ret q newItem data hpc =>
      refine ⟨x, ?_, fun _ => rfl⟩
      rw [Segment.storeNext_object_of_ne, hx]
      rintro rfl
      have hok := h.pcs t
      rw [hpc] at hok
      refine h.off t ?_ hp
      rw [own_of_pc hpc]
      simp [Pc.nodes, List.mem_of_getLast? hok.2.1]
  | @append t current first rest y hpc hy hn =>
      by_cases e : p = current
      · subst e
        obtain rfl : y = x := Option.some.inj (hy.symm.trans hx)
        exact ⟨_, Segment.storeNext_object_self hx, fun hne => absurd hn hne⟩
      · exact ⟨x, by rw [Segment.storeNext_object_of_ne e, hx], fun _ => rfl⟩
  | @release t d q hpc =>
      refine ⟨x, ?_, fun _ => rfl⟩
      rw [Segment.destroyPtr_object_of_ne, hx]
      rintro rfl
      exact h.off t (by rw [own_of_pc hpc]; simp [Pc.nodes]) hp

theorem Inv.releasesOwn (h : Inv C s) (hc : Change s s'.mem) : ReleasesOwn C s s' := by
  intro p hp hgone
  generalize s'.mem = m' at hc hgone
  obtain ⟨x, hx⟩ := Option.isSome_iff_exists.mp hp
  cases hc with
  | none => rw [hx] at hgone; cases hgone
  | @construct q y hfree =>
      rw [Segment.construct_object_of_ne, hx] at hgone
      · cases hgone
      · rintro rfl
        rw [hfree] at hx; cases hx
  | @link t ret q newItem data hpc =>
      by_cases e : p = q
      · subst e; rw [Segment.storeNext_object_self hx] at hgone; cases hgone
      · rw [Segment.storeNext_object_of_ne e, hx] at hgone; cases hgone
  | @append t current first rest y hpc hy hn =>
      by_cases e : p = current
      · subst e; rw [Segment.storeNext_object_self hx] at hgone; cases hgone
      · rw [Segment.storeNext_object_of_ne e, hx] at hgone; cases hgone
  | @release t d q hpc =>
      by_cases e : p = q
      · subst e
        have hok := h.pcs t
        rw [hpc] at hok
        refine ⟨h.off t (by rw [own_of_pc hpc]; simp [Pc.nodes]), t, d, hpc, ?_⟩
        rw [show d.items = _ from hok]
        simp
      · rw [Segment.destroyPtr_object_of_ne e, hx] at hgone; cases hgone

theorem Grows.refl (s : State ι D) : Grows C s s :=
  ⟨List.prefix_rfl, fun _ _ x hx => ⟨x, hx, fun _ => rfl⟩⟩

theorem Grows.trans {s₁ s₂ s₃ : State ι D} (h : Grows C s₁ s₂) (h' : Grows C s₂ s₃) :
    Grows C s₁ s₃ := by
  refine ⟨h.chain.trans h'.chain, fun p hp x hx => ?_⟩
  obtain ⟨x', hx', he⟩ := h.frozen p hp x hx
  obtain ⟨x'', hx'', he'⟩ := h'.frozen p (h.chain.subset hp) x' hx'
  refine ⟨x'', hx'', fun hne => ?_⟩
  rw [he' (by rw [he hne]; exact hne), he hne]

/-- Where `next` of a node on the chain is set it stays, so the chain gets longer at its end. -/
theorem prefix_of_frozen {l l' : List Int} {a : Int} (h : Spine m.next a l)
    (h' : Spine m'.next a l') (hf : ∀ p ∈ a :: l, ∀ x, m.object p = some x →
      ∃ x', m'.object p = some x' ∧ (x.next ≠ 0 → x'.next = x.next)) : a :: l <+: a :: l' := by
  induction l generalizing a l' with
  | nil => exact ⟨l', rfl⟩
  | cons b l ih =>
      obtain ⟨x, hx, hb⟩ := Option.bind_eq_some_iff.mp h.1
      have hne : x.next ≠ 0 := by
        rintro e
        simp [e] at hb
      obtain ⟨x', hx', he⟩ := hf a (by simp) x hx
      have hb' : m'.next a = some b := by
        rw [Segment.next_eq_some_of hx' (by rw [he hne]; exact hne), he hne]
        rwa [if_neg hne] at hb
      cases l' with
      | nil => exact absurd (h'.symm.trans hb') (by simp)
      | cons c l' =>
          obtain rfl : c = b := Option.some.inj (h'.1.symm.trans hb')
          obtain ⟨post, hpost⟩ := ih h.2 h'.2 fun p hp => hf p (List.mem_cons_of_mem _ hp)
          exact ⟨post, congrArg (List.cons a) hpost⟩

variable [DecidableEq ι]

theorem change_advance {t : ι} (hs : advance C s t = some s') : Change s s'.mem := by
  unfold advance at hs
  split at hs
  · cases hs
  · cases hs
  · obtain rfl := Option.some.inj hs
    exact .none
  · rename_i hpc
    split at hs
    · obtain rfl := Option.some.inj hs
      exact .none
    · obtain rfl := Option.some.inj hs
      exact .link hpc
  · split at hs
    · obtain rfl := Option.some.inj hs
      exact .none
    · split at hs <;> obtain rfl := Option.some.inj hs <;> exact .none
  · split at hs
    · obtain rfl := Option.some.inj hs
      exact .none
    · split at hs <;> obtain rfl := Option.some.inj hs <;> exact .none
  · rename_i hpc
    split at hs
    · obtain rfl := Option.some.inj hs
      exact .none
    · rename_i hx
      split at hs
      · rename_i hn
        obtain rfl := Option.some.inj hs
        exact .append hpc hx hn
      · obtain rfl := Option.some.inj hs
        exact .none
  · split at hs <;> obtain rfl := Option.some.inj hs <;> exact .none
  · split at hs <;> obtain rfl := Option.some.inj hs <;> exact .none
  · rename_i hpc
    split at hs
    · obtain rfl := Option.some.inj hs
      exact .none
    · obtain rfl := Option.some.inj hs
      exact .release hpc
    · obtain rfl := Option.some.inj hs
      exact .release hpc

theorem change_call {t : ι} {a : Act ι D} (hs : call C s t a = some s') : s'.mem = s.mem := by
  cases a with
  | head u => obtain rfl := Option.some.inj hs; rfl
  | loadUntil u id => obtain ⟨item, -, rfl⟩ := Option.map_eq_some_iff.mp hs; rfl
  | formChainItems u data => obtain rfl := Option.some.inj hs; rfl
  | fetchNext u i =>
      simp only [call] at hs
      split at hs
      · cases hs
      · split at hs <;> obtain rfl := Option.some.inj hs <;> rfl
  | appendAfter u i j =>
      simp only [call] at hs
      split at hs
      · obtain rfl := Option.some.inj hs; rfl
      · split at hs <;> obtain rfl := Option.some.inj hs <;> rfl
      · cases hs
  | destroyItem u j =>
      simp only [call] at hs
      split at hs
      · obtain rfl := Option.some.inj hs; rfl
      · cases hs
  | construct u p => cases hs
  | noMemory u => cases hs
  | go u => cases hs

theorem change_step {a : Act ι D} (hs : step C s a = some s') : Change s s'.mem := by
  unfold step at hs
  split at hs
  · exact change_advance hs
  · unfold construct at hs
    split at hs
    · rename_i hpc hfree
      split at hs
      · obtain rfl := Option.some.inj hs
        exact .none
      · obtain rfl := Option.some.inj hs
        exact .construct hfree
    · cases hs
  · split at hs
    · obtain rfl := Option.some.inj hs
      exact .none
    · cases hs
  · split at hs
    · rw [change_call hs]
      exact .none
    · cases hs

theorem Inv.grows {a : Act ι D} (h : Inv C s) (h' : Inv C s') (hs : step C s a = some s') :
    Grows C s s' := by
  have hf : ∀ p ∈ s.chain C, ∀ x, s.mem.object p = some x →
      ∃ x', s'.mem.object p = some x' ∧ (x.next ≠ 0 → x'.next = x.next) :=
    fun p hp x hx => h.frozen (change_step hs) hp hx
  exact ⟨prefix_of_frozen h.spine h'.spine hf, hf⟩

/--
**The chain is one list that only grows**, in every run in which the current item
of every call is on the chain.
-/
theorem lockFree_refines_list (C : Chain D) (hr : (machine ι C).Reach (CurrentOnChain C) s) :
    Sound C s ∧
      (∀ s', ((machine ι C).startingAt s).Reach (CurrentOnChain C) s' → Grows C s s') ∧
      ∀ a s', CurrentOnChain C s a → step C s a = some s' → ReleasesOwn C s s' := by
  have hinv := inv_reach hr
  refine ⟨hinv.sound, fun s' hr' => ?_, fun a s' _ hs => hinv.releasesOwn (change_step hs)⟩
  induction hr' with
  | init => exact Grows.refl s
  | step hr₁ hg hs ih =>
      have h₁ := inv_reach (hr.trans hr₁)
      exact ih.trans (h₁.grows (inv_step h₁ hg hs) hs)

/-! ## Two runs -/

/-- A chain of either variant with its head at 0, shared by two processes. -/
def twoProcesses (support : FastRecoverSupport) : Chain Unit := ⟨support, 0, none, none⟩

/-- Both processes form an item, one at 10 and one at 20. -/
def bothForm : List (Act Bool Unit) :=
  [.formChainItems false [("a", ())], .construct false 10, .go false,
    .formChainItems true [("b", ())], .construct true 20, .go true]

/-- Both append what they have formed after the head. -/
def bothAppend : List (Act Bool Unit) :=
  [.head false, .head true, .appendAfter false 0 0, .appendAfter true 0 0, .go false, .go true,
    .go false, .go true, .go true, .go true]

theorem bothAppend_within (support : FastRecoverSupport) :
    (machine Bool (twoProcesses support)).Within (CurrentOnChain (twoProcesses support))
      (machine Bool (twoProcesses support)).init (bothForm ++ bothAppend) := by
  cases support <;>
  exact ⟨trivial, trivial, trivial, trivial, trivial, trivial, trivial, trivial,
    by rintro _ _ ⟨⟩ ⟨⟩; exact ⟨[], rfl, by decide⟩,
    by rintro _ _ ⟨⟩ ⟨⟩; exact ⟨[], rfl, by decide⟩,
    trivial, trivial, trivial, trivial, trivial, trivial, trivial⟩

theorem race_reach (support : FastRecoverSupport) :
    ∃ s, (machine Bool (twoProcesses support)).Reach (CurrentOnChain (twoProcesses support)) s ∧
      s.returned = [⟨[10], true, []⟩, ⟨[20], false, [20]⟩] := by
  refine ⟨_, Machine.Reach.init.exec (bothAppend_within support), ?_⟩
  cases support <;> rfl

/-- One of the two appends returns true, the other one releases its node. -/
theorem lockFree_refines_list_race :
    (∃ s : State Bool Unit, s.returned = [⟨[10], true, []⟩, ⟨[20], false, [20]⟩] ∧
      Sound (twoProcesses .byName) s) ∧
    ∃ s : State Bool Unit, s.returned = [⟨[10], true, []⟩, ⟨[20], false, [20]⟩] ∧
      Sound (twoProcesses .byOffset) s := by
  obtain ⟨s, hr, hs⟩ := race_reach .byName
  obtain ⟨s', hr', hs'⟩ := race_reach .byOffset
  exact ⟨⟨s, hs, (lockFree_refines_list _ hr).1⟩, s', hs', (lockFree_refines_list _ hr').1⟩

/-- One process loads the other's item, which is not on the chain, and appends after it. -/
def appendAfterFormed (id : StorageID) : List (Act Bool Unit) :=
  [.loadUntil true id, .appendAfter true 0 0, .go true, .go true]

theorem formed_reach (support : FastRecoverSupport) (id : StorageID) :
    (machine Bool (twoProcesses support)).Reach (fun _ _ => True)
      ((machine Bool (twoProcesses support)).exec (machine Bool (twoProcesses support)).init
        (bothForm ++ appendAfterFormed id)) :=
  Machine.Reach.init.exec (Machine.Within.of_forall (fun _ _ => trivial) _ _)

/-- The append has returned true, and its node cannot be reached from the head. -/
theorem not_refines_list_formed :
    (∃ s, (machine Bool (twoProcesses .byName)).Reach (fun _ _ => True) s ∧
      ¬ Sound (twoProcesses .byName) s) ∧
    ∃ s, (machine Bool (twoProcesses .byOffset)).Reach (fun _ _ => True) s ∧
      ¬ Sound (twoProcesses .byOffset) s := by
  refine ⟨⟨_, formed_reach .byName (.name "a"), fun h => ?_⟩,
    _, formed_reach .byOffset (.offset 10), fun h => ?_⟩
  · cases h.chain.1
  · cases h.chain.1

end LockFreeChain
