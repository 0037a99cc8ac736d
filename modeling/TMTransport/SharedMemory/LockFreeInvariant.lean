import Mathlib.Data.List.Perm.Subperm
import TMTransport.SharedMemory.LockFreeChain

/-!
# Who owns the nodes of the lock-free chain

What a process has formed is its own: no other process has these nodes, and none
of them is on the chain. A compare-exchange that succeeds hands the nodes of one
append over to the chain, all at once; one that fails leaves them to be released.

This rests on the current item of every `appendAfter` and `fetchNext` being on the
chain.
-/

namespace LockFreeChain

open Interleave Pointers

variable {D ι : Type} {C : Chain D} {s s' : State ι D}

/-- The node can be reached from the head. -/
def OnChain (C : Chain D) (s : State ι D) (p : Int) : Prop :=
  ∃ l, Spine s.mem.next C.head l ∧ p ∈ C.head :: l

/-- The current item of a call is on the chain. -/
def CurrentOnChain (C : Chain D) (s : State ι D) : Act ι D → Prop
  | .fetchNext t i => ∀ item p, (s.items t)[i]? = some item → item.ptr = some p → OnChain C s p
  | .appendAfter t i _ =>
    ∀ item p, (s.items t)[i]? = some item → item.ptr = some p → OnChain C s p
  | _ => True

/-! ## What a process owns -/

/-- The nodes formed together are linked in their order. -/
def Batch (m : Segment D) : List Int → Prop
  | [] => True
  | first :: rest => Spine m.next first rest

namespace Pc

/-- The nodes that only this process has. -/
def nodes : Pc D → List Int
  | .forming ret _ => ret
  | .linking ret _ newItem _ => newItem :: ret
  | .checking _ first rest => first :: rest
  | .swapping _ first rest => first :: rest
  | .destroying d _ => d.items
  | .descending d _ => d.items
  | .releasing d ptr => ptr :: d.callers
  | _ => []

/-- What holds of a process at its next operation. -/
def Ok (m : Segment D) (chain : List Int) : Pc D → Prop
  | .idle => True
  | .forming ret _ => Batch m ret
  | .linking ret p newItem _ => Batch m ret ∧ ret.getLast? = some p ∧ Batch m [newItem]
  | .fetching current => current ∈ chain
  | .checking current first rest => current ∈ chain ∧ Batch m (first :: rest)
  | .swapping current first rest => current ∈ chain ∧ Batch m (first :: rest)
  | .destroying d ptr => ∃ rest, d.items = d.callers.reverse ++ ptr :: rest ∧
      Spine m.next ptr rest ∧ d.released = []
  | .descending d ptr => ∃ p rest, d.items = d.callers.reverse ++ ptr :: p :: rest ∧
      Spine m.next ptr (p :: rest) ∧ d.released = []
  | .releasing d ptr => d.items = d.callers.reverse ++ ptr :: d.released.reverse

end Pc

def State.own (s : State ι D) (t : ι) : List Int := (s.pc t).nodes ++ (s.formed t).flatten

/-- The nodes of the chain. -/
def State.chain (C : Chain D) (s : State ι D) : List Int := C.head :: appended s.returned

structure Inv (C : Chain D) (s : State ι D) : Prop where
  spine : Spine s.mem.next C.head (appended s.returned)
  live : ∀ p ∈ s.chain C, (s.mem.object p).isSome
  pcs : ∀ t, (s.pc t).Ok s.mem (s.chain C)
  batches : ∀ t, ∀ ws ∈ s.formed t, Batch s.mem ws
  /-- What a process owns is there, once. -/
  held : ∀ t, ∀ p ∈ s.own t, (s.mem.object p).isSome
  once : ∀ t, (s.own t).Nodup
  /-- No two processes own the same node, and none owns a node of the chain. -/
  apart : ∀ t t', t ≠ t' → List.Disjoint (s.own t) (s.own t')
  off : ∀ t, List.Disjoint (s.own t) (s.chain C)
  failed : ∀ r ∈ s.returned, r.result = false → r.released = r.items.reverse
  readers : ∀ t, s.seen t <+: s.chain C
  faultless : s.faulty = false

/-! ## Frames -/

variable {m m' : Segment D} {chain chain' : List Int}

theorem Batch.congr {ws : List Int} (h : Batch m ws) (he : ∀ p ∈ ws, m'.object p = m.object p) :
    Batch m' ws := by
  cases ws with
  | nil => trivial
  | cons first rest => exact Spine.congr h fun p hp => Segment.next_congr (he p hp)

theorem Pc.Ok.congr {pc : Pc D} (h : pc.Ok m chain)
    (he : ∀ p ∈ pc.nodes, m'.object p = m.object p) (hc : ∀ p ∈ chain, p ∈ chain') :
    pc.Ok m' chain' := by
  cases pc with
  | idle => trivial
  | forming ret data => exact Batch.congr h he
  | linking ret p newItem data =>
      exact ⟨h.1.congr fun q hq => he q (List.mem_cons_of_mem _ hq), h.2.1,
        h.2.2.congr fun q hq => he q (by simp_all [Pc.nodes])⟩
  | fetching current => exact hc _ h
  | checking current first rest => exact ⟨hc _ h.1, h.2.congr he⟩
  | swapping current first rest => exact ⟨hc _ h.1, h.2.congr he⟩
  | destroying d ptr =>
      obtain ⟨rest, hi, hs, hr⟩ := h
      refine ⟨rest, hi, hs.congr fun q hq => Segment.next_congr (he q ?_), hr⟩
      simp only [Pc.nodes, hi]
      exact List.mem_append_right _ hq
  | descending d ptr =>
      obtain ⟨p, rest, hi, hs, hr⟩ := h
      refine ⟨p, rest, hi, hs.congr fun q hq => Segment.next_congr (he q ?_), hr⟩
      simp only [Pc.nodes, hi]
      exact List.mem_append_right _ hq
  | releasing d ptr => exact h

theorem own_of_pc {t : ι} {pc : Pc D} (h : s.pc t = pc) :
    s.own t = pc.nodes ++ (s.formed t).flatten := by rw [State.own, h]

theorem follow_onChain {current : Int} {seen l : List Int} {x : StorageItem D}
    (h : Spine s.mem.next C.head l) (hseen : seen <+: C.head :: l)
    (hx : s.mem.object current = some x) (hn : x.next ≠ 0) :
    follow seen current (current + x.next) <+: C.head :: l := by
  unfold follow
  split
  · rename_i hlast
    exact h.prefix_next hseen hlast (Segment.next_eq_some_of hx hn)
  · exact hseen

/-- A new node stands alone. -/
theorem batch_construct {p : Int} {x : Option D} {name : Option String} :
    Batch (m.construct p ⟨x, 0, name⟩) [p] :=
  Segment.next_eq_none_of Segment.construct_object_self rfl

theorem Pc.formed_nodes (ret : List Int) (p : Int) (data : List (String × D)) :
    (Pc.formed ret p data).nodes = p :: ret := by
  unfold Pc.formed
  split
  · rename_i hlast
    rw [List.getLast?_eq_none_iff.mp hlast]; rfl
  · rfl

theorem Pc.formed_ok {ret : List Int} {p : Int} {data : List (String × D)} (hret : Batch m ret)
    (hp : Batch m [p]) : (Pc.formed ret p data).Ok m chain := by
  unfold Pc.formed
  split
  · exact hp
  · rename_i hlast
    exact ⟨hret, hlast, hp⟩

/-- Taking one vector out of those that a process owns. -/
theorem flatten_eraseIdx {j : Nat} {formed : List (List Int)} {ws : List Int}
    (h : formed[j]? = some ws) : (ws ++ (formed.eraseIdx j).flatten).Perm formed.flatten := by
  obtain ⟨hj, rfl⟩ := List.getElem?_eq_some_iff.mp h
  exact (List.getElem_cons_eraseIdx_perm hj).flatten

theorem onChain_iff (h : Inv C s) {p : Int} : OnChain C s p ↔ p ∈ s.chain C :=
  ⟨fun ⟨_, hl, hp⟩ => by rw [State.chain, h.spine.unique hl]; exact hp, fun hp => ⟨_, h.spine, hp⟩⟩

variable [DecidableEq ι]

/--
A process does something with what is its own: the rest of the segment stays as it
is, and what the process owns afterwards it owned before, or is new.
-/
theorem Inv.own_step (h : Inv C s) {t : ι} {pc : Pc D} {formed : List (List Int)}
    (epc : s'.pc = Function.update s.pc t pc)
    (eformed : s'.formed = Function.update s.formed t formed)
    (efaulty : s'.faulty = s.faulty)
    (hkeep : ∀ p, p ∉ s.own t → (s.mem.object p).isSome → s'.mem.object p = s.mem.object p)
    (hown : ∀ p ∈ pc.nodes ++ formed.flatten, p ∈ s.own t ∨ s.mem.object p = none)
    (hheld : ∀ p ∈ pc.nodes ++ formed.flatten, (s'.mem.object p).isSome)
    (honce : (pc.nodes ++ formed.flatten).Nodup)
    (hpc : pc.Ok s'.mem (s.chain C))
    (hbatches : ∀ ws ∈ formed, Batch s'.mem ws)
    (hret : appended s'.returned = appended s.returned)
    (hfailed : ∀ r ∈ s'.returned, r.result = false → r.released = r.items.reverse)
    (hseen : ∀ t, s'.seen t <+: s.chain C) : Inv C s' := by
  have hchain : ∀ p ∈ s.chain C, s'.mem.object p = s.mem.object p := fun p hp =>
    hkeep p (fun ho => h.off t ho hp) (h.live p hp)
  have hother : ∀ t', t' ≠ t → ∀ p ∈ s.own t', s'.mem.object p = s.mem.object p :=
    fun t' hne p hp => hkeep p (fun ho => h.apart t' t hne hp ho) (h.held t' p hp)
  have hold : ∀ {q}, (s.mem.object q).isSome → q ∈ pc.nodes ++ formed.flatten → q ∈ s.own t := by
    intro q hq hm
    rcases hown q hm with h1 | h1
    · exact h1
    · rw [h1] at hq; cases hq
  have hc : s'.chain C = s.chain C := congrArg (List.cons C.head) hret
  have hself : s'.own t = pc.nodes ++ formed.flatten := by simp [State.own, epc, eformed]
  have hne : ∀ t', t' ≠ t → s'.own t' = s.own t' := by
    intro t' hne
    simp [State.own, epc, eformed, Function.update_of_ne hne]
  refine ⟨?_, ?_, ?_, ?_, ?_, ?_, ?_, ?_, hfailed, ?_, efaulty.trans h.faultless⟩
  · rw [hret]
    exact h.spine.congr fun p hp => Segment.next_congr (hchain p hp)
  · intro p hp
    rw [hc] at hp
    rw [hchain p hp]
    exact h.live p hp
  · intro t'
    rw [hc, epc]
    by_cases e : t' = t
    · subst e
      simpa using hpc
    · simp only [Function.update_of_ne e]
      exact (h.pcs t').congr (fun p hp => hother t' e p (List.mem_append_left _ hp))
        (fun p hp => hp)
  · intro t' ws hws
    rw [eformed] at hws
    by_cases e : t' = t
    · subst e
      exact hbatches ws (by simpa using hws)
    · simp only [Function.update_of_ne e] at hws
      exact (h.batches t' ws hws).congr fun p hp =>
        hother t' e p (List.mem_append_right _ (List.mem_flatten.mpr ⟨ws, hws, hp⟩))
  · intro t' p hp
    by_cases e : t' = t
    · subst e
      exact hheld p (hself ▸ hp)
    · rw [hne t' e] at hp
      rw [hother t' e p hp]
      exact h.held t' p hp
  · intro t'
    by_cases e : t' = t
    · subst e
      rw [hself]; exact honce
    · rw [hne t' e]; exact h.once t'
  · have key : ∀ t', t' ≠ t → List.Disjoint (s.own t') (pc.nodes ++ formed.flatten) :=
      fun t' e p hp hp' => h.apart t' t e hp (hold (h.held t' p hp) hp')
    intro t₁ t₂ h12
    by_cases e₁ : t₁ = t
    · subst e₁
      rw [hself, hne t₂ (Ne.symm h12)]
      exact fun p hp hp' => key t₂ (Ne.symm h12) hp' hp
    · by_cases e₂ : t₂ = t
      · subst e₂
        rw [hself, hne t₁ e₁]
        exact key t₁ e₁
      · rw [hne t₁ e₁, hne t₂ e₂]
        exact h.apart t₁ t₂ h12
  · intro t'
    rw [hc]
    by_cases e : t' = t
    · subst e
      rw [hself]
      exact fun p hp hp' => h.off t' (hold (h.live p hp') hp) hp'
    · rw [hne t' e]; exact h.off t'
  · intro t'
    rw [hc]
    exact hseen t'

/-- A process goes on without touching the segment, and keeps or drops what it owns. -/
theorem Inv.wait (h : Inv C s) {t : ι} {pc : Pc D} {formed : List (List Int)}
    (epc : s'.pc = Function.update s.pc t pc)
    (eformed : s'.formed = Function.update s.formed t formed)
    (emem : s'.mem = s.mem) (eret : s'.returned = s.returned) (efaulty : s'.faulty = s.faulty)
    (hown : List.Subperm (pc.nodes ++ formed.flatten) (s.own t))
    (hpc : pc.Ok s.mem (s.chain C)) (hbatches : ∀ ws ∈ formed, Batch s.mem ws)
    (hseen : ∀ t, s'.seen t <+: s.chain C) : Inv C s' := by
  obtain ⟨l, hl, hsub⟩ := hown
  have hmem : ∀ p ∈ pc.nodes ++ formed.flatten, p ∈ s.own t := fun p hp =>
    hsub.subset (hl.mem_iff.mpr hp)
  refine h.own_step epc eformed efaulty (fun p _ _ => by rw [emem]) (fun p hp => Or.inl (hmem p hp))
    (fun p hp => by rw [emem]; exact h.held t p (hmem p hp))
    (hl.nodup_iff.mp (List.Nodup.sublist hsub (h.once t))) (by rw [emem]; exact hpc)
    (fun ws hws => by rw [emem]; exact hbatches ws hws) (by rw [eret])
      (by rw [eret]; exact h.failed)
    hseen

/-- A process goes on and keeps just what it owns. -/
theorem Inv.stay (h : Inv C s) {t : ι} {pc : Pc D} (epc : s'.pc = Function.update s.pc t pc)
    (eformed : s'.formed = s.formed) (emem : s'.mem = s.mem) (eret : s'.returned = s.returned)
    (efaulty : s'.faulty = s.faulty) (hnodes : pc.nodes.Perm (s.pc t).nodes)
    (hpc : pc.Ok s.mem (s.chain C)) (hseen : ∀ t, s'.seen t <+: s.chain C) : Inv C s' :=
  h.wait epc (eformed.trans (Function.update_eq_self t s.formed).symm) emem eret efaulty
    (hnodes.append_right _).subperm hpc (h.batches t) hseen

/-- The nodes of an append pass to the chain. -/
theorem Inv.append_step (h : Inv C s) {t : ι} {current first : Int} {rest : List Int}
    (hpc : s.pc t = .swapping current first rest) (hn : s.mem.next current = none) :
    Inv C { s.goto t .idle with
      mem := s.mem.storeNext current (first - current)
      returned := s.returned ++ [⟨first :: rest, true, []⟩] } := by
  have hok := h.pcs t
  rw [hpc] at hok
  obtain ⟨hcur, hbatch⟩ := hok
  have hnew : ∀ p ∈ first :: rest, p ∈ s.own t := by
    intro p hp
    rw [State.own, hpc]
    exact List.mem_append_left _ hp
  have hcurne : ∀ t', ∀ p ∈ s.own t', p ≠ current := by
    rintro t' p hp rfl
    exact h.off t' hp hcur
  obtain rfl : current = tip C.head (appended s.returned) := h.spine.eq_tip hcur hn
  have hkeep : ∀ p, p ≠ tip C.head (appended s.returned) →
      (s.mem.storeNext (tip C.head (appended s.returned))
        (first - tip C.head (appended s.returned))).object p = s.mem.object p :=
    fun p hp => Segment.storeNext_object_of_ne hp
  let s' : State ι D := { s.goto t .idle with
    mem := s.mem.storeNext (tip C.head (appended s.returned))
      (first - tip C.head (appended s.returned))
    returned := s.returned ++ [⟨first :: rest, true, []⟩] }
  have happ : appended s'.returned = appended s.returned ++ first :: rest := by
    simp [s', appended]
  have hc : s'.chain C = s.chain C ++ first :: rest := congrArg (List.cons C.head) happ
  have hgrow : ∀ p ∈ s.chain C, p ∈ s'.chain C := fun p hp => by
    rw [hc]; exact List.mem_append_left _ hp
  have hsub : ∀ t', (s'.own t').Sublist (s.own t') := by
    intro t'
    by_cases e : t' = t
    · subst e
      have : s'.own t' = (s.formed t').flatten := by simp [s', State.own, State.goto, Pc.nodes]
      rw [this]
      exact List.sublist_append_right _ _
    · have : s'.own t' = s.own t' := by simp [s', State.own, State.goto, Function.update_of_ne e]
      rw [this]
  have hlive : ∀ p, (s.mem.object p).isSome → (s'.mem.object p).isSome := by
    intro p hp
    by_cases e : p = tip C.head (appended s.returned)
    · obtain ⟨x, hx⟩ := Option.isSome_iff_exists.mp hp
      subst e
      rw [show s'.mem.object _ = _ from Segment.storeNext_object_self hx]
      rfl
    · rw [show s'.mem.object p = _ from hkeep p e]
      exact hp
  refine ⟨?_, ?_, ?_, ?_, ?_, ?_, ?_, ?_, ?_, ?_, h.faultless⟩
  · rw [happ]
    refine h.spine.link ?_ ?_ fun p hp hne => Segment.next_congr (hkeep p hne)
    · exact Segment.next_storeNext (h.live _ hcur) (hcurne t first (hnew first (by simp)))
    · exact Spine.congr hbatch fun p hp =>
        Segment.next_congr (hkeep p (hcurne t p (hnew p hp)))
  · intro p hp
    rw [hc] at hp
    rcases List.mem_append.mp hp with hp | hp
    · exact hlive p (h.live p hp)
    · exact hlive p (h.held t p (hnew p hp))
  · intro t'
    by_cases e : t' = t
    · subst e
      simp [State.goto, Pc.Ok]
    · simp only [State.goto, Function.update_of_ne e]
      exact (h.pcs t').congr
        (fun p hp => hkeep p (hcurne t' p (List.mem_append_left _ hp))) hgrow
  · intro t' ws hws
    exact (h.batches t' ws hws).congr fun p hp =>
      hkeep p (hcurne t' p (List.mem_append_right _ (List.mem_flatten.mpr ⟨ws, hws, hp⟩)))
  · exact fun t' p hp => hlive p (h.held t' p ((hsub t').subset hp))
  · exact fun t' => List.Nodup.sublist (hsub t') (h.once t')
  · exact fun t₁ t₂ h12 p hp hp' =>
      h.apart t₁ t₂ h12 ((hsub t₁).subset hp) ((hsub t₂).subset hp')
  · intro t' p hp hp'
    rw [hc] at hp'
    rcases List.mem_append.mp hp' with hp' | hp'
    · exact h.off t' ((hsub t').subset hp) hp'
    · by_cases e : t' = t
      · subst e
        have hnd := h.once t'
        simp only [State.own, hpc, Pc.nodes] at hnd
        have hown : p ∈ (s.formed t').flatten := by
          simpa [s', State.own, State.goto, Pc.nodes] using hp
        exact (List.nodup_append.mp hnd).2.2 p hp' p hown rfl
      · exact h.apart t' t e ((hsub t').subset hp) (hnew p hp')
  · intro r hr hfalse
    rcases List.mem_append.mp hr with hr | hr
    · exact h.failed r hr hfalse
    · obtain rfl := List.mem_singleton.mp hr
      cases hfalse
  · intro t'
    rw [hc]
    exact (h.readers t').trans (List.prefix_append _ _)

/-! ## The steps -/

theorem Inv.seen_update (h : Inv C s) {t : ι} {seen : List Int} (hs : seen <+: s.chain C) (t' : ι) :
    Function.update s.seen t seen t' <+: s.chain C := by
  by_cases e : t' = t
  · subst e; simpa using hs
  · rw [Function.update_of_ne e]; exact h.readers t'

/-- The last item that `formChainItems` has formed is linked to the next. -/
theorem Inv.link_step (h : Inv C s) {t : ι} {ret : List Int} {p newItem : Int}
    {data : List (String × D)} (hpc : s.pc t = .linking ret p newItem data) :
    Inv C { s.goto t (.forming (ret ++ [newItem]) data) with
      mem := s.mem.storeNext p (newItem - p) } := by
  have hok := h.pcs t
  rw [hpc] at hok
  obtain ⟨hbatch, hlast, hnew⟩ := hok
  have hown := own_of_pc hpc
  have hnd := h.once t
  rw [hown] at hnd
  have hpret : p ∈ ret := List.mem_of_getLast? hlast
  have hp : p ∈ s.own t := by rw [hown]; simp [Pc.nodes, hpret]
  have hne : newItem ≠ p := by
    rintro rfl
    exact (List.nodup_cons.mp (List.nodup_append.mp hnd).1).1 hpret
  have hkeep : ∀ q, q ≠ p → (s.mem.storeNext p (newItem - p)).object q = s.mem.object q :=
    fun q hq => Segment.storeNext_object_of_ne hq
  have hmem : ∀ q ∈ (Pc.forming (ret ++ [newItem]) data).nodes ++ (s.formed t).flatten,
      q ∈ s.own t := by
    intro q hq
    rw [hown]
    simp only [Pc.nodes, List.mem_append, List.mem_cons] at hq ⊢
    tauto
  refine h.own_step rfl (Function.update_eq_self t s.formed).symm rfl
    (fun q hq _ => hkeep q (by rintro rfl; exact hq hp))
      (fun q hq => Or.inl (hmem q hq)) ?_ ?_ ?_ ?_
    rfl h.failed h.readers
  · intro q hq
    have hq' := h.held t q (hmem q hq)
    by_cases e : q = p
    · obtain ⟨x, hx⟩ := Option.isSome_iff_exists.mp hq'
      subst e
      show ((s.mem.storeNext q (newItem - q)).object q).isSome
      rw [Segment.storeNext_object_self hx]; rfl
    · show ((s.mem.storeNext p (newItem - p)).object q).isSome
      rw [hkeep q e]; exact hq'
  · have hperm : (ret ++ [newItem]).Perm (newItem :: ret) := List.perm_append_comm
    exact ((hperm.append_right _).nodup_iff).mpr hnd
  · -- the batch so far, and the new item after its last one
    cases ret with
    | nil => cases hpret
    | cons first rest =>
        rw [getLast?_cons_eq_tip] at hlast
        obtain rfl : tip first rest = p := Option.some.inj hlast
        refine Spine.link hbatch (Segment.next_storeNext (h.held t _ hp) hne)
          (Spine.congr hnew fun q hq => ?_) fun q hq hqt => Segment.next_congr (hkeep q hqt)
        obtain rfl := List.mem_singleton.mp hq
        exact Segment.next_congr (hkeep _ hne)
  · intro ws hws
    refine (h.batches t ws hws).congr fun q hq => hkeep q ?_
    rintro rfl
    exact (List.nodup_append.mp hnd).2.2 q (List.mem_cons_of_mem _ hpret) q
      (List.mem_flatten.mpr ⟨ws, hws, hq⟩) rfl

/-- A node is released by the process that owns it. -/
theorem Inv.release_step (h : Inv C s) {t : ι} {d : Destroying} {ptr : Int} {pc : Pc D}
    {returned : List Return} (hpc : s.pc t = .releasing d ptr) (hnodes : pc.nodes = d.callers)
    (hok : pc.Ok (s.mem.destroyPtr ptr) (s.chain C))
    (hret : appended returned = appended s.returned)
    (hfailed : ∀ r ∈ returned, r.result = false → r.released = r.items.reverse) :
    Inv C { s.goto t pc with mem := s.mem.destroyPtr ptr, returned := returned } := by
  have hown := own_of_pc hpc
  have hnd := h.once t
  rw [hown] at hnd
  have hptr : ptr ∉ d.callers ++ (s.formed t).flatten := (List.nodup_cons.mp hnd).1
  have hmem : ∀ q ∈ pc.nodes ++ (s.formed t).flatten, q ∈ s.own t ∧ q ≠ ptr := by
    intro q hq
    rw [hnodes] at hq
    refine ⟨by rw [hown]; exact List.mem_cons_of_mem _ hq, ?_⟩
    rintro rfl
    exact hptr hq
  have hkeep : ∀ q, q ≠ ptr → (s.mem.destroyPtr ptr).object q = s.mem.object q :=
    fun q hq => Segment.destroyPtr_object_of_ne hq
  refine h.own_step rfl (Function.update_eq_self t s.formed).symm rfl
    (fun q hq _ => hkeep q ?_)
      (fun q hq => Or.inl (hmem q hq).1) ?_ ?_ hok ?_ hret hfailed h.readers
  · rintro rfl
    exact hq (by rw [hown]; simp [Pc.nodes])
  · intro q hq
    show ((s.mem.destroyPtr ptr).object q).isSome
    rw [hkeep q (hmem q hq).2]
    exact h.held t q (hmem q hq).1
  · rw [hnodes]
    exact (List.nodup_cons.mp hnd).2
  · intro ws hws
    refine (h.batches t ws hws).congr fun q hq => hkeep q ?_
    rintro rfl
    exact hptr (List.mem_append_right _ (List.mem_flatten.mpr ⟨ws, hws, hq⟩))

theorem inv_advance {t : ι} (h : Inv C s) (hs : advance C s t = some s') : Inv C s' := by
  have hok := h.pcs t
  cases hpc : s.pc t with
  | idle => simp [advance, hpc] at hs
  | forming ret data =>
      rw [hpc] at hok
      cases data with
      | cons x data => simp [advance, hpc] at hs
      | nil =>
          simp only [advance, hpc, Option.some.injEq] at hs
          subst hs
          refine h.wait rfl rfl rfl rfl rfl ?_ trivial ?_ h.readers
          · rw [own_of_pc hpc]
            rfl
          · intro ws hws
            rcases List.mem_cons.mp hws with rfl | hws
            · exact hok
            · exact h.batches t ws hws
  | linking ret p newItem data =>
      rw [hpc] at hok
      obtain ⟨x, hx⟩ := Option.isSome_iff_exists.mp
        (h.held t p (by rw [own_of_pc hpc]; simp [Pc.nodes, List.mem_of_getLast? hok.2.1]))
      simp only [advance, hpc, hx, Option.some.injEq] at hs
      subst hs
      exact h.link_step hpc
  | fetching current =>
      rw [hpc] at hok
      obtain ⟨x, hx⟩ := Option.isSome_iff_exists.mp (h.live current hok)
      simp only [advance, hpc, hx] at hs
      split at hs
      · obtain rfl := Option.some.inj hs
        exact h.stay rfl rfl rfl rfl rfl (by rw [hpc]; rfl) trivial h.readers
      · rename_i hn
        obtain rfl := Option.some.inj hs
        exact h.stay rfl rfl rfl rfl rfl (by rw [hpc]; rfl) trivial
          (h.seen_update (follow_onChain h.spine (h.readers t) hx hn))
  | checking current first rest =>
      rw [hpc] at hok
      obtain ⟨x, hx⟩ := Option.isSome_iff_exists.mp (h.held t (tip first rest)
        (by rw [own_of_pc hpc]; exact List.mem_append_left _ (tip_mem first rest)))
      have hn : x.next = 0 := by
        by_contra hne
        exact absurd ((Segment.next_eq_some_of hx hne).symm.trans (Spine.next_tip hok.2)) (by simp)
      simp only [advance, hpc, hx, hn, if_true, Option.some.injEq] at hs
      subst hs
      exact h.stay rfl rfl rfl rfl rfl (by rw [hpc]; rfl) hok h.readers
  | swapping current first rest =>
      rw [hpc] at hok
      obtain ⟨x, hx⟩ := Option.isSome_iff_exists.mp (h.live current hok.1)
      simp only [advance, hpc, hx] at hs
      split at hs
      · rename_i hn
        obtain rfl := Option.some.inj hs
        exact h.append_step hpc (Segment.next_eq_none_of hx hn)
      · obtain rfl := Option.some.inj hs
        exact h.stay rfl rfl rfl rfl rfl (by rw [hpc]; rfl) ⟨rest, rfl, hok.2, rfl⟩ h.readers
  | destroying d ptr =>
      rw [hpc] at hok
      obtain ⟨rest, hitems, hspine, hrel⟩ := hok
      obtain ⟨x, hx⟩ := Option.isSome_iff_exists.mp (h.held t ptr
        (by rw [own_of_pc hpc]; simp [Pc.nodes, hitems]))
      simp only [advance, hpc, hx, Option.some.injEq] at hs
      subst hs
      split
      · rename_i hn
        obtain rfl : rest = [] := hspine.unique (Segment.next_eq_none_of hx hn)
        refine h.stay rfl rfl rfl rfl rfl ?_ (by simp [Pc.Ok, hitems, hrel]) h.readers
        simp only [hpc, Pc.nodes, hitems]
        exact (List.perm_append_singleton ptr _).symm.trans
          ((List.reverse_perm d.callers).symm.append_right [ptr])
      · rename_i hn
        cases rest with
        | nil => exact absurd ((Segment.next_eq_some_of hx hn).symm.trans hspine) (by simp)
        | cons p rest =>
            exact h.stay rfl rfl rfl rfl rfl (by rw [hpc]; rfl)
              ⟨p, rest, hitems, hspine, hrel⟩ h.readers
  | descending d ptr =>
      rw [hpc] at hok
      obtain ⟨p, rest, hitems, hspine, hrel⟩ := hok
      obtain ⟨x, hx⟩ := Option.isSome_iff_exists.mp (h.held t ptr
        (by rw [own_of_pc hpc]; simp [Pc.nodes, hitems]))
      have hn : x.next ≠ 0 := fun hn =>
        absurd (hspine.1.symm.trans (Segment.next_eq_none_of hx hn)) (by simp)
      obtain rfl : ptr + x.next = p :=
        Option.some.inj ((Segment.next_eq_some_of hx hn).symm.trans hspine.1)
      simp only [advance, hpc, hx, Option.some.injEq] at hs
      subst hs
      exact h.stay rfl rfl rfl rfl rfl (by rw [hpc]; rfl)
        ⟨rest, by simp [hitems], hspine.2, hrel⟩ h.readers
  | releasing d ptr =>
      rw [hpc] at hok
      obtain ⟨x, hx⟩ := Option.isSome_iff_exists.mp (h.held t ptr
        (by rw [own_of_pc hpc]; simp [Pc.nodes]))
      cases hcallers : d.callers with
      | nil =>
          simp only [advance, hpc, hx, hcallers, Option.some.injEq] at hs
          subst hs
          refine h.release_step hpc hcallers.symm trivial ?_ ?_
          · split <;> simp [appended]
          · intro r hr hfalse
            split at hr
            · rcases List.mem_append.mp hr with hr | hr
              · exact h.failed r hr hfalse
              · obtain rfl := List.mem_singleton.mp hr
                have hitems : d.items = ptr :: d.released.reverse := by
                  rw [show d.items = _ from hok, hcallers]; rfl
                simp [hitems]
            · exact h.failed r hr hfalse
      | cons c callers =>
          simp only [advance, hpc, hx, hcallers, Option.some.injEq] at hs
          subst hs
          refine h.release_step hpc (by rw [hcallers]; rfl) ?_ rfl h.failed
          show d.items = callers.reverse ++ c :: (d.released ++ [ptr]).reverse
          rw [show d.items = _ from hok, hcallers]
          simp

theorem inv_construct {t : ι} {p : Int} (h : Inv C s) (hs : construct C s t p = some s') :
    Inv C s' := by
  have hok := h.pcs t
  unfold construct at hs
  split at hs
  · rename_i ret id x data hpc hfree
    rw [hpc] at hok
    split at hs
    · obtain rfl := Option.some.inj hs
      refine h.wait rfl (Function.update_eq_self t s.formed).symm rfl rfl rfl ?_ trivial
        (h.batches t)
        h.readers
      rw [own_of_pc hpc]
      exact (List.sublist_append_right _ _).subperm
    · obtain rfl := Option.some.inj hs
      have hown := own_of_pc hpc
      have hnd := h.once t
      rw [hown] at hnd
      have hfresh : ∀ q, (s.mem.object q).isSome → q ≠ p := by
        rintro q hq rfl
        rw [hfree] at hq; cases hq
      have hkeep : ∀ q, (s.mem.object q).isSome →
          (s.mem.construct p ⟨some x, 0, C.nodeName id⟩).object q = s.mem.object q := fun q hq =>
        Segment.construct_object_of_ne (hfresh q hq)
      have hheld : ∀ q ∈ ret ++ (s.formed t).flatten, (s.mem.object q).isSome := fun q hq =>
        h.held t q (by rw [hown]; exact hq)
      refine h.own_step (t := t) rfl (Function.update_eq_self t s.formed).symm rfl
        (fun q _ hq => hkeep q hq) ?_ ?_ ?_ ?_ ?_ rfl h.failed h.readers
      · intro q hq
        rw [Pc.formed_nodes] at hq
        rcases List.mem_cons.mp hq with rfl | hq
        · exact Or.inr hfree
        · exact Or.inl (by rw [hown]; exact hq)
      · intro q hq
        rw [Pc.formed_nodes] at hq
        rcases List.mem_cons.mp hq with rfl | hq
        · exact Option.isSome_iff_exists.mpr ⟨_, Segment.construct_object_self⟩
        · show ((s.mem.construct p _).object q).isSome
          rw [hkeep q (hheld q hq)]
          exact hheld q hq
      · rw [Pc.formed_nodes]
        exact List.nodup_cons.mpr ⟨fun hp => hfresh p (hheld p hp) rfl, hnd⟩
      · exact Pc.formed_ok
          (Batch.congr hok fun q hq => hkeep q
            (hheld q (List.mem_append_left _ hq))) batch_construct
      · intro ws hws
        exact (h.batches t ws hws).congr fun q hq => hkeep q (hheld q
          (List.mem_append_right _ (List.mem_flatten.mpr ⟨ws, hws, hq⟩)))
  · cases hs

theorem inv_call {t : ι} {a : Act ι D} (h : Inv C s) (ht : a.process = t) (hpc : s.pc t = .idle)
    (hg : CurrentOnChain C s a) (hs : call C s t a = some s') : Inv C s' := by
  have hsame : s.pc = Function.update s.pc t (s.pc t) := (Function.update_eq_self t s.pc).symm
  have hgo : ∀ (pc : Pc D) {ws : List Int} {j : Nat}, (s.formed t)[j]? = some ws → pc.nodes = ws →
      (pc.nodes ++ ((s.formed t).eraseIdx j).flatten).Subperm (s.own t) := by
    intro pc ws j hj hn
    rw [hn, own_of_pc hpc]
    exact (flatten_eraseIdx hj).subperm
  have hrest : ∀ {j : Nat}, ∀ ws ∈ (s.formed t).eraseIdx j, Batch s.mem ws := fun ws hws =>
    h.batches t ws (List.mem_of_mem_eraseIdx hws)
  cases a with
  | head u =>
      simp only [call, Option.some.injEq] at hs
      subst hs
      exact h.stay hsame rfl rfl rfl rfl .rfl (h.pcs t)
        (h.seen_update ⟨appended s.returned, rfl⟩)
  | loadUntil u id =>
      obtain ⟨item, -, rfl⟩ := Option.map_eq_some_iff.mp hs
      exact h.stay hsame rfl rfl rfl rfl .rfl (h.pcs t) h.readers
  | formChainItems u data =>
      simp only [call, Option.some.injEq] at hs
      subst hs
      exact h.stay rfl rfl rfl rfl rfl (by rw [hpc]; rfl) trivial h.readers
  | fetchNext u i =>
      obtain rfl : u = t := ht
      cases hi : (s.items u)[i]? with
      | none => simp [call, hi] at hs
      | some current =>
          cases hp : current.ptr with
          | none =>
              simp only [call, hi, hp, Option.some.injEq] at hs
              exact hs ▸ h
          | some p =>
              simp only [call, hi, hp, Option.some.injEq] at hs
              subst hs
              exact h.stay rfl rfl rfl rfl rfl (by rw [hpc]; rfl)
                ((onChain_iff h).mp (hg current p hi hp)) h.readers
  | appendAfter u i j =>
      obtain rfl : u = t := ht
      simp only [call] at hs
      split at hs
      · rename_i current hi hj
        obtain rfl := Option.some.inj hs
        refine h.own_step hsame rfl rfl (fun _ _ _ => rfl) ?_ ?_ ?_ (h.pcs u) hrest
          (by simp [appended]) ?_ h.readers
        · exact fun p hp => Or.inl ((hgo (s.pc u) hj (by rw [hpc]; rfl)).subset hp)
        · exact fun p hp => h.held u p ((hgo (s.pc u) hj (by rw [hpc]; rfl)).subset hp)
        · obtain ⟨l, hl, hsub⟩ := hgo (s.pc u) hj (by rw [hpc]; rfl)
          exact hl.nodup_iff.mp (List.Nodup.sublist hsub (h.once u))
        · intro r hr hfalse
          rcases List.mem_append.mp hr with hr | hr
          · exact h.failed r hr hfalse
          · obtain rfl := List.mem_singleton.mp hr
            cases hfalse
      · rename_i current first rest hi hj
        cases hp : current.ptr with
        | none =>
            simp only [hp, Option.some.injEq] at hs
            exact hs ▸ h
        | some p =>
            simp only [hp, Option.some.injEq] at hs
            subst hs
            exact h.wait rfl rfl rfl rfl rfl (hgo _ hj rfl)
              ⟨(onChain_iff h).mp (hg current p hi hp),
                h.batches u _ (List.mem_of_getElem? hj)⟩ hrest h.readers
      · cases hs
  | destroyItem u j =>
      simp only [call] at hs
      split at hs
      · rename_i first rest hj
        obtain rfl := Option.some.inj hs
        exact h.wait rfl rfl rfl rfl rfl (hgo _ hj rfl)
          ⟨rest, rfl, h.batches t _ (List.mem_of_getElem? hj), rfl⟩ hrest h.readers
      · cases hs
  | construct u p => cases hs
  | noMemory u => cases hs
  | go u => cases hs

theorem inv_step {a : Act ι D} (h : Inv C s) (hg : CurrentOnChain C s a)
    (hs : step C s a = some s') : Inv C s' := by
  unfold step at hs
  split at hs
  · exact inv_advance h hs
  · exact inv_construct h hs
  · rename_i t
    split at hs
    · rename_i ret x data hpc
      obtain rfl := Option.some.inj hs
      refine h.wait rfl (Function.update_eq_self t s.formed).symm rfl rfl rfl ?_ trivial
        (h.batches t)
        h.readers
      rw [own_of_pc hpc]
      exact (List.sublist_append_right _ _).subperm
    · cases hs
  · split at hs
    · rename_i hpc
      exact inv_call h rfl hpc hg hs
    · cases hs

theorem inv_init : Inv C (machine ι C).init := by
  refine ⟨?_, ?_, fun _ => trivial, ?_, ?_, fun _ => List.nodup_nil, ?_, ?_, ?_, ?_, rfl⟩
  · exact Segment.next_eq_none_of Segment.construct_object_self rfl
  · intro p hp
    obtain rfl := List.mem_singleton.mp hp
    exact Option.isSome_iff_exists.mpr ⟨_, Segment.construct_object_self⟩
  · intro t ws hws
    cases hws
  · intro t p hp
    cases hp
  · intro t t' _ p hp
    cases hp
  · intro t p hp
    cases hp
  · intro r hr
    cases hr
  · exact fun t => List.nil_prefix

theorem inv_reach (hr : (machine ι C).Reach (CurrentOnChain C) s) : Inv C s :=
  hr.invariant inv_init fun _ _ _ => inv_step

end LockFreeChain
