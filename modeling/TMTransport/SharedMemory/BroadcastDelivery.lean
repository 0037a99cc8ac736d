import TMTransport.SharedMemory.BroadcastQueue

/-!
# What a broadcast client is handed

Publishers work on the list that the tail is in, and the client's thread on the
other one. The messages linked are those handed over, then those that the client's
thread has still to go through, then those in the list that the tail is in.

This holds as long as the tail is turned only when no publisher is between its
load of the tail and the link of its item. A publisher that is goes on in the list
that the client is emptying, and links its item to one whose `next` the client may
have read already.
-/

namespace BroadcastQueue

open Interleave Pointers

variable {ι X : Type} {C : Client} {c : Codec X} {s s' : State ι X}

/-- An item of a list, with its message and who published it. -/
abbrev Entry (ι X : Type) := Int × (ι × X)

/-- The head whose list the tail is in. -/
def State.active (s : State ι X) : Bool :=
  match s.con with
  | .loadTail => !s.headIdx
  | .casTail _ => !s.headIdx
  | _ => s.headIdx

/-- The item that the client's thread is done with and has not yet released. -/
def Con.holding : Con → List Int
  | .loadNext p => [p]
  | .free p _ => [p]
  | _ => []

/-- The item that a publisher has not yet linked. -/
def Pub.newItem : Pub X → Option Int
  | .idle => none
  | .constructing _ => none
  | .loadTail _ newItem => some newItem
  | .loadNext _ newItem _ => some newItem
  | .loadOld _ newItem _ _ => some newItem
  | .casTail _ newItem _ _ _ => some newItem
  | .casNext _ newItem _ => some newItem

/-- The message of an item that is not yet linked is in the item. -/
def Pub.Carries (c : Codec X) (object : Int → Option Item) (pub : Pub X) : Prop :=
  ∀ p, pub.newItem = some p →
    ∃ x, pub.pending = [x] ∧ object p = some ⟨some (c.serialize x), 0⟩

/-- A publisher that has loaded the tail is in its list. -/
def Pub.Inside (chain : List Int) : Pub X → Prop
  | .loadNext _ _ tail => tail ∈ chain
  | .loadOld _ _ tail n => tail ∈ chain ∧ n ∈ chain
  | .casTail _ _ tail n _ => tail ∈ chain ∧ n ∈ chain
  | .casNext _ _ tail => tail ∈ chain
  | _ => True

/-- Where the client's thread is in the items `r` that it has still to hand over. -/
def Con.At (object : Int → Option Item) (old : Int) (r : List Int) : Con → Prop
  | .watching => r = [] ∧ next object old = none
  | .loadTail => r = [] ∧ next object old = none
  | .casTail _ => r = [] ∧ next object old = none
  | .first => Spine (next object) old r
  | .handle p => ∃ rest, r = p :: rest ∧ Spine (next object) p rest
  | .loadNext p => Spine (next object) p r
  | .free _ n => (n = 0 ∧ r = []) ∨ ∃ rest, r = n :: rest ∧ Spine (next object) n rest
  | .reset => r = []

/-- The items in use: both heads, what is being released, what is to be handed over. -/
def State.used (C : Client) (s : State ι X) (q r : List (Entry ι X)) : List Int :=
  C.heads false :: C.heads true :: (s.con.holding ++ (r ++ q).map Prod.fst)

/-- `q` are the items in the list that the tail is in, `r` those left in the other one. -/
structure Inv (C : Client) (c : Codec X) (s : State ι X) (q r : List (Entry ι X)) : Prop where
  spine : Spine (next s.object) (C.heads s.active) (q.map Prod.fst)
  con : s.con.At s.object (C.heads !s.active) (r.map Prod.fst)
  nodup : (s.used C q r).Nodup
  live : ∀ p ∈ s.used C q r, p ≠ 0 ∧ (s.object p).isSome
  data : ∀ e ∈ r ++ q, ∃ n, s.object e.1 = some ⟨some (c.serialize e.2.2), n⟩
  tail : s.tail ∈ C.heads s.active :: q.map Prod.fst
  inside : ∀ i, (s.pub i).Inside (C.heads s.active :: q.map Prod.fst)
  carries : ∀ i, (s.pub i).Carries c s.object
  /-- An item that is not yet linked is nobody else's. -/
  unlinked : ∀ i p, (s.pub i).newItem = some p → p ≠ 0 ∧ p ∉ s.used C q r
  apart : ∀ i j p, (s.pub i).newItem = some p → (s.pub j).newItem = some p → i = j
  faultless : s.faulty = false
  /-- What has been linked and is in neither list has been handed over. -/
  handed : ∃ done, s.linked = done ++ (r ++ q).map Prod.snd ∧ s.handed = done.map Prod.snd

/-! ## Frames -/

variable {object object' : Int → Option Item} {q r : List (Entry ι X)} {p : Int}

theorem next_congr (h : object' p = object p) : next object' p = next object p := by
  simp [next, h]

theorem next_of_object {it : Item} (h : object p = some it) :
    next object p = if it.next = 0 then none else some it.next := by
  simp [next, h]

theorem spine_congr {a : Int} {l : List Int} (h : Spine (next object) a l)
    (he : ∀ x ∈ a :: l, object' x = object x) : Spine (next object') a l :=
  h.congr fun x hx => next_congr (he x hx)

theorem mem_used_head (b : Bool) : C.heads b ∈ s.used C q r := by
  cases b <;> simp [State.used]

theorem mem_used_of_mem {e : Entry ι X} (h : e ∈ r ++ q) : e.1 ∈ s.used C q r :=
  List.mem_cons_of_mem _ (List.mem_cons_of_mem _
    (List.mem_append_right _ (List.mem_map.mpr ⟨e, h, rfl⟩)))

theorem mem_used_active (h : p ∈ C.heads s.active :: q.map Prod.fst) : p ∈ s.used C q r := by
  rcases List.mem_cons.mp h with rfl | h
  · exact mem_used_head _
  · obtain ⟨e, he, rfl⟩ := List.mem_map.mp h
    exact mem_used_of_mem (List.mem_append_right _ he)

/-- The items in use are those of the one list and those of the other. -/
theorem used_perm (C : Client) (s : State ι X) (q r : List (Entry ι X)) :
    (s.used C q r).Perm ((C.heads s.active :: q.map Prod.fst) ++
      (C.heads (!s.active) :: (s.con.holding ++ r.map Prod.fst))) := by
  rw [State.used, List.map_append, ← List.append_assoc]
  have hswap : ∀ a b (l m : List Int), (a :: b :: (l ++ m)).Perm ((a :: m) ++ (b :: l)) := by
    intro a b l m
    refine List.Perm.cons a ?_
    exact (List.Perm.cons b List.perm_append_comm).trans List.perm_middle.symm
  cases s.active
  · exact hswap _ _ _ _
  · exact (List.Perm.swap _ _ _).trans (hswap _ _ _ _)

theorem mem_used_retired (h : p ∈ C.heads (!s.active) :: (s.con.holding ++ r.map Prod.fst)) :
    p ∈ s.used C q r :=
  (used_perm C s q r).mem_iff.mpr (List.mem_append_right _ h)

theorem Inv.lists_apart (h : Inv C c s q r)
    (hp : p ∈ C.heads (!s.active) :: (s.con.holding ++ r.map Prod.fst)) :
    p ∉ C.heads s.active :: q.map Prod.fst := fun hp' =>
  (List.nodup_append.mp ((used_perm C s q r).nodup_iff.mp h.nodup)).2.2 p hp' p hp rfl

theorem Con.At.congr {con : Con} {old : Int} {l : List Int} (h : con.At object old l)
    (he : ∀ x ∈ old :: (con.holding ++ l), object' x = object x) : con.At object' old l := by
  have hl : ∀ x ∈ l, object' x = object x := fun x hx =>
    he x (List.mem_cons_of_mem _ (List.mem_append_right _ hx))
  cases con with
  | watching => exact ⟨h.1, (next_congr (he old (by simp))).trans h.2⟩
  | loadTail => exact ⟨h.1, (next_congr (he old (by simp))).trans h.2⟩
  | casTail oldV => exact ⟨h.1, (next_congr (he old (by simp))).trans h.2⟩
  | first =>
      exact spine_congr h fun x hx => by
        rcases List.mem_cons.mp hx with rfl | hx
        · exact he _ (by simp)
        · exact hl x hx
  | handle p =>
      obtain ⟨rest, rfl, hs⟩ := h
      exact ⟨rest, rfl, spine_congr hs hl⟩
  | loadNext p =>
      exact spine_congr h fun x hx => he x (List.mem_cons_of_mem _ hx)
  | free p n =>
      rcases h with h | ⟨rest, rfl, hs⟩
      · exact Or.inl h
      · exact Or.inr ⟨rest, rfl, spine_congr hs hl⟩
  | reset => exact h

theorem Pub.Inside.mono {pub : Pub X} {chain chain' : List Int} (h : pub.Inside chain)
    (hc : ∀ p ∈ chain, p ∈ chain') : pub.Inside chain' := by
  cases pub with
  | loadNext x newItem tail => exact hc _ h
  | loadOld x newItem tail n => exact ⟨hc _ h.1, hc _ h.2⟩
  | casTail x newItem tail n old => exact ⟨hc _ h.1, hc _ h.2⟩
  | casNext x newItem tail => exact hc _ h
  | _ => trivial

theorem Pub.inside_of_not_between {pub : Pub X} {chain : List Int} (h : pub.between = false) :
    pub.Inside chain := by
  cases pub <;> trivial

theorem Pub.Carries.congr {pub : Pub X} (h : pub.Carries c object)
    (he : ∀ p, pub.newItem = some p → object' p = object p) : pub.Carries c object' := by
  intro p hp
  obtain ⟨x, hx, ho⟩ := h p hp
  exact ⟨x, hx, by rw [he p hp, ho]⟩

/-! ## The client's thread -/

/-- The client's thread does something with an item of the list that it goes through. -/
theorem Inv.turn (h : Inv C c s q r) {con : Con} {handed : List X} {r' : List (Entry ι X)}
    (hact : ({ s with con := con } : State ι X).active = s.active)
    (hp : p ∈ C.heads (!s.active) :: (s.con.holding ++ r.map Prod.fst))
    (hkeep : ∀ y, y ≠ p → object y = s.object y)
    (hcon : con.At object (C.heads !s.active) (r'.map Prod.fst))
    (hsub : (con.holding ++ (r' ++ q).map Prod.fst).Sublist
      (s.con.holding ++ (r ++ q).map Prod.fst))
    (hlive : p ∈ C.heads false :: C.heads true :: (con.holding ++ (r' ++ q).map Prod.fst) →
      (object p).isSome)
    (hdata : ∀ e ∈ r', ∃ n, object e.1 = some ⟨some (c.serialize e.2.2), n⟩)
    (hhanded : ∃ done, s.linked = done ++ (r' ++ q).map Prod.snd ∧ handed = done.map Prod.snd) :
    Inv C c { s with con := con, object := object, handed := handed } q r' := by
  have hact' : ({ s with con := con, object := object, handed := handed } : State ι X).active =
      s.active := hact
  have hactive : ∀ y ∈ C.heads s.active :: q.map Prod.fst, object y = s.object y := by
    intro y hy
    refine hkeep y ?_
    rintro rfl
    exact h.lists_apart hp hy
  have hsub' := (hsub.cons_cons (C.heads true)).cons_cons (C.heads false)
  refine ⟨?_, ?_, List.Nodup.sublist hsub' h.nodup, fun y hy =>
    ⟨(h.live y (hsub'.subset hy)).1, ?_⟩,
    fun e he => ?_, ?_, ?_, fun i => (h.carries i).congr fun y hy => hkeep y ?_, fun i y hy => ?_,
    h.apart, h.faultless, hhanded⟩
  · rw [hact']
    exact spine_congr h.spine hactive
  · rw [hact']
    exact hcon
  · by_cases e : y = p
    · subst e
      exact hlive hy
    · show (object y).isSome
      rw [hkeep y e]
      exact (h.live y (hsub'.subset hy)).2
  · rcases List.mem_append.mp he with he | he
    · exact hdata e he
    · obtain ⟨n, hn⟩ := h.data e (List.mem_append_right _ he)
      exact ⟨n, (hactive e.1 (List.mem_cons_of_mem _ (List.mem_map.mpr ⟨e, he, rfl⟩))).trans hn⟩
  · rw [hact']
    exact h.tail
  · rw [hact']
    exact h.inside
  · rintro rfl
    exact (h.unlinked i y hy).2 (mem_used_retired hp)
  · exact ⟨(h.unlinked i y hy).1, fun hu => (h.unlinked i y hy).2 (hsub'.subset hu)⟩

/-- The client's thread goes on without touching an item. -/
theorem Inv.look (h : Inv C c s q r) {con : Con}
    (hact : ({ s with con := con } : State ι X).active = s.active)
    (hcon : con.At s.object (C.heads !s.active) (r.map Prod.fst))
    (hhold : con.holding = s.con.holding) : Inv C c { s with con := con } q r := by
  refine h.turn (p := C.heads !s.active) hact (by simp) (fun _ _ => rfl) hcon (by rw [hhold]) ?_
    (fun e he => h.data e (List.mem_append_left _ he)) h.handed
  intro _
  exact (h.live _ (mem_used_head _)).2

/-- How far the client's thread is from having handed over everything. -/
def rank (s : State ι X) (q r : List (Entry ι X)) : Nat :=
  let rest := if q.isEmpty then 0 else 3 * q.length + 10
  match s.con with
  | .watching => rest
  | .loadTail => 3 * q.length + 5
  | .casTail oldV => 3 * q.length + if s.tail = oldV then 4 else 6
  | .first => 3 * r.length + 3 + rest
  | .handle _ => 3 * r.length + 2 + rest
  | .loadNext _ => 3 * r.length + 4 + rest
  | .free _ _ => 3 * r.length + 3 + rest
  | .reset => 1 + rest

/-- One step of the client's thread keeps the invariant and gets it closer to its end. -/
def Advances (C : Client) (c : Codec X) (s : State ι X) (q r : List (Entry ι X)) : Prop :=
  ∃ q' r', Inv C c (consume C c s) q' r' ∧
    (rank (consume C c s) q' r' < rank s q r ∨ s.con = .watching ∧ q = [])

theorem Inv.consume_watching (h : Inv C c s q r)
    (hc : s.con = .watching) : Advances C c s q r := by
  have hcon := h.con
  have hact : s.active = s.headIdx := by simp [State.active, hc]
  obtain ⟨it, hit⟩ := Option.isSome_iff_exists.mp (h.live _ (mem_used_head s.headIdx)).2
  by_cases hn : it.next = 0
  · have hq : q = [] := by
      have := h.spine.unique (m := []) (by rw [hact]; simp [Spine, next_of_object hit, hn])
      exact List.map_eq_nil_iff.mp this
    refine ⟨q, r, ?_, Or.inr ⟨hc, hq⟩⟩
    simp only [consume, hc, hit, hn, if_true]
    exact h
  · have hq : q ≠ [] := by
      rintro rfl
      have h0 := h.spine
      rw [hact] at h0
      simp [Spine, next_of_object hit, hn] at h0
    have hact' : ({ s with con := .loadTail, headIdx := !s.headIdx } : State ι X).active =
        s.active := by simp [State.active, hc]
    refine ⟨q, r, ?_, Or.inl ?_⟩
    · simp only [consume, hc, hit, hn, if_false]
      have hholding : Con.holding .loadTail = s.con.holding := by rw [hc]; rfl
      refine ⟨by rw [hact']; exact h.spine, ?_, ?_, ?_, h.data, by rw [hact']; exact h.tail,
        by rw [hact']; exact h.inside, h.carries, ?_, h.apart, h.faultless, h.handed⟩
      · rw [hact']
        rw [hc] at hcon
        exact hcon
      · simpa only [State.used, hholding] using h.nodup
      · simpa only [State.used, hholding] using h.live
      · simpa only [State.used, hholding] using h.unlinked
    · simp [consume, rank, hc, hit, hn, hq]

theorem Inv.consume_loadTail (h : Inv C c s q r)
    (hc : s.con = .loadTail) : Advances C c s q r := by
  have hcon := h.con
  rw [hc] at hcon
  refine ⟨q, r, ?_, Or.inl ?_⟩
  · simp only [consume, hc]
    exact h.look (by simp [State.active, hc]) hcon (by rw [hc]; rfl)
  · simp [consume, rank, hc]

theorem Inv.consume_casTail (h : Inv C c s q r) {oldV : Int} (hg : Undisturbed s .consume)
    (hc : s.con = .casTail oldV) : Advances C c s q r := by
  have hcon := h.con
  rw [hc] at hcon
  obtain ⟨hr, hnext⟩ := hcon
  obtain rfl : r = [] := List.map_eq_nil_iff.mp hr
  have hact : s.active = !s.headIdx := by simp [State.active, hc]
  by_cases ht : s.tail = oldV
  · -- the lists change places: what publishers have linked is now to be handed over
    have hcalm := hg oldV rfl hc ht
    have hact' : ({ s with tail := C.heads s.headIdx, con := .first } : State ι X).active =
        s.headIdx := rfl
    have hused : ({ s with tail := C.heads s.headIdx, con := .first } : State ι X).used C [] q =
        s.used C q [] := by simp [State.used, hc, Con.holding]
    refine ⟨[], q, ?_, Or.inl ?_⟩
    · simp only [consume, hc, ht, if_true]
      subst ht
      refine ⟨?_, ?_, hused ▸ h.nodup, hused ▸ h.live, by simpa using h.data, by simp [hact'],
        fun i => Pub.inside_of_not_between (hcalm i), h.carries, hused ▸ h.unlinked, h.apart,
        h.faultless, by simpa using h.handed⟩
      · rw [hact'] 
        rw [hact, Bool.not_not] at hnext
        exact hnext
      · rw [hact', ← hact]
        exact h.spine
    · simp [consume, rank, hc, ht]
  · refine ⟨q, [], ?_, Or.inl ?_⟩
    · simp only [consume, hc, ht, if_false]
      exact h.look (by simp [State.active, hc]) ⟨rfl, hnext⟩ (by rw [hc]; rfl)
    · simp [consume, rank, hc, ht]

theorem Inv.consume_first (h : Inv C c s q r)
    (hc : s.con = .first) : Advances C c s q r := by
  have hcon := h.con
  rw [hc] at hcon
  have hact : s.active = s.headIdx := by simp [State.active, hc]
  obtain ⟨it, hit⟩ := Option.isSome_iff_exists.mp (h.live _ (mem_used_head (!s.headIdx))).2
  have hspine : Spine (next s.object) (C.heads !s.headIdx) (r.map Prod.fst) := hact ▸ hcon
  by_cases hn : it.next = 0
  · obtain rfl : r = [] := List.map_eq_nil_iff.mp
      (hspine.unique (m := []) (by simp [Spine, next_of_object hit, hn]))
    refine ⟨q, [], ?_, Or.inl ?_⟩
    · simp only [consume, hc, hit, hn, if_true]
      exact h.look (by simp [State.active, hc]) rfl (by rw [hc]; rfl)
    · simp [consume, rank, hc, hit, hn]
  · cases r with
    | nil => simp [Spine, next_of_object hit, hn] at hspine
    | cons e rest =>
        have he : e.1 = it.next := by
          have h1 := hspine.1
          rw [next_of_object hit, if_neg hn] at h1
          exact (Option.some.inj h1).symm
        refine ⟨q, e :: rest, ?_, Or.inl ?_⟩
        · simp only [consume, hc, hit, hn, if_false]
          refine h.look (by simp [State.active, hc]) ⟨rest.map Prod.fst, ?_, ?_⟩
            (by rw [hc]; rfl)
          · rw [List.map_cons, he]
          · rw [← he]; exact hspine.2
        · simp [consume, rank, hc, hit, hn]

theorem Inv.consume_handle (h : Inv C c s q r) {p : Int}
    (hc : s.con = .handle p) : Advances C c s q r := by
  have hcon := h.con
  rw [hc] at hcon
  obtain ⟨rest', hr, hspine⟩ := hcon
  obtain ⟨e, rest, rfl, he, rfl⟩ : ∃ e rest, r = e :: rest ∧ e.1 = p ∧
      rest.map Prod.fst = rest' := by
    cases r with
    | nil => cases hr
    | cons e rest => exact ⟨e, rest, rfl, (List.cons.inj hr).1, (List.cons.inj hr).2⟩
  obtain ⟨n, hobj⟩ := h.data e (by simp)
  rw [he] at hobj
  obtain ⟨done, hd, hh⟩ := h.handed
  have hold : Con.holding (.loadNext p) = [p] := rfl
  have hnd := h.nodup
  simp only [State.used, hc, Con.holding, List.nil_append, List.cons_append, List.map_cons,
    he] at hnd
  have hnd' := List.nodup_cons.mp (List.nodup_cons.mp (List.nodup_cons.mp hnd).2).2
  have hprest : ∀ x ∈ rest, x.1 ≠ p := by
    intro x hx hxp
    refine hnd'.1 (List.mem_map.mpr ⟨x, List.mem_append_left _ hx, hxp⟩)
  refine ⟨q, rest, ?_, Or.inl ?_⟩
  · simp only [consume, hc, hobj, c.parse_serialize, Option.toList_some]
    refine h.turn (p := p) (by simp [State.active, hc]) (by simp [hc, Con.holding, he])
      (fun y hy => Function.update_of_ne hy _ _) ?_ (by simp [hc, Con.holding, he]) ?_ ?_ ?_
    · refine hspine.congr fun x hx => ?_
      by_cases e' : x = p
      · subst e'
        rw [next_of_object (Function.update_self _ _ _), next_of_object hobj]
      · exact next_congr (Function.update_of_ne e' _ _)
    · intro _
      rw [Function.update_self]; rfl
    · intro x hx
      obtain ⟨n', hn'⟩ := h.data x (by simp [hx])
      exact ⟨n', (Function.update_of_ne (hprest x hx) _ _).trans hn'⟩
    · exact ⟨done ++ [e.2], by simpa using hd, by simp [hh]⟩
  · simp [consume, rank, hc, hobj]
    omega

theorem Inv.consume_loadNext (h : Inv C c s q r) {p : Int}
    (hc : s.con = .loadNext p) : Advances C c s q r := by
  have hcon := h.con
  rw [hc] at hcon
  have hp : p ∈ s.used C q r := by simp [State.used, hc, Con.holding]
  obtain ⟨it, hit⟩ := Option.isSome_iff_exists.mp (h.live p hp).2
  refine ⟨q, r, ?_, Or.inl ?_⟩
  · simp only [consume, hc, hit]
    refine h.look (by simp [State.active, hc]) ?_ (by rw [hc]; rfl)
    have hspine : Spine (next s.object) p (r.map Prod.fst) := hcon
    cases r with
    | nil =>
        refine Or.inl ⟨?_, rfl⟩
        by_contra hn
        simp [Spine, next_of_object hit, hn] at hspine
    | cons e rest =>
        have h1 := hspine.1
        rw [next_of_object hit] at h1
        have hn : it.next ≠ 0 := by
          intro hn
          simp [hn] at h1
        rw [if_neg hn] at h1
        rw [Option.some.inj h1]
        exact Or.inr ⟨_, rfl, hspine.2⟩
  · simp [consume, rank, hc, hit]

theorem Inv.consume_free (h : Inv C c s q r) {p : Int} {n : Int}
    (hc : s.con = .free p n) : Advances C c s q r := by
  have hcon := h.con
  rw [hc] at hcon
  have hp : p ∈ s.used C q r := by simp [State.used, hc, Con.holding]
  obtain ⟨it, hit⟩ := Option.isSome_iff_exists.mp (h.live p hp).2
  have hnd := h.nodup
  simp only [State.used, hc, Con.holding, List.cons_append, List.nil_append] at hnd
  have hnd1 := List.nodup_cons.mp hnd
  have hnd2 := List.nodup_cons.mp hnd1.2
  have hnd3 := List.nodup_cons.mp hnd2.2
  have hpr : ∀ x ∈ r.map Prod.fst, x ≠ p := by
    rintro x hx rfl
    exact hnd3.1 (by rw [List.map_append]; exact List.mem_append_left _ hx)
  have hlive : ∀ con : Con, con.holding = [] → p ∈ C.heads false :: C.heads true ::
      (con.holding ++ (r ++ q).map Prod.fst) →
      (Function.update s.object p none p).isSome := by
    intro con hh hm
    rw [hh, List.nil_append] at hm
    rcases List.mem_cons.mp hm with rfl | hm
    · exact absurd (by simp) hnd1.1
    · rcases List.mem_cons.mp hm with rfl | hm
      · exact absurd (by simp) hnd2.1
      · exact absurd hm hnd3.1
  have hdata : ∀ e ∈ r, ∃ n, Function.update s.object p none e.1 =
      some ⟨some (c.serialize e.2.2), n⟩ := by
    intro e he
    obtain ⟨n', hn'⟩ := h.data e (List.mem_append_left _ he)
    exact ⟨n', (Function.update_of_ne
      (hpr e.1 (List.mem_map.mpr ⟨e, he, rfl⟩)) _ _).trans hn'⟩
  refine ⟨q, r, ?_, Or.inl ?_⟩
  · simp only [consume, hc, hit]
    refine h.turn (p := p) ?_ (by simp [hc, Con.holding]) (fun y hy => Function.update_of_ne hy _ _)
      ?_ ?_ ?_ hdata h.handed
    · split <;> simp [State.active, hc]
    · rcases hcon with ⟨hn, hr⟩ | ⟨rest, hr, hspine⟩
      · rw [if_pos hn]
        exact hr
      · have hn : n ≠ 0 := (h.live n (mem_used_retired
          (by rw [hr]; simp))).1
        rw [if_neg hn]
        exact ⟨rest, hr, spine_congr hspine fun x hx =>
          Function.update_of_ne (hpr x (by rw [hr]; exact hx)) _ _⟩
    · split <;> simp [hc, Con.holding]
    · split <;> exact hlive _ rfl
  · rcases hcon with ⟨hn, hr⟩ | ⟨rest, hr, hspine⟩
    · simp [consume, rank, hc, hit, hn]
    · have hn : n ≠ 0 := (h.live n (mem_used_retired (by rw [hr]; simp))).1
      simp [consume, rank, hc, hit, hn]

theorem Inv.consume_reset (h : Inv C c s q r)
    (hc : s.con = .reset) : Advances C c s q r := by
  have hcon := h.con
  rw [hc] at hcon
  have hact : s.active = s.headIdx := by simp [State.active, hc]
  obtain rfl : r = [] := List.map_eq_nil_iff.mp hcon
  obtain ⟨it, hit⟩ := Option.isSome_iff_exists.mp (h.live _ (mem_used_head (!s.headIdx))).2
  refine ⟨q, [], ?_, Or.inl ?_⟩
  · simp only [consume, hc, hit]
    refine h.turn (p := C.heads !s.headIdx) (by simp [State.active, hc]) (by simp [hact])
      (fun y hy => Function.update_of_ne hy _ _) ⟨rfl, ?_⟩ (by simp [hc, Con.holding]) ?_
      (by simp) h.handed
    · rw [hact, next_of_object (Function.update_self _ _ _)]; rfl
    · intro _
      rw [Function.update_self]; rfl
  · simp [consume, rank, hc, hit]

theorem inv_consume (h : Inv C c s q r) (hg : Undisturbed s .consume) : Advances C c s q r := by
  cases hc : s.con with
  | watching => exact h.consume_watching hc
  | loadTail => exact h.consume_loadTail hc
  | casTail oldV => exact h.consume_casTail hg hc
  | first => exact h.consume_first hc
  | handle p => exact h.consume_handle hc
  | loadNext p => exact h.consume_loadNext hc
  | free p n => exact h.consume_free hc
  | reset => exact h.consume_reset hc

theorem consume_frame (C : Client) (c : Codec X) (s : State ι X) :
    (consume C c s).pub = s.pub ∧ (consume C c s).linked = s.linked ∧
      (consume C c s).published = s.published := by
  unfold consume
  split <;> (try split) <;> (try split) <;> exact ⟨rfl, rfl, rfl⟩

/-! ## The publishers -/

variable [DecidableEq ι]

/-- A publisher goes on in the list, with the item it has. -/
theorem Inv.move (h : Inv C c s q r) {i : ι} {pub : Pub X} {tail : Int}
    (htail : tail ∈ C.heads s.active :: q.map Prod.fst)
    (hin : pub.Inside (C.heads s.active :: q.map Prod.fst))
    (hnew : pub.newItem = none ∨
      pub.newItem = (s.pub i).newItem ∧ pub.pending = (s.pub i).pending) :
    Inv C c { s.goto i pub with tail := tail } q r := by
  have hold : ∀ j p, (Function.update s.pub i pub j).newItem = some p →
      (s.pub j).newItem = some p ∧ (Function.update s.pub i pub j).pending = (s.pub j).pending := by
    intro j p hp
    by_cases e : j = i
    · subst e
      rw [Function.update_self] at hp ⊢
      rcases hnew with hnew | ⟨h1, h2⟩
      · rw [hnew] at hp; cases hp
      · exact ⟨h1 ▸ hp, h2⟩
    · rw [Function.update_of_ne e] at hp ⊢
      exact ⟨hp, rfl⟩
  refine ⟨h.spine, h.con, h.nodup, h.live, h.data, htail, fun j => ?_, fun j p hp => ?_,
    fun j p hp => h.unlinked j p (hold j p hp).1,
    fun j k p hj hk => h.apart j k p (hold j p hj).1 (hold k p hk).1, h.faultless, h.handed⟩
  · show (Function.update s.pub i pub j).Inside (C.heads s.active :: q.map Prod.fst)
    by_cases e : j = i
    · subst e
      rw [Function.update_self]; exact hin
    · rw [Function.update_of_ne e]; exact h.inside j
  · obtain ⟨h1, h2⟩ := hold j p hp
    obtain ⟨x, hx, ho⟩ := h.carries j p h1
    exact ⟨x, h2.trans hx, ho⟩

/-- A new item, which only its publisher has. -/
theorem Inv.construct (h : Inv C c s q r) {i : ι} {x : X} {p : Int} {published : ι → List X}
    (hfree : s.object p = none) (hp : p ≠ 0) :
    Inv C c { s.goto i (.loadTail x p) with
      object := Function.update s.object p (some ⟨some (c.serialize x), 0⟩)
      published := published } q r := by
  have hne : ∀ y, (s.object y).isSome → y ≠ p := by
    rintro y hy rfl
    rw [hfree] at hy; cases hy
  have hused : ∀ y ∈ s.used C q r, y ≠ p := fun y hy => hne y (h.live y hy).2
  have hkeep : ∀ y, y ≠ p →
      Function.update s.object p (some ⟨some (c.serialize x), 0⟩) y = s.object y :=
    fun y hy => Function.update_of_ne hy _ _
  have hnew : ∀ j y, (s.pub j).newItem = some y → y ≠ p := by
    intro j y hy
    obtain ⟨x', -, ho⟩ := h.carries j y hy
    exact hne y (by rw [ho]; rfl)
  have hpub : ∀ j y, (Function.update s.pub i (.loadTail x p) j).newItem = some y →
      (j = i ∧ y = p) ∨ (j ≠ i ∧ (s.pub j).newItem = some y) := by
    intro j y hy
    by_cases e : j = i
    · subst e
      rw [Function.update_self] at hy
      exact Or.inl ⟨rfl, (Option.some.inj hy).symm⟩
    · rw [Function.update_of_ne e] at hy
      exact Or.inr ⟨e, hy⟩
  refine ⟨spine_congr h.spine fun y hy => hkeep y (hused y (mem_used_active hy)),
    h.con.congr fun y hy => hkeep y (hused y (mem_used_retired hy)), h.nodup, fun y hy =>
      ⟨(h.live y hy).1, ?_⟩,
    fun e he => ?_, h.tail, fun j => ?_, fun j y hy => ?_, fun j y hy => ?_, fun j k y hj hk => ?_,
    h.faultless, h.handed⟩
  · show (Function.update s.object p _ y).isSome
    rw [hkeep y (hused y hy)]
    exact (h.live y hy).2
  · obtain ⟨n, hn⟩ := h.data e he
    exact ⟨n, (hkeep e.1 (hused _ (mem_used_of_mem he))).trans hn⟩
  · show (Function.update s.pub i (.loadTail x p) j).Inside (C.heads s.active :: q.map Prod.fst)
    by_cases e : j = i
    · subst e
      rw [Function.update_self]; trivial
    · rw [Function.update_of_ne e]; exact h.inside j
  · show ∃ x', (Function.update s.pub i (.loadTail x p) j).pending = [x'] ∧ _
    rcases hpub j y hy with ⟨rfl, rfl⟩ | ⟨e, hy⟩
    · exact ⟨x, by rw [Function.update_self]; rfl, Function.update_self _ _ _⟩
    · obtain ⟨x', h1, h2⟩ := h.carries j y hy
      exact ⟨x', by rw [Function.update_of_ne e]; exact h1, (hkeep y (hnew j y hy)).trans h2⟩
  · rcases hpub j y hy with ⟨-, rfl⟩ | ⟨-, hy⟩
    · exact ⟨hp, fun hu => hused y hu rfl⟩
    · exact h.unlinked j y hy
  · rcases hpub j y hj with ⟨e, ey⟩ | ⟨-, hj'⟩ <;> rcases hpub k y hk with ⟨e', ey'⟩ | ⟨-, hk'⟩
    · exact e.trans e'.symm
    · exact absurd ey (hnew k y hk')
    · exact absurd ey' (hnew j y hj')
    · exact h.apart j k y hj' hk'

/-- A publisher links its item to the last one of the list. -/
theorem Inv.link (h : Inv C c s q r) {i : ι} {x : X} {newItem tail : Int} {it : Item}
    (hpub : s.pub i = .casNext x newItem tail) (hit : s.object tail = some it)
    (hn : it.next = 0) :
    Inv C c { s.goto i .idle with
      object := Function.update s.object tail (some { it with next := newItem })
      linked := s.linked ++ [(i, x)] } (q ++ [(newItem, (i, x))]) r := by
  have hnew : (s.pub i).newItem = some newItem := by rw [hpub]; rfl
  obtain ⟨hn0, hunused⟩ := h.unlinked i newItem hnew
  obtain ⟨x', hx', hobj⟩ := h.carries i newItem hnew
  obtain rfl : x = x' := by rw [hpub] at hx'; exact (List.cons.inj hx').1
  have hin := h.inside i
  rw [hpub] at hin
  have htip : tail = tip (C.heads s.active) (q.map Prod.fst) :=
    h.spine.eq_tip hin (by rw [next_of_object hit, if_pos hn])
  have htused : tail ∈ s.used C q r := mem_used_active hin
  have hkeep : ∀ y, y ≠ tail →
      Function.update s.object tail (some { it with next := newItem }) y = s.object y :=
    fun y hy => Function.update_of_ne hy _ _
  have hne : newItem ≠ tail := fun e => hunused (e ▸ htused)
  have hpubs : ∀ j y, (Function.update s.pub i .idle j).newItem = some y →
      j ≠ i ∧ (s.pub j).newItem = some y := by
    intro j y hy
    by_cases e : j = i
    · subst e
      rw [Function.update_self] at hy; cases hy
    · rw [Function.update_of_ne e] at hy
      exact ⟨e, hy⟩
  have happ : r ++ (q ++ [(newItem, (i, x))]) = (r ++ q) ++ [(newItem, (i, x))] := by simp
  have hfst : (q ++ [(newItem, (i, x))]).map Prod.fst = q.map Prod.fst ++ [newItem] := by simp
  have hused : ∀ y, y ∈ s.used C (q ++ [(newItem, (i, x))]) r ↔ y ∈ s.used C q r ∨ y = newItem := by
    intro y
    simp only [State.used, happ, List.map_append, List.mem_cons, List.mem_append, List.map_cons,
      List.map_nil, List.not_mem_nil, or_false]
    tauto
  refine ⟨?_, h.con.congr fun y hy => hkeep y (fun e => h.lists_apart hy (e ▸ hin)), ?_,
    fun y hy => ?_,
    fun e he => ?_, ?_, fun j => ?_, fun j => ?_, fun j y hy => ?_, fun j k y hj hk => ?_,
    h.faultless, ?_⟩
  · show Spine _ _ _
    rw [hfst]
    refine h.spine.link ?_ ?_ fun y hy hyt => next_congr (hkeep y (htip ▸ hyt))
    · rw [← htip, next_of_object (Function.update_self _ _ _), if_neg hn0]
    · show next _ newItem = none
      rw [next_congr (hkeep newItem hne), next_of_object hobj]; rfl
  · show (s.used C _ r).Nodup
    simp only [State.used, happ, List.map_append, List.map_cons, List.map_nil]
    rw [← List.append_assoc, ← List.cons_append, ← List.cons_append]
    refine List.nodup_append.mpr ⟨by rw [← List.map_append]; exact h.nodup, by simp, ?_⟩
    rintro y hy z hz rfl
    obtain rfl := List.mem_singleton.mp hz
    exact hunused (by rw [State.used, List.map_append]; exact hy)
  · show y ≠ 0 ∧ (Function.update s.object tail _ y).isSome
    by_cases e : y = tail
    · subst e
      rw [Function.update_self]
      exact ⟨(h.live y htused).1, rfl⟩
    · rw [hkeep y e]
      rcases (hused y).mp hy with hy | rfl
      · exact h.live y hy
      · exact ⟨hn0, by rw [hobj]; rfl⟩
  · rw [happ] at he
    show ∃ n, Function.update s.object tail _ e.1 = _
    rcases List.mem_append.mp he with he | he
    · obtain ⟨n, hn'⟩ := h.data e he
      by_cases e' : e.1 = tail
      · rw [e', Function.update_self]
        rw [e', hit] at hn'
        obtain rfl := Option.some.inj hn'
        exact ⟨newItem, rfl⟩
      · exact ⟨n, (hkeep _ e').trans hn'⟩
    · obtain rfl := List.mem_singleton.mp he
      exact ⟨0, (hkeep _ hne).trans hobj⟩
  · show s.tail ∈ _
    rw [hfst]
    exact List.mem_append_left [newItem] h.tail
  · by_cases e : j = i
    · subst e
      simp [State.goto, Pub.Inside]
    · simp only [State.goto, Function.update_of_ne e]
      refine (h.inside j).mono fun y hy => ?_
      rw [hfst]
      exact List.mem_append_left [newItem] hy
  · by_cases e : j = i
    · subst e
      intro y hy
      simp [State.goto, Pub.newItem] at hy
    · simp only [State.goto, Function.update_of_ne e]
      refine (h.carries j).congr fun y hy => hkeep y fun e' => ?_
      exact (h.unlinked j y hy).2 (e' ▸ htused)
  · obtain ⟨e, hy'⟩ := hpubs j y hy
    refine ⟨(h.unlinked j y hy').1, fun hu => ?_⟩
    rcases (hused y).mp hu with hu | ey
    · exact (h.unlinked j y hy').2 hu
    · exact e (h.apart j i y hy' (ey ▸ hnew))
  · exact h.apart j k y (hpubs j y hj).2 (hpubs k y hk).2
  · obtain ⟨done, h1, h2⟩ := h.handed
    refine ⟨done, ?_, h2⟩
    show s.linked ++ [(i, x)] = _
    rw [happ, h1]; simp

theorem inv_advance {i : ι} (h : Inv C c s q r) (hs : advance s i = some s') :
    ∃ q', Inv C c s' q' r := by
  have hin := h.inside i
  have hlive : ∀ {y}, y ∈ C.heads s.active :: q.map Prod.fst → ∃ it, s.object y = some it :=
    fun hy => Option.isSome_iff_exists.mp (h.live _ (mem_used_active hy)).2
  cases hpub : s.pub i with
  | idle => simp [advance, hpub] at hs
  | constructing x => simp [advance, hpub] at hs
  | loadTail x newItem =>
      simp only [advance, hpub, Option.some.injEq] at hs
      subst hs
      exact ⟨q, h.move h.tail h.tail (Or.inr (by rw [hpub]; exact ⟨rfl, rfl⟩))⟩
  | loadNext x newItem tail =>
      rw [hpub] at hin
      obtain ⟨it, hit⟩ := hlive hin
      simp only [advance, hpub, hit, Option.some.injEq] at hs
      subst hs
      split
      · exact ⟨q, h.move h.tail hin (Or.inr (by rw [hpub]; exact ⟨rfl, rfl⟩))⟩
      · rename_i hn
        have hnext : next s.object tail = some it.next := by rw [next_of_object hit, if_neg hn]
        exact ⟨q, h.move h.tail ⟨hin, List.mem_cons_of_mem _ (h.spine.mem_of_next hin hnext)⟩
          (Or.inr (by rw [hpub]; exact ⟨rfl, rfl⟩))⟩
  | loadOld x newItem tail n =>
      rw [hpub] at hin
      simp only [advance, hpub, Option.some.injEq] at hs
      subst hs
      exact ⟨q, h.move h.tail hin (Or.inr (by rw [hpub]; exact ⟨rfl, rfl⟩))⟩
  | casTail x newItem tail n old =>
      rw [hpub] at hin
      simp only [advance, hpub] at hs
      split at hs
      · obtain rfl := Option.some.inj hs
        exact ⟨q, h.move hin.2 hin.2 (Or.inr (by rw [hpub]; exact ⟨rfl, rfl⟩))⟩
      · obtain rfl := Option.some.inj hs
        exact ⟨q, h.move h.tail hin.1 (Or.inr (by rw [hpub]; exact ⟨rfl, rfl⟩))⟩
  | casNext x newItem tail =>
      rw [hpub] at hin
      obtain ⟨it, hit⟩ := hlive hin
      simp only [advance, hpub, hit] at hs
      split at hs
      · rename_i hn
        obtain rfl := Option.some.inj hs
        exact ⟨_, h.link hpub hit hn⟩
      · obtain rfl := Option.some.inj hs
        exact ⟨q, h.move h.tail hin (Or.inr (by rw [hpub]; exact ⟨rfl, rfl⟩))⟩

/-! ## The runs -/

theorem inv_init : Inv C c (machine C c ι).init [] [] := by
  have hnext : ∀ b, next (fresh C) (C.heads b) = none := by
    intro b
    cases b <;> simp [next, fresh]
  refine ⟨hnext false, ⟨rfl, hnext true⟩, ?_, ?_, ?_, by simp [machine, State.active],
    fun _ => trivial, ?_, ?_, ?_, rfl, ⟨[], rfl, rfl⟩⟩
  · simpa [State.used, machine, Con.holding] using C.distinct
  · intro p hp
    have hp' : p = C.heads false ∨ p = C.heads true := by
      simpa [State.used, machine, Con.holding] using hp
    refine ⟨?_, by simp [machine, fresh, hp']⟩
    rcases hp' with rfl | rfl <;> exact C.nonzero _
  · intro e he
    cases he
  · intro i p hp
    cases hp
  · intro i p hp
    cases hp
  · intro i j p hp
    cases hp

theorem inv_step {a : Act ι X} (h : Inv C c s q r) (hg : Undisturbed s a)
    (hs : step C c s a = some s') : ∃ q' r', Inv C c s' q' r' := by
  cases a with
  | publish i x =>
      simp only [step] at hs
      split at hs
      · obtain rfl := Option.some.inj hs
        exact ⟨q, r, h.move h.tail trivial (Or.inl rfl)⟩
      · cases hs
  | construct i p =>
      simp only [step] at hs
      split at hs
      · rename_i x hpub hfree
        split at hs
        · cases hs
        · rename_i hp
          obtain rfl := Option.some.inj hs
          exact ⟨q, r, h.construct hfree hp⟩
      · cases hs
  | noMemory i =>
      simp only [step] at hs
      split at hs
      · obtain rfl := Option.some.inj hs
        exact ⟨q, r, h.move h.tail trivial (Or.inl rfl)⟩
      · cases hs
  | go i =>
      obtain ⟨q', h'⟩ := inv_advance h hs
      exact ⟨q', r, h'⟩
  | consume =>
      obtain rfl := Option.some.inj hs
      obtain ⟨q', r', h', -⟩ := inv_consume h hg
      exact ⟨q', r', h'⟩

/-- A publisher's messages are linked in the order in which it published them. -/
def Ordered (s : State ι X) : Prop :=
  ∀ i, (s.linked.filter (·.1 = i)).map Prod.snd ++ (s.pub i).pending = s.published i

theorem Ordered.goto (h : Ordered s) {i : ι} {b : Pub X}
    (hp : b.pending = (s.pub i).pending) : Ordered (s.goto i b) := by
  intro j
  by_cases e : j = i
  · subst e
    simpa [State.goto, hp] using h j
  · simpa [State.goto, Function.update_of_ne e] using h j

theorem ordered_advance {i : ι} (h : Ordered s) (hs : advance s i = some s') : Ordered s' := by
  cases hpub : s.pub i with
  | idle => simp [advance, hpub] at hs
  | constructing x => simp [advance, hpub] at hs
  | loadTail x newItem =>
      simp only [advance, hpub, Option.some.injEq] at hs
      exact hs ▸ h.goto (by rw [hpub]; rfl)
  | loadNext x newItem tail =>
      simp only [advance, hpub] at hs
      split at hs <;> obtain rfl := Option.some.inj hs
      · exact h
      · refine h.goto ?_
        rw [hpub]
        split <;> rfl
  | loadOld x newItem tail n =>
      simp only [advance, hpub, Option.some.injEq] at hs
      exact hs ▸ h.goto (by rw [hpub]; rfl)
  | casTail x newItem tail n old =>
      simp only [advance, hpub] at hs
      split at hs <;> obtain rfl := Option.some.inj hs
      · exact h.goto (b := .loadNext x newItem n) (by rw [hpub]; rfl)
      · exact h.goto (by rw [hpub]; rfl)
  | casNext x newItem tail =>
      simp only [advance, hpub] at hs
      split at hs
      · obtain rfl := Option.some.inj hs
        exact h
      · split at hs <;> obtain rfl := Option.some.inj hs
        · intro j
          have hj := h j
          by_cases e : j = i
          · subst e
            simpa [State.goto, hpub, Pub.pending] using hj
          · simpa [State.goto, Function.update_of_ne e, Ne.symm e] using hj
        · exact h.goto (by rw [hpub]; rfl)

theorem ordered_step {a : Act ι X} (h : Ordered s) (hs : step C c s a = some s') :
    Ordered s' := by
  cases a with
  | publish i x =>
      simp only [step] at hs
      split at hs
      · rename_i hpub
        obtain rfl := Option.some.inj hs
        exact h.goto (by rw [hpub]; rfl)
      · cases hs
  | construct i p =>
      simp only [step] at hs
      split at hs
      · rename_i x hpub hfree
        split at hs
        · cases hs
        · obtain rfl := Option.some.inj hs
          intro j
          have hj := h j
          by_cases e : j = i
          · subst e
            rw [hpub] at hj
            simp only [Pub.pending, List.append_nil] at hj
            simp [State.goto, Pub.pending, hj]
          · simpa [State.goto, Function.update_of_ne e] using hj
      · cases hs
  | noMemory i =>
      simp only [step] at hs
      split at hs
      · rename_i hpub
        obtain rfl := Option.some.inj hs
        exact h.goto (by rw [hpub]; rfl)
      · cases hs
  | go i => exact ordered_advance h hs
  | consume =>
      obtain rfl := Option.some.inj hs
      obtain ⟨h1, h2, h3⟩ := consume_frame C c s
      intro j
      rw [h1, h2, h3]
      exact h j

/-- The client's thread alone hands over all that has been linked. -/
theorem Inv.drains (h : Inv C c s q r) (hcalm : ∀ i, (s.pub i).between = false) :
    ∃ n, ((machine C c ι).exec s (List.replicate n .consume)).handed = s.linked.map Prod.snd := by
  generalize hm : rank s q r = m
  induction m using Nat.strong_induction_on generalizing s q r with
  | _ m ih =>
      obtain ⟨hpub, hlinked, -⟩ := consume_frame C c s
      obtain ⟨q', r', h', hr | ⟨hc, rfl⟩⟩ := inv_consume h fun _ _ _ _ => hcalm
      · obtain ⟨n, hn⟩ := ih _ (hm ▸ hr) h' (by rw [hpub]; exact hcalm) rfl
        exact ⟨n + 1, hn.trans (by rw [hlinked])⟩
      · refine ⟨0, ?_⟩
        have hcon := h.con
        rw [hc] at hcon
        obtain rfl : r = [] := List.map_eq_nil_iff.mp hcon.1
        obtain ⟨done, hd, hh⟩ := h.handed
        show s.handed = s.linked.map Prod.snd
        rw [hh, hd]; simp

/-- What `publish` has put is handed over, once each and in order. -/
structure Delivered (C : Client) (c : Codec X) (s : State ι X) : Prop where
  /-- Nothing is handed over twice, or out of order. -/
  handed : s.handed <+: s.linked.map Prod.snd
  order : Ordered s
  /-- Nothing is lost: the client's thread, going on alone, hands over all that has been put. -/
  drains : (∀ i, (s.pub i).between = false) →
    ∃ n, ((machine C c ι).exec s (List.replicate n .consume)).handed = s.linked.map Prod.snd
  faultless : s.faulty = false

/--
**Nothing is lost or duplicated**, in every run in which the client turns its tail
only when no publisher is between its load of the tail and the link of its item.
-/
theorem delivered_of_undisturbed (C : Client) (c : Codec X)
    (hr : (machine C c ι).Reach Undisturbed s) : Delivered C c s := by
  obtain ⟨q, r, h⟩ : ∃ q r, Inv C c s q r := by
    refine hr.invariant (I := fun s => ∃ q r, Inv C c s q r) ⟨[], [], inv_init⟩ ?_
    rintro s a s' ⟨q, r, h⟩ hg hs
    exact inv_step h hg hs
  have ho : Ordered s := hr.invariant (fun _ => rfl) fun _ _ _ h _ hs => ordered_step h hs
  refine ⟨?_, ho, fun hcalm => h.drains hcalm, h.faultless⟩
  obtain ⟨done, hd, hh⟩ := h.handed
  rw [hh, hd, List.map_append]
  exact List.prefix_append _ _

/-! ## Two runs -/

/-- A client with its heads at 8 and 16, and messages that are their own bytes. -/
def aClient : Client where
  heads := fun b => if b then 16 else 8
  distinct := by decide
  nonzero := fun b => by cases b <;> decide

def bytes : Codec String := ⟨id, some, fun _ => rfl⟩

/-- One publisher puts a message. -/
def putOne : List (Act Bool String) :=
  [.publish false "a", .construct false 100, .go false, .go false, .go false]

/-- The client finds it, and turns its tail. -/
def turn : List (Act Bool String) := [.consume, .consume, .consume]

theorem putOne_undisturbed :
    (machine aClient bytes Bool).Within Undisturbed (machine aClient bytes Bool).init
      (putOne ++ turn) := by
  refine ⟨undisturbed_of_ne rfl, undisturbed_of_ne rfl, undisturbed_of_ne rfl,
    undisturbed_of_ne rfl, undisturbed_of_ne rfl, undisturbed_of_calm ?_, undisturbed_of_calm ?_,
    undisturbed_of_calm ?_, trivial⟩
  all_goals intro i; cases i <;> rfl

theorem delivered_single :
    ∃ s, (machine aClient bytes Bool).Reach Undisturbed s ∧ s.linked = [(false, "a")] ∧
      Delivered aClient bytes s := by
  have hr := Machine.Reach.init.exec putOne_undisturbed
  exact ⟨_, hr, rfl, delivered_of_undisturbed aClient bytes hr⟩

/-- A second publisher comes to the end of the list, and does not yet link its item. -/
def comeToEnd : List (Act Bool String) :=
  [.publish true "b", .construct true 200, .go true, .go true, .go true, .go true, .go true]

/-- The client reads the end of the list, the publisher links its item, the client releases. -/
def linkTooLate : List (Act Bool String) :=
  turn ++ [.consume, .consume, .consume, .go true, .consume, .consume]

/-- When the client has nothing to do, its thread leaves everything as it is. -/
theorem exec_watching {it : Item} (hc : s.con = .watching)
    (hit : s.object (C.heads s.headIdx) = some it) (hn : it.next = 0) (n : Nat) :
    (machine C c ι).exec s (List.replicate n .consume) = s := by
  induction n with
  | zero => rfl
  | succ n ih =>
      show (machine C c ι).exec (consume C c s) (List.replicate n .consume) = s
      rw [show consume C c s = s by simp [consume, hc, hit, hn]]
      exact ih

/--
The second publisher's message is linked to an item whose `next` the client has
read: it is never handed over.
-/
theorem not_delivered_linkTooLate :
    ∃ s, (machine aClient bytes Bool).Reach (fun _ _ => True) s ∧
      ¬ Delivered aClient bytes s := by
  have hr := (Machine.Reach.init (M := machine aClient bytes Bool)).exec
    (Machine.Within.of_forall (fun _ _ => trivial) _ (putOne ++ comeToEnd ++ linkTooLate))
  refine ⟨_, hr, fun h => ?_⟩
  obtain ⟨n, hn⟩ := h.drains (by intro i; cases i <;> rfl)
  rw [exec_watching rfl rfl rfl n] at hn
  cases hn

end BroadcastQueue
