import Mathlib.Logic.Relation
import TMTransport.Library.Machine
import TMTransport.Library.Pointers

/-!
# The client list of the shared memory broadcast

A client registers by hanging an item at the end of the list. `publish` goes
through the list, marks the clients that are gone as inactive, and then goes
through it again and takes the inactive ones out.

An item's `next` is the distance to the item after it. Each load, store and
compare-exchange is one step, and so is the release of an item. The message lists
of the clients, which `releaseClientData` releases too, are not part of the model.

Taking an item out is safe as long as its own `next` is still the one that the
publisher has loaded, and nobody else is at it. The code sees to neither.
-/

namespace ClientList

open Interleave Pointers

/-- `SharedMemoryBroadcastClientListItem` -/
structure Item where
  active : Bool
  next : Int
  deriving DecidableEq

/-- Where a process is, in the registration or in `publish`: before which operation. -/
inductive Pc where
  | idle
  /-- The client's item is about to be constructed. -/
  | constructing
  /-- Registration: `p->next.load()` -/
  | seekEnd (clientItem p : Int)
  /-- The compare-exchange of `p->next`. -/
  | register (clientItem p : Int)
  /-- `publish`: `clientListHead_->next.load() == 0` -/
  | start
  /-- The first pass: `p->next.load()` -/
  | scan (p : Int) (hasInactive : Bool)
  /-- `p->active.load()` -/
  | checkActive (p : Int) (hasInactive : Bool)
  /-- The client's record and its heartbeat are looked at. -/
  | checkRecord (p : Int) (hasInactive : Bool)
  /-- `p->active.store(false)` -/
  | mark (p : Int)
  /-- The second pass: `p->next.load()`, at the head -/
  | second
  /-- `q->active.load()` -/
  | checkQ (p q : Int)
  /-- `q` is active: `q->next.load()` -/
  | pass (p q : Int)
  /-- `q` is not: `p->next.load()` -/
  | loadP (p q : Int)
  | loadQ (p q pNext : Int)
  /-- The compare-exchange of `p->next`. -/
  | unlink (p q pNext qNext : Int)
  /-- `releaseClientData(oldQ)` -/
  | release (p oldQ qNext : Int)
  deriving DecidableEq

structure State (ι : Type) where
  object : Int → Option Item
  pc : ι → Pc
  /-- The items that have been registered, and not been marked. -/
  members : List Int
  /-- An item has been used, or released, that was not there. -/
  faulty : Bool

inductive Act (ι : Type) where
  | connect (t : ι)
  /-- The item is constructed at a place that the segment's allocator chooses. -/
  | construct (t : ι) (p : Int)
  | publish (t : ι)
  /-- Is the client's record there, with a heartbeat that is not too old? -/
  | record (t : ι) (fine : Bool)
  | go (t : ι)

variable {ι : Type}

/-- The item after `p`. -/
def next (object : Int → Option Item) (p : Int) : Option Int :=
  (object p).bind fun it => if it.next = 0 then none else some (p + it.next)

section Step

variable [DecidableEq ι] (head : Int)

def State.goto (s : State ι) (t : ι) (pc : Pc) : State ι :=
  { s with pc := Function.update s.pc t pc }

def State.fault (s : State ι) (t : ι) : State ι := { s.goto t .idle with faulty := true }

def State.put (s : State ι) (p : Int) (it : Option Item) : State ι :=
  { s with object := Function.update s.object p it }

/-- One atomic operation of a process, at an item that it looks at. -/
def look (s : State ι) (t : ι) (p : Int) (k : Item → State ι) : State ι :=
  match s.object p with
  | none => s.fault t
  | some it => k it

def advance (s : State ι) (t : ι) : Option (State ι) :=
  match s.pc t with
  | .idle => none
  | .constructing => none
  | .seekEnd clientItem p => some (look s t p fun it => s.goto t
      (if it.next = 0 then .register clientItem p else .seekEnd clientItem (p + it.next)))
  | .register clientItem p => some (look s t p fun it =>
      if it.next = 0 then
        { (s.put p (some { it with next := clientItem - p })).goto t .idle with
          members := clientItem :: s.members }
      else s.goto t (.seekEnd clientItem p))
  | .start => some (look s t head fun it =>
      s.goto t (if it.next = 0 then .idle else .scan head false))
  | .scan p hasInactive => some (look s t p fun it => s.goto t
      (if it.next = 0 then (if hasInactive then .second else .idle)
       else .checkActive (p + it.next) hasInactive))
  | .checkActive p hasInactive => some (look s t p fun it => s.goto t
      (if it.active then .checkRecord p hasInactive else .scan p true))
  | .checkRecord _ _ => none
  | .mark p => some (look s t p fun it =>
      { (s.put p (some { it with active := false })).goto t (.scan p true) with
        members := s.members.filter (· ≠ p) })
  | .second => some (look s t head fun it =>
      s.goto t (if it.next = 0 then .idle else .checkQ head (head + it.next)))
  | .checkQ p q => some (look s t q fun it =>
      s.goto t (if it.active then .pass p q else .loadP p q))
  | .pass _ q => some (look s t q fun it =>
      s.goto t (if it.next = 0 then .idle else .checkQ q (q + it.next)))
  | .loadP p q => some (look s t p fun it => s.goto t (.loadQ p q it.next))
  | .loadQ p q pNext => some (look s t q fun it => s.goto t (.unlink p q pNext it.next))
  | .unlink p q pNext qNext => some (look s t p fun it =>
      if it.next = pNext then
        (s.put p (some { it with next := if qNext = 0 then 0 else pNext + qNext })).goto t
          (.release p q qNext)
      else s.goto t .idle)
  | .release p oldQ qNext => some (look s t oldQ fun _ =>
      (s.put oldQ none).goto t (if qNext = 0 then .idle else .checkQ p (oldQ + qNext)))

def step (s : State ι) : Act ι → Option (State ι)
  | .connect t =>
    match s.pc t with
    | .idle => some (s.goto t .constructing)
    | _ => none
  | .construct t p =>
    match s.pc t, s.object p with
    | .constructing, none => some ((s.put p (some ⟨true, 0⟩)).goto t (.seekEnd p head))
    | _, _ => none
  | .publish t =>
    match s.pc t with
    | .idle => some (s.goto t .start)
    | _ => none
  | .record t fine =>
    match s.pc t with
    | .checkRecord p hasInactive => some (s.goto t (if fine then .scan p hasInactive else .mark p))
    | _ => none
  | .go t => advance head s t

/-- The list of no clients. -/
def machine (ι : Type) [DecidableEq ι] (head : Int) : Machine (State ι) (Act ι) where
  init := ⟨fun p => if p = head then some ⟨true, 0⟩ else none, fun _ => .idle, [], false⟩
  step := step head

end Step

/-- The items of the list that a process is at. -/
def Pc.cursors : Pc → List Int
  | .seekEnd _ p => [p]
  | .register _ p => [p]
  | .scan p _ => [p]
  | .checkActive p _ => [p]
  | .checkRecord p _ => [p]
  | .mark p => [p]
  | .checkQ p q => [p, q]
  | .pass p q => [p, q]
  | .loadP p q => [p, q]
  | .loadQ p q _ => [p, q]
  | .unlink p q _ _ => [p, q]
  | .release p oldQ qNext => if qNext = 0 then [p] else [p, oldQ + qNext]
  | _ => []

/--
An item is taken out only when its `next` is still the one loaded, and no other
process is at it.
-/
def CleanUnlinks (s : State ι) (a : Act ι) : Prop :=
  ∀ t p q pNext qNext it, a = .go t → s.pc t = .unlink p q pNext qNext →
    s.object p = some it → it.next = pNext →
      (∃ active, s.object q = some ⟨active, qNext⟩) ∧ ∀ t', t' ≠ t → q ∉ (s.pc t').cursors

/-- Following `next` from the head comes to `p`. -/
def Reachable (head : Int) (s : State ι) (p : Int) : Prop :=
  Relation.ReflTransGen (fun a b => next s.object a = some b) head p

structure Membership (head : Int) (s : State ι) : Prop where
  /-- Who has registered and has not been marked inactive is on the list. -/
  members : ∀ p ∈ s.members, Reachable head s p
  /-- What is on the list is there. -/
  allocated : ∀ p, Reachable head s p → (s.object p).isSome
  /-- Nothing is released twice, nor used after it has been released. -/
  faultless : s.faulty = false

/-! ## The invariant -/

/-- The two neighbouring items that a publisher is at, in its second pass. -/
def Pc.pair : Pc → Option (Int × Int)
  | .checkQ p q => some (p, q)
  | .pass p q => some (p, q)
  | .loadP p q => some (p, q)
  | .loadQ p q _ => some (p, q)
  | .unlink p q _ _ => some (p, q)
  | .release p oldQ qNext => if qNext = 0 then none else some (p, oldQ + qNext)
  | _ => none

/-- The item that a publisher has found inactive. -/
def Pc.inactive : Pc → Option Int
  | .loadP _ q => some q
  | .loadQ _ q _ => some q
  | .unlink _ q _ _ => some q
  | _ => none

/-- The item that only this process has: a new one, or one it has taken out. -/
def Pc.own : Pc → Option Int
  | .seekEnd clientItem _ => some clientItem
  | .register clientItem _ => some clientItem
  | .release _ oldQ _ => some oldQ
  | _ => none

/-- The item that a client is about to register. -/
def Pc.newItem : Pc → Option Int
  | .seekEnd clientItem _ => some clientItem
  | .register clientItem _ => some clientItem
  | _ => none

/-- What holds of a process and the items that it has to do with. -/
structure Pc.Ok (object : Int → Option Item) (chain : List Int) (pc : Pc) : Prop where
  cursors : ∀ p ∈ pc.cursors, p ∈ chain
  pair : ∀ p q, pc.pair = some (p, q) → next object p = some q
  inactive : ∀ q, pc.inactive = some q → ∃ n, object q = some ⟨false, n⟩
  own : ∀ p, pc.own = some p → p ∉ chain ∧ (object p).isSome
  newItem : ∀ p, pc.newItem = some p → object p = some ⟨true, 0⟩

structure Inv (head : Int) (s : State ι) (l : List Int) : Prop where
  spine : Spine (next s.object) head l
  live : ∀ p ∈ head :: l, (s.object p).isSome
  members : ∀ p ∈ s.members, p ∈ l ∧ ∃ n, s.object p = some ⟨true, n⟩
  pcs : ∀ t, (s.pc t).Ok s.object (head :: l)
  apart : ∀ t t' p, (s.pc t).own = some p → (s.pc t').own = some p → t = t'
  faultless : s.faulty = false

variable {head : Int} {s s' : State ι} {l : List Int} {object' : Int → Option Item} {p q : Int}

theorem next_of_object {it : Item} (h : s.object p = some it) :
    next s.object p = if it.next = 0 then none else some (p + it.next) := by
  simp [next, h]

theorem next_congr (h : object' p = s.object p) : next object' p = next s.object p := by
  simp [next, h]

theorem reachable_iff (h : Spine (next s.object) head l) : Reachable head s p ↔ p ∈ head :: l := by
  constructor
  · intro hr
    induction hr with
    | refl => exact List.mem_cons_self
    | tail _ hn ih => exact List.mem_cons_of_mem _ (h.mem_of_next ih hn)
  · intro hp
    induction l generalizing head with
    | nil =>
        obtain rfl := List.mem_singleton.mp hp
        exact .refl
    | cons b l ih =>
        rcases List.mem_cons.mp hp with rfl | hp
        · exact .refl
        · exact Relation.ReflTransGen.head h.1 (ih h.2 hp)

theorem Inv.membership (h : Inv head s l) : Membership head s where
  members := fun p hp => (reachable_iff h.spine).mpr (List.mem_cons_of_mem _ (h.members p hp).1)
  allocated := fun p hp => h.live p ((reachable_iff h.spine).mp hp)
  faultless := h.faultless

/-! ## The steps -/

theorem Pc.cursors_of_pair {pc : Pc} (h : pc.pair = some (p, q)) :
    p ∈ pc.cursors ∧ q ∈ pc.cursors := by
  cases pc with
  | release p' oldQ qNext =>
      by_cases hn : qNext = 0
      · simp [Pc.pair, hn] at h
      · simp only [Pc.pair, if_neg hn, Option.some.injEq, Prod.mk.injEq] at h
        obtain ⟨rfl, rfl⟩ := h
        simp [Pc.cursors, hn]
  | _ => simp_all [Pc.pair, Pc.cursors]

theorem Pc.cursor_of_inactive {pc : Pc} (h : pc.inactive = some q) : q ∈ pc.cursors := by
  cases pc <;> simp_all [Pc.inactive, Pc.cursors]

theorem Pc.own_of_newItem {pc : Pc} (h : pc.newItem = some p) : pc.own = some p := by
  cases pc <;> simp_all [Pc.newItem, Pc.own]

/-- A process is as it was when the items that it has to do with are. -/
theorem Pc.Ok.congr {pc : Pc} {object : Int → Option Item} {chain chain' : List Int}
    (h : pc.Ok object chain)
    (hcur : ∀ x ∈ pc.cursors, x ∈ chain')
    (hpair : ∀ x y, pc.pair = some (x, y) → next object' x = next object x)
    (hinactive : ∀ x n, pc.inactive = some x → object x = some ⟨false, n⟩ →
      ∃ n', object' x = some ⟨false, n'⟩)
    (hown : ∀ x, pc.own = some x → x ∉ chain' ∧ object' x = object x) : pc.Ok object' chain' where
  cursors := hcur
  pair := fun x y hp => (hpair x y hp).trans (h.pair x y hp)
  inactive := fun x hx => by
    obtain ⟨n, hn⟩ := h.inactive x hx
    exact hinactive x n hx hn
  own := fun x hx => ⟨(hown x hx).1, by rw [(hown x hx).2]; exact (h.own x hx).2⟩
  newItem := fun x hx => by rw [(hown x (Pc.own_of_newItem hx)).2]; exact h.newItem x hx

variable [DecidableEq ι]

/-- A process goes on without changing an item. -/
theorem Inv.goto (h : Inv head s l) {t : ι} {pc : Pc} (hok : pc.Ok s.object (head :: l))
    (hown : pc.own = none ∨ pc.own = (s.pc t).own) : Inv head (s.goto t pc) l := by
  have hold : ∀ t' p, (Function.update s.pc t pc t').own = some p → (s.pc t').own = some p := by
    intro t' p hp
    by_cases e : t' = t
    · subst e
      rw [Function.update_self] at hp
      rcases hown with h1 | h1
      · rw [h1] at hp; cases hp
      · rw [← h1]; exact hp
    · rwa [Function.update_of_ne e] at hp
  refine ⟨h.spine, h.live, h.members, fun t' => ?_,
    fun t₁ t₂ p h₁ h₂ => h.apart t₁ t₂ p (hold t₁ p h₁) (hold t₂ p h₂), h.faultless⟩
  by_cases e : t' = t
  · subst e
    simpa [State.goto] using hok
  · simpa [State.goto, Function.update_of_ne e] using h.pcs t'

omit [DecidableEq ι] in
theorem Inv.live_of_cursor (h : Inv head s l) {t : ι} (hp : p ∈ (s.pc t).cursors) :
    ∃ it, s.object p = some it :=
  Option.isSome_iff_exists.mp (h.live p ((h.pcs t).cursors p hp))

/-- The new item, where the allocator has put it. -/
theorem Inv.construct (h : Inv head s l) {t : ι} (hfree : s.object p = none) :
    Inv head ((s.put p (some ⟨true, 0⟩)).goto t (.seekEnd p head)) l := by
  have hne : ∀ x, (s.object x).isSome → x ≠ p := by
    rintro x hx rfl
    rw [hfree] at hx; cases hx
  have hkeep : ∀ x, (s.object x).isSome →
      Function.update s.object p (some ⟨true, 0⟩) x = s.object x :=
    fun x hx => Function.update_of_ne (hne x hx) _ _
  have hpl : p ∉ head :: l := fun hp => hne p (h.live p hp) rfl
  have hownne : ∀ t' x, (s.pc t').own = some x → x ≠ p := fun t' x hx =>
    hne x ((h.pcs t').own x hx).2
  have hpcs : ∀ t' x, (Function.update s.pc t (.seekEnd p head) t').own = some x →
      (t' = t ∧ x = p) ∨ (t' ≠ t ∧ (s.pc t').own = some x) := by
    intro t' x hx
    by_cases e : t' = t
    · subst e
      rw [Function.update_self] at hx
      exact Or.inl ⟨rfl, (Option.some.inj hx).symm⟩
    · rw [Function.update_of_ne e] at hx
      exact Or.inr ⟨e, hx⟩
  refine ⟨h.spine.congr fun x hx => next_congr (hkeep x (h.live x hx)), fun x hx => ?_,
    fun x hx => ?_, fun t' => ?_, fun t₁ t₂ x h₁ h₂ => ?_, h.faultless⟩
  · show (Function.update s.object p _ x).isSome
    rw [hkeep x (h.live x hx)]
    exact h.live x hx
  · obtain ⟨h1, n, h2⟩ := h.members x hx
    exact ⟨h1, n, (hkeep x (by rw [h2]; rfl)).trans h2⟩
  · by_cases e : t' = t
    · subst e
      simp only [State.goto, Function.update_self]
      refine ⟨by simp [Pc.cursors], by simp [Pc.pair], by simp [Pc.inactive], ?_, ?_⟩
      · rintro x ⟨⟩
        exact ⟨hpl, by simp [State.put]⟩
      · rintro x ⟨⟩
        exact Function.update_self _ _ _
    · simp only [State.goto, Function.update_of_ne e]
      have hok := h.pcs t'
      exact hok.congr hok.cursors
        (fun x y hp => next_congr (hkeep x (h.live x (hok.cursors x (Pc.cursors_of_pair hp).1))))
        (fun x n hx hn => ⟨n, (hkeep x (by rw [hn]; rfl)).trans hn⟩)
        (fun x hx => ⟨(hok.own x hx).1, hkeep x (hok.own x hx).2⟩)
  · rcases hpcs t₁ x h₁ with ⟨e, ex⟩ | ⟨-, h₁'⟩ <;> rcases hpcs t₂ x h₂ with ⟨e', ex'⟩ | ⟨-, h₂'⟩
    · exact e.trans e'.symm
    · exact absurd ex (hownne t₂ x h₂')
    · exact absurd ex' (hownne t₁ x h₁')
    · exact h.apart t₁ t₂ x h₁' h₂'

/-- A client hangs its item at the end of the list. -/
theorem Inv.register (h : Inv head s l) {t : ι} {clientItem : Int} {it : Item}
    (hpc : s.pc t = .register clientItem p) (hit : s.object p = some it) (hn : it.next = 0) :
    Inv head { (s.put p (some { it with next := clientItem - p })).goto t .idle with
      members := clientItem :: s.members } (l ++ [clientItem]) := by
  have hok := h.pcs t
  rw [hpc] at hok
  obtain ⟨hnew, hlive⟩ := hok.own clientItem rfl
  have hobj := hok.newItem clientItem rfl
  have hp : p ∈ head :: l := hok.cursors p (by simp [Pc.cursors])
  have hnext : next s.object p = none := by rw [next_of_object hit, if_pos hn]
  have hne : clientItem ≠ p := by
    rintro rfl
    exact hnew hp
  have hkeep : ∀ x, x ≠ p →
      Function.update s.object p (some { it with next := clientItem - p }) x = s.object x :=
    fun x hx => Function.update_of_ne hx _ _
  have hdiff : clientItem - p ≠ 0 := by omega
  have hlink : next (Function.update s.object p (some { it with next := clientItem - p })) p =
      some clientItem := by
    simp only [next, Function.update_self, Option.bind_some, if_neg hdiff, Option.some.injEq]
    omega
  have htip := h.spine.eq_tip hp hnext
  have hactive : ∀ x b n, s.object x = some ⟨b, n⟩ → ∃ n',
      Function.update s.object p (some { it with next := clientItem - p }) x = some ⟨b, n'⟩ := by
    intro x b n hx
    by_cases e : x = p
    · subst e
      obtain rfl := Option.some.inj (hx.symm.trans hit)
      exact ⟨_, Function.update_self _ _ _⟩
    · exact ⟨n, (hkeep x e).trans hx⟩
  have hgrow : ∀ x, x ∈ head :: (l ++ [clientItem]) ↔ x ∈ head :: l ∨ x = clientItem := by
    intro x
    simp [or_assoc]
  refine ⟨?_, fun x hx => ?_, fun x hx => ?_, fun t' => ?_, fun t₁ t₂ x h₁ h₂ => ?_, h.faultless⟩
  · refine h.spine.link (htip ▸ hlink) ?_ fun x hx hxt => next_congr (hkeep x (htip ▸ hxt))
    exact (next_congr (hkeep clientItem hne)).trans (by rw [next_of_object hobj]; rfl)
  · show (Function.update s.object p _ x).isSome
    by_cases e : x = p
    · subst e; rw [Function.update_self]; rfl
    · rw [hkeep x e]
      rcases (hgrow x).mp hx with hx | rfl
      · exact h.live x hx
      · exact hlive
  · rcases List.mem_cons.mp hx with rfl | hx
    · exact ⟨by simp, 0, (hkeep _ hne).trans hobj⟩
    · obtain ⟨h1, n, h2⟩ := h.members x hx
      exact ⟨List.mem_append_left _ h1, hactive x true n h2⟩
  · by_cases e : t' = t
    · subst e
      simp only [State.goto, Function.update_self]
      exact ⟨by simp [Pc.cursors], by simp [Pc.pair], by simp [Pc.inactive], by simp [Pc.own],
        by simp [Pc.newItem]⟩
    · simp only [State.goto, Function.update_of_ne e]
      have hok' := h.pcs t'
      refine hok'.congr (fun x hx => (hgrow x).mpr (Or.inl (hok'.cursors x hx))) (fun x y hxy => ?_)
        (fun x n _ hn => hactive x false n hn) (fun x hx => ⟨fun hm => ?_, hkeep x ?_⟩)
      · refine next_congr (hkeep x ?_)
        rintro rfl
        exact absurd (hnext.symm.trans (hok'.pair _ _ hxy)) (by simp)
      · rcases (hgrow x).mp hm with hm | rfl
        · exact (hok'.own x hx).1 hm
        · exact e (h.apart t' t _ hx (by rw [hpc]; rfl))
      · rintro rfl
        exact (hok'.own _ hx).1 hp
  · have hold : ∀ t', (Function.update s.pc t .idle t').own = some x → (s.pc t').own = some x := by
      intro t' ht'
      by_cases e : t' = t
      · subst e; rw [Function.update_self] at ht'; cases ht'
      · rwa [Function.update_of_ne e] at ht'
    exact h.apart t₁ t₂ x (hold t₁ h₁) (hold t₂ h₂)

/-- A client is found to be gone. -/
theorem Inv.mark (h : Inv head s l) {t : ι} {it : Item} (hpc : s.pc t = .mark p)
    (hit : s.object p = some it) :
    Inv head { (s.put p (some { it with active := false })).goto t (.scan p true) with
      members := s.members.filter (· ≠ p) } l := by
  have hok := h.pcs t
  rw [hpc] at hok
  have hp : p ∈ head :: l := hok.cursors p (by simp [Pc.cursors])
  have hkeep : ∀ x, x ≠ p →
      Function.update s.object p (some { it with active := false }) x = s.object x :=
    fun x hx => Function.update_of_ne hx _ _
  -- the links stay as they are
  have hnext : ∀ x, next (Function.update s.object p (some { it with active := false })) x =
      next s.object x := by
    intro x
    by_cases e : x = p
    · subst e
      rw [next_of_object hit]
      simp [next]
    · exact next_congr (hkeep x e)
  refine ⟨h.spine.congr fun x _ => hnext x, fun x hx => ?_, fun x hx => ?_, fun t' => ?_,
    fun t₁ t₂ x h₁ h₂ => ?_, h.faultless⟩
  · show (Function.update s.object p _ x).isSome
    by_cases e : x = p
    · subst e; rw [Function.update_self]; rfl
    · rw [hkeep x e]; exact h.live x hx
  · have hx' := List.mem_filter.mp hx
    have hne : x ≠ p := by simpa using hx'.2
    obtain ⟨h1, n, h2⟩ := h.members x hx'.1
    exact ⟨h1, n, (hkeep x hne).trans h2⟩
  · by_cases e : t' = t
    · subst e
      simp only [State.goto, Function.update_self]
      refine ⟨?_, by simp [Pc.pair], by simp [Pc.inactive], by simp [Pc.own],
        by simp [Pc.newItem]⟩
      intro x hx
      obtain rfl := List.mem_singleton.mp hx
      exact hp
    · simp only [State.goto, Function.update_of_ne e]
      have hok' := h.pcs t'
      refine hok'.congr hok'.cursors (fun x y _ => hnext x) (fun x n _ hn => ?_)
        (fun x hx => ⟨(hok'.own x hx).1, hkeep x ?_⟩)
      · by_cases e' : x = p
        · subst e'
          obtain rfl := Option.some.inj (hn.symm.trans hit)
          exact ⟨n, Function.update_self _ _ _⟩
        · exact ⟨n, (hkeep x e').trans hn⟩
      · intro e'
        subst e'
        exact (hok'.own _ hx).1 hp
  · have hold : ∀ t', (Function.update s.pc t (.scan p true) t').own = some x →
        (s.pc t').own = some x := by
      intro t' ht'
      by_cases e : t' = t
      · subst e; rw [Function.update_self] at ht'; cases ht'
      · rwa [Function.update_of_ne e] at ht'
    exact h.apart t₁ t₂ x (hold t₁ h₁) (hold t₂ h₂)

/-- An item is taken out, which nobody else is at and after which nothing has been added. -/
theorem Inv.unlink (h : Inv head s l) {t : ι} {pNext qNext : Int} {it : Item} {active : Bool}
    (hpc : s.pc t = .unlink p q pNext qNext) (hit : s.object p = some it) (hn : it.next = pNext)
    (hq : s.object q = some ⟨active, qNext⟩) (halone : ∀ t', t' ≠ t → q ∉ (s.pc t').cursors) :
    ∃ l', Inv head ((s.put p (some { it with
      next := if qNext = 0 then 0 else pNext + qNext })).goto t (.release p q qNext)) l' := by
  have hok := h.pcs t
  rw [hpc] at hok
  have hp : p ∈ head :: l := hok.cursors p (by simp [Pc.cursors])
  have hpq : next s.object p = some q := hok.pair p q rfl
  obtain ⟨n, hgone⟩ := hok.inactive q rfl
  obtain rfl : active = false := by
    have := congrArg Item.active (Option.some.inj (hq.symm.trans hgone))
    simpa using this
  -- the distance to `q` is the one that was loaded
  have hdist : p + pNext = q := by
    rw [next_of_object hit] at hpq
    split at hpq
    · cases hpq
    · rw [← hn]; exact Option.some.inj hpq
  obtain ⟨l₁, l₂, hl, htip⟩ := h.spine.split_next hp hpq
  have hnd : (head :: l).Nodup := h.spine.nodup
  have hql : q ∈ l := by rw [hl]; simp
  have hqp : q ≠ p := by
    intro e
    subst e
    rw [hl] at hnd
    rcases List.mem_cons.mp (tip_mem head l₁) with h1 | h1
    · rw [htip] at h1
      subst h1
      simp at hnd
    · rw [htip] at h1
      rw [← List.cons_append, List.nodup_append] at hnd
      exact hnd.2.2 q (List.mem_cons_of_mem _ h1) q (by simp) rfl
  have hkeep : ∀ x, x ≠ p → Function.update s.object p (some { it with
      next := if qNext = 0 then 0 else pNext + qNext }) x = s.object x :=
    fun x hx => Function.update_of_ne hx _ _
  -- the item before now points where `q` points
  have hlink : next (Function.update s.object p (some { it with
      next := if qNext = 0 then 0 else pNext + qNext })) p = next s.object q := by
    have hq0 : qNext ≠ 0 → pNext + qNext ≠ 0 := by
      intro h1 h2
      have h3 : next s.object q = some p := by
        rw [next_of_object hq]
        simp only [h1, if_false, Option.some.injEq]
        omega
      rw [hl] at hnd
      have h4 : p ∈ l₂ := by
        have := (hl ▸ h.spine).drop
        exact this.mem_of_next List.mem_cons_self h3
      rcases List.mem_cons.mp (tip_mem head l₁) with h5 | h5 <;> rw [htip] at h5
      · subst h5
        simp [h4] at hnd
      · rw [← List.cons_append, List.nodup_append] at hnd
        exact hnd.2.2 p (List.mem_cons_of_mem _ h5) p (List.mem_cons_of_mem _ h4) rfl
    rw [next_of_object hq]
    by_cases e : qNext = 0
    · simp [next, e]
    · simp only [next, Function.update_self, Option.bind_some, if_neg e, if_neg (hq0 e),
        Option.some.injEq]
      omega
  have hmem : ∀ x, x ∈ head :: l → x ≠ q → x ∈ head :: (l₁ ++ l₂) := by
    intro x hx hxq
    rw [hl] at hx
    simp only [List.mem_cons, List.mem_append] at hx ⊢
    tauto
  have hmem' : ∀ x, x ∈ head :: (l₁ ++ l₂) → x ∈ head :: l := by
    intro x hx
    rw [hl]
    simp only [List.mem_cons, List.mem_append] at hx ⊢
    tauto
  have hqout : q ∉ head :: (l₁ ++ l₂) := by
    rw [hl] at hnd
    simp only [List.nodup_cons, List.nodup_append, List.mem_append, List.mem_cons, not_or] at hnd ⊢
    refine ⟨fun e => hnd.1.2.1 e.symm, fun hm => hnd.2.2.2 q hm q (Or.inl rfl) rfl,
      fun hm => hnd.2.2.1.1 hm⟩
  refine ⟨l₁ ++ l₂, ?_, fun x hx => ?_, fun x hx => ?_, fun t' => ?_, fun t₁ t₂ x h₁ h₂ => ?_,
    h.faultless⟩
  · refine (hl ▸ h.spine).unlink (by rw [htip]; exact hlink) fun x _ hx _ => ?_
    rw [htip] at hx
    exact next_congr (hkeep x hx)
  · show (Function.update s.object p _ x).isSome
    by_cases e : x = p
    · subst e; rw [Function.update_self]; rfl
    · rw [hkeep x e]; exact h.live x (hmem' x hx)
  · obtain ⟨h1, n', h2⟩ := h.members x hx
    have hxq : x ≠ q := by
      intro e
      subst e
      rw [hq] at h2
      cases h2
    have hxhead : x ≠ head := by
      intro e
      subst e
      exact (List.nodup_cons.mp hnd).1 h1
    refine ⟨(List.mem_cons.mp (hmem x (List.mem_cons_of_mem _ h1) hxq)).resolve_left hxhead, ?_⟩
    by_cases e : x = p
    · subst e
      obtain rfl := Option.some.inj (h2.symm.trans hit)
      exact ⟨_, Function.update_self _ _ _⟩
    · exact ⟨n', (hkeep x e).trans h2⟩
  · by_cases e : t' = t
    · subst e
      simp only [State.goto, Function.update_self]
      have hpmem := hmem p hp (Ne.symm hqp)
      refine ⟨fun x hx => ?_, fun x y hxy => ?_, by simp [Pc.inactive], ?_, by simp [Pc.newItem]⟩
      · by_cases e : qNext = 0
        · simp only [Pc.cursors, if_pos e, List.mem_singleton] at hx
          exact hx ▸ hpmem
        · simp only [Pc.cursors, if_neg e, List.mem_cons, List.not_mem_nil, or_false] at hx
          rcases hx with hx | hx
          · exact hx ▸ hpmem
          · have h1 : next s.object q = some x := by
              rw [next_of_object hq, hx]
              simp [e]
            have h2 := (hl ▸ h.spine).drop.mem_of_next List.mem_cons_self h1
            exact List.mem_cons_of_mem _ (List.mem_append_right _ h2)
      · by_cases e : qNext = 0
        · simp [Pc.pair, e] at hxy
        · simp only [Pc.pair, if_neg e, Option.some.injEq, Prod.mk.injEq] at hxy
          obtain ⟨rfl, rfl⟩ := hxy
          refine hlink.trans ?_
          rw [next_of_object hq]
          simp [e]
      · intro x hx
        obtain rfl := Option.some.inj hx
        refine ⟨hqout, ?_⟩
        show (Function.update s.object p _ q).isSome
        rw [hkeep q hqp, hq]; rfl
    · simp only [State.goto, Function.update_of_ne e]
      have hok' := h.pcs t'
      have hcurne : ∀ x ∈ (s.pc t').cursors, x ≠ q := by
        intro x hx e'
        subst e'
        exact halone t' e hx
      refine hok'.congr (fun x hx => hmem x (hok'.cursors x hx) (hcurne x hx)) (fun x y hxy => ?_)
        (fun x n' _ hn' => ?_) (fun x hx => ⟨fun hm => (hok'.own x hx).1 (hmem' x hm), hkeep x ?_⟩)
      · have hcur := Pc.cursors_of_pair hxy
        by_cases e' : x = p
        · subst e'
          have hy : y = q := Option.some.inj ((hok'.pair x y hxy).symm.trans hpq)
          exact absurd hy (hcurne y hcur.2)
        · exact next_congr (hkeep x e')
      · by_cases e' : x = p
        · subst e'
          obtain rfl := Option.some.inj (hn'.symm.trans hit)
          exact ⟨_, Function.update_self _ _ _⟩
        · exact ⟨n', (hkeep x e').trans hn'⟩
      · intro e'
        subst e'
        exact (hok'.own _ hx).1 hp
  · have hold : ∀ t', (Function.update s.pc t (.release p q qNext) t').own = some x →
        (t' = t ∧ x = q) ∨ (s.pc t').own = some x := by
      intro t' ht'
      by_cases e : t' = t
      · subst e
        rw [Function.update_self] at ht'
        exact Or.inl ⟨rfl, (Option.some.inj ht').symm⟩
      · rw [Function.update_of_ne e] at ht'
        exact Or.inr ht'
    have hqown : ∀ t', (s.pc t').own ≠ some q := fun t' ht' =>
      ((h.pcs t').own q ht').1 (List.mem_cons_of_mem _ hql)
    rcases hold t₁ h₁ with ⟨e₁, ex⟩ | h₁' <;> rcases hold t₂ h₂ with ⟨e₂, ex'⟩ | h₂'
    · exact e₁.trans e₂.symm
    · subst ex
      exact absurd h₂' (hqown t₂)
    · subst ex'
      exact absurd h₁' (hqown t₁)
    · exact h.apart t₁ t₂ x h₁' h₂'

/-- The item that was taken out is released. -/
theorem Inv.release (h : Inv head s l) {t : ι} {qNext : Int} (hpc : s.pc t = .release p q qNext) :
    Inv head ((s.put q none).goto t (if qNext = 0 then .idle else .checkQ p (q + qNext))) l := by
  have hok := h.pcs t
  rw [hpc] at hok
  have hq := (hok.own q rfl).1
  have hkeep : ∀ x, x ≠ q → Function.update s.object q none x = s.object x :=
    fun x hx => Function.update_of_ne hx _ _
  have hne : ∀ x ∈ head :: l, x ≠ q := by
    intro x hx e
    subst e
    exact hq hx
  refine ⟨h.spine.congr fun x hx => next_congr (hkeep x (hne x hx)), fun x hx => ?_,
    fun x hx => ?_, fun t' => ?_, fun t₁ t₂ x h₁ h₂ => ?_, h.faultless⟩
  · show (Function.update s.object q none x).isSome
    rw [hkeep x (hne x hx)]
    exact h.live x hx
  · obtain ⟨h1, n, h2⟩ := h.members x hx
    exact ⟨h1, n, (hkeep x (hne x (List.mem_cons_of_mem _ h1))).trans h2⟩
  · by_cases e : t' = t
    · subst e
      simp only [State.goto, Function.update_self]
      by_cases e : qNext = 0
      · simp only [if_pos e]
        exact ⟨by simp [Pc.cursors], by simp [Pc.pair], by simp [Pc.inactive], by simp [Pc.own],
          by simp [Pc.newItem]⟩
      · simp only [if_neg e]
        refine ⟨fun x hx => hok.cursors x (by simpa [Pc.cursors, e] using hx), fun x y hxy => ?_,
          by simp [Pc.inactive], by simp [Pc.own], by simp [Pc.newItem]⟩
        have hpair : (Pc.release p q qNext).pair = some (x, y) := by
          simpa [Pc.pair, e] using hxy
        have hx := hok.cursors x (Pc.cursors_of_pair hpair).1
        exact (next_congr (hkeep x (hne x hx))).trans (hok.pair x y hpair)
    · simp only [State.goto, Function.update_of_ne e]
      have hok' := h.pcs t'
      refine hok'.congr hok'.cursors (fun x y hxy => ?_) (fun x n hx hn => ⟨n, ?_⟩)
        (fun x hx => ⟨(hok'.own x hx).1, hkeep x ?_⟩)
      · exact next_congr (hkeep x (hne x (hok'.cursors x (Pc.cursors_of_pair hxy).1)))
      · exact (hkeep x (hne x (hok'.cursors x (Pc.cursor_of_inactive hx)))).trans hn
      · intro e'
        subst e'
        exact e (h.apart t' t _ hx (by rw [hpc]; rfl))
  · have hold : ∀ t', (Function.update s.pc t
        (if qNext = 0 then .idle else .checkQ p (q + qNext)) t').own = some x →
        (s.pc t').own = some x := by
      intro t' ht'
      by_cases e : t' = t
      · subst e
        rw [Function.update_self] at ht'
        split at ht' <;> cases ht'
      · rwa [Function.update_of_ne e] at ht'
    exact h.apart t₁ t₂ x (hold t₁ h₁) (hold t₂ h₂)

omit [DecidableEq ι] in
theorem Pc.Ok.idle {object : Int → Option Item} {chain : List Int} : Pc.idle.Ok object chain :=
  ⟨by simp [Pc.cursors], by simp [Pc.pair], by simp [Pc.inactive], by simp [Pc.own],
    by simp [Pc.newItem]⟩

/-- A process that is at one item only. -/
theorem Pc.Ok.single {object : Int → Option Item} {chain : List Int} {pc : Pc}
    (hp : p ∈ chain) (hc : pc.cursors = [p]) (h : pc.pair = none) (h' : pc.inactive = none)
    (h'' : pc.own = none) : pc.Ok object chain where
  cursors := fun x hx => by rw [hc] at hx; exact List.mem_singleton.mp hx ▸ hp
  pair := fun x y hxy => by rw [h] at hxy; cases hxy
  inactive := fun x hx => by rw [h'] at hx; cases hx
  own := fun x hx => by rw [h''] at hx; cases hx
  newItem := fun x hx => by rw [Pc.own_of_newItem hx] at h''; cases h''

/-- A process that is at two neighbouring items. -/
theorem Pc.Ok.pairOf {object : Int → Option Item} {chain : List Int} {pc : Pc}
    (hp : p ∈ chain) (hq : q ∈ chain) (hn : next object p = some q) (hc : pc.cursors = [p, q])
    (h : pc.pair = some (p, q)) (h' : ∀ x, pc.inactive = some x → ∃ n, object x = some ⟨false, n⟩)
    (h'' : pc.own = none) : pc.Ok object chain where
  cursors := fun x hx => by
    rw [hc] at hx
    simp only [List.mem_cons, List.not_mem_nil, or_false] at hx
    rcases hx with rfl | rfl <;> assumption
  pair := fun x y hxy => by
    rw [h] at hxy
    simp only [Option.some.injEq, Prod.mk.injEq] at hxy
    obtain ⟨rfl, rfl⟩ := hxy
    exact hn
  inactive := h'
  own := fun x hx => by rw [h''] at hx; cases hx
  newItem := fun x hx => by rw [Pc.own_of_newItem hx] at h''; cases h''

theorem look_live {k : Item → State ι} {t : ι} {it : Item} (h : s.object p = some it) :
    look s t p k = k it := by
  simp [look, h]

theorem inv_advance {t : ι} (h : Inv head s l) (hg : CleanUnlinks s (.go t))
    (hs : advance head s t = some s') : ∃ l', Inv head s' l' := by
  have hok := h.pcs t
  have hlive : ∀ x ∈ (s.pc t).cursors, ∃ it, s.object x = some it :=
    fun x hx => h.live_of_cursor hx
  have hfollow : ∀ x it, x ∈ head :: l → s.object x = some it → it.next ≠ 0 →
      x + it.next ∈ head :: l ∧ next s.object x = some (x + it.next) := by
    intro x it hx hit hn
    have h1 : next s.object x = some (x + it.next) := by rw [next_of_object hit, if_neg hn]
    exact ⟨List.mem_cons_of_mem _ (h.spine.mem_of_next hx h1), h1⟩
  cases hpc : s.pc t with
  | idle => simp [advance, hpc] at hs
  | constructing => simp [advance, hpc] at hs
  | checkRecord p hasInactive => simp [advance, hpc] at hs
  | seekEnd clientItem p =>
      rw [hpc] at hok hlive
      obtain ⟨it, hit⟩ := hlive p (by simp [Pc.cursors])
      simp only [advance, hpc, look_live hit, Option.some.injEq] at hs
      subst hs
      have hp := hok.cursors p (by simp [Pc.cursors])
      refine ⟨l, h.goto ?_ (Or.inr ?_)⟩
      · split
        · exact ⟨hok.cursors, by simp [Pc.pair], by simp [Pc.inactive], hok.own, hok.newItem⟩
        · next hn =>
          refine ⟨fun x hx => ?_, by simp [Pc.pair], by simp [Pc.inactive], hok.own, hok.newItem⟩
          exact List.mem_singleton.mp hx ▸ (hfollow p it hp hit hn).1
      · rw [hpc]; split <;> rfl
  | register clientItem p =>
      rw [hpc] at hok hlive
      obtain ⟨it, hit⟩ := hlive p (by simp [Pc.cursors])
      simp only [advance, hpc, look_live hit, Option.some.injEq] at hs
      split at hs
      · next hn => subst hs; exact ⟨_, h.register hpc hit hn⟩
      · subst hs
        refine ⟨l, h.goto ?_ (Or.inr (by rw [hpc]; rfl))⟩
        exact ⟨hok.cursors, by simp [Pc.pair], by simp [Pc.inactive], hok.own, hok.newItem⟩
  | start =>
      obtain ⟨it, hit⟩ := Option.isSome_iff_exists.mp (h.live head List.mem_cons_self)
      simp only [advance, hpc, look_live hit, Option.some.injEq] at hs
      subst hs
      refine ⟨l, h.goto ?_ (Or.inl (by split <;> rfl))⟩
      split
      · exact .idle
      · exact .single List.mem_cons_self rfl rfl rfl rfl
  | scan p hasInactive =>
      rw [hpc] at hok hlive
      obtain ⟨it, hit⟩ := hlive p (by simp [Pc.cursors])
      simp only [advance, hpc, look_live hit, Option.some.injEq] at hs
      subst hs
      have hp := hok.cursors p (by simp [Pc.cursors])
      refine ⟨l, h.goto ?_ (Or.inl ?_)⟩
      · split
        · split
          · exact ⟨by simp [Pc.cursors], by simp [Pc.pair], by simp [Pc.inactive],
              by simp [Pc.own], by simp [Pc.newItem]⟩
          · exact .idle
        · next hn => exact .single (hfollow p it hp hit hn).1 rfl rfl rfl rfl
      · split
        · split <;> rfl
        · rfl
  | checkActive p hasInactive =>
      rw [hpc] at hok hlive
      obtain ⟨it, hit⟩ := hlive p (by simp [Pc.cursors])
      simp only [advance, hpc, look_live hit, Option.some.injEq] at hs
      subst hs
      have hp := hok.cursors p (by simp [Pc.cursors])
      refine ⟨l, h.goto ?_ (Or.inl (by split <;> rfl))⟩
      split <;> exact .single hp rfl rfl rfl rfl
  | mark p =>
      rw [hpc] at hlive
      obtain ⟨it, hit⟩ := hlive p (by simp [Pc.cursors])
      simp only [advance, hpc, look_live hit, Option.some.injEq] at hs
      subst hs
      exact ⟨l, h.mark hpc hit⟩
  | second =>
      obtain ⟨it, hit⟩ := Option.isSome_iff_exists.mp (h.live head List.mem_cons_self)
      simp only [advance, hpc, look_live hit, Option.some.injEq] at hs
      subst hs
      refine ⟨l, h.goto ?_ (Or.inl (by split <;> rfl))⟩
      split
      · exact .idle
      · next hn =>
        have h1 := hfollow head it List.mem_cons_self hit hn
        exact .pairOf List.mem_cons_self h1.1 h1.2 rfl rfl (by simp [Pc.inactive]) rfl
  | checkQ p q =>
      rw [hpc] at hok hlive
      obtain ⟨it, hit⟩ := hlive q (by simp [Pc.cursors])
      simp only [advance, hpc, look_live hit, Option.some.injEq] at hs
      subst hs
      have hp := hok.cursors p (by simp [Pc.cursors])
      have hq := hok.cursors q (by simp [Pc.cursors])
      refine ⟨l, h.goto ?_ (Or.inl (by split <;> rfl))⟩
      split
      · exact .pairOf hp hq (hok.pair p q rfl) rfl rfl (by simp [Pc.inactive]) rfl
      · next hact =>
        refine .pairOf hp hq (hok.pair p q rfl) rfl rfl (fun x hx => ?_) rfl
        obtain rfl := Option.some.inj hx
        refine ⟨it.next, hit.trans (congrArg some ?_)⟩
        cases it
        simpa using hact
  | pass p q =>
      rw [hpc] at hok hlive
      obtain ⟨it, hit⟩ := hlive q (by simp [Pc.cursors])
      simp only [advance, hpc, look_live hit, Option.some.injEq] at hs
      subst hs
      have hq := hok.cursors q (by simp [Pc.cursors])
      refine ⟨l, h.goto ?_ (Or.inl (by split <;> rfl))⟩
      split
      · exact .idle
      · next hn =>
        have h1 := hfollow q it hq hit hn
        exact .pairOf hq h1.1 h1.2 rfl rfl (by simp [Pc.inactive]) rfl
  | loadP p q =>
      rw [hpc] at hok hlive
      obtain ⟨it, hit⟩ := hlive p (by simp [Pc.cursors])
      simp only [advance, hpc, look_live hit, Option.some.injEq] at hs
      subst hs
      exact ⟨l, h.goto ⟨hok.cursors, hok.pair, hok.inactive, by simp [Pc.own],
        by simp [Pc.newItem]⟩ (Or.inl rfl)⟩
  | loadQ p q pNext =>
      rw [hpc] at hok hlive
      obtain ⟨it, hit⟩ := hlive q (by simp [Pc.cursors])
      simp only [advance, hpc, look_live hit, Option.some.injEq] at hs
      subst hs
      exact ⟨l, h.goto ⟨hok.cursors, hok.pair, hok.inactive, by simp [Pc.own],
        by simp [Pc.newItem]⟩ (Or.inl rfl)⟩
  | unlink p q pNext qNext =>
      rw [hpc] at hlive
      obtain ⟨it, hit⟩ := hlive p (by simp [Pc.cursors])
      simp only [advance, hpc, look_live hit, Option.some.injEq] at hs
      split at hs
      · next hn =>
        subst hs
        obtain ⟨⟨active, hq⟩, halone⟩ := hg t p q pNext qNext it rfl hpc hit hn
        exact h.unlink hpc hit hn hq halone
      · subst hs
        exact ⟨l, h.goto .idle (Or.inl rfl)⟩
  | release p oldQ qNext =>
      rw [hpc] at hok
      obtain ⟨it, hit⟩ := Option.isSome_iff_exists.mp (hok.own oldQ rfl).2
      simp only [advance, hpc, look_live hit, Option.some.injEq] at hs
      subst hs
      exact ⟨l, h.release hpc⟩

theorem inv_step {a : Act ι} (h : Inv head s l) (hg : CleanUnlinks s a)
    (hs : step head s a = some s') : ∃ l', Inv head s' l' := by
  cases a with
  | connect t =>
      simp only [step] at hs
      split at hs
      · obtain rfl := Option.some.inj hs
        exact ⟨l, h.goto ⟨by simp [Pc.cursors], by simp [Pc.pair], by simp [Pc.inactive],
          by simp [Pc.own], by simp [Pc.newItem]⟩ (Or.inl rfl)⟩
      · cases hs
  | construct t p =>
      simp only [step] at hs
      split at hs
      · next hfree =>
        obtain rfl := Option.some.inj hs
        exact ⟨l, h.construct hfree⟩
      · cases hs
  | publish t =>
      simp only [step] at hs
      split at hs
      · obtain rfl := Option.some.inj hs
        exact ⟨l, h.goto ⟨by simp [Pc.cursors], by simp [Pc.pair], by simp [Pc.inactive],
          by simp [Pc.own], by simp [Pc.newItem]⟩ (Or.inl rfl)⟩
      · cases hs
  | record t fine =>
      simp only [step] at hs
      split at hs
      · next p hasInactive hpc =>
        obtain rfl := Option.some.inj hs
        have hp : p ∈ head :: l := (h.pcs t).cursors p (by rw [hpc]; simp [Pc.cursors])
        refine ⟨l, h.goto ?_ (Or.inl (by split <;> rfl))⟩
        split <;> exact .single hp rfl rfl rfl rfl
      · cases hs
  | go t => exact inv_advance h hg hs

theorem inv_init : Inv head (machine ι head).init [] where
  spine := by simp [Spine, next, machine]
  live := by simp [machine]
  members := by simp [machine]
  pcs := fun _ => .idle
  apart := fun t t' p hp => by simp [machine, Pc.own] at hp
  faultless := rfl

/--
**While items are only taken out that stand still.** In every run in which each unlinking that
succeeds does so with the item's own `next` still as loaded and nobody else at the item, the
registered clients that have not been marked are on the list, what is on the list is allocated,
and nothing is released twice or used after its release.
-/
theorem membership_of_cleanUnlinks (hr : (machine ι head).Reach CleanUnlinks s) :
    Membership head s := by
  have h : ∃ l, Inv head s l :=
    hr.invariant (I := fun s => ∃ l, Inv head s l) ⟨[], inv_init⟩
      (fun _ _ _ hi hg hs => hi.elim fun _ hi => inv_step hi hg hs)
  obtain ⟨l, hl⟩ := h
  exact hl.membership

/-! ## Two clients and a publisher -/

def Pc.unlinking : Pc → Bool
  | .unlink _ _ _ _ => true
  | _ => false

/-- Is it the compare-exchange that takes an item out? -/
def unlinks (s : State ι) : Act ι → Bool
  | .go t => (s.pc t).unlinking
  | _ => false

omit [DecidableEq ι] in
theorem cleanUnlinks_of_not {a : Act ι} (h : (!unlinks s a) = true) : CleanUnlinks s a := by
  intro t p q pNext qNext it ha hpc
  subst ha
  simp [unlinks, hpc, Pc.unlinking] at h

/-- A client registers its item, which is constructed at `p`, after `n` others. -/
def join (p : Int) (n : Nat) : List (Act Bool) :=
  [.connect false, .construct false p] ++ List.replicate (n + 2) (.go false)

/-- The publisher finds the first client gone, and comes to take its item out. -/
def findFirst : List (Act Bool) :=
  [.publish true, .go true, .go true, .go true, .record true false, .go true]

def comeToFirst : List (Act Bool) := List.replicate 5 (.go true)

/-- The second client is found to be there. -/
def findSecond : List (Act Bool) := [.go true, .go true, .record true true]

def removeFirst : List (Act Bool) :=
  join 100 0 ++ join 200 1 ++ findFirst ++ findSecond ++ comeToFirst

theorem takeOut_clean :
    CleanUnlinks ((machine Bool 0).exec (machine Bool 0).init removeFirst) (.go true) := by
  intro t p q pNext qNext it ha hpc
  cases ha
  have hat : ((machine Bool 0).exec (machine Bool 0).init removeFirst).pc true =
      .unlink 0 100 100 100 := by decide +kernel
  rw [hat] at hpc
  cases hpc
  refine fun _ _ => ⟨⟨false, by decide +kernel⟩, fun t' ht' => ?_⟩
  obtain rfl : t' = false := by simpa using ht'
  have hidle : ((machine Bool 0).exec (machine Bool 0).init removeFirst).pc false = .idle := by
    decide +kernel
  rw [hidle]
  exact List.not_mem_nil

theorem removeFirst_clean : (machine Bool 0).Within CleanUnlinks (machine Bool 0).init
    (removeFirst ++ .go true :: List.replicate 3 (.go true)) := by
  refine .append (.of_all (fun _ _ => cleanUnlinks_of_not) (by decide +kernel)) ⟨takeOut_clean, ?_⟩
  exact .of_all (fun _ _ => cleanUnlinks_of_not) (by decide +kernel)

theorem membership_removeFirst :
    ∃ s, (machine Bool 0).Reach CleanUnlinks s ∧ s.members = [200] ∧ Membership 0 s := by
  have hr := Machine.Reach.init.exec removeFirst_clean
  exact ⟨_, hr, by decide +kernel, membership_of_cleanUnlinks hr⟩

/--
A client that registers while the publisher is about to take out the item before its own is
taken off the list with it.
-/
theorem not_membership_registerMeanwhile :
    ∃ s, (machine Bool 0).Reach (fun _ _ => True) s ∧ ¬ Membership 0 s := by
  have hr := (Machine.Reach.init (M := machine Bool 0)).exec
    (Machine.Within.of_forall (fun _ _ => trivial) _
      (join 100 0 ++ findFirst ++ comeToFirst ++ join 200 1 ++ [.go true]))
  refine ⟨_, hr, fun h => ?_⟩
  have h1 := h.members 200 (by decide +kernel)
  rcases Relation.ReflTransGen.cases_head h1 with h2 | ⟨c, h2, -⟩
  · cases h2
  · rw [show next _ 0 = none by decide +kernel] at h2
    cases h2

end ClientList
