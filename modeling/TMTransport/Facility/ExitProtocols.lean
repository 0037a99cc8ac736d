import Mathlib.Data.List.Basic
import Mathlib.Logic.Function.Basic
import TMTransport.Library.Machine

/-!
# The exit of the transaction subscribers

A transaction subscriber has a subscription with each server that it finds. When it is
to exit, it first asks the servers to end the subscriptions that there are, and then
calls the environment's exit when that has been confirmed.

There are two such programs. `attachExitSourceToGSClient` keeps the subscriptions of all
servers, and looks whether there are any when one has been confirmed as ended, but not
when a server is lost. `consumerCombination` keeps one server and one id, whichever
came last, and exits with the first confirmation.
-/

namespace ExitProtocols

open Interleave

variable {σ : Type} [DecidableEq σ]

/-! ## The handlers -/

/-- What a program keeps, and its handlers. The flag is for a call of the environment's exit. -/
structure Protocol (σ : Type) where
  Record : Type
  start : Record
  onSubscription : Record → σ → Nat → Record
  onUnsubscription : Record → (originalSubscriptionID : Nat) → Record × Bool
  onConnectionChange : Record → σ → Bool → Record
  /-- The unsubscriptions go out to the servers that they come with. -/
  onExitSource : Record → Bool × List (σ × Nat)

namespace AttachExitSource

/-- `idStorage`. One id for a locator. -/
abbrev IDStorage (σ : Type) := List (σ × Nat)

def saveID (idStorage : IDStorage σ) (conn : σ) (id : Nat) : IDStorage σ :=
  (conn, id) :: idStorage.filter fun item => item.1 ≠ conn

def eraseID (idStorage : IDStorage σ) (originalSubscriptionID : Nat) : IDStorage σ :=
  match idStorage.find? fun item => item.2 = originalSubscriptionID with
  | some item => idStorage.filter fun x => x.1 ≠ item.1
  | none => idStorage

end AttachExitSource

open AttachExitSource in
/-- `attachExitSourceToGSClient` -/
def attachExitSource (σ : Type) [DecidableEq σ] : Protocol σ where
  Record := IDStorage σ
  start := []
  onSubscription := saveID
  onUnsubscription := fun idStorage id => (eraseID idStorage id, (eraseID idStorage id).isEmpty)
  onConnectionChange := fun idStorage conn registered =>
    if registered then idStorage else idStorage.filter fun x => x.1 ≠ conn
  onExitSource := fun idStorage => (idStorage.isEmpty, idStorage)

structure ConsumerRecord (σ : Type) where
  locatorRecord : Option σ
  idRecord : Option Nat

/-- `consumerCombination`, with an exit source -/
def consumerCombination (σ : Type) : Protocol σ where
  Record := ConsumerRecord σ
  start := ⟨none, none⟩
  onSubscription := fun r _ id => { r with idRecord := some id }
  onUnsubscription := fun r _ => ({ r with idRecord := none }, true)
  onConnectionChange := fun r conn registered =>
    { r with locatorRecord := if registered then some conn else none }
  onExitSource := fun r =>
    match r.locatorRecord, r.idRecord with
    | some locator, some id => (false, [(locator, id)])
    | _, _ => (true, [])

/-! ## Runs -/

/-- How the program stands with a server. -/
inductive Link where
  | unknown
  /-- The server has been registered, and asked for a subscription. -/
  | registered
  | subscribed (id : Nat)
  /-- The subscription has been confirmed as ended. -/
  | ended
  deriving DecidableEq

structure State (p : Protocol σ) where
  link : σ → Link
  /-- Ids are not used twice. -/
  lastID : Nat
  /-- The subscriptions that were confirmed before the trigger and have not ended since, nor been
  lost with their server. -/
  awaited : List (σ × Nat)
  /-- The unsubscriptions that servers have been asked for. -/
  asked : List (σ × Nat)
  triggered : Bool
  exited : Bool
  record : p.Record

inductive Act (σ : Type) where
  | register (v : σ)
  | confirmSubscription (v : σ)
  | lose (v : σ)
  | trigger
  | confirmUnsubscription (v : σ) (id : Nat)

section Step

variable (p : Protocol σ)

def step (s : State p) : Act σ → Option (State p)
  | .register v =>
    if s.link v = .unknown then
      some { s with
        link := Function.update s.link v .registered
        record := p.onConnectionChange s.record v true }
    else none
  | .confirmSubscription v =>
    if s.link v = .registered then
      some { s with
        link := Function.update s.link v (.subscribed (s.lastID + 1))
        lastID := s.lastID + 1
        awaited := if s.triggered then s.awaited else (v, s.lastID + 1) :: s.awaited
        record := p.onSubscription s.record v (s.lastID + 1) }
    else none
  | .lose v =>
    if s.link v ≠ .unknown then
      some { s with
        link := Function.update s.link v .unknown
        awaited := s.awaited.filter fun e => e.1 ≠ v
        record := p.onConnectionChange s.record v false }
    else none
  | .trigger =>
    if s.triggered = false then
      some { s with
        asked := (p.onExitSource s.record).2
        triggered := true
        exited := s.exited || (p.onExitSource s.record).1 }
    else none
  | .confirmUnsubscription v id =>
    if (v, id) ∈ s.asked ∧ s.link v ≠ .unknown then
      some { s with
        link := if s.link v = .subscribed id then Function.update s.link v .ended else s.link
        awaited := s.awaited.filter fun e => e ≠ (v, id)
        asked := s.asked.erase (v, id)
        exited := s.exited || (p.onUnsubscription s.record id).2
        record := (p.onUnsubscription s.record id).1 }
    else none

def machine : Machine (State p) (Act σ) where
  init := ⟨fun _ => .unknown, 0, [], [], false, false, p.start⟩
  step := step p

end Step

variable {p : Protocol σ}

/-- Exit has been called just if the trigger has come and nothing is waited for. -/
def ExitsRightly (s : State p) : Prop :=
  s.exited = true ↔ s.triggered = true ∧ s.awaited = []

/-- The server does not go with the last subscription that is waited for. -/
def KeepsTheLast (s : State p) (v : σ) : Prop :=
  s.triggered = true → s.awaited ≠ [] → s.awaited.filter (fun e => e.1 ≠ v) ≠ []

/--
The last subscription that is waited for is not lost with its server; and when it has ended there is
no other one.
-/
def attachExitSource.Orderly (s : State (attachExitSource σ)) : Act σ → Prop
  | .lose v => KeepsTheLast s v
  | .confirmUnsubscription v id =>
      s.awaited ≠ [] → s.awaited.filter (fun e => e ≠ (v, id)) = [] →
        ∀ v' id', s.link v' = .subscribed id' → v' = v
  | _ => True

/--
When the trigger comes, a server and an id are known just if there is a subscription; the last one
that is waited for is not lost with its server; and the first confirmation is of the last one.
-/
def consumerCombination.Orderly (s : State (consumerCombination σ)) : Act σ → Prop
  | .trigger => (∃ v id, s.record = ⟨some v, some id⟩) ↔ s.awaited ≠ []
  | .lose v => KeepsTheLast s v
  | .confirmUnsubscription v id => s.awaited.filter (fun e => e ≠ (v, id)) = []
  | _ => True

theorem update_subscribed {link : σ → Link} {v w : σ} {x : Link} {j : Nat}
    (hx : ∀ j, x ≠ .subscribed j) :
    Function.update link v x w = .subscribed j ↔ w ≠ v ∧ link w = .subscribed j := by
  by_cases h : w = v
  · subst h
    simp [hx]
  · simp [h]

omit [DecidableEq σ] in
/-- A step before the trigger, or one that ends nothing that is waited for. -/
theorem ExitsRightly.of_same {s s' : State p} (h : ExitsRightly s)
    (htriggered : s'.triggered = s.triggered) (hexited : s'.exited = s.exited)
    (hawaited : s.triggered = true → (s'.awaited = [] ↔ s.awaited = [])) : ExitsRightly s' := by
  rw [ExitsRightly, htriggered, hexited]
  refine Iff.trans h (and_congr_right fun ht => (hawaited ht).symm)

theorem ExitsRightly.lose {s s' : State p} {v : σ} (h : ExitsRightly s) (hlast : KeepsTheLast s v)
    (htriggered : s'.triggered = s.triggered) (hexited : s'.exited = s.exited)
    (hawaited : s'.awaited = s.awaited.filter fun e => e.1 ≠ v) : ExitsRightly s' := by
  refine h.of_same htriggered hexited fun ht => ?_
  rw [hawaited]
  constructor
  · intro he
    by_contra hne
    exact hlast ht hne he
  · intro he
    rw [he]
    rfl

/-! ## All servers -/

namespace AttachExitSource

variable {s : State (attachExitSource σ)} {v v' : σ} {id id' : Nat}
  {idStorage : IDStorage σ}

def idStorageOf (s : State (attachExitSource σ)) : IDStorage σ := s.record

/-- What is kept is what there is. -/
structure Inv (s : State (attachExitSource σ)) : Prop where
  stored : ∀ v id, (v, id) ∈ idStorageOf s ↔ s.link v = .subscribed id
  old : ∀ v id, s.link v = .subscribed id → id ≤ s.lastID
  injective : ∀ v v' id, s.link v = .subscribed id → s.link v' = .subscribed id → v' = v
  awaited : ∀ v id, (v, id) ∈ s.awaited → s.link v = .subscribed id
  before : s.triggered = false → s.exited = false ∧ s.asked = [] ∧
    ∀ v id, s.link v = .subscribed id → (v, id) ∈ s.awaited
  /-- No other subscription has an id that a server has been asked to end. -/
  asked : ∀ v id, (v, id) ∈ s.asked → id ≤ s.lastID ∧ ∀ v', s.link v' = .subscribed id → v' = v
  exits : ExitsRightly s

theorem mem_saveID : (v', id') ∈ saveID idStorage v id ↔
    (v' = v ∧ id' = id) ∨ v' ≠ v ∧ (v', id') ∈ idStorage := by
  simp [saveID, and_comm]

/-- Where an id is kept once, at most. -/
theorem mem_eraseID (h : ∀ w, (w, id) ∈ idStorage → w = v) :
    (v', id') ∈ eraseID idStorage id ↔ (v', id') ∈ idStorage ∧ (v' = v → (v, id) ∉ idStorage) := by
  rw [eraseID]
  cases hf : idStorage.find? fun item => item.2 = id with
  | none =>
      have hnone : (v, id) ∉ idStorage := fun hm => by
        have := List.find?_eq_none.mp hf _ hm
        simp at this
      exact (and_iff_left fun _ => hnone).symm
  | some item =>
      have hm := List.mem_of_find?_eq_some hf
      have hid : item.2 = id := by simpa using List.find?_some hf
      have hv : item.1 = v := h item.1 (by rw [← hid]; exact hm)
      have hin : (v, id) ∈ idStorage := by
        rw [← hv, ← hid]
        exact hm
      simp [hv, hin]

theorem Inv.register (hi : Inv s) (h : s.link v = .unknown) :
    Inv { s with link := Function.update s.link v .registered } := by
  have hlink : ∀ w j, Function.update s.link v .registered w = .subscribed j ↔
      s.link w = .subscribed j := fun w j => by
    rw [update_subscribed (by simp)]
    refine and_iff_right_of_imp fun hw he => ?_
    rw [he, h] at hw
    cases hw
  exact {
    stored := fun w j => (hi.stored w j).trans (hlink w j).symm
    old := fun w j hw => hi.old w j ((hlink w j).mp hw)
    injective := fun w w' j hw hw' => hi.injective w w' j ((hlink w j).mp hw) ((hlink w' j).mp hw')
    awaited := fun w j hw => (hlink w j).mpr (hi.awaited w j hw)
    before := fun ht => by
      obtain ⟨h1, h2, h3⟩ := hi.before ht
      exact ⟨h1, h2, fun w j hw => h3 w j ((hlink w j).mp hw)⟩
    asked := fun w j hw => by
      obtain ⟨h1, h2⟩ := hi.asked w j hw
      exact ⟨h1, fun w' hw' => h2 w' ((hlink w' j).mp hw')⟩
    exits := hi.exits }

theorem Inv.confirmSubscription (hi : Inv s) (h : s.link v = .registered) :
    Inv ({ s with
      link := Function.update s.link v (.subscribed (s.lastID + 1))
      lastID := s.lastID + 1
      awaited := if s.triggered then s.awaited else (v, s.lastID + 1) :: s.awaited
      record := saveID (idStorageOf s) v (s.lastID + 1) } : State (attachExitSource σ)) := by
  have hlink : ∀ w j, Function.update s.link v (.subscribed (s.lastID + 1)) w = .subscribed j ↔
      (w = v ∧ j = s.lastID + 1) ∨ w ≠ v ∧ s.link w = .subscribed j := fun w j => by
    by_cases hw : w = v
    · subst hw
      simp [eq_comm]
    · simp [hw]
  -- A server that has a subscription is another one.
  have hother : ∀ w j, s.link w = .subscribed j → w ≠ v := fun w j hw he => by
    rw [he, h] at hw
    cases hw
  have hkept : ∀ w j, s.link w = .subscribed j →
      Function.update s.link v (.subscribed (s.lastID + 1)) w = .subscribed j :=
    fun w j hw => (hlink w j).mpr (.inr ⟨hother w j hw, hw⟩)
  refine ⟨fun w j => ?_, fun w j hw => ?_, fun w w' j hw hw' => ?_, fun w j hw => ?_,
    fun ht => ?_, fun w j hw => ?_, ?_⟩
  · exact mem_saveID.trans ((or_congr_right (and_congr_right fun _ => hi.stored w j)).trans
      (hlink w j).symm)
  · rcases (hlink w j).mp hw with ⟨-, rfl⟩ | ⟨-, hw⟩
    · exact Nat.le_refl _
    · exact Nat.le_succ_of_le (hi.old w j hw)
  · rcases (hlink w j).mp hw with ⟨rfl, rfl⟩ | ⟨-, hw⟩
    · rcases (hlink w' _).mp hw' with ⟨rfl, -⟩ | ⟨-, hw'⟩
      · rfl
      · exact absurd (hi.old w' _ hw') (Nat.not_succ_le_self _)
    · rcases (hlink w' j).mp hw' with ⟨-, rfl⟩ | ⟨-, hw'⟩
      · exact absurd (hi.old w _ hw) (Nat.not_succ_le_self _)
      · exact hi.injective w w' j hw hw'
  · by_cases ht : s.triggered = true
    · rw [if_pos ht] at hw
      exact hkept w j (hi.awaited w j hw)
    · rw [if_neg ht] at hw
      rcases List.mem_cons.mp hw with he | hw
      · obtain ⟨rfl, rfl⟩ := Prod.mk.inj he
        exact (hlink w _).mpr (.inl ⟨rfl, rfl⟩)
      · exact hkept w j (hi.awaited w j hw)
  · obtain ⟨h1, h2, h3⟩ := hi.before ht
    refine ⟨h1, h2, fun w j hw => ?_⟩
    rw [if_neg (by rw [ht]; simp)]
    rcases (hlink w j).mp hw with ⟨rfl, rfl⟩ | ⟨-, hw⟩
    · exact List.mem_cons_self
    · exact List.mem_cons_of_mem _ (h3 w j hw)
  · obtain ⟨h1, h2⟩ := hi.asked w j hw
    refine ⟨Nat.le_succ_of_le h1, fun w' hw' => ?_⟩
    rcases (hlink w' j).mp hw' with ⟨-, rfl⟩ | ⟨-, hw'⟩
    · exact absurd h1 (Nat.not_succ_le_self _)
    · exact h2 w' hw'
  · refine hi.exits.of_same rfl rfl fun ht => ?_
    rw [if_pos ht]

theorem Inv.lose (hi : Inv s) (hlast : KeepsTheLast s v) :
    Inv ({ s with
      link := Function.update s.link v .unknown
      awaited := s.awaited.filter fun e => e.1 ≠ v
      record := (idStorageOf s).filter fun x => x.1 ≠ v } :
        State (attachExitSource σ)) := by
  have hlink : ∀ w j, Function.update s.link v .unknown w = .subscribed j ↔
      w ≠ v ∧ s.link w = .subscribed j := fun w j => update_subscribed (by simp)
  refine ⟨fun w j => ?_, fun w j hw => ?_, fun w w' j hw hw' => ?_, fun w j hw => ?_,
    fun ht => ?_, fun w j hw => ?_, hi.exits.lose hlast rfl rfl rfl⟩
  · rw [hlink, ← hi.stored]
    refine List.mem_filter.trans (and_comm.trans (and_congr_left fun _ => ?_))
    exact decide_eq_true_iff
  · exact hi.old w j ((hlink w j).mp hw).2
  · exact hi.injective w w' j ((hlink w j).mp hw).2 ((hlink w' j).mp hw').2
  · obtain ⟨hw, hne⟩ := List.mem_filter.mp hw
    exact (hlink w j).mpr ⟨of_decide_eq_true hne, hi.awaited w j hw⟩
  · obtain ⟨h1, h2, h3⟩ := hi.before ht
    refine ⟨h1, h2, fun w j hw => ?_⟩
    obtain ⟨hne, hw⟩ := (hlink w j).mp hw
    exact List.mem_filter.mpr ⟨h3 w j hw, decide_eq_true hne⟩
  · obtain ⟨h1, h2⟩ := hi.asked w j hw
    exact ⟨h1, fun w' hw' => h2 w' ((hlink w' j).mp hw').2⟩

/-- The trigger ends all subscriptions that there are. -/
theorem Inv.trigger (hi : Inv s) (h : s.triggered = false) :
    Inv ({ s with
      asked := idStorageOf s
      triggered := true
      exited := s.exited || (idStorageOf s).isEmpty } :
        State (attachExitSource σ)) := by
  obtain ⟨hexited, -, hall⟩ := hi.before h
  have hempty : idStorageOf s = [] ↔ s.awaited = [] := by
    rw [List.eq_nil_iff_forall_not_mem, List.eq_nil_iff_forall_not_mem]
    refine ⟨fun he e hm => ?_, fun he e hm => ?_⟩
    · exact he e ((hi.stored e.1 e.2).mpr (hi.awaited e.1 e.2 hm))
    · exact he e (hall e.1 e.2 ((hi.stored e.1 e.2).mp hm))
  refine ⟨hi.stored, hi.old, hi.injective, hi.awaited, (nomatch ·), fun w j hw => ?_, ?_⟩
  · have hw := (hi.stored w j).mp hw
    exact ⟨hi.old w j hw, fun w' hw' => hi.injective w w' j hw hw'⟩
  · rw [ExitsRightly, hexited, Bool.false_or, List.isEmpty_iff, hempty]
    exact (and_iff_right rfl).symm

theorem Inv.triggered_of_asked (hi : Inv s) (hasked : (v, id) ∈ s.asked) : s.triggered = true := by
  rw [← Bool.not_eq_false]
  intro ht
  rw [(hi.before ht).2.1] at hasked
  cases hasked

theorem Inv.mem_eraseID (hi : Inv s) (hasked : (v, id) ∈ s.asked) :
    (v', id') ∈ eraseID (idStorageOf s) id ↔
      s.link v' = .subscribed id' ∧ (v' = v → s.link v ≠ .subscribed id) := by
  have honly : ∀ w, (w, id) ∈ idStorageOf s → w = v := fun w hw =>
    (hi.asked v id hasked).2 w ((hi.stored w id).mp hw)
  rw [AttachExitSource.mem_eraseID honly, hi.stored, hi.stored]

/-- Nothing is left with the confirmation that ends the last one. -/
theorem Inv.eraseID_eq_nil (hi : Inv s) (hasked : (v, id) ∈ s.asked)
    (horderly : attachExitSource.Orderly s (.confirmUnsubscription v id)) (hne : s.awaited ≠ []) :
    eraseID (idStorageOf s) id = [] ↔ s.awaited.filter (fun e => e ≠ (v, id)) = [] := by
  rw [List.eq_nil_iff_forall_not_mem]
  constructor
  · intro hnone
    rw [List.filter_eq_nil_iff]
    intro e he hkept
    have he := hi.awaited e.1 e.2 he
    refine hnone e ((hi.mem_eraseID hasked).mpr ⟨he, fun hv hid => of_decide_eq_true hkept ?_⟩)
    rw [hv, hid] at he
    exact Prod.ext hv (Link.subscribed.inj he).symm
  · intro hlast e he
    obtain ⟨he, hother⟩ := (hi.mem_eraseID hasked).mp he
    -- The one that was waited for is the one that has ended.
    have hid : s.link v = .subscribed id := by
      obtain ⟨e, hmem⟩ := List.exists_mem_of_ne_nil _ hne
      have hend := List.filter_eq_nil_iff.mp hlast e hmem
      rw [decide_eq_true_iff, not_not] at hend
      rw [hend] at hmem
      exact hi.awaited v id hmem
    exact hother (horderly hne hlast e.1 e.2 he) hid

theorem Inv.confirmUnsubscription (hi : Inv s) (hasked : (v, id) ∈ s.asked)
    (horderly : attachExitSource.Orderly s (.confirmUnsubscription v id)) :
    Inv ({ s with
      link := if s.link v = .subscribed id then Function.update s.link v .ended else s.link
      awaited := s.awaited.filter fun e => e ≠ (v, id)
      asked := s.asked.erase (v, id)
      exited := s.exited || (eraseID (idStorageOf s) id).isEmpty
      record := eraseID (idStorageOf s) id } : State (attachExitSource σ)) := by
  have hlink : ∀ w j, (if s.link v = .subscribed id then Function.update s.link v .ended
      else s.link) w = .subscribed j ↔
      s.link w = .subscribed j ∧ (w = v → s.link v ≠ .subscribed id) := fun w j => by
    by_cases hv : s.link v = .subscribed id
    · rw [if_pos hv, update_subscribed (by simp), and_comm]
      exact and_congr_right fun _ => forall_congr' fun _ => iff_of_false not_false (· hv)
    · rw [if_neg hv]
      exact (and_iff_left fun _ => hv).symm
  have htriggered := hi.triggered_of_asked hasked
  refine ⟨fun w j => (hi.mem_eraseID hasked).trans (hlink w j).symm, fun w j hw => ?_,
    fun w w' j hw hw' => ?_, fun w j hw => ?_, fun ht => ?_, fun w j hw => ?_, ?_⟩
  · exact hi.old w j ((hlink w j).mp hw).1
  · exact hi.injective w w' j ((hlink w j).mp hw).1 ((hlink w' j).mp hw').1
  · obtain ⟨hw, hne⟩ := List.mem_filter.mp hw
    have hw := hi.awaited w j hw
    refine (hlink w j).mpr ⟨hw, fun he hv => of_decide_eq_true hne ?_⟩
    rw [he, hv] at hw
    rw [he, Link.subscribed.inj hw]
  · rw [htriggered] at ht
    cases ht
  · obtain ⟨h1, h2⟩ := hi.asked w j (List.mem_of_mem_erase hw)
    exact ⟨h1, fun w' hw' => h2 w' ((hlink w' j).mp hw').1⟩
  · have hexits : s.exited = true ↔ s.awaited = [] := hi.exits.trans (and_iff_right htriggered)
    rw [ExitsRightly, Bool.or_eq_true, List.isEmpty_iff, hexits, and_iff_right htriggered]
    by_cases hne : s.awaited = []
    · rw [hne]
      exact iff_of_true (.inl rfl) rfl
    · rw [or_iff_right hne]
      exact hi.eraseID_eq_nil hasked horderly hne

theorem inv_step {s s' : State (attachExitSource σ)} {a : Act σ} (hi : Inv s)
    (horderly : attachExitSource.Orderly s a) (hs : step (attachExitSource σ) s a = some s') :
    Inv s' := by
  cases a with
  | register v =>
      obtain ⟨h, rfl⟩ := of_guarded hs
      exact hi.register h
  | confirmSubscription v =>
      obtain ⟨h, rfl⟩ := of_guarded hs
      exact hi.confirmSubscription h
  | lose v =>
      obtain ⟨-, rfl⟩ := of_guarded hs
      exact hi.lose horderly
  | trigger =>
      obtain ⟨h, rfl⟩ := of_guarded hs
      exact hi.trigger h
  | confirmUnsubscription v id =>
      obtain ⟨h, rfl⟩ := of_guarded hs
      exact hi.confirmUnsubscription h.1 horderly

theorem inv_init : Inv (machine (attachExitSource σ)).init :=
  ⟨fun _ _ => iff_of_false List.not_mem_nil (nomatch ·), fun _ _ => (nomatch ·),
    fun _ _ _ => (nomatch ·), fun _ _ => (nomatch ·), fun _ => ⟨rfl, rfl, fun _ _ => (nomatch ·)⟩,
    fun _ _ => (nomatch ·), iff_of_false (nomatch ·) fun h => (nomatch h.1)⟩

end AttachExitSource

/-! ## One server -/

namespace ConsumerCombination

variable {s : State (consumerCombination σ)} {v : σ} {id : Nat}

structure Inv (s : State (consumerCombination σ)) : Prop where
  asked : s.triggered = false → s.asked = []
  exits : ExitsRightly s

omit [DecidableEq σ] in
/-- The exit source leads to the exit at once if a server or an id is missing. -/
theorem onExitSource_fst {r : ConsumerRecord σ} :
    ((consumerCombination σ).onExitSource r).1 = true ↔ ¬ ∃ v id, r = ⟨some v, some id⟩ := by
  obtain ⟨locatorRecord, idRecord⟩ := r
  cases locatorRecord with
  | none => exact iff_of_true rfl (nomatch ·)
  | some v =>
      cases idRecord with
      | none => exact iff_of_true rfl (nomatch ·)
      | some id => exact iff_of_false (nomatch ·) (not_not_intro ⟨v, id, rfl⟩)

theorem Inv.trigger (hi : Inv s) (h : s.triggered = false)
    (horderly : consumerCombination.Orderly s .trigger) :
    ExitsRightly ({ s with
      asked := ((consumerCombination σ).onExitSource s.record).2
      triggered := true
      exited := s.exited || ((consumerCombination σ).onExitSource s.record).1 } :
        State (consumerCombination σ)) := by
  have hnot : s.exited = false := by
    rw [← Bool.not_eq_true]
    intro he
    have := (hi.exits.mp he).1
    rw [h] at this
    cases this
  rw [ExitsRightly, hnot, Bool.false_or]
  calc ((consumerCombination σ).onExitSource s.record).1 = true
    _ ↔ ¬ ∃ v id, s.record = ⟨some v, some id⟩ := onExitSource_fst
    _ ↔ s.awaited = [] := (not_congr horderly).trans not_not
    _ ↔ true = true ∧ s.awaited = [] := (and_iff_right rfl).symm

/-- The first confirmation leads to the exit. -/
theorem Inv.confirmUnsubscription (hi : Inv s) (hasked : (v, id) ∈ s.asked)
    (hlast : s.awaited.filter (fun e => e ≠ (v, id)) = []) :
    s.triggered = true ∧ ExitsRightly ({ s with
      link := if s.link v = .subscribed id then Function.update s.link v .ended else s.link
      awaited := s.awaited.filter fun e => e ≠ (v, id)
      asked := s.asked.erase (v, id)
      exited := s.exited || ((consumerCombination σ).onUnsubscription s.record id).2
      record := ((consumerCombination σ).onUnsubscription s.record id).1 } :
        State (consumerCombination σ)) := by
  have ht : s.triggered = true := by
    rw [← Bool.not_eq_false]
    intro ht
    rw [hi.asked ht] at hasked
    cases hasked
  exact ⟨ht, iff_of_true (Bool.or_true _) ⟨ht, hlast⟩⟩

theorem inv_step {s s' : State (consumerCombination σ)} {a : Act σ} (hi : Inv s)
    (horderly : consumerCombination.Orderly s a)
    (hs : step (consumerCombination σ) s a = some s') : Inv s' := by
  cases a with
  | register v =>
      obtain ⟨-, rfl⟩ := of_guarded hs
      exact ⟨hi.asked, hi.exits⟩
  | confirmSubscription v =>
      obtain ⟨-, rfl⟩ := of_guarded hs
      refine ⟨hi.asked, hi.exits.of_same rfl rfl fun ht => ?_⟩
      rw [if_pos ht]
  | lose v =>
      obtain ⟨-, rfl⟩ := of_guarded hs
      exact ⟨hi.asked, hi.exits.lose horderly rfl rfl rfl⟩
  | trigger =>
      obtain ⟨h, rfl⟩ := of_guarded hs
      exact ⟨(nomatch ·), hi.trigger h horderly⟩
  | confirmUnsubscription v id =>
      obtain ⟨h, rfl⟩ := of_guarded hs
      obtain ⟨ht, hexits⟩ := hi.confirmUnsubscription h.1 horderly
      refine ⟨fun hf => ?_, hexits⟩
      rw [ht] at hf
      cases hf

end ConsumerCombination

/-! ## Both -/

/--
**The exit comes in time.** In an orderly run it is called when the trigger has come and all that
was subscribed before it has ended or been lost, and not before.
-/
theorem exitsRightly_of_orderly :
    (∀ s, (machine (attachExitSource σ)).Reach attachExitSource.Orderly s → ExitsRightly s) ∧
    ∀ s, (machine (consumerCombination σ)).Reach consumerCombination.Orderly s →
      ExitsRightly s := by
  refine ⟨fun s h => ?_, fun s h => ?_⟩
  · exact (h.invariant AttachExitSource.inv_init fun _ _ _ => AttachExitSource.inv_step).exits
  · have hinit : ConsumerCombination.Inv (machine (consumerCombination σ)).init :=
      ⟨fun _ => rfl, iff_of_false (nomatch ·) fun h => (nomatch h.1)⟩
    exact (h.invariant hinit fun _ _ _ => ConsumerCombination.inv_step).exits

/-- One of two servers is lost, and the other confirms the end. -/
def oneLost : List (Act Bool) :=
  [.register true, .confirmSubscription true, .register false, .confirmSubscription false,
   .trigger, .lose false, .confirmUnsubscription true 1]

def oneServer : List (Act Bool) :=
  [.register true, .confirmSubscription true, .trigger, .confirmUnsubscription true 1]

theorem exitsRightly_twice :
    let s := (machine (attachExitSource Bool)).exec (machine (attachExitSource Bool)).init oneLost
    let s' := (machine (consumerCombination Bool)).exec
      (machine (consumerCombination Bool)).init oneServer
    (s.exited = true ∧ ExitsRightly s) ∧ s'.exited = true ∧ ExitsRightly s' := by
  refine ⟨⟨rfl, exitsRightly_of_orderly.1 _ (.exec .init ?_)⟩,
    rfl, exitsRightly_of_orderly.2 _ (.exec .init ?_)⟩
  · refine ⟨trivial, trivial, trivial, trivial, trivial, fun _ _ => ?_, fun _ _ v id h => ?_,
      trivial⟩
    · decide
    · cases v with
      | true => rfl
      | false => cases h
  · refine ⟨trivial, trivial, iff_of_true ⟨true, 1, rfl⟩ ?_, ?_, trivial⟩
    · decide
    · rfl

/-- The only server is lost after the trigger. -/
def lostAfterTrigger : List (Act Bool) :=
  [.register true, .confirmSubscription true, .trigger, .lose true]

/-- The server that was lost is not the one that is still subscribed. -/
def lostBeforeTrigger : List (Act Bool) :=
  [.register true, .confirmSubscription true, .register false, .confirmSubscription false,
   .lose false, .trigger]

theorem not_exitsRightly_lost :
    (¬ ∀ s, (machine (attachExitSource Bool)).Reach (fun _ _ => True) s → ExitsRightly s) ∧
    ¬ ∀ s, (machine (consumerCombination Bool)).Reach (fun _ _ => True) s → ExitsRightly s := by
  constructor
  · intro h
    have hr := (h ((machine (attachExitSource Bool)).exec (machine (attachExitSource Bool)).init
      lostAfterTrigger) (Machine.Reach.init.exec (.of_forall (fun _ _ => trivial) _ _))).mpr
        ⟨rfl, rfl⟩
    cases hr
  · intro h
    have hr := (h ((machine (consumerCombination Bool)).exec
      (machine (consumerCombination Bool)).init lostBeforeTrigger)
        (Machine.Reach.init.exec (.of_forall (fun _ _ => trivial) _ _))).mp rfl
    exact absurd hr.2 (by decide)

end ExitProtocols
