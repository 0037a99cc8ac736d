import Mathlib.Algebra.Ring.Nat
import TMTransport.Broadcast.Clients
import TMTransport.Library.Machine
import TMTransport.Locator.ConnectionLocator

/-!
# The subscriptions of a component

The ZeroMQ, NNG, singlecast and multicast components keep their subscriptions in the
same way. A client is added in two locked regions: the subscription for its locator is
found, or started, and then the client is added to it. It is removed in three: its id
is forgotten, it is taken from its subscription, and if the subscription has no client
now, that is stopped, taken from the map, and destroyed.

Between its regions a call has a pointer to the subscription. If another call destroys
the subscription at that time, the pointer leads to an object that is not in the map.
-/

namespace SubscriptionRegistry

open ConnectionLocator Interleave Subscription

inductive Component where
  | zeroMQ
  | nng
  | singlecast
  | multicast
  deriving DecidableEq

/-- The locator under which a subscription is kept. -/
def Component.key (d : Locator) : Component → Locator
  | .zeroMQ => ⟨d.host, d.port, [], [], d.identifier, .empty⟩
  | .nng | .singlecast | .multicast => ⟨d.host, d.port, [], [], [], .empty⟩

structure Subscription where
  locator : Locator
  clients : Clients
  running : Bool

/-- Where a thread is in its call. A number stands for the pointer to a subscription. -/
inductive Phase where
  | idle
  /-- In `addSubscriptionClient`, with the subscription found or started. -/
  | adding (p : Nat) (topic : TopicSelection) (client : ClientCB)
  /-- In `removeSubscriptionClient`, with the id forgotten. -/
  | removing (p id : Nat)
  /-- It is to call `potentiallyStopSubscription`. -/
  | stopping (p : Nat)

/-- The subscription that a thread has a pointer to. -/
def Phase.pointer : Phase → Option Nat
  | .idle => none
  | .adding p _ _ => some p
  | .removing p _ => some p
  | .stopping p => some p

structure State (τ : Type) where
  /-- All the subscriptions there have been. What was destroyed stays as it was. -/
  object : Nat → Subscription
  count : Nat
  /-- `subscriptions_` -/
  subscriptions : Locator → Option Nat
  /-- `counter_`, a `uint32_t` -/
  counter : Nat
  idToSubscriptionMap : Nat → Option Nat
  phase : τ → Phase
  /-- The clients that have been added and not been removed, with the keys of their locators. -/
  live : List (Nat × Locator)

inductive Act (τ : Type) where
  /-- The first region of the call. To start a subscription may fail, with an exception. -/
  | addSubscriptionClient (t : τ) (locator : Locator) (topic : TopicSelection) (client : ClientCB)
      (opens : Bool)
  /-- The first region of the call. -/
  | removeSubscriptionClient (t : τ) (id : Nat)
  /-- The next region of the thread's call. -/
  | goOn (t : τ)

section Step

variable {τ : Type} [DecidableEq τ]

def State.move (s : State τ) (t : τ) (x : Phase) : State τ :=
  { s with phase := Function.update s.phase t x }

def State.setClients (s : State τ) (p : Nat) (c : Clients) : State τ :=
  { s with object := Function.update s.object p { s.object p with clients := c } }

/-- A new subscription, in the map. -/
def State.start (s : State τ) (k : Locator) : State τ :=
  { s with
    object := Function.update s.object s.count ⟨k, .empty, true⟩
    count := s.count + 1
    subscriptions := Function.update s.subscriptions k (some s.count) }

def addSubscriptionClient (s : State τ) (t : τ) (k : Locator) (topic : TopicSelection)
    (client : ClientCB) (opens : Bool) : State τ :=
  match s.subscriptions k with
  | some p => s.move t (.adding p topic client)
  | none => if opens then (s.start k).move t (.adding s.count topic client) else s

/-- The thread is to remove the client, whose id is known no more. -/
def State.forget (s : State τ) (t : τ) (p id : Nat) : State τ :=
  { s.move t (.removing p id) with
    idToSubscriptionMap := Function.update s.idToSubscriptionMap id none
    live := s.live.filter fun e => e.1 ≠ id }

def removeSubscriptionClient (s : State τ) (t : τ) (id : Nat) : State τ :=
  match s.idToSubscriptionMap id with
  | none => s
  | some p => s.forget t p id

/-- A client comes to a subscription. -/
def State.join (s : State τ) (p id : Nat) (topic : TopicSelection) (client : ClientCB) : State τ :=
  { s.setClients p ((s.object p).clients.addClient { client with id := id } topic) with
    counter := id
    idToSubscriptionMap := Function.update s.idToSubscriptionMap id (some p)
    live := (id, (s.object p).locator) :: s.live }

/-- The region of `addSubscriptionClient` under `idMutex_`. -/
def addSubscription (s : State τ) (t : τ) (p : Nat) (topic : TopicSelection) (client : ClientCB) :
    State τ :=
  (s.join p ((s.counter + 1) % 2 ^ 32) topic client).move t .idle

def removeSubscription (s : State τ) (t : τ) (p id : Nat) : State τ :=
  (s.setClients p ((s.object p).clients.removeClient id)).move t (.stopping p)

/-- Whatever is in the map under the locator of the subscription is erased. -/
def State.stop (s : State τ) (t : τ) (p : Nat) : State τ :=
  { s.move t .idle with
    object := Function.update s.object p { s.object p with running := false }
    subscriptions := Function.update s.subscriptions (s.object p).locator none }

def potentiallyStopSubscription (s : State τ) (t : τ) (p : Nat) : State τ :=
  if (s.object p).clients.isEmpty then s.stop t p else s.move t .idle

def step (c : Component) (s : State τ) : Act τ → Option (State τ)
  | .addSubscriptionClient t locator topic client opens =>
    match s.phase t with
    | .idle => some (addSubscriptionClient s t (c.key locator) topic client opens)
    | _ => none
  | .removeSubscriptionClient t id =>
    match s.phase t with
    | .idle => some (removeSubscriptionClient s t id)
    | _ => none
  | .goOn t =>
    match s.phase t with
    | .idle => none
    | .adding p topic client => some (addSubscription s t p topic client)
    | .removing p id => some (removeSubscription s t p id)
    | .stopping p => some (potentiallyStopSubscription s t p)

def machine (τ : Type) [DecidableEq τ] (c : Component) : Machine (State τ) (Act τ) where
  init :=
    ⟨fun _ => ⟨default, .empty, false⟩, 0, fun _ => none, 0, fun _ => none, fun _ => .idle, []⟩
  step := step c

end Step

variable {τ : Type}

def Subscription.ids (o : Subscription) : List Nat :=
  o.clients.registered.map fun f => f.2.id

def State.ids (s : State τ) (p : Nat) : List Nat := (s.object p).ids

structure Registered (s : State τ) : Prop where
  /-- Every client is with a running subscription of its locator, which is in the map. -/
  kept : ∀ e ∈ s.live, ∃ p, s.subscriptions e.2 = some p ∧ (s.object p).locator = e.2 ∧
    (s.object p).running = true ∧ e.1 ∈ s.ids p
  /-- There is one running subscription for a locator at most, the one in the map. -/
  unique : ∀ p, (s.object p).running = true → s.subscriptions (s.object p).locator = some p
  /-- A subscription in the map has a client. -/
  used : ∀ k p, s.subscriptions k = some p → ∃ id, (id, k) ∈ s.live ∧ id ∈ s.ids p

/--
There are fewer than `2 ^ 32` clients; and a subscription that is found without clients is stopped
only where no other call has a pointer to it.
-/
def Orderly (s : State τ) : Act τ → Prop
  | .goOn t => (∀ p topic client, s.phase t = .adding p topic client → s.counter + 1 < 2 ^ 32) ∧
      ∀ p, s.phase t = .stopping p → (s.object p).clients.isEmpty = true →
        ∀ t', t' ≠ t → (s.phase t').pointer ≠ some p
  | _ => True

/-! ## The invariant -/

structure Inv (s : State τ) : Prop where
  mapped : ∀ k p, s.subscriptions k = some p →
    p < s.count ∧ (s.object p).locator = k ∧ (s.object p).running = true
  /-- Nothing else runs. -/
  only : ∀ p, (s.object p).running = true → s.subscriptions (s.object p).locator = some p
  /-- What a thread has a pointer to is in the map. -/
  busy : ∀ t p, (s.phase t).pointer = some p → s.subscriptions (s.object p).locator = some p
  byID : ∀ e ∈ s.live, ∃ p, s.subscriptions e.2 = some p ∧ s.idToSubscriptionMap e.1 = some p
  known : ∀ id p, s.idToSubscriptionMap id = some p →
    s.subscriptions (s.object p).locator = some p ∧ (id, (s.object p).locator) ∈ s.live
  /-- A subscription has the clients of its locator, and those that are being removed. -/
  clients : ∀ k p, s.subscriptions k = some p → ∀ id,
    id ∈ s.ids p ↔ (id, k) ∈ s.live ∨ ∃ t, s.phase t = .removing p id
  used : ∀ k p, s.subscriptions k = some p → s.ids p ≠ [] ∨ ∃ t, (s.phase t).pointer = some p
  old : ∀ e ∈ s.live, e.1 ≤ s.counter
  forgotten : ∀ t p id, s.phase t = .removing p id →
    id ≤ s.counter ∧ s.idToSubscriptionMap id = none ∧
      ∀ t' p', s.phase t' = .removing p' id → t' = t

/-- A client is with a running subscription, which is in the map. -/
theorem Inv.kept_of_live {s : State τ} (hi : Inv s) {id : Nat} {k : Locator}
    (h : (id, k) ∈ s.live) : ∃ p, s.subscriptions k = some p ∧ (s.object p).locator = k ∧
      (s.object p).running = true ∧ id ∈ s.ids p := by
  obtain ⟨p, hp, -⟩ := hi.byID _ h
  obtain ⟨-, hloc, hrun⟩ := hi.mapped _ _ hp
  exact ⟨p, hp, hloc, hrun, (hi.clients _ _ hp id).mpr (.inl h)⟩

theorem Inv.registered {s : State τ} (hi : Inv s) (hq : ∀ t, s.phase t = .idle) :
    Registered s where
  kept := fun _ he => hi.kept_of_live he
  unique := hi.only
  used := fun k p hp => by
    rcases hi.used k p hp with h | ⟨t, ht⟩
    · obtain ⟨id, hid⟩ := List.exists_mem_of_ne_nil _ h
      rcases (hi.clients k p hp id).mp hid with h1 | ⟨t, ht⟩
      · exact ⟨id, h1, hid⟩
      · rw [hq t] at ht
        cases ht
    · rw [hq t] at ht
      cases ht

/-! ## The regions -/

section Regions

variable {s : State τ} {t t' : τ} {x : Phase} {k : Locator} {p id : Nat}

@[simp]
theorem setClients_locator {c : Clients} {p' : Nat} :
    ((s.setClients p c).object p').locator = (s.object p').locator := by
  simp only [State.setClients, Function.update_apply]
  split
  · next h => rw [h]
  · rfl

@[simp]
theorem setClients_running {c : Clients} {p' : Nat} :
    ((s.setClients p c).object p').running = (s.object p').running := by
  simp only [State.setClients, Function.update_apply]
  split
  · next h => rw [h]
  · rfl

theorem setClients_ids_self {c : Clients} :
    (s.setClients p c).ids p = c.registered.map fun f => f.2.id := by
  simp [State.ids, State.setClients, Subscription.ids]

theorem setClients_ids_of_ne {c : Clients} {p' : Nat} (h : p' ≠ p) :
    (s.setClients p c).ids p' = s.ids p' :=
  congrArg Subscription.ids (Function.update_of_ne h _ _)

theorem mem_ids_join_self {topic : TopicSelection} {client : ClientCB} {x : Nat} :
    x ∈ (s.join p id topic client).ids p ↔ x = id ∨ x ∈ s.ids p := by
  rw [show (s.join p id topic client).ids p = _ from setClients_ids_self,
    (Clients.registered_addClient.map _).mem_iff, List.map_cons, List.mem_cons]
  rfl

theorem pointer_of_removing (h : s.phase t = .removing p id) : (s.phase t).pointer = some p := by
  rw [h]
  rfl

/-- An id that is being removed is not that of a client. -/
theorem Inv.not_live (hi : Inv s) (h : s.phase t = .removing p id) : (id, k) ∉ s.live := by
  intro hl
  obtain ⟨p', -, hid⟩ := hi.byID _ hl
  rw [(hi.forgotten _ _ _ h).2.1] at hid
  cases hid

/-- What is in the map is as it was after a subscription has been started. -/
theorem Inv.start_of_mapped (hi : Inv s) (hnone : s.subscriptions k = none) {k' : Locator}
    (h : s.subscriptions k' = some p) :
    p ≠ s.count ∧ (s.start k).object p = s.object p ∧
      (s.start k).subscriptions k' = some p := by
  have hlt := (hi.mapped _ _ h).1
  refine ⟨by omega, Function.update_of_ne (by omega) _ _, ?_⟩
  have hk : k' ≠ k := fun he => by
    rw [he, hnone] at h
    cases h
  rw [← h]
  exact Function.update_of_ne hk _ _

theorem mapped_of_start {k' : Locator} (h : (s.start k).subscriptions k' = some p) :
    (k' = k ∧ p = s.count) ∨ s.subscriptions k' = some p := by
  simp only [State.start, Function.update_apply] at h
  split at h
  · next hk => exact .inl ⟨hk, (Option.some.inj h).symm⟩
  · exact .inr h

theorem start_object_self : (s.start k).object s.count = ⟨k, .empty, true⟩ :=
  Function.update_self _ _ _

theorem Inv.join (hi : Inv s) (hp : s.subscriptions (s.object p).locator = some p)
    (topic : TopicSelection) (client : ClientCB) :
    Inv (s.join p (s.counter + 1) topic client) := by
  have hids : ∀ {p'}, p' ≠ p → (s.join p (s.counter + 1) topic client).ids p' = s.ids p' :=
    setClients_ids_of_ne
  exact {
    mapped := fun k' p' hp' => by
      obtain ⟨h1, h2, h3⟩ := hi.mapped k' p' hp'
      exact ⟨h1, setClients_locator.trans h2, setClients_running.trans h3⟩
    only := fun p' hp' => by
      have h := hi.only p' (setClients_running.symm.trans hp')
      rw [← setClients_locator] at h
      exact h
    busy := fun t' p' hp' => by
      have h := hi.busy t' p' hp'
      rw [← setClients_locator] at h
      exact h
    byID := fun e he => by
      rcases List.mem_cons.mp he with rfl | he
      · exact ⟨p, hp, Function.update_self _ _ _⟩
      · obtain ⟨p', h1, h2⟩ := hi.byID e he
        have := hi.old e he
        refine ⟨p', h1, ?_⟩
        rw [← h2]
        exact Function.update_of_ne (by omega) _ _
    known := fun id' p' h => by
      simp only [State.join, Function.update_apply] at h
      simp only [State.join, setClients_locator, List.mem_cons]
      split at h
      · next he =>
        obtain rfl : p = p' := Option.some.inj h
        exact ⟨hp, .inl (by rw [he])⟩
      · obtain ⟨h1, h2⟩ := hi.known id' p' h
        exact ⟨h1, .inr h2⟩
    clients := fun k' p' hp' id' => by
      have hold := hi.clients k' p' hp' id'
      have hloc := (hi.mapped k' p' hp').2.1
      by_cases he : p' = p
      · subst he
        rw [mem_ids_join_self, hold, ← or_assoc]
        refine or_congr_left ?_
        simp [State.join, hloc]
      · rw [hids he, hold]
        refine or_congr_left ?_
        simp only [State.join, List.mem_cons, iff_or_self]
        intro h
        -- the new client has the locator of its own subscription
        obtain ⟨-, rfl⟩ := Prod.mk.inj h
        exact absurd (Option.some.inj (hp'.symm.trans hp)) he
    used := fun k' p' hp' => by
      refine (hi.used k' p' hp').imp_left fun h => ?_
      by_cases he : p' = p
      · subst he
        exact List.ne_nil_of_mem (mem_ids_join_self.mpr (.inl rfl))
      · rwa [hids he]
    old := fun e he => by
      rcases List.mem_cons.mp he with rfl | he
      · exact Nat.le_refl _
      · exact Nat.le_succ_of_le (hi.old e he)
    forgotten := fun t₁ p₁ id₁ h₁ => by
      obtain ⟨h2, h3, h4⟩ := hi.forgotten t₁ p₁ id₁ h₁
      refine ⟨Nat.le_succ_of_le h2, ?_, h4⟩
      rw [← h3]
      exact Function.update_of_ne (by omega) _ _ }

variable [DecidableEq τ]

@[simp]
theorem move_phase_self : (s.move t x).phase t = x := Function.update_self _ _ _

@[simp]
theorem stop_phase_self : (s.stop t p).phase t = .idle := move_phase_self

theorem move_phase_of_ne (h : t' ≠ t) : (s.move t x).phase t' = s.phase t' :=
  Function.update_of_ne h _ _

/-- A thread that removes no client goes on, and what it leaves is still in use. -/
theorem Inv.move (hi : Inv s) (hfrom : ∀ p id, s.phase t ≠ .removing p id)
    (hto : ∀ p id, x ≠ .removing p id)
    (hx : ∀ p, x.pointer = some p → s.subscriptions (s.object p).locator = some p)
    (hused : ∀ p, (s.phase t).pointer = some p → x.pointer = some p ∨ s.ids p ≠ []) :
    Inv (s.move t x) where
  mapped := hi.mapped
  only := hi.only
  busy := fun t' p hp => by
    by_cases ht : t' = t
    · subst ht
      rw [move_phase_self] at hp
      exact hx p hp
    · rw [move_phase_of_ne ht] at hp
      exact hi.busy t' p hp
  byID := hi.byID
  known := hi.known
  clients := fun k p hp id => by
    refine (hi.clients k p hp id).trans (or_congr_right (exists_congr fun t' => ?_))
    by_cases ht : t' = t
    · subst ht
      rw [move_phase_self]
      exact ⟨fun h => absurd h (hfrom p id), fun h => absurd h (hto p id)⟩
    · rw [move_phase_of_ne ht]
  used := fun k p hp => by
    rcases hi.used k p hp with h | ⟨t', ht'⟩
    · exact .inl h
    · by_cases ht : t' = t
      · subst ht
        rcases hused p ht' with h | h
        · exact .inr ⟨t', by rw [move_phase_self, h]⟩
        · exact .inl h
      · exact .inr ⟨t', by rw [move_phase_of_ne ht, ht']⟩
  old := hi.old
  forgotten := fun t₁ p id h₁ => by
    have hne : ∀ {t₂ p₂}, (s.move t x).phase t₂ = .removing p₂ id → t₂ ≠ t := fun h₂ he => by
      subst he
      rw [move_phase_self] at h₂
      exact hto _ _ h₂
    have h := hne h₁
    rw [move_phase_of_ne h] at h₁
    obtain ⟨hle, hnone, huniq⟩ := hi.forgotten _ _ _ h₁
    refine ⟨hle, hnone, fun t₂ p₂ h₂ => huniq t₂ p₂ ?_⟩
    rwa [move_phase_of_ne (hne h₂)] at h₂

theorem Inv.start (hi : Inv s) (hnone : s.subscriptions k = none) (ht : s.phase t = .idle)
    {topic : TopicSelection} {client : ClientCB} :
    Inv ((s.start k).move t (.adding s.count topic client)) := by
  have hphase : ∀ {t' p id}, ((s.start k).move t (.adding s.count topic client)).phase t' =
      .removing p id ↔ s.phase t' = .removing p id := by
    intro t' p id
    by_cases h : t' = t
    · subst h
      simp [ht]
    · rw [move_phase_of_ne h]
      rfl
  have hself : (s.start k).subscriptions k = some s.count := Function.update_self _ _ _
  exact {
    mapped := fun k' p hp => by
      rcases mapped_of_start hp with ⟨rfl, rfl⟩ | h
      · have ho : (s.start k').object s.count = ⟨k', .empty, true⟩ := start_object_self
        refine ⟨Nat.lt_succ_self _, ?_, ?_⟩
        · exact congrArg Subscription.locator ho
        · exact congrArg Subscription.running ho
      · obtain ⟨hlt, hloc, hrun⟩ := hi.mapped _ _ h
        obtain ⟨-, ho, -⟩ := hi.start_of_mapped hnone h
        refine ⟨Nat.lt_succ_of_lt hlt, ?_, ?_⟩
        · exact (congrArg Subscription.locator ho).trans hloc
        · exact (congrArg Subscription.running ho).trans hrun
    only := fun p hp => by
      change ((s.start k).object p).running = true at hp
      change (s.start k).subscriptions ((s.start k).object p).locator = some p
      by_cases he : p = s.count
      · rw [he, start_object_self]
        exact hself
      · have ho : (s.start k).object p = s.object p := Function.update_of_ne he _ _
        rw [ho] at hp ⊢
        exact (hi.start_of_mapped hnone (hi.only p hp)).2.2
    busy := fun t' p hp => by
      change (s.start k).subscriptions ((s.start k).object p).locator = some p
      by_cases h : t' = t
      · subst h
        rw [move_phase_self] at hp
        obtain rfl : s.count = p := Option.some.inj hp
        rw [start_object_self]
        exact hself
      · rw [move_phase_of_ne h] at hp
        obtain ⟨-, ho, hm⟩ := hi.start_of_mapped hnone (hi.busy t' p hp)
        rw [ho]
        exact hm
    byID := fun e he => by
      obtain ⟨p, hp, hid⟩ := hi.byID e he
      exact ⟨p, (hi.start_of_mapped hnone hp).2.2, hid⟩
    known := fun id p hid => by
      obtain ⟨hp, hl⟩ := hi.known id p hid
      obtain ⟨-, ho, hm⟩ := hi.start_of_mapped hnone hp
      change (s.start k).subscriptions ((s.start k).object p).locator = some p ∧
        (id, ((s.start k).object p).locator) ∈ s.live
      rw [ho]
      exact ⟨hm, hl⟩
    clients := fun k' p hp id => by
      simp only [hphase]
      rcases mapped_of_start hp with ⟨rfl, rfl⟩ | h
      · -- nobody is with the new one
        have hids : ((s.start k').move t (.adding s.count topic client)).ids s.count = [] :=
          congrArg Subscription.ids start_object_self
        rw [hids]
        refine ⟨fun h => (nomatch h), fun h => ?_⟩
        rcases h with h | ⟨t', ht'⟩
        · obtain ⟨p, hp, -⟩ := hi.byID _ h
          rw [hnone] at hp
          cases hp
        · have := (hi.mapped _ _ (hi.busy t' _ (pointer_of_removing ht'))).1
          omega
      · have hids : ((s.start k).move t (.adding s.count topic client)).ids p = s.ids p :=
          congrArg Subscription.ids (hi.start_of_mapped hnone h).2.1
        rw [hids]
        exact hi.clients k' p h id
    used := fun k' p hp => by
      rcases mapped_of_start hp with ⟨rfl, rfl⟩ | h
      · exact .inr ⟨t, by rw [move_phase_self]; rfl⟩
      · have hids : ((s.start k).move t (.adding s.count topic client)).ids p = s.ids p :=
          congrArg Subscription.ids (hi.start_of_mapped hnone h).2.1
        rw [hids]
        rcases hi.used k' p h with h1 | ⟨t', ht'⟩
        · exact .inl h1
        · refine .inr ⟨t', ?_⟩
          rw [move_phase_of_ne, ← ht']
          · rfl
          · intro he
            rw [he, ht] at ht'
            cases ht'
    old := hi.old
    forgotten := fun t₁ p id h₁ => by
      obtain ⟨hle, hnone', huniq⟩ := hi.forgotten _ _ _ (hphase.mp h₁)
      exact ⟨hle, hnone', fun t₂ p₂ h₂ => huniq t₂ p₂ (hphase.mp h₂)⟩ }

theorem Inv.addSubscriptionClient (hi : Inv s) (ht : s.phase t = .idle) (topic : TopicSelection)
    (client : ClientCB) (opens : Bool) :
    Inv (addSubscriptionClient s t k topic client opens) := by
  rw [SubscriptionRegistry.addSubscriptionClient]
  cases hk : s.subscriptions k with
  | some p =>
      refine hi.move ?_ ?_ ?_ ?_
      · intro p id h
        rw [ht] at h
        cases h
      · intro p id h
        cases h
      · intro p' hp
        obtain rfl : p = p' := Option.some.inj hp
        rw [(hi.mapped _ _ hk).2.1, hk]
      · intro p hp
        rw [ht] at hp
        cases hp
  | none =>
      cases opens with
      | true => exact hi.start hk ht
      | false => exact hi

@[simp]
theorem forget_phase_self : (s.forget t p id).phase t = .removing p id :=
  Function.update_self _ _ _

theorem forget_phase_of_ne (h : t' ≠ t) : (s.forget t p id).phase t' = s.phase t' :=
  Function.update_of_ne h _ _

/-- The id that is removed is that of a client no more. -/
theorem Inv.forget (hi : Inv s) (ht : s.phase t = .idle)
    (hid : s.idToSubscriptionMap id = some p) : Inv (s.forget t p id) := by
  obtain ⟨hp, hlive⟩ := hi.known id p hid
  have hother : ∀ {t' p'}, s.phase t' ≠ .removing p' id := fun h => by
    rw [(hi.forgotten _ _ _ h).2.1] at hid
    cases hid
  exact {
    mapped := hi.mapped
    only := hi.only
    busy := fun t' p' hp' => by
      by_cases h : t' = t
      · subst h
        rw [forget_phase_self] at hp'
        obtain rfl : p = p' := Option.some.inj hp'
        exact hp
      · rw [forget_phase_of_ne h] at hp'
        exact hi.busy t' p' hp'
    byID := fun e he => by
      obtain ⟨hl, hne⟩ := List.mem_filter.mp he
      obtain ⟨p', hp', hid'⟩ := hi.byID e hl
      refine ⟨p', hp', ?_⟩
      rw [← hid']
      exact Function.update_of_ne (of_decide_eq_true hne) _ _
    known := fun id' p' h => by
      simp only [State.forget, Function.update_apply] at h
      split at h
      · cases h
      · next hne =>
        obtain ⟨h1, h2⟩ := hi.known id' p' h
        exact ⟨h1, List.mem_filter.mpr ⟨h2, decide_eq_true hne⟩⟩
    clients := fun k' p' hp' id' => by
      refine (hi.clients k' p' hp' id').trans ⟨fun h => ?_, fun h => ?_⟩
      · rcases h with h | ⟨t', ht'⟩
        · by_cases hne : id' = id
          · -- the client that is being removed was with this subscription
            subst hne
            obtain ⟨p'', h1, h2⟩ := hi.byID _ h
            obtain rfl : p'' = p' := Option.some.inj (h1.symm.trans hp')
            obtain rfl : p'' = p := Option.some.inj (h2.symm.trans hid)
            exact .inr ⟨t, forget_phase_self⟩
          · exact .inl (List.mem_filter.mpr ⟨h, decide_eq_true hne⟩)
        · refine .inr ⟨t', ?_⟩
          rw [← ht']
          refine forget_phase_of_ne fun he => ?_
          rw [he, ht] at ht'
          cases ht'
      · rcases h with h | ⟨t', ht'⟩
        · exact .inl (List.mem_filter.mp h).1
        · by_cases h : t' = t
          · subst h
            rw [forget_phase_self] at ht'
            cases ht'
            rw [(hi.mapped _ _ hp').2.1] at hlive
            exact .inl hlive
          · rw [forget_phase_of_ne h] at ht'
            exact .inr ⟨t', ht'⟩
    used := fun k' p' hp' => by
      rcases hi.used k' p' hp' with h | ⟨t', ht'⟩
      · exact .inl h
      · refine .inr ⟨t', ?_⟩
        rw [← ht']
        refine congrArg Phase.pointer (forget_phase_of_ne fun he => ?_)
        rw [he, ht] at ht'
        cases ht'
    old := fun e he => hi.old e (List.mem_filter.mp he).1
    forgotten := fun t₁ p₁ id₁ h₁ => by
      by_cases h : t₁ = t
      · subst h
        rw [forget_phase_self] at h₁
        cases h₁
        refine ⟨hi.old _ hlive, Function.update_self _ _ _, fun t₂ p₂ h₂ => ?_⟩
        by_contra hne
        rw [forget_phase_of_ne hne] at h₂
        exact hother h₂
      · rw [forget_phase_of_ne h] at h₁
        obtain ⟨h2, h3, h4⟩ := hi.forgotten _ _ _ h₁
        have hne : id₁ ≠ id := fun he => hother (he ▸ h₁)
        refine ⟨h2, ?_, fun t₂ p₂ h₂ => ?_⟩
        · rw [← h3]
          exact Function.update_of_ne hne _ _
        · by_cases h5 : t₂ = t
          · subst h5
            rw [forget_phase_self] at h₂
            cases h₂
            exact absurd rfl hne
          · rw [forget_phase_of_ne h5] at h₂
            exact h4 _ _ h₂ }

theorem Inv.removeSubscriptionClient (hi : Inv s) (ht : s.phase t = .idle) (id : Nat) :
    Inv (removeSubscriptionClient s t id) := by
  rw [SubscriptionRegistry.removeSubscriptionClient]
  cases hid : s.idToSubscriptionMap id with
  | none => exact hi
  | some p => exact hi.forget ht hid

/-- The thread that adds a client has not gone on. -/
theorem Inv.addSubscription (hi : Inv s) {topic : TopicSelection} {client : ClientCB}
    (ht : s.phase t = .adding p topic client) (hcount : s.counter + 1 < 2 ^ 32) :
    Inv (addSubscription s t p topic client) := by
  have hid : (s.counter + 1) % 2 ^ 32 = s.counter + 1 := Nat.mod_eq_of_lt hcount
  have hp := hi.busy t p (by rw [ht]; rfl)
  rw [SubscriptionRegistry.addSubscription, hid]
  refine (hi.join hp topic client).move ?_ ?_ ?_ ?_
  · intro p' id h
    rw [show (s.join p _ topic client).phase t = s.phase t from rfl, ht] at h
    cases h
  · intro p' id h
    cases h
  · intro p' h
    cases h
  · intro p' h
    rw [show (s.join p _ topic client).phase t = s.phase t from rfl, ht] at h
    obtain rfl : p = p' := Option.some.inj h
    refine .inr (List.ne_nil_of_mem (a := s.counter + 1) ?_)
    rw [mem_ids_join_self]
    exact .inl rfl

theorem mem_ids_removeClient {c : Clients} {x : Nat} :
    x ∈ (c.removeClient id).registered.map (fun f => f.2.id) ↔
      x ≠ id ∧ x ∈ c.registered.map fun f => f.2.id := by
  simp only [Clients.registered_removeClient, List.mem_map, List.mem_filter]
  constructor
  · intro h
    obtain ⟨f, ⟨hf, hne⟩, rfl⟩ := h
    exact ⟨of_decide_eq_true hne, f, hf, rfl⟩
  · intro h
    obtain ⟨hne, f, hf, rfl⟩ := h
    exact ⟨f, ⟨hf, decide_eq_true hne⟩, rfl⟩

theorem Inv.removeSubscription (hi : Inv s) (ht : s.phase t = .removing p id) :
    Inv (removeSubscription s t p id) := by
  have hself : (SubscriptionRegistry.removeSubscription s t p id).phase t = .stopping p :=
    move_phase_self
  have hother : ∀ {t'}, t' ≠ t →
      (SubscriptionRegistry.removeSubscription s t p id).phase t' = s.phase t' := move_phase_of_ne
  have hpointer : ∀ t', ((SubscriptionRegistry.removeSubscription s t p id).phase t').pointer =
      (s.phase t').pointer := fun t' => by
    by_cases h : t' = t
    · rw [h, hself, ht]
      rfl
    · rw [hother h]
  -- the threads that remove a client now did so before
  have hstill : ∀ {t' p' x},
      (SubscriptionRegistry.removeSubscription s t p id).phase t' = .removing p' x →
        t' ≠ t ∧ s.phase t' = .removing p' x := by
    intro t' p' x h
    have hne : t' ≠ t := by
      intro he
      rw [he, hself] at h
      cases h
    exact ⟨hne, (hother hne).symm.trans h⟩
  have hids : ∀ {p'}, p' ≠ p →
      (SubscriptionRegistry.removeSubscription s t p id).ids p' = s.ids p' := setClients_ids_of_ne
  have hrest : ∀ {x}, x ∈ (SubscriptionRegistry.removeSubscription s t p id).ids p ↔
      x ≠ id ∧ x ∈ s.ids p := by
    intro x
    rw [show (SubscriptionRegistry.removeSubscription s t p id).ids p = _ from setClients_ids_self]
    exact mem_ids_removeClient
  exact {
    mapped := fun k' p' hp' => by
      obtain ⟨h1, h2, h3⟩ := hi.mapped k' p' hp'
      exact ⟨h1, setClients_locator.trans h2, setClients_running.trans h3⟩
    only := fun p' hp' => by
      have h := hi.only p' (setClients_running.symm.trans hp')
      rw [← setClients_locator] at h
      exact h
    busy := fun t' p' hp' => by
      rw [hpointer] at hp'
      have h := hi.busy t' p' hp'
      rw [← setClients_locator] at h
      exact h
    byID := hi.byID
    known := fun id' p' h => by
      have h' := hi.known id' p' h
      rw [← setClients_locator] at h'
      exact h'
    clients := fun k' p' hp' x => by
      have hold := hi.clients k' p' hp' x
      by_cases he : p' = p
      · subst he
        rw [hrest, hold]
        constructor
        · intro h
          obtain ⟨hne, h | ⟨t', ht'⟩⟩ := h
          · exact .inl h
          · refine .inr ⟨t', (hother ?_).trans ht'⟩
            intro h
            rw [h, ht] at ht'
            cases ht'
            exact hne rfl
        · intro h
          rcases h with h | ⟨t', ht'⟩
          · exact ⟨fun hx => hi.not_live ht (hx ▸ h), .inl h⟩
          · obtain ⟨hne, h⟩ := hstill ht'
            exact ⟨fun hx => hne ((hi.forgotten _ _ _ ht).2.2 t' p' (hx ▸ h)), .inr ⟨t', h⟩⟩
      · rw [hids he, hold]
        refine or_congr_right (exists_congr fun t' => ⟨fun h => ?_, fun h => (hstill h).2⟩)
        refine (hother fun ht' => ?_).trans h
        rw [ht', ht] at h
        cases h
        exact he rfl
    used := fun k' p' hp' => by
      simp only [hpointer]
      by_cases he : p' = p
      · subst he
        exact .inr ⟨t, pointer_of_removing ht⟩
      · rw [hids he]
        exact hi.used k' p' hp'
    old := hi.old
    forgotten := fun t₁ p₁ id₁ h₁ => by
      obtain ⟨h2, h3, h4⟩ := hi.forgotten t₁ p₁ id₁ (hstill h₁).2
      exact ⟨h2, h3, fun t₂ p₂ h₂ => h4 t₂ p₂ (hstill h₂).2⟩ }

/-- A subscription without clients, to which no other thread has a pointer, is stopped. -/
theorem Inv.stop (hi : Inv s) (ht : s.phase t = .stopping p)
    (hempty : (s.object p).clients.isEmpty = true)
    (halone : ∀ t', t' ≠ t → (s.phase t').pointer ≠ some p) : Inv (s.stop t p) := by
  have hp := hi.busy t p (by rw [ht]; rfl)
  have hids : s.ids p = [] := by
    rw [State.ids, Subscription.ids, Clients.isEmpty_iff.mp hempty]
    rfl
  have hobject : ∀ {p'}, p' ≠ p → (s.stop t p).object p' = s.object p' := fun h =>
    Function.update_of_ne h _ _
  have hsub : ∀ {k' p'}, (s.stop t p).subscriptions k' = some p' ↔
      p' ≠ p ∧ s.subscriptions k' = some p' := by
    intro k' p'
    simp only [State.stop, Function.update_apply]
    split
    · next h =>
      rw [h, hp]
      simp only [reduceCtorEq, Option.some.injEq, false_iff, not_and]
      exact fun h1 h2 => h1 h2.symm
    · next h =>
      refine (and_iff_right_of_imp fun h1 he => h ?_).symm
      rw [← (hi.mapped _ _ h1).2.1, he]
  have hphase : ∀ {t' p' id}, (s.stop t p).phase t' = .removing p' id ↔
      s.phase t' = .removing p' id := by
    intro t' p' id
    by_cases h : t' = t
    · subst h
      rw [stop_phase_self, ht]
      exact ⟨fun h => (nomatch h), fun h => (nomatch h)⟩
    · rw [show (s.stop t p).phase t' = s.phase t' from move_phase_of_ne h]
  -- a subscription that is left keeps its place
  have hleft : ∀ {p'}, p' ≠ p → s.subscriptions (s.object p').locator = some p' →
      (s.stop t p).subscriptions ((s.stop t p).object p').locator = some p' := by
    intro p' hne h
    rw [hobject hne]
    exact hsub.mpr ⟨hne, h⟩
  exact {
    mapped := fun k' p' hp' => by
      obtain ⟨hne, h⟩ := hsub.mp hp'
      obtain ⟨h1, h2, h3⟩ := hi.mapped k' p' h
      rw [hobject hne]
      exact ⟨h1, h2, h3⟩
    only := fun p' hp' => by
      have hne : p' ≠ p := by
        intro he
        rw [he, show (s.stop t p).object p = _ from Function.update_self _ _ _] at hp'
        cases hp'
      rw [hobject hne] at hp'
      exact hleft hne (hi.only p' hp')
    busy := fun t' p' hp' => by
      have hne : t' ≠ t := by
        intro he
        rw [he, stop_phase_self] at hp'
        cases hp'
      rw [show (s.stop t p).phase t' = s.phase t' from move_phase_of_ne hne] at hp'
      exact hleft (fun he => halone t' hne (he ▸ hp')) (hi.busy t' p' hp')
    byID := fun e he => by
      obtain ⟨p', h1, h2⟩ := hi.byID e he
      refine ⟨p', hsub.mpr ⟨?_, h1⟩, h2⟩
      rintro rfl
      have := (hi.clients _ _ h1 e.1).mpr (.inl he)
      rw [hids] at this
      cases this
    known := fun id' p' h => by
      obtain ⟨h1, h2⟩ := hi.known id' p' h
      have hne : p' ≠ p := by
        rintro rfl
        have := (hi.clients _ _ h1 id').mpr (.inl h2)
        rw [hids] at this
        cases this
      refine ⟨hleft hne h1, ?_⟩
      rw [hobject hne]
      exact h2
    clients := fun k' p' hp' x => by
      obtain ⟨hne, h⟩ := hsub.mp hp'
      simp only [hphase]
      rw [State.ids, hobject hne]
      exact hi.clients k' p' h x
    used := fun k' p' hp' => by
      obtain ⟨hne, h⟩ := hsub.mp hp'
      rw [State.ids, hobject hne]
      refine (hi.used k' p' h).imp_right fun ⟨t', ht'⟩ => ⟨t', ?_⟩
      rw [← ht']
      refine congrArg Phase.pointer (move_phase_of_ne fun he => hne ?_)
      rw [he, ht] at ht'
      exact (Option.some.inj ht').symm
    old := hi.old
    forgotten := fun t₁ p₁ id₁ h₁ => by
      obtain ⟨h2, h3, h4⟩ := hi.forgotten t₁ p₁ id₁ (hphase.mp h₁)
      exact ⟨h2, h3, fun t₂ p₂ h₂ => h4 t₂ p₂ (hphase.mp h₂)⟩ }

theorem Inv.potentiallyStopSubscription (hi : Inv s) (ht : s.phase t = .stopping p)
    (halone : (s.object p).clients.isEmpty = true → ∀ t', t' ≠ t →
      (s.phase t').pointer ≠ some p) :
    Inv (potentiallyStopSubscription s t p) := by
  have hp := hi.busy t p (by rw [ht]; rfl)
  rw [SubscriptionRegistry.potentiallyStopSubscription]
  split
  · next hempty => exact hi.stop ht hempty (halone hempty)
  · next hempty =>
    refine hi.move ?_ ?_ ?_ ?_
    · intro p' id h
      rw [ht] at h
      cases h
    · intro p' id h
      cases h
    · intro p' h
      cases h
    · intro p' h
      rw [ht] at h
      obtain rfl : p = p' := Option.some.inj h
      refine .inr fun h => hempty ?_
      rw [Clients.isEmpty_iff]
      exact List.map_eq_nil_iff.mp h

end Regions

/-! ## The runs -/

section Runs

variable [DecidableEq τ] {c : Component} {s s' : State τ} {a : Act τ}

theorem Inv.init : Inv (machine τ c).init where
  mapped := fun _ _ h => (nomatch h)
  only := fun _ h => (nomatch h)
  busy := fun _ _ h => (nomatch h)
  byID := fun _ h => (nomatch h)
  known := fun _ _ h => (nomatch h)
  clients := fun _ _ h => (nomatch h)
  used := fun _ _ h => (nomatch h)
  old := fun _ h => (nomatch h)
  forgotten := fun _ _ _ h => (nomatch h)

theorem inv_step (hi : Inv s) (hg : Orderly s a) (h : step c s a = some s') : Inv s' := by
  cases a with
  | addSubscriptionClient t locator topic client opens =>
      cases ht : s.phase t with
      | idle =>
          simp only [step, ht, Option.some.injEq] at h
          subst h
          exact hi.addSubscriptionClient ht topic client opens
      | _ => simp [step, ht] at h
  | removeSubscriptionClient t id =>
      cases ht : s.phase t with
      | idle =>
          simp only [step, ht, Option.some.injEq] at h
          subst h
          exact hi.removeSubscriptionClient ht id
      | _ => simp [step, ht] at h
  | goOn t =>
      cases ht : s.phase t with
      | idle => simp [step, ht] at h
      | adding p topic client =>
          simp only [step, ht, Option.some.injEq] at h
          subst h
          exact hi.addSubscription ht (hg.1 p topic client ht)
      | removing p id =>
          simp only [step, ht, Option.some.injEq] at h
          subst h
          exact hi.removeSubscription ht
      | stopping p =>
          simp only [step, ht, Option.some.injEq] at h
          subst h
          exact hi.potentiallyStopSubscription ht (hg.2 p ht)

/-! ## What an action changes -/

def Act.thread : Act τ → τ
  | .addSubscriptionClient t .. => t
  | .removeSubscriptionClient t _ => t
  | .goOn t => t

/-- The id that an action makes unknown. -/
def Act.removes : Act τ → Option Nat
  | .removeSubscriptionClient _ id => some id
  | _ => none

/-- The client that comes to its subscription by an action. -/
def Act.joins (s : State τ) : Act τ → Option (Nat × Locator)
  | .goOn t =>
    match s.phase t with
    | .adding p _ _ => some ((s.counter + 1) % 2 ^ 32, (s.object p).locator)
    | _ => none
  | _ => none

/-- What an action can do. -/
inductive Effect (c : Component) (s : State τ) : Act τ → State τ → Prop where
  | found {t l topic client opens p} : s.phase t = .idle → s.subscriptions (c.key l) = some p →
      Effect c s (.addSubscriptionClient t l topic client opens) (s.move t (.adding p topic client))
  | started {t l topic client} : s.phase t = .idle → s.subscriptions (c.key l) = none →
      Effect c s (.addSubscriptionClient t l topic client true)
        ((s.start (c.key l)).move t (.adding s.count topic client))
  | failed {t l topic client opens} : s.phase t = .idle →
      Effect c s (.addSubscriptionClient t l topic client opens) s
  | unknown {t id} : s.phase t = .idle → s.idToSubscriptionMap id = none →
      Effect c s (.removeSubscriptionClient t id) s
  | forgotten {t id p} : s.phase t = .idle → s.idToSubscriptionMap id = some p →
      Effect c s (.removeSubscriptionClient t id) (s.forget t p id)
  | added {t p topic client} : s.phase t = .adding p topic client →
      Effect c s (.goOn t) (addSubscription s t p topic client)
  | removed {t p id} : s.phase t = .removing p id →
      Effect c s (.goOn t) (removeSubscription s t p id)
  | stopped {t p} : s.phase t = .stopping p → Effect c s (.goOn t) (s.stop t p)
  | kept {t p} : s.phase t = .stopping p → Effect c s (.goOn t) (s.move t .idle)

theorem effect_of_step (h : step c s a = some s') : Effect c s a s' := by
  cases a with
  | addSubscriptionClient t l topic client opens =>
      simp only [step] at h
      split at h
      · next hidle =>
        obtain rfl := Option.some.inj h
        rw [addSubscriptionClient]
        split
        · next hp => exact .found hidle hp
        · next hp =>
          cases opens with
          | true => exact .started hidle hp
          | false => exact .failed hidle
      · cases h
  | removeSubscriptionClient t id =>
      simp only [step] at h
      split at h
      · next hidle =>
        obtain rfl := Option.some.inj h
        rw [removeSubscriptionClient]
        split
        · next hid => exact .unknown hidle hid
        · next hid => exact .forgotten hidle hid
      · cases h
  | goOn t =>
      simp only [step] at h
      split at h
      · cases h
      · next ht =>
        obtain rfl := Option.some.inj h
        exact .added ht
      · next ht =>
        obtain rfl := Option.some.inj h
        exact .removed ht
      · next ht =>
        obtain rfl := Option.some.inj h
        rw [potentiallyStopSubscription]
        split
        · exact .stopped ht
        · exact .kept ht

theorem Effect.phase_of_ne {t : τ} (h : Effect c s a s') (ht : t ≠ a.thread) :
    s'.phase t = s.phase t := by
  cases h with
  | failed | unknown => rfl
  | forgotten => exact forget_phase_of_ne ht
  | started | found | added | removed | stopped | kept => exact move_phase_of_ne ht

/-- A thread is in a removal only if it has been told to remove. -/
theorem Effect.removing {t : τ} {p id : Nat} (h : Effect c s a s')
    (hp : s'.phase t = .removing p id) :
    s.phase t = .removing p id ∨ a = .removeSubscriptionClient t id := by
  by_cases ht : t = a.thread
  · subst ht
    cases h with
    | failed | unknown => exact .inl hp
    | forgotten =>
        cases (forget_phase_self.symm.trans hp)
        exact .inr rfl
    | started | found | added | removed | stopped | kept => cases move_phase_self.symm.trans hp
  · rw [h.phase_of_ne ht] at hp
    exact .inl hp

/-- A thread is in an addition only if it has been told to add. -/
theorem Effect.adding {t : τ} {p : Nat} {topic : TopicSelection} {client : ClientCB}
    (h : Effect c s a s') (hp : s'.phase t = .adding p topic client) :
    s.phase t = .adding p topic client ∨
      ∃ l topic client opens, a = .addSubscriptionClient t l topic client opens := by
  by_cases ht : t = a.thread
  · subst ht
    cases h with
    | failed | unknown => exact .inl hp
    | started | found => exact .inr ⟨_, _, _, _, rfl⟩
    | forgotten => cases forget_phase_self.symm.trans hp
    | added | removed | stopped | kept => cases move_phase_self.symm.trans hp
  · rw [h.phase_of_ne ht] at hp
    exact .inl hp

/-- The clients after an action. -/
theorem Effect.mem_live_iff (h : Effect c s a s') (hi : Inv s) {e : Nat × Locator} :
    e ∈ s'.live ↔ a.joins s = some e ∨ e ∈ s.live ∧ a.removes ≠ some e.1 := by
  cases h with
  | found | started | failed => simp [Act.joins, Act.removes, State.move, State.start]
  | unknown _ hid =>
      simp only [Act.joins, Act.removes, reduceCtorEq, false_or, ne_eq, Option.some.injEq]
      refine ⟨fun he => ⟨he, fun hne => ?_⟩, And.left⟩
      obtain ⟨p, -, hp⟩ := hi.byID e he
      rw [← hne, hid] at hp
      cases hp
  | forgotten =>
      simp only [Act.joins, Act.removes, State.forget, List.mem_filter, decide_eq_true_eq,
        reduceCtorEq, false_or, ne_eq, Option.some.injEq, eq_comm (a := e.1)]
  | added ht =>
      simp only [Act.joins, ht, Act.removes, addSubscription, State.move, State.join,
        State.setClients, List.mem_cons, Option.some.injEq, reduceCtorEq, ne_eq, not_false_eq_true,
        and_true, eq_comm]
  | removed ht | stopped ht | kept ht =>
      simp [Act.joins, ht, Act.removes, removeSubscription, State.move, State.setClients,
        State.stop]

/-- The ids go up. -/
theorem Effect.counter (h : Effect c s a s') (hg : Orderly s a) :
    (a.joins s = none ∧ s'.counter = s.counter) ∨
      ∃ l, a.joins s = some (s.counter + 1, l) ∧ s'.counter = s.counter + 1 := by
  cases h with
  | found | started | failed | unknown | forgotten => exact .inl ⟨rfl, rfl⟩
  | @added t p topic client ht =>
      have hid : (s.counter + 1) % 2 ^ 32 = s.counter + 1 := Nat.mod_eq_of_lt (hg.1 _ _ _ ht)
      refine .inr ⟨(s.object p).locator, ?_, hid⟩
      rw [← hid]
      simp only [Act.joins, ht]
  | removed ht | stopped ht | kept ht => exact .inl ⟨by simp only [Act.joins, ht], rfl⟩

end Runs

def somewhere : Locator := ⟨['h'], 5000, [], [], ['x'], .empty⟩

def someClient : ClientCB := ⟨0, id, none⟩

/-- Two threads add a client each, at the same time, and then the first removes its own. -/
def twoAtATime : List (Act Bool) :=
  [.addSubscriptionClient true somewhere .noTopicSelection someClient true,
   .addSubscriptionClient false somewhere (.exact [116]) someClient true,
   .goOn false, .goOn true, .removeSubscriptionClient true 2, .goOn true, .goOn true]

/-- The only client is removed, and its subscription stopped, while another is being added. -/
def addWhileStopping : List (Act Bool) :=
  [.addSubscriptionClient true somewhere .noTopicSelection someClient true, .goOn true,
   .removeSubscriptionClient true 1, .goOn true,
   .addSubscriptionClient false somewhere .noTopicSelection someClient true,
   .goOn true, .goOn false]

end SubscriptionRegistry
