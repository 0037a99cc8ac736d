import Mathlib.Data.List.Nodup
import TMTransport.Library.Machine

/-!
# The Redis subscriptions

The component has one subscription object for each host:port and topic that has
clients. Adding a client finds or creates the object, under one lock, and then adds
the client to it, under another. Removing a client takes its id out of the map, then
out of the object, and then stops the object if it has no clients left. For that, the
whole entry of the host:port is erased, with the objects of its other topics.

Redis is assumed to deliver: an object that is there and running gets each message
that matches its topic.
-/

namespace RedisSubscriptions

open Interleave

/-- `OneRedisSubscription` -/
structure Subscription (H T : Type) where
  hostAndPort : H
  topic : T
  clients : List UInt32
  running : Bool

/-- A client, as it was added. -/
structure Client (H T : Type) where
  id : UInt32
  hostAndPort : H
  topic : T

/-- What a thread is in the middle of, with the pointer that it has got. -/
inductive Call (H T : Type) where
  | idle
  | adding (p : Nat) (hostAndPort : H) (topic : T)
  | removing (p : Nat) (id : UInt32)
  | stopping (p : Nat)

inductive Event (M : Type) where
  /-- The client's handler is called. -/
  | called (id : UInt32) (message : M)
  /-- The client is taken out of its subscription. -/
  | removed (id : UInt32)
  deriving DecidableEq

structure State (θ H T M : Type) where
  /-- The subscription objects that are allocated. -/
  objects : Nat → Option (Subscription H T)
  nextObject : Nat
  subscriptions : H → T → Option Nat
  counter : UInt32
  idToSubscriptionMap : UInt32 → Option Nat
  call : θ → Call H T
  /-- All clients that have been added. -/
  added : List (Client H T)
  /-- The ids whose removal has begun. -/
  begun : List UInt32
  /-- The latest event comes first. -/
  history : List (Event M)
  /-- An object has been used that is not allocated. -/
  faulty : Bool

inductive Act (θ H T M : Type) where
  | getOrStartSubscription (t : θ) (hostAndPort : H) (topic : T)
  | addSubscription (t : θ)
  | removeSubscriptionClient (t : θ) (id : UInt32)
  | removeSubscription (t : θ)
  | potentiallyStopSubscription (t : θ)
  /-- A message comes that matches the topic of the object. -/
  | receive (p : Nat) (message : M)

variable {θ H T M : Type}

section Step

variable [DecidableEq θ] [DecidableEq H] [DecidableEq T]

def State.setCall (s : State θ H T M) (t : θ) (c : Call H T) : State θ H T M :=
  { s with call := Function.update s.call t c }

def State.fault (s : State θ H T M) (t : θ) : State θ H T M :=
  { s.setCall t .idle with faulty := true }

def State.put (s : State θ H T M) (p : Nat) (sub : Subscription H T) : State θ H T M :=
  { s with objects := Function.update s.objects p (some sub) }

def getOrStartSubscription (s : State θ H T M) (t : θ) (hostAndPort : H) (topic : T) :
    State θ H T M :=
  match s.subscriptions hostAndPort topic with
  | some p => s.setCall t (.adding p hostAndPort topic)
  | none =>
    { (s.put s.nextObject ⟨hostAndPort, topic, [], true⟩).setCall t
        (.adding s.nextObject hostAndPort topic) with
      nextObject := s.nextObject + 1
      subscriptions := Function.update s.subscriptions hostAndPort
        (Function.update (s.subscriptions hostAndPort) topic (some s.nextObject)) }

def addSubscription (s : State θ H T M) (t : θ) (p : Nat) (hostAndPort : H) (topic : T) :
    State θ H T M :=
  match s.objects p with
  | none => s.fault t
  | some sub =>
    let id := s.counter + 1
    { (s.put p { sub with clients := sub.clients ++ [id] }).setCall t .idle with
      counter := id
      idToSubscriptionMap := Function.update s.idToSubscriptionMap id (some p)
      added := ⟨id, hostAndPort, topic⟩ :: s.added }

def removeSubscriptionClient (s : State θ H T M) (t : θ) (id : UInt32) : State θ H T M :=
  match s.idToSubscriptionMap id with
  | none => s
  | some p =>
    { s.setCall t (.removing p id) with
      idToSubscriptionMap := Function.update s.idToSubscriptionMap id none
      begun := id :: s.begun }

def removeSubscription (s : State θ H T M) (t : θ) (p : Nat) (id : UInt32) : State θ H T M :=
  match s.objects p with
  | none => s.fault t
  | some sub =>
    { (s.put p { sub with clients := sub.clients.filter (· ≠ id) }).setCall t (.stopping p) with
      history := .removed id :: s.history }

/-- `subscriptions_.erase(hostAndPort)`: all objects that the entry has are gone. -/
def eraseEntry (s : State θ H T M) (hostAndPort : H) : State θ H T M :=
  { s with
    objects := fun p =>
      match s.objects p with
      | none => none
      | some sub =>
        if sub.hostAndPort = hostAndPort ∧ s.subscriptions hostAndPort sub.topic = some p then none
        else some sub
    subscriptions := Function.update s.subscriptions hostAndPort fun _ => none }

def potentiallyStopSubscription (s : State θ H T M) (t : θ) (p : Nat) : State θ H T M :=
  match s.objects p with
  | none => s.fault t
  | some sub => if sub.clients = [] then (eraseEntry s sub.hostAndPort).setCall t .idle
      else s.setCall t .idle

def step (s : State θ H T M) : Act θ H T M → Option (State θ H T M)
  | .getOrStartSubscription t hostAndPort topic =>
    match s.call t with
    | .idle => some (getOrStartSubscription s t hostAndPort topic)
    | _ => none
  | .addSubscription t =>
    match s.call t with
    | .adding p hostAndPort topic => some (addSubscription s t p hostAndPort topic)
    | _ => none
  | .removeSubscriptionClient t id =>
    match s.call t with
    | .idle => some (removeSubscriptionClient s t id)
    | _ => none
  | .removeSubscription t =>
    match s.call t with
    | .removing p id => some (removeSubscription s t p id)
    | _ => none
  | .potentiallyStopSubscription t =>
    match s.call t with
    | .stopping p => some (potentiallyStopSubscription s t p)
    | _ => none
  | .receive p message =>
    match s.objects p with
    | none => none
    | some sub =>
      if sub.running then
        some { s with history := sub.clients.map (.called · message) ++ s.history }
      else none

def machine : Machine (State θ H T M) (Act θ H T M) where
  init := ⟨fun _ => none, 0, fun _ _ => none, 0, fun _ => none, fun _ => .idle, [], [], [], false⟩
  step := step

end Step

/-- The object that a thread has a pointer to. -/
def Call.pointer : Call H T → Option Nat
  | .idle => none
  | .adding p _ _ => some p
  | .removing p _ => some p
  | .stopping p => some p

/--
No id is given out twice, and a subscription is stopped only when the host:port has no other topic
and no other thread has a pointer to it.
-/
def Orderly (s : State θ H T M) : Act θ H T M → Prop
  | .addSubscription _ => ∀ x ∈ s.added, x.id ≠ s.counter + 1
  | .potentiallyStopSubscription t => ∀ p sub, s.call t = .stopping p → s.objects p = some sub →
      sub.clients = [] →
        (∀ topic, topic ≠ sub.topic → s.subscriptions sub.hostAndPort topic = none) ∧
          ∀ t', t' ≠ t → (s.call t').pointer ≠ some p
  | _ => True

/-- The object at `p` is the live subscription of a client, which will be called once by it. -/
structure Serves (s : State θ H T M) (p : Nat) (x : Client H T) : Prop where
  held : s.subscriptions x.hostAndPort x.topic = some p
  live : ∃ sub, s.objects p = some sub ∧ sub.hostAndPort = x.hostAndPort ∧ sub.topic = x.topic ∧
    sub.running = true ∧ sub.clients.count x.id = 1

structure Survives (s : State θ H T M) : Prop where
  faultless : s.faulty = false
  /-- Who has been added, and not been removed, is served by one object, and by no other. -/
  served : ∀ x ∈ s.added, x.id ∉ s.begun → ∃ p, Serves s p x ∧
    ∀ p' sub, s.objects p' = some sub → x.id ∈ sub.clients → p' = p
  /-- Who has been removed is not called again. -/
  silent : ∀ since before id message, s.history = since ++ .called id message :: before →
    .removed id ∉ before
  /-- Nor will be. -/
  absent : ∀ id, .removed id ∈ s.history → ∀ p sub, s.objects p = some sub → id ∉ sub.clients

/-! ## The invariant -/

structure Inv (s : State θ H T M) : Prop where
  faultless : s.faulty = false
  allocated : ∀ p sub, s.objects p = some sub → p < s.nextObject
  held : ∀ h τ p, s.subscriptions h τ = some p ↔
    ∃ sub, s.objects p = some sub ∧ sub.hostAndPort = h ∧ sub.topic = τ
  running : ∀ p sub, s.objects p = some sub → sub.running = true
  used : ∀ t p, (s.call t).pointer = some p → (s.objects p).isSome
  adding : ∀ t p h τ sub, s.call t = .adding p h τ → s.objects p = some sub →
    sub.hostAndPort = h ∧ sub.topic = τ
  /-- A client is in the object that the map of ids leads to, until its removal begins. -/
  served : ∀ x ∈ s.added, x.id ∉ s.begun → ∃ p sub, s.idToSubscriptionMap x.id = some p ∧
    s.objects p = some sub ∧ sub.hostAndPort = x.hostAndPort ∧ sub.topic = x.topic ∧
    x.id ∈ sub.clients
  byId : ∀ id p, s.idToSubscriptionMap id = some p → (s.objects p).isSome ∧ id ∉ s.begun ∧
    ∃ x ∈ s.added, x.id = id
  nodup : ∀ p sub, s.objects p = some sub → sub.clients.Nodup
  /-- Whoever is in an object is known there, or about to be removed from it. -/
  clients : ∀ p sub id, s.objects p = some sub → id ∈ sub.clients →
    (s.idToSubscriptionMap id = some p ∨ ∃ t, s.call t = .removing p id) ∧ .removed id ∉ s.history
  removing : ∀ t p id, s.call t = .removing p id → id ∈ s.begun
  once : ∀ t t' p p' id, s.call t = .removing p id → s.call t' = .removing p' id → t = t'
  begun : ∀ id ∈ s.begun, ∃ x ∈ s.added, x.id = id
  removed : ∀ id, .removed id ∈ s.history → id ∈ s.begun
  silent : ∀ since before id message, s.history = since ++ .called id message :: before →
    .removed id ∉ before

variable {s s' : State θ H T M}

theorem Inv.survives (hi : Inv s) : Survives s where
  faultless := hi.faultless
  served := fun x hx hb => by
    obtain ⟨p, sub, h1, h2, h3, h4, h5⟩ := hi.served x hx hb
    refine ⟨p, ⟨(hi.held _ _ _).mpr ⟨sub, h2, h3, h4⟩, sub, h2, h3, h4, hi.running p sub h2,
      List.count_eq_one_of_mem (hi.nodup p sub h2) h5⟩, fun p' sub' h6 h7 => ?_⟩
    rcases (hi.clients p' sub' x.id h6 h7).1 with h8 | ⟨t, h8⟩
    · exact Option.some.inj (h8.symm.trans h1)
    · exact absurd (hi.removing t p' x.id h8) hb
  silent := hi.silent
  absent := fun id hid p sub h1 h2 => (hi.clients p sub id h1 h2).2 hid

/-! ## The steps -/

theorem inv_init [DecidableEq θ] [DecidableEq H] [DecidableEq T] :
    Inv (machine (θ := θ) (H := H) (T := T) (M := M)).init := by
  refine ⟨rfl, ?_, ?_, ?_, ?_, ?_, ?_, ?_, ?_, ?_, ?_, ?_, ?_, ?_, ?_⟩ <;>
    simp [machine, Call.pointer]

/-- An object gets a message: each of its clients is called. -/
theorem Inv.receive {p : Nat} {sub : Subscription H T} {message : M} (hi : Inv s)
    (hobj : s.objects p = some sub) :
    Inv { s with history := sub.clients.map (.called · message) ++ s.history } := by
  have hmem : ∀ id, .removed id ∈ sub.clients.map (.called · message) ++ s.history →
      .removed id ∈ s.history := by
    intro id h
    rcases List.mem_append.mp h with h | h
    · obtain ⟨x, -, h⟩ := List.mem_map.mp h
      cases h
    · exact h
  refine { hi with
    clients := fun p' sub' id h1 h2 => ?_
    removed := fun id h => hi.removed id (hmem id h)
    silent := ?_ }
  · obtain ⟨h3, h4⟩ := hi.clients p' sub' id h1 h2
    exact ⟨h3, fun h => h4 (hmem id h)⟩
  · have hsub : ∀ id ∈ sub.clients, .removed id ∉ s.history :=
      fun id h => (hi.clients p sub id hobj h).2
    clear hmem
    -- by induction on the clients that are still to be called
    generalize sub.clients = l at hsub ⊢
    induction l with
    | nil => exact hi.silent
    | cons id l ih =>
        have ih' := ih fun id' h => hsub id' (List.mem_cons_of_mem _ h)
        intro since before id' message' h
        cases since with
        | nil =>
            obtain ⟨h1, rfl⟩ := List.cons.inj h
            cases h1
            intro h2
            rcases List.mem_append.mp h2 with h2 | h2
            · obtain ⟨x, -, h2⟩ := List.mem_map.mp h2
              cases h2
            · exact hsub id List.mem_cons_self h2
        | cons e since => exact ih' since before id' message' (List.cons.inj h).2

section Erase

variable [DecidableEq H] [DecidableEq T]

/-- The last subscription of a host:port, without clients and in nobody's hands, is erased. -/
theorem Inv.erase {p : Nat} {sub : Subscription H T} (hi : Inv s) (hobj : s.objects p = some sub)
    (hempty : sub.clients = [])
    (hlast : ∀ τ, τ ≠ sub.topic → s.subscriptions sub.hostAndPort τ = none)
    (hunused : ∀ t, (s.call t).pointer ≠ some p) : Inv (eraseEntry s sub.hostAndPort) := by
  have hheld : s.subscriptions sub.hostAndPort sub.topic = some p :=
    (hi.held _ _ p).mpr ⟨sub, hobj, rfl, rfl⟩
  -- there is no other object at this host:port
  have hother : ∀ q sub', s.objects q = some sub' → q ≠ p →
      sub'.hostAndPort ≠ sub.hostAndPort := by
    intro q sub' h1 hne e
    have h2 : s.subscriptions sub.hostAndPort sub'.topic = some q :=
      (hi.held _ _ q).mpr ⟨sub', h1, e, rfl⟩
    by_cases e' : sub'.topic = sub.topic
    · rw [e', hheld] at h2
      exact hne (Option.some.inj h2).symm
    · rw [hlast _ e'] at h2
      cases h2
  have hobjs : (eraseEntry s sub.hostAndPort).objects = Function.update s.objects p none := by
    funext q
    by_cases e : q = p
    · subst e
      simp [eraseEntry, hobj, hheld]
    · rw [Function.update_of_ne e]
      cases h1 : s.objects q with
      | none => simp [eraseEntry, h1]
      | some sub' => simp [eraseEntry, h1, hother q sub' h1 e]
  have hkeep : ∀ q, q ≠ p → (eraseEntry s sub.hostAndPort).objects q = s.objects q := by
    intro q e
    rw [hobjs, Function.update_of_ne e]
  have hback : ∀ q sub', (eraseEntry s sub.hostAndPort).objects q = some sub' →
      q ≠ p ∧ s.objects q = some sub' := by
    intro q sub' h1
    have e : q ≠ p := by
      intro e
      rw [hobjs, e, Function.update_self] at h1
      cases h1
    exact ⟨e, (hkeep q e).symm.trans h1⟩
  refine ⟨hi.faultless, fun q sub' h1 => hi.allocated q sub' (hback q sub' h1).2,
    fun h τ q => ?_, fun q sub' h1 => hi.running q sub' (hback q sub' h1).2, fun t q h1 => ?_,
    fun t q h τ sub' h1 h2 => hi.adding t q h τ sub' h1 (hback q sub' h2).2, fun x hx hb => ?_,
    fun id q h1 => ?_, fun q sub' h1 => hi.nodup q sub' (hback q sub' h1).2,
    fun q sub' id h1 h2 => hi.clients q sub' id (hback q sub' h1).2 h2, hi.removing, hi.once,
    hi.begun, hi.removed, hi.silent⟩
  · show Function.update s.subscriptions sub.hostAndPort (fun _ => none) h τ = some q ↔ _
    by_cases e : h = sub.hostAndPort
    · subst e
      rw [Function.update_self]
      refine ⟨fun h1 => (by cases h1), fun h1 => ?_⟩
      obtain ⟨sub', h1, h2, -⟩ := h1
      obtain ⟨h3, h4⟩ := hback q sub' h1
      exact absurd h2 (hother q sub' h4 h3)
    · rw [Function.update_of_ne e, hi.held h τ q]
      constructor
      · intro h1
        obtain ⟨sub', h1, h2, h3⟩ := h1
        have hne : q ≠ p := by
          intro e'
          subst e'
          obtain rfl := Option.some.inj (hobj.symm.trans h1)
          exact e h2.symm
        exact ⟨sub', (hkeep q hne).trans h1, h2, h3⟩
      · intro h1
        obtain ⟨sub', h1, h2⟩ := h1
        exact ⟨sub', (hback q sub' h1).2, h2⟩
  · have hne : q ≠ p := by
      intro e
      exact hunused t (e ▸ h1)
    rw [hkeep q hne]
    exact hi.used t q h1
  · obtain ⟨q, sub', h1, h2, h3, h4, h5⟩ := hi.served x hx hb
    have hne : q ≠ p := by
      intro e
      subst e
      obtain rfl := Option.some.inj (hobj.symm.trans h2)
      rw [hempty] at h5
      cases h5
    exact ⟨q, sub', h1, (hkeep q hne).trans h2, h3, h4, h5⟩
  · obtain ⟨h2, h3, x, hx, h4⟩ := hi.byId id q h1
    obtain ⟨q', sub', h5, h6, -, -, h7⟩ := hi.served x hx (h4 ▸ h3)
    obtain rfl : q = q' := Option.some.inj (h1.symm.trans (h4 ▸ h5))
    have hne : q ≠ p := by
      intro e
      subst e
      obtain rfl := Option.some.inj (hobj.symm.trans h6)
      rw [hempty] at h7
      cases h7
    rw [hkeep q hne]
    exact ⟨h2, h3, x, hx, h4⟩

end Erase

variable [DecidableEq θ]

theorem removing_of_update {t t' : θ} {c : Call H T} {p : Nat} {id : UInt32}
    (hc : ∀ p id, c ≠ .removing p id) (h : Function.update s.call t c t' = .removing p id) :
    t' ≠ t ∧ s.call t' = .removing p id := by
  by_cases ht : t' = t
  · rw [ht, Function.update_self] at h
    exact absurd h (hc p id)
  · rw [Function.update_of_ne ht] at h
    exact ⟨ht, h⟩

theorem removing_update {t t' : θ} {c : Call H T} {p : Nat} {id : UInt32}
    (hc : ∀ p id, s.call t ≠ .removing p id) (h : s.call t' = .removing p id) :
    Function.update s.call t c t' = .removing p id := by
  have ht : t' ≠ t := by
    intro e
    exact hc p id (e ▸ h)
  rwa [Function.update_of_ne ht]

/-- A thread gets a pointer, or lets go of one, and no removal is concerned. -/
theorem Inv.setCall {t : θ} {c : Call H T} (hi : Inv s)
    (hp : ∀ p, c.pointer = some p → (s.objects p).isSome)
    (ha : ∀ p h τ sub, c = .adding p h τ → s.objects p = some sub →
      sub.hostAndPort = h ∧ sub.topic = τ)
    (hold : ∀ p id, s.call t ≠ .removing p id) (hnew : ∀ p id, c ≠ .removing p id) :
    Inv (s.setCall t c) := by
  refine { hi with
    used := fun t' p h => ?_
    adding := fun t' p h τ sub h1 h2 => ?_
    clients := fun p sub id h1 h2 => ?_
    removing := fun t' p id h => hi.removing t' p id (removing_of_update hnew h).2
    once := fun t₁ t₂ p p' id h₁ h₂ => hi.once t₁ t₂ p p' id (removing_of_update hnew h₁).2
      (removing_of_update hnew h₂).2 }
  · have h1 : (Function.update s.call t c t').pointer = some p := h
    by_cases ht : t' = t
    · rw [ht, Function.update_self] at h1
      exact hp p h1
    · rw [Function.update_of_ne ht] at h1
      exact hi.used t' p h1
  · have h3 : Function.update s.call t c t' = .adding p h τ := h1
    by_cases ht : t' = t
    · rw [ht, Function.update_self] at h3
      exact ha p h τ sub h3 h2
    · rw [Function.update_of_ne ht] at h3
      exact hi.adding t' p h τ sub h3 h2
  · obtain ⟨h3, h4⟩ := hi.clients p sub id h1 h2
    exact ⟨h3.imp_right fun h => h.imp fun t' h => removing_update hold h, h4⟩

/-- The removal of a client begins. -/
theorem Inv.removeSubscriptionClient {t : θ} {id : UInt32} (hi : Inv s)
    (hcall : s.call t = .idle) : Inv (removeSubscriptionClient s t id) := by
  unfold RedisSubscriptions.removeSubscriptionClient
  cases hid : s.idToSubscriptionMap id with
  | none => exact hi
  | some p =>
      obtain ⟨hsome, hbegun, x, hx, hxid⟩ := hi.byId id p hid
      have hidle : ∀ p id, s.call t ≠ .removing p id := fun p id h => by
        rw [hcall] at h
        cases h
      -- nobody is removing this id already
      have hnone : ∀ t' p', s.call t' ≠ .removing p' id := fun t' p' h =>
        hbegun (hi.removing t' p' id h)
      have hrem : ∀ t' p' id', Function.update s.call t (.removing p id) t' = .removing p' id' →
          (t' = t ∧ p' = p ∧ id' = id) ∨ (t' ≠ t ∧ s.call t' = .removing p' id') := by
        intro t' p' id' h
        by_cases ht : t' = t
        · rw [ht, Function.update_self] at h
          cases h
          exact Or.inl ⟨ht, rfl, rfl⟩
        · rw [Function.update_of_ne ht] at h
          exact Or.inr ⟨ht, h⟩
      have hother : ∀ id', id' ≠ id → Function.update s.idToSubscriptionMap id none id' =
          s.idToSubscriptionMap id' := fun id' h => Function.update_of_ne h _ _
      refine { hi with
        used := fun t' p' h => ?_
        adding := fun t' p' h τ sub h1 h2 => ?_
        served := fun y hy hb => ?_
        byId := fun id' p' h => ?_
        clients := fun p' sub id' h1 h2 => ?_
        removing := fun t' p' id' h => ?_
        once := fun t₁ t₂ p₁ p₂ id' h₁ h₂ => ?_
        begun := fun id' h => ?_
        removed := fun id' h => List.mem_cons_of_mem _ (hi.removed id' h) }
      · have h1 : (Function.update s.call t (.removing p id) t').pointer = some p' := h
        by_cases ht : t' = t
        · rw [ht, Function.update_self] at h1
          cases h1
          exact hsome
        · rw [Function.update_of_ne ht] at h1
          exact hi.used t' p' h1
      · have h3 : Function.update s.call t (.removing p id) t' = .adding p' h τ := h1
        by_cases ht : t' = t
        · rw [ht, Function.update_self] at h3
          cases h3
        · rw [Function.update_of_ne ht] at h3
          exact hi.adding t' p' h τ sub h3 h2
      · have hb' := not_or.mp (List.mem_cons.not.mp hb)
        obtain ⟨p', sub, h1, h2⟩ := hi.served y hy hb'.2
        exact ⟨p', sub, (hother _ hb'.1).trans h1, h2⟩
      · have h1 : Function.update s.idToSubscriptionMap id none id' = some p' := h
        by_cases he : id' = id
        · rw [he, Function.update_self] at h1
          cases h1
        · rw [hother id' he] at h1
          obtain ⟨h2, h3, h4⟩ := hi.byId id' p' h1
          exact ⟨h2, fun h5 => (List.mem_cons.mp h5).elim he h3, h4⟩
      · obtain ⟨h3, h4⟩ := hi.clients p' sub id' h1 h2
        refine ⟨?_, h4⟩
        rcases h3 with h3 | ⟨t', h3⟩
        · by_cases he : id' = id
          · subst he
            obtain rfl := Option.some.inj (h3.symm.trans hid)
            exact Or.inr ⟨t, Function.update_self _ _ _⟩
          · exact Or.inl ((hother id' he).trans h3)
        · exact Or.inr ⟨t', removing_update hidle h3⟩
      · rcases hrem t' p' id' h with ⟨-, -, rfl⟩ | ⟨-, h⟩
        · exact List.mem_cons_self
        · exact List.mem_cons_of_mem _ (hi.removing t' p' id' h)
      · rcases hrem t₁ p₁ id' h₁ with ⟨e₁, -, e⟩ | ⟨-, h₁'⟩ <;>
          rcases hrem t₂ p₂ id' h₂ with ⟨e₂, -, e'⟩ | ⟨-, h₂'⟩
        · exact e₁.trans e₂.symm
        · exact absurd (e ▸ h₂') (hnone t₂ p₂)
        · exact absurd (e' ▸ h₁') (hnone t₁ p₁)
        · exact hi.once t₁ t₂ p₁ p₂ id' h₁' h₂'
      · rcases List.mem_cons.mp h with rfl | h
        · exact ⟨x, hx, hxid⟩
        · exact hi.begun id' h

/-- An object with other clients is at the same host:port and topic. -/
theorem held_put {objects : Nat → Option (Subscription H T)} {p q : Nat} {sub : Subscription H T}
    {l : List UInt32} {h : H} {τ : T} (hobj : objects p = some sub) :
    (∃ x, objects q = some x ∧ x.hostAndPort = h ∧ x.topic = τ) ↔
      ∃ x, Function.update objects p (some { sub with clients := l }) q = some x ∧
        x.hostAndPort = h ∧ x.topic = τ := by
  by_cases e : q = p
  · subst e
    simp [hobj]
  · rw [Function.update_of_ne e]

/-- The client is added to the object that its thread has found. -/
theorem Inv.addSubscription {t : θ} {p : Nat} {h : H} {τ : T} (hi : Inv s)
    (hcall : s.call t = .adding p h τ) (hfresh : ∀ x ∈ s.added, x.id ≠ s.counter + 1) :
    Inv (addSubscription s t p h τ) := by
  obtain ⟨sub, hobj⟩ := Option.isSome_iff_exists.mp (hi.used t p (by rw [hcall]; rfl))
  obtain ⟨rfl, rfl⟩ := hi.adding t p h τ sub hcall hobj
  have hbegun : s.counter + 1 ∉ s.begun := fun hb => by
    obtain ⟨x, hx, he⟩ := hi.begun _ hb
    exact hfresh x hx he
  have hmap : ∀ id q, s.idToSubscriptionMap id = some q → id ≠ s.counter + 1 := fun id q hq e => by
    obtain ⟨-, -, x, hx, he⟩ := hi.byId id q hq
    exact hfresh x hx (he.trans e)
  have hclient : ∀ q sub' id, s.objects q = some sub' → id ∈ sub'.clients →
      id ≠ s.counter + 1 := by
    intro q sub' id h1 h2 e
    rcases (hi.clients q sub' id h1 h2).1 with h3 | ⟨t', h3⟩
    · exact hmap id q h3 e
    · exact hbegun (e ▸ hi.removing t' q id h3)
  have hold : ∀ p' id, s.call t ≠ .removing p' id := fun p' id e => by
    rw [hcall] at e
    cases e
  have hidle : ∀ p' id, (Call.idle : Call H T) ≠ .removing p' id := fun p' id e => by cases e
  have hkeep : ∀ q x, q ≠ p → Function.update s.objects p x q = s.objects q :=
    fun q x e => Function.update_of_ne e _ _
  have hpt : ∀ t' q, (Function.update s.call t .idle t').pointer = some q →
      (s.call t').pointer = some q := by
    intro t' q hq
    by_cases ht : t' = t
    · rw [ht, Function.update_self] at hq
      cases hq
    · rwa [Function.update_of_ne ht] at hq
  simp only [RedisSubscriptions.addSubscription, hobj]
  refine ⟨hi.faultless, fun q sub' h1 => ?_, fun h' τ' q => ?_, fun q sub' h1 => ?_,
    fun t' q h1 => ?_, fun t' q h' τ' sub' h1 h2 => ?_, fun x hx hb => ?_, fun id q h1 => ?_,
    fun q sub' h1 => ?_, fun q sub' id h1 h2 => ?_, fun t' q id h1 => ?_,
    fun t₁ t₂ q q' id h₁ h₂ => ?_, fun id h1 => ?_, hi.removed, hi.silent⟩
  · by_cases e : q = p
    · rw [e]
      exact hi.allocated p sub hobj
    · exact hi.allocated q sub' ((hkeep q _ e).symm.trans h1)
  · exact (hi.held h' τ' q).trans (held_put hobj)
  · have h2 : Function.update s.objects p _ q = some sub' := h1
    by_cases e : q = p
    · rw [e, Function.update_self] at h2
      cases h2
      exact hi.running p sub hobj
    · rw [hkeep q _ e] at h2
      exact hi.running q sub' h2
  · show (Function.update s.objects p _ q).isSome
    by_cases e : q = p
    · rw [e, Function.update_self]
      rfl
    · rw [hkeep q _ e]
      exact hi.used t' q (hpt t' q h1)
  · have h3 : Function.update s.call t .idle t' = .adding q h' τ' := h1
    by_cases ht : t' = t
    · rw [ht, Function.update_self] at h3
      cases h3
    · rw [Function.update_of_ne ht] at h3
      have h4 : Function.update s.objects p _ q = some sub' := h2
      by_cases e : q = p
      · subst e
        rw [Function.update_self] at h4
        cases h4
        exact hi.adding t' q h' τ' sub h3 hobj
      · rw [hkeep q _ e] at h4
        exact hi.adding t' q h' τ' sub' h3 h4
  · rcases List.mem_cons.mp hx with rfl | hx
    · exact ⟨p, _, Function.update_self _ _ _, Function.update_self _ _ _, rfl, rfl, by simp⟩
    · obtain ⟨q, sub', h1, h2, h3, h4, h5⟩ := hi.served x hx hb
      have hid := (Function.update_of_ne (hfresh x hx) (some p) s.idToSubscriptionMap).trans h1
      by_cases e : q = p
      · subst e
        obtain rfl := Option.some.inj (hobj.symm.trans h2)
        exact ⟨q, _, hid, Function.update_self _ _ _, h3, h4, List.mem_append_left _ h5⟩
      · exact ⟨q, sub', hid, (hkeep q _ e).trans h2, h3, h4, h5⟩
  · have h2 : Function.update s.idToSubscriptionMap (s.counter + 1) (some p) id = some q := h1
    by_cases e : id = s.counter + 1
    · subst e
      rw [Function.update_self] at h2
      obtain rfl := Option.some.inj h2
      exact ⟨by simp [State.setCall, State.put], hbegun, _, List.mem_cons_self, rfl⟩
    · rw [Function.update_of_ne e] at h2
      obtain ⟨h3, h4, x, hx, h5⟩ := hi.byId id q h2
      refine ⟨?_, h4, x, List.mem_cons_of_mem _ hx, h5⟩
      show (Function.update s.objects p _ q).isSome
      by_cases e' : q = p
      · rw [e', Function.update_self]
        rfl
      · rwa [hkeep q _ e']
  · have h2 : Function.update s.objects p _ q = some sub' := h1
    by_cases e : q = p
    · rw [e, Function.update_self] at h2
      cases h2
      refine List.nodup_append.mpr ⟨hi.nodup p sub hobj, List.nodup_singleton _, ?_⟩
      intro id h3 id' h4
      obtain rfl := List.mem_singleton.mp h4
      exact hclient p sub id hobj h3
    · rw [hkeep q _ e] at h2
      exact hi.nodup q sub' h2
  · have h3 : Function.update s.objects p _ q = some sub' := h1
    -- an old client, or the new one
    have h4 : (∃ sub', s.objects q = some sub' ∧ id ∈ sub'.clients) ∨
        (q = p ∧ id = s.counter + 1) := by
      by_cases e : q = p
      · subst e
        rw [Function.update_self] at h3
        cases h3
        rcases List.mem_append.mp h2 with h2 | h2
        · exact Or.inl ⟨sub, hobj, h2⟩
        · exact Or.inr ⟨rfl, List.mem_singleton.mp h2⟩
      · rw [hkeep q _ e] at h3
        exact Or.inl ⟨sub', h3, h2⟩
    rcases h4 with ⟨sub₀, h4, h5⟩ | ⟨rfl, rfl⟩
    · obtain ⟨h6, h7⟩ := hi.clients q sub₀ id h4 h5
      refine ⟨h6.imp (fun h8 => ?_) fun h8 => h8.imp fun t' h8 => removing_update hold h8, h7⟩
      exact (Function.update_of_ne (hclient q sub₀ id h4 h5) _ _).trans h8
    · exact ⟨Or.inl (Function.update_self _ _ _), fun h6 => hbegun (hi.removed _ h6)⟩
  · exact hi.removing t' q id (removing_of_update hidle h1).2
  · exact hi.once t₁ t₂ q q' id (removing_of_update hidle h₁).2 (removing_of_update hidle h₂).2
  · obtain ⟨x, hx, h2⟩ := hi.begun id h1
    exact ⟨x, List.mem_cons_of_mem _ hx, h2⟩

/-- The client is taken out of its object. -/
theorem Inv.removeSubscription {t : θ} {p : Nat} {id : UInt32} (hi : Inv s)
    (hcall : s.call t = .removing p id) : Inv (removeSubscription s t p id) := by
  obtain ⟨sub, hobj⟩ := Option.isSome_iff_exists.mp (hi.used t p (by rw [hcall]; rfl))
  have hbegun := hi.removing t p id hcall
  have hkeep : ∀ q x, q ≠ p → Function.update s.objects p x q = s.objects q :=
    fun q x e => Function.update_of_ne e _ _
  have hstop : ∀ p' id', (Call.stopping p : Call H T) ≠ .removing p' id' := fun p' id' e => by
    cases e
  have hpt : ∀ t' q, (Function.update s.call t (.stopping p) t').pointer = some q →
      (s.call t').pointer = some q := by
    intro t' q hq
    by_cases ht : t' = t
    · rw [ht, Function.update_self] at hq
      rw [ht, hcall]
      exact hq
    · rwa [Function.update_of_ne ht] at hq
  -- what is left in the objects was there before, and is another client
  have hleft : ∀ q sub' id', Function.update s.objects p
      (some { sub with clients := sub.clients.filter (· ≠ id) }) q = some sub' →
      id' ∈ sub'.clients → id' ≠ id ∧ ∃ sub₀, s.objects q = some sub₀ ∧ id' ∈ sub₀.clients := by
    intro q sub' id' h1 h2
    by_cases e : q = p
    · subst e
      rw [Function.update_self] at h1
      cases h1
      have h3 := List.mem_filter.mp h2
      exact ⟨by simpa using h3.2, sub, hobj, h3.1⟩
    · rw [hkeep q _ e] at h1
      refine ⟨?_, sub', h1, h2⟩
      intro e'
      subst e'
      rcases (hi.clients q sub' id' h1 h2).1 with h3 | ⟨t', h3⟩
      · exact (hi.byId id' q h3).2.1 hbegun
      · obtain rfl := hi.once t' t q p id' h3 hcall
        rw [hcall] at h3
        cases h3
        exact e rfl
  simp only [RedisSubscriptions.removeSubscription, hobj]
  refine ⟨hi.faultless, fun q sub' h1 => ?_, fun h' τ' q => ?_, fun q sub' h1 => ?_,
    fun t' q h1 => ?_, fun t' q h' τ' sub' h1 h2 => ?_, fun x hx hb => ?_, fun id' q h1 => ?_,
    fun q sub' h1 => ?_, fun q sub' id' h1 h2 => ?_, fun t' q id' h1 => ?_,
    fun t₁ t₂ q q' id' h₁ h₂ => ?_, hi.begun, fun id' h1 => ?_, fun since before id' m h1 => ?_⟩
  · by_cases e : q = p
    · rw [e]
      exact hi.allocated p sub hobj
    · exact hi.allocated q sub' ((hkeep q _ e).symm.trans h1)
  · exact (hi.held h' τ' q).trans (held_put hobj)
  · have h2 : Function.update s.objects p _ q = some sub' := h1
    by_cases e : q = p
    · rw [e, Function.update_self] at h2
      cases h2
      exact hi.running p sub hobj
    · rw [hkeep q _ e] at h2
      exact hi.running q sub' h2
  · show (Function.update s.objects p _ q).isSome
    by_cases e : q = p
    · rw [e, Function.update_self]
      rfl
    · rw [hkeep q _ e]
      exact hi.used t' q (hpt t' q h1)
  · have h3 : Function.update s.call t (.stopping p) t' = .adding q h' τ' := h1
    by_cases ht : t' = t
    · rw [ht, Function.update_self] at h3
      cases h3
    · rw [Function.update_of_ne ht] at h3
      have h4 : Function.update s.objects p _ q = some sub' := h2
      by_cases e : q = p
      · subst e
        rw [Function.update_self] at h4
        cases h4
        exact hi.adding t' q h' τ' sub h3 hobj
      · rw [hkeep q _ e] at h4
        exact hi.adding t' q h' τ' sub' h3 h4
  · obtain ⟨q, sub', h1, h2, h3, h4, h5⟩ := hi.served x hx hb
    by_cases e : q = p
    · subst e
      obtain rfl := Option.some.inj (hobj.symm.trans h2)
      refine ⟨q, _, h1, Function.update_self _ _ _, h3, h4, List.mem_filter.mpr ⟨h5, ?_⟩⟩
      have hne : x.id ≠ id := fun e => hb (e ▸ hbegun)
      simpa using hne
    · exact ⟨q, sub', h1, (hkeep q _ e).trans h2, h3, h4, h5⟩
  · obtain ⟨h2, h3⟩ := hi.byId id' q h1
    refine ⟨?_, h3⟩
    show (Function.update s.objects p _ q).isSome
    by_cases e : q = p
    · rw [e, Function.update_self]
      rfl
    · rwa [hkeep q _ e]
  · have h2 : Function.update s.objects p _ q = some sub' := h1
    by_cases e : q = p
    · rw [e, Function.update_self] at h2
      cases h2
      exact (hi.nodup p sub hobj).filter _
    · rw [hkeep q _ e] at h2
      exact hi.nodup q sub' h2
  · obtain ⟨hne, sub₀, h3, h4⟩ := hleft q sub' id' h1 h2
    obtain ⟨h5, h6⟩ := hi.clients q sub₀ id' h3 h4
    refine ⟨?_, fun h7 => ?_⟩
    · rcases h5 with h5 | ⟨t', h5⟩
      · exact Or.inl h5
      · have ht : t' ≠ t := by
          intro e
          rw [e, hcall] at h5
          cases h5
          exact hne rfl
        exact Or.inr ⟨t', (Function.update_of_ne ht _ _).trans h5⟩
    · rcases List.mem_cons.mp h7 with h7 | h7
      · cases h7
        exact hne rfl
      · exact h6 h7
  · exact hi.removing t' q id' (removing_of_update hstop h1).2
  · exact hi.once t₁ t₂ q q' id' (removing_of_update hstop h₁).2 (removing_of_update hstop h₂).2
  · rcases List.mem_cons.mp h1 with h1 | h1
    · cases h1
      exact hbegun
    · exact hi.removed id' h1
  · cases since with
    | nil => cases (List.cons.inj h1).1
    | cons e since => exact hi.silent since before id' m (List.cons.inj h1).2

variable [DecidableEq H] [DecidableEq T]

/-- The object is found or created. -/
theorem Inv.getOrStartSubscription {t : θ} {h : H} {τ : T} (hi : Inv s) (hcall : s.call t = .idle) :
    Inv (getOrStartSubscription s t h τ) := by
  have hold : ∀ p' id, s.call t ≠ .removing p' id := fun p' id e => by
    rw [hcall] at e
    cases e
  have hnew : ∀ p p' id, (Call.adding p h τ : Call H T) ≠ .removing p' id := fun p p' id e => by
    cases e
  unfold RedisSubscriptions.getOrStartSubscription
  cases hsub : s.subscriptions h τ with
  | some p =>
      obtain ⟨sub, hobj, hh, hτ⟩ := (hi.held h τ p).mp hsub
      refine hi.setCall (fun q hq => ?_) (fun q h' τ' sub' hq hobj' => ?_) hold (hnew p)
      · cases hq
        rw [hobj]
        rfl
      · cases hq
        obtain rfl := Option.some.inj (hobj.symm.trans hobj')
        exact ⟨hh, hτ⟩
  | none =>
      have hlt : ∀ q, (s.objects q).isSome → q ≠ s.nextObject := by
        intro q hq e
        obtain ⟨sub, hobj⟩ := Option.isSome_iff_exists.mp hq
        have := hi.allocated q sub hobj
        omega
      have hkeep : ∀ q x, (s.objects q).isSome →
          Function.update s.objects s.nextObject x q = s.objects q :=
        fun q x hq => Function.update_of_ne (hlt q hq) _ _
      -- what is there is the new object, or was there before
      have hobjs : ∀ q sub, Function.update s.objects s.nextObject (some ⟨h, τ, [], true⟩) q =
          some sub → (q = s.nextObject ∧ sub = ⟨h, τ, [], true⟩) ∨ s.objects q = some sub := by
        intro q sub h1
        by_cases e : q = s.nextObject
        · rw [e, Function.update_self] at h1
          exact Or.inl ⟨e, (Option.some.inj h1).symm⟩
        · rw [Function.update_of_ne e] at h1
          exact Or.inr h1
      refine ⟨hi.faultless, fun q sub h1 => ?_, fun h' τ' q => ?_, fun q sub h1 => ?_,
        fun t' q h1 => ?_, fun t' q h' τ' sub h1 h2 => ?_, fun x hx hb => ?_, fun id q h1 => ?_,
        fun q sub h1 => ?_, fun q sub id h1 h2 => ?_, fun t' q id h1 => ?_,
        fun t₁ t₂ q q' id h₁ h₂ => ?_, hi.begun, hi.removed, hi.silent⟩
      · show q < s.nextObject + 1
        rcases hobjs q sub h1 with ⟨rfl, -⟩ | h1
        · omega
        · have := hi.allocated q sub h1
          omega
      · show Function.update s.subscriptions h (Function.update (s.subscriptions h) τ
          (some s.nextObject)) h' τ' = some q ↔ ∃ sub, Function.update s.objects s.nextObject
            (some ⟨h, τ, [], true⟩) q = some sub ∧ sub.hostAndPort = h' ∧ sub.topic = τ'
        by_cases hat : h' = h ∧ τ' = τ
        · obtain ⟨rfl, rfl⟩ := hat
          rw [Function.update_self, Function.update_self]
          constructor
          · intro e
            obtain rfl := Option.some.inj e
            exact ⟨_, Function.update_self _ _ _, rfl, rfl⟩
          · intro h1
            obtain ⟨sub, h1, h2, h3⟩ := h1
            rcases hobjs q sub h1 with ⟨rfl, -⟩ | h1
            · rfl
            · rw [(hi.held h' τ' q).mpr ⟨sub, h1, h2, h3⟩] at hsub
              cases hsub
        · have hsame : Function.update s.subscriptions h (Function.update (s.subscriptions h) τ
              (some s.nextObject)) h' τ' = s.subscriptions h' τ' := by
            by_cases e : h' = h
            · rw [e, Function.update_self, Function.update_of_ne fun e' => hat ⟨e, e'⟩]
            · rw [Function.update_of_ne e]
          rw [hsame, hi.held h' τ' q]
          constructor
          · intro h1
            obtain ⟨sub, h1, h2⟩ := h1
            exact ⟨sub, (hkeep q _ (by rw [h1]; rfl)).trans h1, h2⟩
          · intro h1
            obtain ⟨sub, h1, h2, h3⟩ := h1
            rcases hobjs q sub h1 with ⟨-, rfl⟩ | h1
            · exact absurd ⟨h2.symm, h3.symm⟩ hat
            · exact ⟨sub, h1, h2, h3⟩
      · rcases hobjs q sub h1 with ⟨-, rfl⟩ | h1
        · rfl
        · exact hi.running q sub h1
      · have h2 : (Function.update s.call t (.adding s.nextObject h τ) t').pointer = some q := h1
        show (Function.update s.objects s.nextObject _ q).isSome
        by_cases ht : t' = t
        · rw [ht, Function.update_self] at h2
          cases h2
          rw [Function.update_self]
          rfl
        · rw [Function.update_of_ne ht] at h2
          have h3 := hi.used t' q h2
          rwa [hkeep q _ h3]
      · have h3 : Function.update s.call t (.adding s.nextObject h τ) t' = .adding q h' τ' := h1
        by_cases ht : t' = t
        · rw [ht, Function.update_self] at h3
          cases h3
          rcases hobjs _ sub h2 with ⟨-, rfl⟩ | h2
          · exact ⟨rfl, rfl⟩
          · exact absurd rfl (hlt _ (by rw [h2]; rfl))
        · rw [Function.update_of_ne ht] at h3
          have h4 := hi.used t' q (by rw [h3]; rfl)
          exact hi.adding t' q h' τ' sub h3 ((hkeep q _ h4).symm.trans h2)
      · obtain ⟨q, sub, h1, h2, h3⟩ := hi.served x hx hb
        exact ⟨q, sub, h1, (hkeep q _ (by rw [h2]; rfl)).trans h2, h3⟩
      · obtain ⟨h2, h3⟩ := hi.byId id q h1
        refine ⟨?_, h3⟩
        show (Function.update s.objects s.nextObject _ q).isSome
        rwa [hkeep q _ h2]
      · rcases hobjs q sub h1 with ⟨-, rfl⟩ | h1
        · exact List.nodup_nil
        · exact hi.nodup q sub h1
      · rcases hobjs q sub h1 with ⟨-, rfl⟩ | h1
        · cases h2
        · obtain ⟨h3, h4⟩ := hi.clients q sub id h1 h2
          exact ⟨h3.imp_right fun h5 => h5.imp fun t' h5 => removing_update hold h5, h4⟩
      · exact hi.removing t' q id (removing_of_update (hnew _) h1).2
      · exact hi.once t₁ t₂ q q' id (removing_of_update (hnew _) h₁).2
          (removing_of_update (hnew _) h₂).2

theorem inv_step {a : Act θ H T M} (hi : Inv s) (hg : Orderly s a) (hs : step s a = some s') :
    Inv s' := by
  cases a with
  | getOrStartSubscription t h τ =>
      simp only [step] at hs
      split at hs
      · next hcall =>
        obtain rfl := Option.some.inj hs
        exact hi.getOrStartSubscription hcall
      · cases hs
  | addSubscription t =>
      simp only [step] at hs
      split at hs
      · next hcall =>
        obtain rfl := Option.some.inj hs
        exact hi.addSubscription hcall hg
      · cases hs
  | removeSubscriptionClient t id =>
      simp only [step] at hs
      split at hs
      · next hcall =>
        obtain rfl := Option.some.inj hs
        exact hi.removeSubscriptionClient hcall
      · cases hs
  | removeSubscription t =>
      simp only [step] at hs
      split at hs
      · next hcall =>
        obtain rfl := Option.some.inj hs
        exact hi.removeSubscription hcall
      · cases hs
  | potentiallyStopSubscription t =>
      simp only [step] at hs
      split at hs
      · next p hcall =>
        obtain rfl := Option.some.inj hs
        obtain ⟨sub, hobj⟩ := Option.isSome_iff_exists.mp (hi.used t p (by rw [hcall]; rfl))
        have hidle : Inv (s.setCall t .idle) := by
          refine hi.setCall (fun q hq => by cases hq) (fun q h τ sub' hq => by cases hq)
            (fun q id hq => ?_) (fun q id hq => by cases hq)
          rw [hcall] at hq
          cases hq
        simp only [RedisSubscriptions.potentiallyStopSubscription, hobj]
        split
        · next hempty =>
          obtain ⟨hlast, hunused⟩ := hg p sub hcall hobj hempty
          refine hidle.erase (p := p) hobj hempty hlast fun t' => ?_
          by_cases ht : t' = t
          · simp [ht, State.setCall, Call.pointer]
          · simpa [State.setCall, Function.update_of_ne ht] using hunused t' ht
        · exact hidle
      · cases hs
  | receive p message =>
      simp only [step] at hs
      split at hs
      · cases hs
      · next sub hobj =>
        split at hs
        · obtain rfl := Option.some.inj hs
          exact hi.receive hobj
        · cases hs

/-- A client is added for a topic. -/
def add (topic : Bool) : List (Act Unit Unit Bool String) :=
  [.getOrStartSubscription () () topic, .addSubscription ()]

/-- And it is removed. -/
def remove (id : UInt32) : List (Act Unit Unit Bool String) :=
  [.removeSubscriptionClient () id, .removeSubscription (), .potentiallyStopSubscription ()]

/-- One topic after the other. -/
def inTurn : List (Act Unit Unit Bool String) :=
  add true ++ [.receive 0 "m"] ++ remove 1 ++ add false

theorem inTurn_orderly : (machine (θ := Unit) (H := Unit) (T := Bool) (M := String)).Within Orderly
    machine.init inTurn := by
  refine ⟨trivial, ?_, trivial, trivial, trivial, ?_, trivial, ?_, trivial⟩
  · intro x hx
    cases hx
  · intro p sub hcall hobj _
    cases hcall
    cases hobj
    refine ⟨fun topic ht => ?_, fun t' ht' => absurd rfl ht'⟩
    obtain rfl : topic = false := by simpa using ht
    rfl
  · intro x hx
    obtain rfl := List.mem_singleton.mp hx
    show (1 : UInt32) ≠ 2
    decide

/-- One topic stops while the other one has a client. -/
def sideBySide : List (Act Unit Unit Bool String) := add true ++ add false ++ remove 1

end RedisSubscriptions
