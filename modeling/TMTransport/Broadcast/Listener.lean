import Mathlib.Algebra.Ring.Nat
import Mathlib.Data.List.Nodup
import TMTransport.Broadcast.Topics
import TMTransport.Library.Machine
import TMTransport.Library.SortedMap

/-!
# Stopping and restarting a listener

A `MultiTransportBroadcastListener` has clients in the components of eight transports.
It records them under the ids that the components have given. When it is stopped it
removes them all, and it moves the record to a second map, which has the subscriptions
for keys. When it is restarted it adds again what it finds there.

Such a map holds a subscription once. What is more, the order of the keys does not look
at the identifier of a locator, so two subscriptions that differ in it only are one key.
While the listener is stopped, what it is told goes to the second map without an answer,
and a request to remove all subscriptions does not touch that map.

What is proved is about two runs side by side: that of the listener, and that of a twin
which hears everything but the stops and the restarts.
-/

namespace BroadcastListener

open ConnectionLocator (Text Locator)
open Interleave SortedMap

/-! ## Subscriptions -/

/-- `MultiTransportBroadcastListenerConnectionType` -/
inductive ConnectionType where
  | multicast
  | rabbitMQ
  | redis
  | zeroMQ
  | nng
  | sharedMemoryBroadcast
  | webSocket
  | singlecast
  deriving DecidableEq

/-- The number behind the enumerator. -/
def ConnectionType.number : ConnectionType → Nat
  | .multicast => 0
  | .rabbitMQ => 1
  | .redis => 2
  | .zeroMQ => 3
  | .nng => 4
  | .sharedMemoryBroadcast => 5
  | .webSocket => 6
  | .singlecast => 7

/-- `operator<` of pairs of texts. -/
def pairLt (a b : Text × Text) : Bool := a.1 < b.1 ∨ (¬ b.1 < a.1 ∧ a.2 < b.2)

/-- `operator<` of maps. -/
def entriesLt : List (Text × Text) → List (Text × Text) → Bool
  | _, [] => false
  | [], _ :: _ => true
  | a :: as, b :: bs =>
    if pairLt a b then true else if pairLt b a then false else entriesLt as bs

/-- `ConnectionLocator::operator<`. It leaves the identifier out. -/
def locatorLt (a b : Locator) : Bool :=
  if a.host < b.host then true
  else if b.host < a.host then false
  else if a.port < b.port then true
  else if b.port < a.port then false
  else if a.userName < b.userName then true
  else if b.userName < a.userName then false
  else if a.password < b.password then true
  else if b.password < a.password then false
  else entriesLt a.properties.entries b.properties.entries

/-- `MultiTransportBroadcastListenerAddSubscription` -/
structure AddSubscription where
  connectionType : ConnectionType
  connectionLocator : Locator
  topicDescription : Text
  deriving DecidableEq

/-- `MultiTransportBroadcastListenerAddSubscription::operator<` -/
def AddSubscription.lt (a b : AddSubscription) : Bool :=
  if a.connectionType.number < b.connectionType.number then true
  else if b.connectionType.number < a.connectionType.number then false
  else if locatorLt a.connectionLocator b.connectionLocator then true
  else if locatorLt b.connectionLocator a.connectionLocator then false
  else a.topicDescription < b.topicDescription

/-- `SubscriptionRecKey` -/
abbrev SubscriptionRecKey := ConnectionType × Nat

def recKeyLt (a b : SubscriptionRecKey) : Bool :=
  a.1.number < b.1.number ∨ (¬ b.1.number < a.1.number ∧ a.2 < b.2)

/-! ## The components -/

/-- What comes of adding a client at a locator. -/
inductive Opening where
  | threw
  /-- There is an id, and no client. This is what a WebSocket does that cannot be set up. -/
  | failed
  | opened
  deriving DecidableEq

structure Env where
  /-- Is the component of this transport there? -/
  supports : ConnectionType → Bool
  opens : ConnectionType → Locator → Opening
  engine : Topics.Engine

/-- Can the description be read? RabbitMQ gets it as it is, and Redis almost so. -/
def Env.parses (env : Env) (ty : ConnectionType) (topicDescription : Text) : Bool :=
  match ty with
  | .rabbitMQ | .redis => true
  | _ => (Topics.Cpp.parseTopic env.engine topicDescription).isSome

/-- A client in one of the components. -/
structure Client where
  id : Nat
  /-- Has the listener made it? If not, somebody else has. -/
  mine : Bool
  subscription : AddSubscription
  deriving DecidableEq

def Client.key (c : Client) : SubscriptionRecKey := (c.subscription.connectionType, c.id)

/-- `MultiTransportBroadcastListenerInput` -/
inductive Input where
  | addSubscription (x : AddSubscription)
  | removeSubscription (connectionType : ConnectionType) (subscriptionID : Nat)
  | removeAllSubscriptions
  deriving DecidableEq

/-- `MultiTransportBroadcastListenerOutput` -/
inductive Output where
  | addSubscriptionResponse (subscriptionID : Nat)
  | removeSubscriptionResponse
  | removeAllSubscriptionsResponse

/-- The listener, and the components that it uses. -/
structure State where
  /-- `counter_` of each component -/
  counter : ConnectionType → Nat
  clients : List Client
  subscriptions : List (SubscriptionRecKey × AddSubscription)
  restartInfo : List (AddSubscription × SubscriptionRecKey)
  stopped : Bool
  /-- For the record: inputs without an answer, and what the listener has taken from others. -/
  unanswered : List Input
  lost : List Client

/-- How the handling of an input has ended. -/
inductive Handled where
  | published (o : Output)
  | returned
  | threw

/-- The `addSubscriptionClient` of a component: the id, if it has not thrown. -/
def addClient (env : Env) (s : State) (mine : Bool) (x : AddSubscription) :
    State × Option Nat :=
  let id := (s.counter x.connectionType + 1) % 2 ^ 32
  let s' := { s with counter := Function.update s.counter x.connectionType id }
  match env.opens x.connectionType x.connectionLocator with
  | .threw => (s, none)
  | .failed => (s', some id)
  | .opened => ({ s' with clients := s.clients ++ [⟨id, mine, x⟩] }, some id)

/-- The `removeSubscriptionClient` of a component. It asks nobody whose the client is. -/
def removeClient (s : State) (k : SubscriptionRecKey) : State :=
  { s with clients := s.clients.filter fun c => c.key ≠ k }

/-! ## The listener -/

section Handle

variable (env : Env) (s : State)

/-- `actuallyHandle`, adding a subscription. -/
def addSubscription (x : AddSubscription) : State × Handled :=
  if s.stopped then
    ({ s with restartInfo :=
        insert AddSubscription.lt x (x.connectionType, 2 ^ 32 - 1) s.restartInfo }, .returned)
  else if env.supports x.connectionType then
    if env.parses x.connectionType x.topicDescription then
      match addClient env s true x with
      | (s', none) => (s', .threw)
      | (s', some res) =>
        ({ s' with
          subscriptions := insert recKeyLt (x.connectionType, res) x s'.subscriptions },
          .published (.addSubscriptionResponse res))
    else (s, .threw)
  else (s, .published (.addSubscriptionResponse 0))

/-- The listener removes a client, if the component is there. -/
def take (k : SubscriptionRecKey) : State :=
  if env.supports k.1 then
    { removeClient s k with lost := s.lost ++ s.clients.filter fun c => c.key = k ∧ ¬ c.mine }
  else s

/-- It removes a client and forgets it. -/
def forget (k : SubscriptionRecKey) : State :=
  { take env s k with subscriptions := erase k s.subscriptions }

/-- `actuallyHandle`, removing a subscription. -/
def removeSubscription (k : SubscriptionRecKey) : State × Handled :=
  if s.stopped then
    ({ s with restartInfo := s.restartInfo.eraseP fun e => e.2 = k }, .returned)
  else if env.supports k.1 then
    (forget env s k, .published .removeSubscriptionResponse)
  else (s, .published .removeSubscriptionResponse)

def takeAll (ks : List SubscriptionRecKey) : State := ks.foldl (take env) s

/-- `actuallyHandle`, removing all subscriptions. -/
def removeAllSubscriptions : State × Handled :=
  let s' := takeAll env s (s.subscriptions.map Prod.fst)
  ({ s' with
    restartInfo :=
      if s.stopped then
        insertAll AddSubscription.lt s.restartInfo (s.subscriptions.map Prod.swap)
      else s.restartInfo
    subscriptions := [] }, .published .removeAllSubscriptionsResponse)

def actuallyHandle : Input → State × Handled
  | .addSubscription x => addSubscription env s x
  | .removeSubscription ty id => removeSubscription env s (ty, id)
  | .removeAllSubscriptions => removeAllSubscriptions env s

/-- `handle`. For the record: has the input been answered? -/
def handle (i : Input) : State :=
  match actuallyHandle env s i with
  | (s', .published _) => s'
  | (s', _) => { s' with unanswered := s'.unanswered ++ [i] }

/-- `control`, `"stop"` -/
def stop : State :=
  if s.stopped then s
  else (actuallyHandle env { s with stopped := true } .removeAllSubscriptions).1

/-- The loop over `infoCopy`. Whatever is thrown ends it. -/
def addAgain (s : State) : List AddSubscription → State
  | [] => s
  | x :: xs =>
    match actuallyHandle env s (.addSubscription x) with
    | (s', .threw) => s'
    | (s', _) => addAgain s' xs

/-- `control`, `"restart"` -/
def restart : State :=
  if s.stopped then
    addAgain env { s with restartInfo := [], stopped := false } (s.restartInfo.map Prod.fst)
  else s

end Handle

/-! ## The two runs -/

/-- A run and its twin. -/
structure Pair where
  run : State
  twin : State

/-- An id may differ in the two runs, and what is removed is named by its id. -/
inductive Act where
  | addSubscription (x : AddSubscription)
  | removeSubscription (connectionType : ConnectionType) (id twinId : Nat)
  | removeAllSubscriptions
  | stop
  | restart
  /-- Somebody else uses the component. -/
  | othersAdd (x : AddSubscription)
  | othersRemove (connectionType : ConnectionType) (id twinId : Nat)

def step (env : Env) (p : Pair) : Act → Pair
  | .addSubscription x =>
    ⟨handle env p.run (.addSubscription x), handle env p.twin (.addSubscription x)⟩
  | .removeSubscription ty id twinId =>
    ⟨handle env p.run (.removeSubscription ty id),
      handle env p.twin (.removeSubscription ty twinId)⟩
  | .removeAllSubscriptions =>
    ⟨handle env p.run .removeAllSubscriptions, handle env p.twin .removeAllSubscriptions⟩
  | .stop => { p with run := stop env p.run }
  | .restart => { p with run := restart env p.run }
  | .othersAdd x => ⟨(addClient env p.run false x).1, (addClient env p.twin false x).1⟩
  | .othersRemove ty id twinId =>
    ⟨removeClient p.run (ty, id), removeClient p.twin (ty, twinId)⟩

def State.init : State := ⟨fun _ => 0, [], [], [], false, [], []⟩

def machine (env : Env) : Machine Pair Act where
  init := ⟨.init, .init⟩
  step p a := some (step env p a)

/-- The clients of the listener, under their keys. -/
def State.own (s : State) : List (SubscriptionRecKey × AddSubscription) :=
  (s.clients.filter Client.mine).map fun c => (c.key, c.subscription)

/-- The subscriptions that are alive. -/
def State.live (s : State) : List AddSubscription := s.own.map Prod.snd

structure Transparent (p : Pair) : Prop where
  same : p.run.stopped = false → p.run.live.Perm p.twin.live
  record : p.run.subscriptions.Perm p.run.own
  answered : p.run.unanswered = []
  spared : p.run.lost = []

/-- Can a client be added for the subscription? -/
def Env.works (env : Env) (x : AddSubscription) : Bool :=
  env.supports x.connectionType && env.parses x.connectionType x.topicDescription &&
    env.opens x.connectionType x.connectionLocator = .opened

/-- A component can give an id to so many clients more without its counter starting again. -/
def State.Room (s : State) (ty : ConnectionType) (n : Nat) : Prop := s.counter ty + n < 2 ^ 32

instance (s : State) (ty : ConnectionType) (n : Nat) : Decidable (s.Room ty n) :=
  inferInstanceAs (Decidable (_ < _))

/-- The client with this key, if there is one, is one of the listener. -/
def State.Mine (s : State) (k : SubscriptionRecKey) : Prop :=
  ∀ c ∈ s.clients, c.key = k → c.mine = true

/-- The client with this key, if there is one, is not one of the listener. -/
def State.Foreign (s : State) (k : SubscriptionRecKey) : Prop :=
  ∀ c ∈ s.clients, c.key = k → c.mine = false

/-- The listener is told nothing while it is stopped, except that it removes all subscriptions
when there are none. It is asked for subscriptions that the components can have, and to remove
what both runs have under the id that they know it by. When it is stopped it has no two
subscriptions that are the same but for the identifier. -/
def Orderly (env : Env) (p : Pair) : Act → Prop
  | .addSubscription x =>
    p.run.stopped = false ∧
      (env.supports x.connectionType = true → env.works x = true ∧ p.run.Room x.connectionType 1)
  | .removeSubscription ty id twinId =>
    p.run.stopped = false ∧ p.run.Mine (ty, id) ∧
      p.run.subscriptions.lookup (ty, id) = p.twin.subscriptions.lookup (ty, twinId)
  | .removeAllSubscriptions => p.run.stopped = true → p.run.restartInfo = []
  | .stop =>
    p.run.stopped = true ∨
      p.run.subscriptions.Pairwise fun e e' => Apart AddSubscription.lt e.2 e'.2
  | .restart =>
    p.run.stopped = true →
      ∀ ty, p.run.Room ty (p.run.restartInfo.countP fun e => e.1.connectionType = ty)
  | .othersAdd x => p.run.Room x.connectionType 1
  | .othersRemove ty id twinId => p.run.Foreign (ty, id) ∧ p.twin.Foreign (ty, twinId)

/-! ## One run -/

theorem ConnectionType.number_injective : Function.Injective ConnectionType.number := by
  intro a b h
  cases a <;> cases b <;> first | rfl | exact absurd h (by decide)

theorem recKey_apart {k k' : SubscriptionRecKey} (h : k ≠ k') : Apart recKeyLt k k' := by
  obtain ⟨ty, id⟩ := k
  obtain ⟨ty', id'⟩ := k'
  simp only [Apart, recKeyLt, decide_eq_true_eq]
  by_cases hty : ty.number = ty'.number
  · have hid : id ≠ id' := fun hid => h (by rw [ConnectionType.number_injective hty, hid])
    omega
  · omega

/-- What holds of each run on its own. -/
structure Sound (env : Env) (s : State) : Prop where
  record : s.subscriptions.Perm s.own
  nodup : (s.clients.map Client.key).Nodup
  bounded : ∀ c ∈ s.clients, c.id ≤ s.counter c.subscription.connectionType
  works : ∀ e ∈ s.subscriptions, env.works e.2 = true

variable {env : Env} {s s' : State} {x : AddSubscription} {k : SubscriptionRecKey}

theorem mem_own {e : SubscriptionRecKey × AddSubscription} :
    e ∈ s.own ↔ ∃ c ∈ s.clients, c.mine = true ∧ (c.key, c.subscription) = e := by
  rw [State.own, List.mem_map]
  simp only [List.mem_filter, and_assoc]

theorem own_removeClient (s : State) (k : SubscriptionRecKey) :
    (removeClient s k).own = erase k s.own := by
  rw [State.own, removeClient, erase, State.own, List.filter_map, List.filter_filter,
    List.filter_filter]
  congr 1
  exact List.filter_congr fun c _ => Bool.and_comm ..

theorem works_supports (h : env.works x = true) : env.supports x.connectionType = true := by
  simp only [Env.works, Bool.and_eq_true] at h
  exact h.1.1

theorem Sound.mem_clients (hs : Sound env s) {e : SubscriptionRecKey × AddSubscription}
    (he : e ∈ s.subscriptions) : ∃ c ∈ s.clients, c.mine = true ∧ (c.key, c.subscription) = e :=
  mem_own.mp (hs.record.mem_iff.mp he)

theorem Sound.supports (hs : Sound env s) (hk : k ∈ s.subscriptions.map Prod.fst) :
    env.supports k.1 = true := by
  obtain ⟨e, he, rfl⟩ := List.mem_map.mp hk
  have hw := works_supports (hs.works e he)
  obtain ⟨c, -, -, rfl⟩ := hs.mem_clients he
  exact hw

/-- What is recorded is a client of the listener. -/
theorem Sound.mine (hs : Sound env s) (hk : k ∈ s.subscriptions.map Prod.fst) : s.Mine k := by
  obtain ⟨e, he, rfl⟩ := List.mem_map.mp hk
  obtain ⟨c, hc, hmine, rfl⟩ := hs.mem_clients he
  intro c' hc' hkey
  have heq : c' = c := List.inj_on_of_nodup_map hs.nodup hc' hc hkey
  exact heq ▸ hmine

theorem Sound.nodup_keys (hs : Sound env s) : (s.subscriptions.map Prod.fst).Nodup := by
  rw [(hs.record.map Prod.fst).nodup_iff, State.own, List.map_map]
  exact hs.nodup.sublist ((List.filter_sublist ..).map Client.key)

/-- A counter that has room gives an id that is new. -/
theorem Sound.fresh (hs : Sound env s) (ty : ConnectionType) :
    ∀ c ∈ s.clients, c.key ≠ (ty, s.counter ty + 1) := by
  intro c hc hkey
  have hle := hs.bounded c hc
  obtain ⟨hty, hid⟩ := Prod.mk.inj hkey
  rw [hty] at hle
  omega

/-! ### Adding -/

/-- The listener has added a client. -/
def State.added (s : State) (x : AddSubscription) : State :=
  let id := s.counter x.connectionType + 1
  { s with
    counter := Function.update s.counter x.connectionType id
    clients := s.clients ++ [⟨id, true, x⟩]
    subscriptions := insert recKeyLt (x.connectionType, id) x s.subscriptions }

theorem addClient_eq (mine : Bool)
    (hopen : env.opens x.connectionType x.connectionLocator = .opened)
    (hroom : s.Room x.connectionType 1) :
    addClient env s mine x =
      ({ s with
        counter := Function.update s.counter x.connectionType (s.counter x.connectionType + 1)
        clients := s.clients ++ [⟨s.counter x.connectionType + 1, mine, x⟩] },
        some (s.counter x.connectionType + 1)) := by
  rw [addClient, hopen, Nat.mod_eq_of_lt hroom]

theorem addSubscription_eq (hrun : s.stopped = false) (hw : env.works x = true)
    (hroom : s.Room x.connectionType 1) :
    addSubscription env s x =
      (s.added x, .published (.addSubscriptionResponse (s.counter x.connectionType + 1))) := by
  simp only [Env.works, Bool.and_eq_true, decide_eq_true_eq] at hw
  obtain ⟨⟨hsupports, hparses⟩, hopen⟩ := hw
  rw [addSubscription, hrun, if_neg Bool.false_ne_true, if_pos hsupports, if_pos hparses,
    addClient_eq true hopen hroom]
  rfl

theorem nodup_keys_snoc {c : Client} (hn : (s.clients.map Client.key).Nodup)
    (hc : ∀ c' ∈ s.clients, c'.key ≠ c.key) : ((s.clients ++ [c]).map Client.key).Nodup := by
  rw [List.map_append, List.map_singleton, List.nodup_append]
  refine ⟨hn, List.nodup_singleton _, fun k hk k' hk' => ?_⟩
  obtain ⟨c', hc', rfl⟩ := List.mem_map.mp hk
  rw [List.mem_singleton.mp hk']
  exact hc c' hc'

theorem bounded_snoc {c : Client}
    (hb : ∀ c' ∈ s.clients, c'.id ≤ s.counter c'.subscription.connectionType)
    (hc : c.id = s.counter c.subscription.connectionType + 1) :
    ∀ c' ∈ s.clients ++ [c], c'.id ≤
      Function.update s.counter c.subscription.connectionType c.id
        c'.subscription.connectionType := by
  intro c' hc'
  rw [Function.update_apply]
  rcases List.mem_append.mp hc' with hc' | hc'
  · have hle := hb c' hc'
    split
    · next hty =>
      rw [hty] at hle
      omega
    · exact hle
  · rw [List.mem_singleton.mp hc', if_pos rfl]

theorem Sound.perm_added (hs : Sound env s) (x : AddSubscription) :
    (s.added x).subscriptions.Perm
      (((x.connectionType, s.counter x.connectionType + 1), x) :: s.subscriptions) := by
  refine insert_perm fun e he => recKey_apart fun hk => ?_
  obtain ⟨c, hc, -, rfl⟩ := hs.mem_clients he
  exact hs.fresh _ c hc hk.symm

theorem Sound.added (hs : Sound env s) (hw : env.works x = true) : Sound env (s.added x) := by
  have hperm := hs.perm_added x
  refine ⟨?_, nodup_keys_snoc hs.nodup (hs.fresh _), bounded_snoc hs.bounded rfl, ?_⟩
  · have hown : (s.added x).own =
        s.own ++ [((x.connectionType, s.counter x.connectionType + 1), x)] := by
      rw [State.own, State.added, List.filter_append, List.map_append]
      rfl
    rw [hown]
    exact (hperm.trans (hs.record.cons _)).trans (List.perm_append_singleton ..).symm
  · intro e he
    rcases List.mem_cons.mp (hperm.mem_iff.mp he) with rfl | he
    · exact hw
    · exact hs.works e he

/-- A client of somebody else changes nothing for the listener. -/
theorem Sound.addClient (hs : Sound env s) (hroom : s.Room x.connectionType 1) :
    Sound env (addClient env s false x).1 := by
  have hid : (s.counter x.connectionType + 1) % 2 ^ 32 = s.counter x.connectionType + 1 :=
    Nat.mod_eq_of_lt hroom
  rw [BroadcastListener.addClient, hid]
  cases env.opens x.connectionType x.connectionLocator with
  | threw => exact hs
  | failed =>
      refine ⟨hs.record, hs.nodup, fun c hc => ?_, hs.works⟩
      exact bounded_snoc (c := ⟨_, false, x⟩) hs.bounded rfl c (List.mem_append_left _ hc)
  | opened =>
      refine ⟨?_, nodup_keys_snoc hs.nodup (hs.fresh _), bounded_snoc hs.bounded rfl, hs.works⟩
      refine hs.record.trans (.of_eq ?_)
      rw [State.own, State.own, List.filter_append]
      exact congrArg _ (List.append_nil _).symm

/-! ### Removing -/

theorem Sound.removeClient (hs : Sound env s) (k : SubscriptionRecKey) :
    Sound env { removeClient s k with subscriptions := erase k s.subscriptions } where
  record := by
    show (erase k s.subscriptions).Perm (BroadcastListener.removeClient s k).own
    rw [own_removeClient]
    exact hs.record.filter _
  nodup := hs.nodup.sublist (List.filter_sublist.map _)
  bounded := fun c hc => hs.bounded c (List.mem_of_mem_filter hc)
  works := fun e he => hs.works e (List.mem_of_mem_filter he)

theorem Sound.removeForeign (hs : Sound env s) (hk : s.Foreign k) :
    Sound env (BroadcastListener.removeClient s k) := by
  have herase : erase k s.subscriptions = s.subscriptions := by
    refine List.filter_eq_self.mpr fun e he => decide_eq_true fun hek => ?_
    obtain ⟨c, hc, hmine, rfl⟩ := hs.mem_clients he
    exact absurd hmine (Bool.eq_false_iff.mp (hk c hc hek))
  have h := hs.removeClient k
  rw [herase] at h
  exact h

theorem lost_of_mine (hk : s.Mine k) :
    (s.clients.filter fun c => c.key = k ∧ ¬ c.mine) = [] := by
  refine List.filter_eq_nil_iff.mpr fun c hc h => ?_
  obtain ⟨hkey, hmine⟩ := of_decide_eq_true h
  exact hmine (hk c hc hkey)

theorem take_eq (hsupports : env.supports k.1 = true) (hk : s.Mine k) :
    take env s k = BroadcastListener.removeClient s k := by
  rw [take, if_pos hsupports, lost_of_mine hk, List.append_nil]
  rfl

theorem Sound.forget (hs : Sound env s) (hsupports : env.supports k.1 = true) :
    Sound env (forget env s k) := by
  have h := hs.removeClient k
  rw [BroadcastListener.forget, take, if_pos hsupports]
  exact ⟨h.record, h.nodup, h.bounded, h.works⟩

/-- Only clients go, and what is known of them. -/
theorem forget_frame (env : Env) (s : State) (k : SubscriptionRecKey) :
    (forget env s k).counter = s.counter ∧ (forget env s k).restartInfo = s.restartInfo ∧
      (forget env s k).stopped = s.stopped ∧ (forget env s k).unanswered = s.unanswered := by
  rw [forget, take]
  split <;> exact ⟨rfl, rfl, rfl, rfl⟩

theorem forget_lost (hsupports : env.supports k.1 = true) (hk : s.Mine k) :
    (forget env s k).lost = s.lost := by
  rw [forget, take_eq hsupports hk]
  rfl

theorem takeAll_eq {ks : List SubscriptionRecKey} (hsupports : ∀ k ∈ ks, env.supports k.1 = true)
    (hks : ∀ k ∈ ks, s.Mine k) :
    takeAll env s ks = { s with clients := s.clients.filter fun c => c.key ∉ ks } := by
  induction ks generalizing s with
  | nil =>
      have hall : (s.clients.filter fun c => c.key ∉ ([] : List SubscriptionRecKey)) = s.clients :=
        List.filter_eq_self.mpr fun c _ => decide_eq_true List.not_mem_nil
      rw [hall]
      rfl
  | cons k ks ih =>
      have hmine : ∀ k' ∈ ks, (BroadcastListener.removeClient s k).Mine k' := fun k' hk' c hc =>
        hks k' (List.mem_cons_of_mem _ hk') c (List.mem_of_mem_filter hc)
      rw [takeAll, List.foldl_cons, take_eq (hsupports k List.mem_cons_self)
        (hks k List.mem_cons_self)]
      refine (ih (fun k' hk' => hsupports k' (List.mem_cons_of_mem _ hk')) hmine).trans ?_
      rw [BroadcastListener.removeClient, List.filter_filter]
      congr 1
      refine List.filter_congr fun c _ => ?_
      rw [← Bool.decide_and, decide_eq_decide, List.mem_cons, not_or, and_comm]

/-- What is left when the listener has removed all that it has recorded. -/
def State.cleared (s : State) : State :=
  { s with
    clients := s.clients.filter fun c => c.key ∉ s.subscriptions.map Prod.fst
    subscriptions := [] }

theorem Sound.removeAll_eq (hs : Sound env s) :
    (removeAllSubscriptions env s).1 = { s.cleared with
      restartInfo :=
        if s.stopped then
          insertAll AddSubscription.lt s.restartInfo (s.subscriptions.map Prod.swap)
        else s.restartInfo } := by
  rw [removeAllSubscriptions, takeAll_eq (fun k hk => hs.supports hk) (fun k hk => hs.mine hk)]
  rfl

theorem Sound.cleared (hs : Sound env s) : Sound env s.cleared where
  record := by
    have hown : s.cleared.own = [] := by
      refine List.eq_nil_iff_forall_not_mem.mpr fun e he => ?_
      obtain ⟨c, hc, hmine, -⟩ := mem_own.mp he
      obtain ⟨hc, hkey⟩ := List.mem_filter.mp hc
      have hmem := hs.record.mem_iff.mpr (mem_own.mpr ⟨c, hc, hmine, rfl⟩)
      exact of_decide_eq_true hkey (List.mem_map.mpr ⟨_, hmem, rfl⟩)
    rw [hown]
    exact .refl _
  nodup := hs.nodup.sublist (List.filter_sublist.map _)
  bounded := fun c hc => hs.bounded c (List.mem_of_mem_filter hc)
  works := fun e he => absurd he List.not_mem_nil

/-! ### Restarting -/

/-- What a restart has done to the components and to the record. -/
structure AddedAgain (env : Env) (s : State) (xs : List AddSubscription) (s' : State) : Prop where
  sound : Sound env s'
  more : (s'.subscriptions.map Prod.snd).Perm (xs ++ s.subscriptions.map Prod.snd)
  counter : ∀ ty, s.counter ty ≤ s'.counter ty
  restartInfo : s'.restartInfo = s.restartInfo
  stopped : s'.stopped = s.stopped
  unanswered : s'.unanswered = s.unanswered
  lost : s'.lost = s.lost

theorem counter_added (s : State) (x : AddSubscription) (ty : ConnectionType) :
    (s.added x).counter ty =
      if ty = x.connectionType then s.counter x.connectionType + 1 else s.counter ty :=
  Function.update_apply ..

theorem counter_le_added (s : State) (x : AddSubscription) (ty : ConnectionType) :
    s.counter ty ≤ (s.added x).counter ty := by
  rw [counter_added]
  split
  · next hty => rw [hty]; omega
  · exact Nat.le_refl _

/-- One subscription more of its transport, and the counter of that transport one further. -/
theorem room_added {ty : ConnectionType} {xs : List AddSubscription}
    (hroom : s.Room ty ((x :: xs).countP fun y => y.connectionType = ty)) :
    (s.added x).Room ty (xs.countP fun y => y.connectionType = ty) := by
  unfold State.Room at hroom ⊢
  rw [List.countP_cons] at hroom
  rw [counter_added]
  by_cases hty : x.connectionType = ty
  · rw [if_pos (decide_eq_true hty)] at hroom
    rw [if_pos hty.symm, hty]
    omega
  · rw [if_neg (by simpa using hty)] at hroom
    rw [if_neg (Ne.symm hty)]
    exact hroom

theorem Sound.addAgain {xs : List AddSubscription} (hs : Sound env s) (hrun : s.stopped = false)
    (hw : ∀ x ∈ xs, env.works x = true)
    (hroom : ∀ ty, s.Room ty (xs.countP fun x => x.connectionType = ty)) :
    AddedAgain env s xs (addAgain env s xs) := by
  induction xs generalizing s with
  | nil => exact ⟨hs, .refl _, fun _ => Nat.le_refl _, rfl, rfl, rfl, rfl⟩
  | cons x xs ih =>
      have hx := hw x List.mem_cons_self
      have hfirst : s.Room x.connectionType 1 := by
        have h := hroom x.connectionType
        unfold State.Room at h ⊢
        rw [List.countP_cons, if_pos (decide_eq_true rfl)] at h
        omega
      have hstep : addAgain env s (x :: xs) = addAgain env (s.added x) xs := by
        rw [BroadcastListener.addAgain, actuallyHandle, addSubscription_eq hrun hx hfirst]
      have hrest := ih (hs.added hx) hrun (fun y hy => hw y (List.mem_cons_of_mem _ hy))
        fun ty => room_added (hroom ty)
      rw [hstep]
      refine ⟨hrest.sound, ?_, fun ty => (counter_le_added s x ty).trans (hrest.counter ty),
        hrest.restartInfo, hrest.stopped, hrest.unanswered, hrest.lost⟩
      have hmore := hrest.more
      have hadded := (hs.perm_added x).map Prod.snd
      exact (hmore.trans (hadded.append_left xs)).trans List.perm_middle

/-! ## The two runs, side by side -/

/-- The subscriptions that the listener has, be it stopped or not. -/
def State.kept (s : State) : List AddSubscription :=
  if s.stopped then s.restartInfo.map Prod.fst else s.subscriptions.map Prod.snd

structure Inv (env : Env) (p : Pair) : Prop where
  run : Sound env p.run
  twin : Sound env p.twin
  going : p.twin.stopped = false
  /-- The listener has asked for an id at least as often. -/
  behind : ∀ ty, p.twin.counter ty ≤ p.run.counter ty
  kept : p.run.kept.Perm (p.twin.subscriptions.map Prod.snd)
  waiting : p.run.stopped = true → p.run.subscriptions = []
  running : p.run.stopped = false → p.run.restartInfo = []
  answered : p.run.unanswered = []
  spared : p.run.lost = []

variable {p : Pair}

theorem Inv.transparent (hi : Inv env p) : Transparent p where
  same := by
    intro hrun
    have hkept := hi.kept
    rw [State.kept, if_neg (Bool.eq_false_iff.mp hrun)] at hkept
    have hlive := hi.run.record.map Prod.snd
    exact (hlive.symm.trans hkept).trans (hi.twin.record.map Prod.snd)
  record := hi.run.record
  answered := hi.answered
  spared := hi.spared

theorem inv_init (env : Env) : Inv env (machine env).init := by
  have hinit : Sound env .init :=
    ⟨.refl _, List.nodup_nil, fun c hc => absurd hc List.not_mem_nil,
      fun e he => absurd he List.not_mem_nil⟩
  exact ⟨hinit, hinit, rfl, fun _ => Nat.le_refl _, .refl _, fun _ => rfl, fun _ => rfl, rfl, rfl⟩

theorem Room.twin (hi : Inv env p) {ty : ConnectionType} {n : Nat} (hroom : p.run.Room ty n) :
    p.twin.Room ty n := by
  have hle := hi.behind ty
  unfold State.Room at hroom ⊢
  omega

theorem handle_add (hrun : s.stopped = false) (hw : env.works x = true)
    (hroom : s.Room x.connectionType 1) : handle env s (.addSubscription x) = s.added x := by
  rw [handle, actuallyHandle, addSubscription_eq hrun hw hroom]

theorem handle_add_unsupported (hrun : s.stopped = false)
    (hx : ¬ env.supports x.connectionType = true) : handle env s (.addSubscription x) = s := by
  rw [handle, actuallyHandle, addSubscription, hrun, if_neg Bool.false_ne_true, if_neg hx]

theorem handle_remove (hrun : s.stopped = false) (hsupports : env.supports k.1 = true) :
    handle env s (.removeSubscription k.1 k.2) = forget env s k := by
  rw [handle, actuallyHandle, removeSubscription, hrun, if_neg Bool.false_ne_true,
    if_pos hsupports]

theorem handle_remove_unsupported (hrun : s.stopped = false)
    (hsupports : ¬ env.supports k.1 = true) :
    handle env s (.removeSubscription k.1 k.2) = s := by
  rw [handle, actuallyHandle, removeSubscription, hrun, if_neg Bool.false_ne_true,
    if_neg hsupports]

theorem kept_running (hrun : s.stopped = false) : s.kept = s.subscriptions.map Prod.snd := by
  rw [State.kept, hrun, if_neg Bool.false_ne_true]

theorem Inv.add (hi : Inv env p) (hg : Orderly env p (.addSubscription x)) :
    Inv env (step env p (.addSubscription x)) := by
  obtain ⟨hrun, hwork⟩ := hg
  show Inv env ⟨_, _⟩
  by_cases hsupports : env.supports x.connectionType = true
  · obtain ⟨hw, hroom⟩ := hwork hsupports
    rw [handle_add hrun hw hroom, handle_add hi.going hw (Room.twin hi hroom)]
    have hkept := hi.kept
    rw [kept_running hrun] at hkept
    refine ⟨hi.run.added hw, hi.twin.added hw, hi.going, ?_, ?_,
      fun hstopped => absurd hrun (Bool.ne_false_iff.mpr hstopped), hi.running, hi.answered,
      hi.spared⟩
    · intro ty
      rw [counter_added, counter_added]
      have hle := hi.behind x.connectionType
      split
      · omega
      · exact hi.behind ty
    · rw [kept_running (s := p.run.added x) hrun]
      have hmore := (hi.run.perm_added x).map Prod.snd
      have hmore' := (hi.twin.perm_added x).map Prod.snd
      exact (hmore.trans (hkept.cons x)).trans hmore'.symm
  · rw [handle_add_unsupported hrun hsupports, handle_add_unsupported hi.going hsupports]
    exact hi

theorem Inv.remove {ty : ConnectionType} {id twinId : Nat} (hi : Inv env p)
    (hg : Orderly env p (.removeSubscription ty id twinId)) :
    Inv env (step env p (.removeSubscription ty id twinId)) := by
  obtain ⟨hrun, hmine, hlookup⟩ := hg
  show Inv env ⟨_, _⟩
  by_cases hsupports : env.supports ty = true
  · rw [handle_remove (k := (ty, id)) hrun hsupports,
      handle_remove (k := (ty, twinId)) hi.going hsupports]
    have hkept := hi.kept
    rw [kept_running hrun] at hkept
    -- both runs lose the subscription that they have found, and the rest was the same before
    have hrest : ((erase (ty, id) p.run.subscriptions).map Prod.snd).Perm
        ((erase (ty, twinId) p.twin.subscriptions).map Prod.snd) := by
      have hrun' := perm_lookup_erase hi.run.nodup_keys (ty, id)
      have htwin' := perm_lookup_erase hi.twin.nodup_keys (ty, twinId)
      rw [hlookup] at hrun'
      exact (List.perm_append_left_iff _).mp ((hrun'.symm.trans hkept).trans htwin')
    obtain ⟨hcounter, hrestart, hstop, hanswered⟩ := forget_frame env p.run (ty, id)
    obtain ⟨hcounter', -, hstop', -⟩ := forget_frame env p.twin (ty, twinId)
    refine ⟨hi.run.forget hsupports, hi.twin.forget hsupports, hstop'.trans hi.going, ?_, ?_, ?_,
      fun _ => hrestart.trans (hi.running hrun), hanswered.trans hi.answered,
      (forget_lost hsupports hmine).trans hi.spared⟩
    · intro ty'
      rw [hcounter, hcounter']
      exact hi.behind ty'
    · rw [kept_running (hstop.trans hrun)]
      exact hrest
    · intro hstopped
      rw [hstop, hrun] at hstopped
      exact absurd hstopped Bool.false_ne_true
  · rw [handle_remove_unsupported (k := (ty, id)) hrun hsupports,
      handle_remove_unsupported (k := (ty, twinId)) hi.going hsupports]
    exact hi

theorem Inv.removeAll (hi : Inv env p) (hg : Orderly env p .removeAllSubscriptions) :
    Inv env (step env p .removeAllSubscriptions) := by
  have hrun : handle env p.run .removeAllSubscriptions = p.run.cleared := by
    refine hi.run.removeAll_eq.trans ?_
    cases hstopped : p.run.stopped with
    | false => rw [if_neg Bool.false_ne_true]; rfl
    | true =>
      rw [if_pos rfl, hi.waiting hstopped]
      rfl
  have htwin : handle env p.twin .removeAllSubscriptions = p.twin.cleared := by
    refine hi.twin.removeAll_eq.trans ?_
    rw [hi.going, if_neg Bool.false_ne_true]
    rfl
  show Inv env ⟨_, _⟩
  rw [hrun, htwin]
  refine ⟨hi.run.cleared, hi.twin.cleared, hi.going, hi.behind, ?_, fun _ => rfl, hi.running,
    hi.answered, hi.spared⟩
  cases hstopped : p.run.stopped with
  | false =>
    rw [kept_running (s := p.run.cleared) hstopped]
    exact .refl _
  | true =>
    rw [State.kept, if_pos (show p.run.cleared.stopped = true from hstopped)]
    show (p.run.restartInfo.map Prod.fst).Perm []
    rw [hg hstopped]
    exact .refl _

theorem Inv.stop (hi : Inv env p) (hg : Orderly env p .stop) : Inv env (step env p .stop) := by
  show Inv env { p with run := BroadcastListener.stop env p.run }
  rw [BroadcastListener.stop]
  cases hstopped : p.run.stopped with
  | true => exact hi
  | false =>
    have hapart := hg.resolve_left (Bool.eq_false_iff.mp hstopped)
    have hs : Sound env { p.run with stopped := true } :=
      ⟨hi.run.record, hi.run.nodup, hi.run.bounded, hi.run.works⟩
    have hkept := hi.kept
    rw [kept_running hstopped] at hkept
    have hmoved : (insertAll AddSubscription.lt p.run.restartInfo
        (p.run.subscriptions.map Prod.swap)).Perm (p.run.subscriptions.map Prod.swap) := by
      rw [hi.running hstopped]
      have hpairs : (p.run.subscriptions.map Prod.swap).Pairwise fun e e' =>
          Apart AddSubscription.lt e.1 e'.1 := List.pairwise_map.mpr hapart
      have hnew : ∀ e ∈ p.run.subscriptions.map Prod.swap,
          ∀ e' ∈ ([] : List (AddSubscription × SubscriptionRecKey)),
            Apart AddSubscription.lt e.1 e'.1 := fun _ _ _ he' => absurd he' List.not_mem_nil
      have h := insertAll_perm hpairs hnew
      rw [List.append_nil] at h
      exact h
    have hkeys : (p.run.subscriptions.map Prod.swap).map Prod.fst =
        p.run.subscriptions.map Prod.snd := by
      rw [List.map_map]
      rfl
    rw [if_neg Bool.false_ne_true, actuallyHandle, hs.removeAll_eq, if_pos rfl]
    have hcleared := hs.cleared
    refine ⟨⟨hcleared.record, hcleared.nodup, hcleared.bounded, hcleared.works⟩, hi.twin, hi.going,
      hi.behind, ?_, fun _ => rfl, fun hrun => (by cases hrun), hi.answered, hi.spared⟩
    have hnow := hmoved.map Prod.fst
    rw [hkeys] at hnow
    exact hnow.trans hkept

theorem Inv.restart (hi : Inv env p) (hg : Orderly env p .restart) :
    Inv env (step env p .restart) := by
  show Inv env { p with run := BroadcastListener.restart env p.run }
  rw [BroadcastListener.restart]
  cases hstopped : p.run.stopped with
  | false => exact hi
  | true =>
    rw [if_pos rfl]
    have hkept := hi.kept
    rw [State.kept, if_pos hstopped] at hkept
    have hs : Sound env { p.run with restartInfo := [], stopped := false } :=
      ⟨hi.run.record, hi.run.nodup, hi.run.bounded, hi.run.works⟩
    -- the twin has these subscriptions, so clients can be added for them
    have hworks : ∀ x ∈ p.run.restartInfo.map Prod.fst, env.works x = true := by
      intro x hx
      obtain ⟨e, he, rfl⟩ := List.mem_map.mp (hkept.mem_iff.mp hx)
      exact hi.twin.works e he
    have hagain := hs.addAgain rfl hworks fun ty => by
      rw [List.countP_map]
      exact hg hstopped ty
    have hrun : (addAgain env { p.run with restartInfo := [], stopped := false }
        (p.run.restartInfo.map Prod.fst)).stopped = false := hagain.stopped
    refine ⟨hagain.sound, hi.twin, hi.going, fun ty => ?_, ?_, fun h => ?_,
      fun _ => hagain.restartInfo, hagain.unanswered.trans hi.answered,
      hagain.lost.trans hi.spared⟩
    · exact (hi.behind ty).trans (hagain.counter ty)
    · rw [kept_running hrun]
      have hmore := hagain.more
      rw [show p.run.subscriptions = [] from hi.waiting hstopped, List.map_nil,
        List.append_nil] at hmore
      exact hmore.trans hkept
    · rw [hrun] at h
      exact absurd h Bool.false_ne_true

/-- Whatever comes of it, the listener has what it had. -/
theorem addClient_frame (env : Env) (s : State) (x : AddSubscription) :
    let s' := (addClient env s false x).1
    s'.subscriptions = s.subscriptions ∧ s'.restartInfo = s.restartInfo ∧
      s'.stopped = s.stopped ∧ s'.unanswered = s.unanswered ∧ s'.lost = s.lost := by
  dsimp only
  rw [addClient]
  split <;> exact ⟨rfl, rfl, rfl, rfl, rfl⟩

theorem counter_addClient (hroom : s.Room x.connectionType 1) (ty : ConnectionType) :
    (addClient env s false x).1.counter ty =
      if env.opens x.connectionType x.connectionLocator ≠ .threw ∧ ty = x.connectionType then
        s.counter x.connectionType + 1
      else s.counter ty := by
  have hid : (s.counter x.connectionType + 1) % 2 ^ 32 = s.counter x.connectionType + 1 :=
    Nat.mod_eq_of_lt hroom
  rw [addClient, hid]
  cases env.opens x.connectionType x.connectionLocator with
  | threw => rfl
  | failed | opened =>
      refine (Function.update_apply ..).trans ?_
      by_cases hty : ty = x.connectionType <;> simp [hty]

theorem Inv.othersAdd (hi : Inv env p) (hroom : p.run.Room x.connectionType 1) :
    Inv env (step env p (.othersAdd x)) := by
  obtain ⟨hsubs, hrestart, hstop, hanswered, hlost⟩ := addClient_frame env p.run x
  obtain ⟨hsubs', -, hstop', -, -⟩ := addClient_frame env p.twin x
  have hroom' := Room.twin hi hroom
  refine ⟨hi.run.addClient hroom, hi.twin.addClient hroom', hstop'.trans hi.going, ?_, ?_, ?_, ?_,
    hanswered.trans hi.answered, hlost.trans hi.spared⟩
  · intro ty
    show (addClient env p.twin false x).1.counter ty ≤ (addClient env p.run false x).1.counter ty
    rw [counter_addClient hroom, counter_addClient hroom']
    have hle := hi.behind x.connectionType
    split
    · omega
    · exact hi.behind ty
  · show (State.kept (addClient env p.run false x).1).Perm
      ((addClient env p.twin false x).1.subscriptions.map Prod.snd)
    rw [State.kept, hsubs, hrestart, hstop, hsubs']
    exact hi.kept
  · exact fun hstopped => hsubs.trans (hi.waiting (hstop.symm.trans hstopped))
  · exact fun hrun => hrestart.trans (hi.running (hstop.symm.trans hrun))

theorem inv_step (hi : Inv env p) {a : Act} (hg : Orderly env p a) : Inv env (step env p a) := by
  cases a with
  | addSubscription x => exact hi.add hg
  | removeSubscription ty id twinId => exact hi.remove hg
  | removeAllSubscriptions => exact hi.removeAll hg
  | stop => exact hi.stop hg
  | restart => exact hi.restart hg
  | othersAdd x => exact hi.othersAdd hg
  | othersRemove ty id twinId =>
      exact ⟨hi.run.removeForeign hg.1, hi.twin.removeForeign hg.2, hi.going, hi.behind, hi.kept,
        hi.waiting, hi.running, hi.answered, hi.spared⟩

/-- All components are there, and no text is an expression. -/
def everything : Env := ⟨fun _ => true, fun _ _ => .opened, ⟨fun _ => none⟩⟩

def nngAt (identifier topic : String) : AddSubscription :=
  ⟨.nng, { (default : Locator) with identifier := identifier.toList }, topic.toList⟩

/-- Two topics. The first one is removed after the restart, under the id that it has got by then. -/
def twoTopics : List Act :=
  [.addSubscription (nngAt "" "b"), .addSubscription (nngAt "" "a"), .othersAdd (nngAt "" "b"),
    .stop, .restart, .removeSubscription .nng 5 1]

/-- Two identifiers. -/
def twoIdentifiers : List Act :=
  [.addSubscription (nngAt "x" "a"), .addSubscription (nngAt "y" "a"), .stop, .restart]

theorem twoTopics_orderly :
    (machine everything).Within (Orderly everything) (machine everything).init twoTopics := by
  refine ⟨⟨rfl, fun _ => ⟨rfl, by decide⟩⟩, ⟨rfl, fun _ => ⟨rfl, by decide⟩⟩, ?_, ?_, ?_,
    ⟨rfl, ?_, ?_⟩, trivial⟩
  · show State.Room _ _ _
    decide
  · exact .inr (by decide)
  · intro _ ty
    cases ty <;> decide
  · show ∀ c ∈ State.clients _, _
    decide
  · decide

end BroadcastListener
