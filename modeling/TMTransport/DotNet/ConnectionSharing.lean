import Mathlib.Data.Finset.Basic
import TMTransport.Library.Machine
import TMTransport.Locator.ConnectionLocator

/-!
# The shared connections of the .NET components

RabbitMQ connections are kept in a dictionary, with the channels that use them, and
Redis multiplexers in another one, with a count. The keys are locators with all but
the connection parameters taken out.

Such a locator is made anew at each look-up, with a dictionary for its properties, and
its hash code has in it the hash code of that dictionary object, which is the object's
own. So a look-up never finds what another one has left. RabbitMQ keeps the locator that
it has made, and finds its entry again; Redis makes another one, and finds nothing.

Hence nothing is ever shared, and a multiplexer that has been opened is never closed
(`wellKept_iff`).
-/

namespace DotNetConnections

open ConnectionLocator Interleave

inductive Transport where
  | rabbitMQ
  | redis
  deriving DecidableEq

inductive Role where
  | importer (topic : Text)
  | exporter
  /-- Its replies come to a topic of its own. -/
  | clientFacility (myID : Text)
  deriving DecidableEq

/-- `RedisChannel` -/
structure RedisChannel where
  name : Text
  isPattern : Bool
  deriving DecidableEq

/-- What a component subscribes to in Redis. -/
def Role.channel : Role → Option RedisChannel
  | importer topic => some ⟨topic, true⟩
  | exporter => none
  | clientFacility myID => some ⟨myID, false⟩

structure Component where
  transport : Transport
  role : Role
  locator : Locator

/-! ## Keys -/

/-- The properties that go into a RabbitMQ connection. -/
def connectionProperties : List Text :=
  ["ssl".toList, "vhost".toList, "server_name".toList, "client_cert".toList]

/-- The simplified locator of `constructConnection`. -/
def rabbitMQSimplified (l : Locator) : Locator where
  host := l.host
  port := l.port
  userName := l.userName
  password := l.password
  identifier := []
  properties := connectionProperties.foldl (fun ps name =>
    match l.properties.find name with
    | none => ps
    | some value => ps.insert name value) .empty

/-- The simplified locator of `getMultiplexer` and `removeMultiplexer`. -/
def redisSimplified (l : Locator) : Locator where
  host := l.host
  port := l.port
  userName := []
  password := []
  identifier := []
  properties := .empty

/-- The connection parameters of a component. -/
def Component.parameters (x : Component) : Transport × Locator :=
  match x.transport with
  | .rabbitMQ => (.rabbitMQ, rabbitMQSimplified x.locator)
  | .redis => (.redis, redisSimplified x.locator)

/-- A locator object, with the dictionary object that its properties are in. Two of them are one
key if `Equals` compares them as equal, by their contents, and `GetHashCode` is the same: for
equal contents, if the dictionary objects are the same. -/
structure Key where
  locator : Locator
  properties : Nat
  deriving DecidableEq

/-! ## Steps -/

/-- `ConnectionDetails`, with the components that the channels belong to. -/
structure ConnectionDetails (ι : Type) where
  connection : Nat
  models : Finset ι

structure MultiplexerInfo where
  multiplexer : Nat
  count : Nat

/-- How far a component is. `connection` is a RabbitMQ connection or a multiplexer. -/
inductive Phase where
  | idle
  /-- It has got its connection, and is about to use it. -/
  | starting (key : Key) (connection : Nat)
  | started (key : Key) (connection : Nat)
  | disposed (key : Key) (connection : Nat)

/-- The connection of a component that has been started, or is about to be, and has not been
disposed of. -/
def Phase.inUse : Phase → Option Nat
  | starting _ connection => some connection
  | started _ connection => some connection
  | _ => none

def Phase.key? : Phase → Option Key
  | idle => none
  | starting key _ => some key
  | started key _ => some key
  | disposed key _ => some key

structure State (ι : Type) where
  connections : Key → Option (ConnectionDetails ι)
  multiplexers : Key → Option MultiplexerInfo
  nextDictionary : Nat
  nextConnection : Nat
  isOpen : Nat → Bool
  channelOpen : ι → Bool
  /-- The handlers that a multiplexer has for a channel. -/
  handlers : Nat → RedisChannel → Finset ι
  phase : ι → Phase

inductive Act (ι : Type) where
  /-- `constructConnection`, or `getMultiplexer`. -/
  | connect (i : ι)
  /-- `CreateModel`, `registerChannel` and the rest of `start`, or `Subscribe`. -/
  | finish (i : ι)
  | dispose (i : ι)

section Step

variable {ι : Type} [DecidableEq ι]

def State.setPhase (s : State ι) (i : ι) (p : Phase) : State ι :=
  { s with phase := Function.update s.phase i p }

def State.openConnection (s : State ι) : State ι :=
  { s with
    isOpen := Function.update s.isOpen s.nextConnection true
    nextConnection := s.nextConnection + 1 }

def State.closeConnection (s : State ι) (c : Nat) : State ι :=
  { s with isOpen := Function.update s.isOpen c false }

/-- `new ConnectionLocator(…)` -/
def State.newKey (s : State ι) (l : Locator) : State ι × Key :=
  ({ s with nextDictionary := s.nextDictionary + 1 }, ⟨l, s.nextDictionary⟩)

def constructConnection (s : State ι) (l : Locator) : State ι × Key × Nat :=
  let (s, key) := s.newKey (rabbitMQSimplified l)
  match s.connections key with
  | some conn => (s, key, conn.connection)
  | none =>
    ({ s.openConnection with
        connections := Function.update s.connections key (some ⟨s.nextConnection, ∅⟩) },
      key, s.nextConnection)

def registerChannel (s : State ι) (key : Key) (i : ι) : State ι :=
  match s.connections key with
  | some conn =>
    { s with
      connections := Function.update s.connections key
        (some ⟨conn.connection, insert i conn.models⟩) }
  | none => s

def deregisterChannel (s : State ι) (key : Key) (i : ι) : State ι :=
  match s.connections key with
  | some conn =>
    let models := conn.models.erase i
    if models = ∅ then
      { s.closeConnection conn.connection with
        connections := Function.update s.connections key none }
    else
      { s with
        connections := Function.update s.connections key (some ⟨conn.connection, models⟩) }
  | none => s

def getMultiplexer (s : State ι) (l : Locator) : State ι × Key × Nat :=
  let (s, key) := s.newKey (redisSimplified l)
  match s.multiplexers key with
  | some m =>
    ({ s with
        multiplexers := Function.update s.multiplexers key (some ⟨m.multiplexer, m.count + 1⟩) },
      key, m.multiplexer)
  | none =>
    ({ s.openConnection with
        multiplexers := Function.update s.multiplexers key (some ⟨s.nextConnection, 1⟩) },
      key, s.nextConnection)

def removeMultiplexer (s : State ι) (l : Locator) : State ι :=
  let (s, key) := s.newKey (redisSimplified l)
  match s.multiplexers key with
  | some m =>
    if m.count - 1 = 0 then
      { s.closeConnection m.multiplexer with
        multiplexers := Function.update s.multiplexers key none }
    else
      { s with
        multiplexers := Function.update s.multiplexers key (some ⟨m.multiplexer, m.count - 1⟩) }
  | none => s

def subscribe (s : State ι) (multiplexer : Nat) (role : Role) (i : ι) : State ι :=
  { s with
    handlers := match role.channel with
      | none => s.handlers
      | some channel => Function.update s.handlers multiplexer
          (Function.update (s.handlers multiplexer) channel
            (insert i (s.handlers multiplexer channel))) }

/-- `Unsubscribe` without a handler: all handlers of the channel go. -/
def unsubscribe (s : State ι) (multiplexer : Nat) (role : Role) : State ι :=
  { s with
    handlers := match role.channel with
      | none => s.handlers
      | some channel => Function.update s.handlers multiplexer
          (Function.update (s.handlers multiplexer) channel ∅) }

def connect (s : State ι) (x : Component) : State ι × Key × Nat :=
  match x.transport with
  | .rabbitMQ => constructConnection s x.locator
  | .redis => getMultiplexer s x.locator

/-- If the connection is closed, `CreateModel` throws. -/
def finish (s : State ι) (x : Component) (i : ι) (key : Key) (c : Nat) : State ι :=
  match x.transport with
  | .rabbitMQ =>
    if s.isOpen c then
      { (registerChannel s key i).setPhase i (.started key c) with
        channelOpen := Function.update s.channelOpen i true }
    else s.setPhase i .idle
  | .redis => (subscribe s c x.role i).setPhase i (.started key c)

def dispose (s : State ι) (x : Component) (i : ι) (key : Key) (c : Nat) : State ι :=
  match x.transport with
  | .rabbitMQ =>
    { (deregisterChannel s key i).setPhase i (.disposed key c) with
      channelOpen := Function.update s.channelOpen i false }
  | .redis => (removeMultiplexer (unsubscribe s c x.role) x.locator).setPhase i (.disposed key c)

/-- A component is started once; it may be disposed of again and again. Its own calls come one
after the other. -/
def step (component : ι → Component) (s : State ι) : Act ι → Option (State ι)
  | .connect i =>
    match s.phase i with
    | .idle =>
      let (s, key, c) := connect s (component i)
      some (s.setPhase i (.starting key c))
    | _ => none
  | .finish i =>
    match s.phase i with
    | .starting key c => some (finish s (component i) i key c)
    | _ => none
  | .dispose i =>
    match s.phase i with
    | .idle => some s
    | .starting _ _ => none
    | .started key c => some (dispose s (component i) i key c)
    | .disposed key c => some (dispose s (component i) i key c)

def machine (component : ι → Component) : Machine (State ι) (Act ι) where
  init := ⟨fun _ => none, fun _ => none, 0, 0, fun _ => false, fun _ => false, fun _ _ => ∅,
    fun _ => .idle⟩
  step := step component

end Step

/-! ## What should hold -/

variable {ι : Type}

def Uses (s : State ι) (i : ι) (c : Nat) : Prop := (s.phase i).inUse = some c

/-- The messages get to the importer. -/
def Receives (s : State ι) (x : Component) (i : ι) (c : Nat) : Prop :=
  s.isOpen c = true ∧
    match x.transport with
    | .rabbitMQ => s.channelOpen i = true
    | .redis => ∀ channel, x.role.channel = some channel → i ∈ s.handlers c channel

structure WellKept (component : ι → Component) (s : State ι) : Prop where
  /-- Equal parameters, one connection. -/
  shared : ∀ i j c c', Uses s i c → Uses s j c' →
    (component i).parameters = (component j).parameters → c = c'
  /-- A connection is open as long as it is used. -/
  opened : ∀ c, s.isOpen c = true ↔ ∃ i, Uses s i c
  receiving : ∀ i topic key c, (component i).role = .importer topic → s.phase i = .started key c →
    Receives s (component i) i c

/-- What must not be done: to start a component while there is one with its parameters, and to
dispose of a Redis component. -/
def Apart (component : ι → Component) (s : State ι) : Act ι → Prop
  | .connect i => s.phase i = .idle → ∀ j c, Uses s j c →
      (component j).parameters ≠ (component i).parameters
  | .dispose i => ∀ key c, s.phase i = .started key c → (component i).transport ≠ .redis
  | .finish _ => True

/-- All is well after the step. -/
def WellKeptAfter [DecidableEq ι] (component : ι → Component) (s : State ι) (a : Act ι) : Prop :=
  ∀ s', (machine component).step s a = some s' → WellKept component s'

/-! ## The invariant -/

/-- How things are as long as the components are apart. -/
structure Inv (component : ι → Component) (s : State ι) : Prop where
  /-- The next dictionary is in no key. -/
  connections : ∀ key conn, s.connections key = some conn → key.properties < s.nextDictionary
  multiplexers : ∀ key m, s.multiplexers key = some m → key.properties < s.nextDictionary
  keys : ∀ i key, (s.phase i).key? = some key → key.properties < s.nextDictionary
  bound : ∀ i c, Uses s i c → c < s.nextConnection
  opened : ∀ c, s.isOpen c = true ↔ ∃ i, Uses s i c
  unique : ∀ i j c, Uses s i c → Uses s j c → i = j
  apart : ∀ i j c c', Uses s i c → Uses s j c' →
    (component i).parameters = (component j).parameters → i = j
  starting : ∀ i key c, (component i).transport = .rabbitMQ → s.phase i = .starting key c →
    s.connections key = some ⟨c, ∅⟩
  started : ∀ i key c, (component i).transport = .rabbitMQ → s.phase i = .started key c →
    s.connections key = some ⟨c, {i}⟩ ∧ s.channelOpen i = true
  disposed : ∀ i key c, s.phase i = .disposed key c →
    (component i).transport = .rabbitMQ ∧ s.connections key = none
  handlers : ∀ i key c channel, (component i).transport = .redis → s.phase i = .started key c →
    (component i).role.channel = some channel → i ∈ s.handlers c channel

section Steps

variable {component : ι → Component} {s s' : State ι} {i j : ι} {key : Key} {c : Nat}

theorem Inv.wellKept (h : Inv component s) : WellKept component s where
  shared := fun i j c c' hi hj hp => by
    have hij := h.apart i j c c' hi hj hp
    subst hij
    exact Option.some.inj (hi.symm.trans hj)
  opened := h.opened
  receiving := fun i topic key c hr hs => by
    refine ⟨(h.opened c).mpr ⟨i, by rw [Uses, hs]; rfl⟩, ?_⟩
    cases ht : (component i).transport with
    | rabbitMQ => exact (h.started i key c ht hs).2
    | redis => exact fun channel hc => h.handlers i key c channel ht hs hc

/-- A look-up with a new dictionary finds nothing. -/
theorem Inv.connections_new (h : Inv component s) (l : Locator) :
    s.connections ⟨l, s.nextDictionary⟩ = none := by
  cases hc : s.connections ⟨l, s.nextDictionary⟩ with
  | none => rfl
  | some conn => exact absurd (h.connections _ conn hc) (Nat.lt_irrefl _)

theorem Inv.multiplexers_new (h : Inv component s) (l : Locator) :
    s.multiplexers ⟨l, s.nextDictionary⟩ = none := by
  cases hm : s.multiplexers ⟨l, s.nextDictionary⟩ with
  | none => rfl
  | some m => exact absurd (h.multiplexers _ m hm) (Nat.lt_irrefl _)

/-- The connection that a component is starting with is there. -/
theorem Inv.open_of_uses (h : Inv component s) (hu : Uses s i c) : s.isOpen c = true :=
  (h.opened c).mpr ⟨i, hu⟩

/-- Components with entries of their own have different keys. -/
theorem Inv.key_ne (h : Inv component s) {conn conn' : ConnectionDetails ι} {key' : Key}
    (hk : s.connections key = some conn) (hu : Uses s i conn.connection)
    (hk' : s.connections key' = some conn') (hu' : Uses s j conn'.connection) (hj : j ≠ i) :
    key' ≠ key := by
  intro e
  subst e
  obtain rfl := Option.some.inj (hk.symm.trans hk')
  exact hj (h.unique j i _ hu' hu)

/-- So a component gets a connection of its own. -/
theorem Inv.connect_snd (h : Inv component s) (x : Component) :
    (connect s x).2.2 = s.nextConnection := by
  unfold connect constructConnection getMultiplexer
  cases x.transport with
  | rabbitMQ => simp [State.newKey, h.connections_new]
  | redis => simp [State.newKey, h.multiplexers_new]

theorem connect_phase (x : Component) : (connect s x).1.phase = s.phase := by
  unfold connect constructConnection getMultiplexer
  cases x.transport with
  | rabbitMQ =>
      simp only [State.newKey]
      cases s.connections ⟨rabbitMQSimplified x.locator, s.nextDictionary⟩ <;> rfl
  | redis =>
      simp only [State.newKey]
      cases s.multiplexers ⟨redisSimplified x.locator, s.nextDictionary⟩ <;> rfl

variable [DecidableEq ι]

theorem inv_init (component : ι → Component) : Inv component (machine component).init := by
  constructor <;> simp [machine, Uses, Phase.inUse, Phase.key?]

theorem uses_setPhase_self {p : Phase} : Uses (s.setPhase i p) i c ↔ p.inUse = some c := by
  simp [Uses, State.setPhase]

theorem phase_update_of_ne {p : Phase} (hj : j ≠ i) (hp : s'.phase = Function.update s.phase i p) :
    s'.phase j = s.phase j := by
  rw [hp, Function.update_of_ne hj]

theorem uses_iff_of_ne {p : Phase} (hj : j ≠ i) (hp : s'.phase = Function.update s.phase i p) :
    Uses s' j c ↔ Uses s j c := by
  rw [Uses, Uses, phase_update_of_ne hj hp]

/-- A connection is opened for a component, under a key that is new. -/
theorem Inv.connected (h : Inv component s) (hi : s.phase i = .idle)
    (ha : Apart component s (.connect i)) (hk : key.properties = s.nextDictionary)
    (hp : s'.phase = Function.update s.phase i (.starting key s.nextConnection))
    (ho : s'.isOpen = Function.update s.isOpen s.nextConnection true)
    (hn : s'.nextConnection = s.nextConnection + 1)
    (hd : s'.nextDictionary = s.nextDictionary + 1) (hc : s'.channelOpen = s.channelOpen)
    (hh : s'.handlers = s.handlers) (hconn : ∀ k, k ≠ key → s'.connections k = s.connections k)
    (hnew : (component i).transport = .rabbitMQ →
      s'.connections key = some ⟨s.nextConnection, ∅⟩)
    (hm : ∀ k, k ≠ key → s'.multiplexers k = s.multiplexers k) : Inv component s' := by
  have self (c : Nat) : Uses s' i c ↔ c = s.nextConnection := by
    simp [Uses, hp, Phase.inUse, eq_comm]
  have other {j : ι} (hj : j ≠ i) (c : Nat) : Uses s' j c ↔ Uses s j c := uses_iff_of_ne hj hp
  have phase {j : ι} (hj : j ≠ i) : s'.phase j = s.phase j := phase_update_of_ne hj hp
  have new {k : Key} (hlt : k.properties < s.nextDictionary) : k ≠ key := by
    intro e
    rw [e, hk] at hlt
    omega
  have notInUse (c : Nat) : ¬ Uses s i c := by simp [Uses, hi, Phase.inUse]
  constructor
  · intro k conn hk'
    rw [hd]
    by_cases he : k = key
    · rw [he, hk]
      omega
    · rw [hconn k he] at hk'
      have := h.connections k conn hk'
      omega
  · intro k m hk'
    rw [hd]
    by_cases he : k = key
    · rw [he, hk]
      omega
    · rw [hm k he] at hk'
      have := h.multiplexers k m hk'
      omega
  · intro j k hj
    rw [hd]
    by_cases he : j = i
    · subst he
      simp only [hp, Function.update_self, Phase.key?, Option.some.injEq] at hj
      rw [← hj, hk]
      omega
    · rw [phase he] at hj
      have := h.keys j k hj
      omega
  · intro j c' hj
    rw [hn]
    by_cases he : j = i
    · subst he
      rw [(self c').mp hj]
      omega
    · have := h.bound j c' ((other he c').mp hj)
      omega
  · intro c'
    rw [ho]
    by_cases hc' : c' = s.nextConnection
    · subst hc'
      simp only [Function.update_self, true_iff]
      exact ⟨i, (self _).mpr rfl⟩
    · rw [Function.update_of_ne hc', h.opened]
      constructor
      · intro ⟨j, hj⟩
        have hji : j ≠ i := by
          intro e
          exact notInUse c' (e ▸ hj)
        exact ⟨j, (other hji c').mpr hj⟩
      · intro ⟨j, hj⟩
        have hji : j ≠ i := by
          intro e
          exact hc' ((self c').mp (e ▸ hj))
        exact ⟨j, (other hji c').mp hj⟩
  · intro j j' c' hj hj'
    -- A connection that somebody else has is an old one.
    have old {j : ι} (hji : j ≠ i) (h1 : Uses s' j c') : c' ≠ s.nextConnection := by
      have := h.bound j c' ((other hji c').mp h1)
      omega
    by_cases he : j = i <;> by_cases he' : j' = i
    · rw [he, he']
    · subst he
      exact absurd ((self c').mp hj) (old he' hj')
    · subst he'
      exact absurd ((self c').mp hj') (old he hj)
    · exact h.unique j j' c' ((other he c').mp hj) ((other he' c').mp hj')
  · intro j j' c' c'' hj hj' hpar
    by_cases he : j = i <;> by_cases he' : j' = i
    · rw [he, he']
    · subst he
      exact absurd hpar.symm (ha hi j' c'' ((other he' c'').mp hj'))
    · subst he'
      exact absurd hpar (ha hi j c' ((other he c').mp hj))
    · exact h.apart j j' c' c'' ((other he c').mp hj) ((other he' c'').mp hj') hpar
  · intro j k c' ht hj
    by_cases he : j = i
    · subst he
      simp only [hp, Function.update_self, Phase.starting.injEq] at hj
      rw [← hj.1, ← hj.2]
      exact hnew ht
    · rw [phase he] at hj
      have h1 := h.starting j k c' ht hj
      rw [hconn k (new (h.connections k _ h1)), h1]
  · intro j k c' ht hj
    by_cases he : j = i
    · subst he
      simp [hp] at hj
    · rw [phase he] at hj
      obtain ⟨h1, h2⟩ := h.started j k c' ht hj
      exact ⟨by rw [hconn k (new (h.connections k _ h1)), h1], by rw [hc, h2]⟩
  · intro j k c' hj
    by_cases he : j = i
    · subst he
      simp [hp] at hj
    · rw [phase he] at hj
      obtain ⟨h1, h2⟩ := h.disposed j k c' hj
      have hlt := h.keys j k (by rw [hj]; rfl)
      exact ⟨h1, by rw [hconn k (new hlt), h2]⟩
  · intro j k c' channel ht hj hr
    by_cases he : j = i
    · subst he
      simp [hp] at hj
    · rw [phase he] at hj
      rw [hh]
      exact h.handlers j k c' channel ht hj hr

theorem Inv.connects (h : Inv component s) (hi : s.phase i = .idle)
    (ha : Apart component s (.connect i)) :
    Inv component ((connect s (component i)).1.setPhase i
      (.starting (connect s (component i)).2.1 (connect s (component i)).2.2)) := by
  rw [h.connect_snd]
  unfold connect
  cases ht : (component i).transport with
  | rabbitMQ =>
      simp only [constructConnection, State.newKey, h.connections_new]
      refine h.connected hi ha rfl rfl rfl rfl rfl rfl rfl ?_ ?_ fun _ _ => rfl
      · intro k hk
        exact Function.update_of_ne hk _ _
      · intro _
        exact Function.update_self _ _ _
  | redis =>
      simp only [getMultiplexer, State.newKey, h.multiplexers_new]
      refine h.connected hi ha rfl rfl rfl rfl rfl rfl rfl (fun _ _ => rfl) ?_ ?_
      · intro hr
        rw [ht] at hr
        cases hr
      · intro k hk
        exact Function.update_of_ne hk _ _

/-- A component makes use of its connection, and the others have what they had. -/
theorem Inv.finished (h : Inv component s) (hi : s.phase i = .starting key c)
    (hp : s'.phase = Function.update s.phase i (.started key c)) (ho : s'.isOpen = s.isOpen)
    (hn : s'.nextConnection = s.nextConnection) (hd : s'.nextDictionary = s.nextDictionary)
    (hm : s'.multiplexers = s.multiplexers)
    (hconn : ∀ k, ((component i).transport = .rabbitMQ → k ≠ key) →
      s'.connections k = s.connections k)
    (hmine : (component i).transport = .rabbitMQ →
      s'.connections key = some ⟨c, {i}⟩ ∧ s'.channelOpen i = true)
    (hc : ∀ j, j ≠ i → s'.channelOpen j = s.channelOpen j)
    (hown : (component i).transport = .redis → ∀ channel,
      (component i).role.channel = some channel →
      i ∈ s'.handlers c channel)
    (hh : ∀ j c' channel, j ∈ s.handlers c' channel → j ∈ s'.handlers c' channel) :
    Inv component s' := by
  have phase {j : ι} (hj : j ≠ i) : s'.phase j = s.phase j := phase_update_of_ne hj hp
  have self : s'.phase i = .started key c := by rw [hp, Function.update_self]
  have hui : Uses s i c := by rw [Uses, hi]; rfl
  have uses (j : ι) (c' : Nat) : Uses s' j c' ↔ Uses s j c' := by
    by_cases he : j = i
    · rw [he, Uses, Uses, self, hi]
      rfl
    · exact uses_iff_of_ne he hp
  -- The entries of the others are under other keys.
  have other {j : ι} (he : j ≠ i) {k : Key} {conn : ConnectionDetails ι}
      (hk : s.connections k = some conn) (hu : Uses s j conn.connection) :
      s'.connections k = some conn := by
    rw [← hk]
    refine hconn k fun ht => ?_
    exact h.key_ne (h.starting i key c ht hi) hui hk hu he
  constructor
  · intro k conn hk
    rw [hd]
    by_cases hk' : (component i).transport = .rabbitMQ ∧ k = key
    · rw [hk'.2]
      exact h.keys i key (by rw [hi]; rfl)
    · rw [hconn k fun ht e => hk' ⟨ht, e⟩] at hk
      exact h.connections k conn hk
  · rw [hd, hm]
    exact h.multiplexers
  · intro j k hj
    rw [hd]
    by_cases he : j = i
    · rw [he, self] at hj
      exact h.keys i k (by rw [hi]; exact hj)
    · rw [phase he] at hj
      exact h.keys j k hj
  · intro j c' hj
    rw [hn]
    exact h.bound j c' ((uses j c').mp hj)
  · intro c'
    rw [ho, h.opened]
    exact exists_congr fun j => (uses j c').symm
  · intro j j' c' hj hj'
    exact h.unique j j' c' ((uses j c').mp hj) ((uses j' c').mp hj')
  · intro j j' c' c'' hj hj'
    exact h.apart j j' c' c'' ((uses j c').mp hj) ((uses j' c'').mp hj')
  · intro j k c' ht hj
    by_cases he : j = i
    · rw [he, self] at hj
      cases hj
    · rw [phase he] at hj
      exact other he (h.starting j k c' ht hj) (by rw [Uses, hj]; rfl)
  · intro j k c' ht hj
    by_cases he : j = i
    · subst he
      rw [self] at hj
      cases hj
      exact hmine ht
    · rw [phase he] at hj
      obtain ⟨h1, h2⟩ := h.started j k c' ht hj
      exact ⟨other he h1 (by rw [Uses, hj]; rfl), by rw [hc j he, h2]⟩
  · intro j k c' hj
    by_cases he : j = i
    · rw [he, self] at hj
      cases hj
    · rw [phase he] at hj
      obtain ⟨h1, h2⟩ := h.disposed j k c' hj
      refine ⟨h1, ?_⟩
      rw [← h2]
      refine hconn k fun ht e => ?_
      rw [e, h.starting i key c ht hi] at h2
      cases h2
  · intro j k c' channel ht hj hr
    by_cases he : j = i
    · subst he
      rw [self] at hj
      cases hj
      exact hown ht channel hr
    · rw [phase he] at hj
      exact hh j c' channel (h.handlers j k c' channel ht hj hr)

theorem mem_subscribe {multiplexer : Nat} {role : Role} {channel : RedisChannel} {m : Nat} :
    j ∈ (subscribe s multiplexer role i).handlers m channel ↔
      j ∈ s.handlers m channel ∨ (j = i ∧ m = multiplexer ∧ role.channel = some channel) := by
  unfold subscribe
  cases hr : role.channel with
  | none => simp
  | some channel' =>
      by_cases hm : m = multiplexer
      · subst hm
        by_cases hc : channel = channel'
        · subst hc
          simp [or_comm]
        · simp [Function.update_of_ne hc, Ne.symm hc]
      · simp [hm]

theorem Inv.finishes (h : Inv component s) (hi : s.phase i = .starting key c) :
    Inv component (finish s (component i) i key c) := by
  have hui : Uses s i c := by rw [Uses, hi]; rfl
  unfold finish
  cases ht : (component i).transport with
  | rabbitMQ =>
      have hk := h.starting i key c ht hi
      simp only [h.open_of_uses hui, if_true, registerChannel, hk]
      refine h.finished hi rfl rfl rfl rfl rfl ?_ ?_ ?_ ?_ fun _ _ _ h => h
      · intro k hne
        exact Function.update_of_ne (hne ht) _ _
      · intro _
        exact ⟨Function.update_self _ _ _, Function.update_self _ _ _⟩
      · intro j hj
        exact Function.update_of_ne hj _ _
      · intro hr
        rw [ht] at hr
        cases hr
  | redis =>
      refine h.finished hi rfl rfl rfl rfl rfl (fun _ _ => rfl) ?_ (fun _ _ => rfl) ?_ ?_
      · intro hr
        rw [ht] at hr
        cases hr
      · intro _ channel hc
        exact mem_subscribe.mpr (.inr ⟨rfl, rfl, hc⟩)
      · intro j c' channel hj
        exact mem_subscribe.mpr (.inl hj)

/-- A RabbitMQ component closes its connection, which nobody else uses. -/
theorem Inv.closed (h : Inv component s) (ht : (component i).transport = .rabbitMQ)
    (hi : s.phase i = .started key c) :
    Inv component (dispose s (component i) i key c) := by
  have hui : Uses s i c := by rw [Uses, hi]; rfl
  obtain ⟨hk, hopen⟩ := h.started i key c ht hi
  have hs' : dispose s (component i) i key c = { s with
      connections := Function.update s.connections key none
      isOpen := Function.update s.isOpen c false
      channelOpen := Function.update s.channelOpen i false
      phase := Function.update s.phase i (.disposed key c) } := by
    have he : ({i} : Finset ι).erase i = ∅ := Finset.erase_singleton i
    simp [dispose, ht, deregisterChannel, hk, he, State.closeConnection, State.setPhase]
  rw [hs']
  generalize hs'' : State.mk _ _ _ _ _ _ _ _ = s'
  have hp : s'.phase = Function.update s.phase i (.disposed key c) := by rw [← hs'']
  have phase {j : ι} (hj : j ≠ i) : s'.phase j = s.phase j := phase_update_of_ne hj hp
  have self : s'.phase i = .disposed key c := by rw [hp, Function.update_self]
  have uses (j : ι) (c' : Nat) : Uses s' j c' ↔ j ≠ i ∧ Uses s j c' := by
    by_cases he : j = i
    · simp [Uses, he, self, Phase.inUse]
    · simp [uses_iff_of_ne he hp, he]
  have other {k : Key} (hne : k ≠ key) : s'.connections k = s.connections k := by
    rw [← hs'']
    exact Function.update_of_ne hne _ _
  constructor
  · intro k conn hk'
    have hne : k ≠ key := by
      intro e
      rw [← hs'', e] at hk'
      simp at hk'
    rw [other hne] at hk'
    rw [← hs'']
    exact h.connections k conn hk'
  · rw [← hs'']
    exact h.multiplexers
  · intro j k hj
    have hd : s'.nextDictionary = s.nextDictionary := by rw [← hs'']
    rw [hd]
    by_cases he : j = i
    · rw [he, self] at hj
      exact h.keys i k (by rw [hi]; exact hj)
    · rw [phase he] at hj
      exact h.keys j k hj
  · intro j c' hj
    have hn : s'.nextConnection = s.nextConnection := by rw [← hs'']
    rw [hn]
    exact h.bound j c' ((uses j c').mp hj).2
  · intro c'
    have ho : s'.isOpen = Function.update s.isOpen c false := by rw [← hs'']
    rw [ho]
    by_cases hc : c' = c
    · subst hc
      simp only [Function.update_self, Bool.false_eq_true, false_iff, not_exists]
      intro j hj
      obtain ⟨hji, hj⟩ := (uses j c').mp hj
      exact hji (h.unique j i c' hj hui)
    · rw [Function.update_of_ne hc, h.opened]
      constructor
      · intro ⟨j, hj⟩
        refine ⟨j, (uses j c').mpr ⟨?_, hj⟩⟩
        intro e
        subst e
        exact hc (Option.some.inj (hj.symm.trans hui))
      · intro ⟨j, hj⟩
        exact ⟨j, ((uses j c').mp hj).2⟩
  · intro j j' c' hj hj'
    exact h.unique j j' c' ((uses j c').mp hj).2 ((uses j' c').mp hj').2
  · intro j j' c' c'' hj hj'
    exact h.apart j j' c' c'' ((uses j c').mp hj).2 ((uses j' c'').mp hj').2
  · intro j k c' htj hj
    by_cases he : j = i
    · rw [he, self] at hj
      cases hj
    · rw [phase he] at hj
      have h1 := h.starting j k c' htj hj
      rw [other (h.key_ne hk hui h1 (by rw [Uses, hj]; rfl) he), h1]
  · intro j k c' htj hj
    by_cases he : j = i
    · rw [he, self] at hj
      cases hj
    · rw [phase he] at hj
      obtain ⟨h1, h2⟩ := h.started j k c' htj hj
      refine ⟨by rw [other (h.key_ne hk hui h1 (by rw [Uses, hj]; rfl) he), h1], ?_⟩
      rw [← hs'']
      exact (Function.update_of_ne he _ _).trans h2
  · intro j k c' hj
    by_cases he : j = i
    · subst he
      rw [self] at hj
      cases hj
      refine ⟨ht, ?_⟩
      rw [← hs'']
      exact Function.update_self _ _ _
    · rw [phase he] at hj
      obtain ⟨h1, h2⟩ := h.disposed j k c' hj
      refine ⟨h1, ?_⟩
      by_cases hkk : k = key
      · rw [← hs'', hkk]
        exact Function.update_self _ _ _
      · rw [other hkk, h2]
  · intro j k c' channel htj hj hr
    have hh : s'.handlers = s.handlers := by rw [← hs'']
    rw [hh]
    by_cases he : j = i
    · rw [he, self] at hj
      cases hj
    · rw [phase he] at hj
      exact h.handlers j k c' channel htj hj hr

/-- Disposing once more of a component changes nothing: its entry is gone. -/
theorem Inv.disposed_again (h : Inv component s) (hi : s.phase i = .disposed key c) :
    Inv component (dispose s (component i) i key c) := by
  obtain ⟨ht, hk⟩ := h.disposed i key c hi
  have hs' : dispose s (component i) i key c = { s with
      channelOpen := Function.update s.channelOpen i false } := by
    have hp : Function.update s.phase i (.disposed key c) = s.phase := by
      rw [← hi, Function.update_eq_self]
    simp [dispose, ht, deregisterChannel, hk, State.setPhase, hp]
  rw [hs']
  refine { h with started := ?_ }
  intro j k c' htj hj
  obtain ⟨h1, h2⟩ := h.started j k c' htj hj
  refine ⟨h1, ?_⟩
  have he : j ≠ i := by
    intro e
    rw [e] at hj
    exact nomatch hi.symm.trans hj
  exact (Function.update_of_ne he _ _).trans h2

/-- **What keeps them apart keeps the invariant.** -/
theorem Inv.stepped {a : Act ι} (h : Inv component s) (ha : Apart component s a)
    (hs : (machine component).step s a = some s') : Inv component s' := by
  cases a with
  | connect i =>
      cases hi : s.phase i with
      | idle =>
          simp only [machine, step, hi, Option.some.injEq] at hs
          subst hs
          exact h.connects hi ha
      | starting key c => simp [machine, step, hi] at hs
      | started key c => simp [machine, step, hi] at hs
      | disposed key c => simp [machine, step, hi] at hs
  | finish i =>
      cases hi : s.phase i with
      | idle => simp [machine, step, hi] at hs
      | starting key c =>
          simp only [machine, step, hi, Option.some.injEq] at hs
          subst hs
          exact h.finishes hi
      | started key c => simp [machine, step, hi] at hs
      | disposed key c => simp [machine, step, hi] at hs
  | dispose i =>
      cases hi : s.phase i with
      | idle =>
          simp only [machine, step, hi, Option.some.injEq] at hs
          exact hs ▸ h
      | starting key c => simp [machine, step, hi] at hs
      | started key c =>
          simp only [machine, step, hi, Option.some.injEq] at hs
          subst hs
          cases ht : (component i).transport with
          | rabbitMQ => exact h.closed ht hi
          | redis => exact absurd ht (ha key c hi)
      | disposed key c =>
          simp only [machine, step, hi, Option.some.injEq] at hs
          subst hs
          exact h.disposed_again hi

/-! ## What goes wrong -/

/-- Two components with the same parameters have a connection each. -/
theorem Inv.not_shared (h : Inv component s) (hi : s.phase i = .idle) (hu : Uses s j c)
    (hp : (component j).parameters = (component i).parameters) :
    ¬ WellKept component ((connect s (component i)).1.setPhase i
      (.starting (connect s (component i)).2.1 (connect s (component i)).2.2)) := by
  intro hw
  have hji : j ≠ i := by
    intro e
    rw [Uses, e, hi] at hu
    cases hu
  have h1 := hw.shared j i c s.nextConnection ?_ ?_ hp
  · have := h.bound j c hu
    omega
  · refine (uses_iff_of_ne hji rfl).mpr ?_
    rw [Uses, connect_phase]
    exact hu
  · rw [uses_setPhase_self, h.connect_snd]
    rfl

/-- A multiplexer stays open when its component is disposed of. -/
theorem Inv.not_closed (h : Inv component s) (ht : (component i).transport = .redis)
    (hi : s.phase i = .started key c) :
    ¬ WellKept component (dispose s (component i) i key c) := by
  intro hw
  have hui : Uses s i c := by rw [Uses, hi]; rfl
  have hm : s.multiplexers ⟨redisSimplified (component i).locator, s.nextDictionary⟩ = none :=
    h.multiplexers_new _
  have ho : (dispose s (component i) i key c).isOpen = s.isOpen := by
    simp [dispose, ht, removeMultiplexer, unsubscribe, State.newKey, State.setPhase, hm]
  have hp : (dispose s (component i) i key c).phase =
      Function.update s.phase i (.disposed key c) := by
    simp [dispose, ht, removeMultiplexer, unsubscribe, State.newKey, State.setPhase, hm]
  obtain ⟨j, hj⟩ := (hw.opened c).mp (by rw [ho, h.open_of_uses hui])
  by_cases he : j = i
  · rw [he, Uses, hp, Function.update_self] at hj
    cases hj
  · exact he (h.unique j i c ((uses_iff_of_ne he hp).mp hj) hui)

/-- Whether all is well after a step depends on the step. -/
theorem Inv.wellKeptAfter_iff {a : Act ι} (h : Inv component s) :
    WellKeptAfter component s a ↔ Apart component s a := by
  constructor
  · intro hw
    cases a with
    | connect i =>
        intro hi j c hu hp
        refine h.not_shared hi hu hp (hw _ ?_)
        simp [machine, step, hi]
    | finish i => trivial
    | dispose i =>
        intro key c hi ht
        refine h.not_closed ht hi (hw _ ?_)
        simp [machine, step, hi]
  · intro ha s' hs
    exact (h.stepped ha hs).wellKept

end Steps

/-- **All is well in a run**, after each step, exactly if no component is started while another
one with its parameters is in use, and no Redis component is disposed of. -/
theorem wellKept_iff {ι : Type} [DecidableEq ι] (component : ι → Component)
    (acts : List (Act ι)) :
    (machine component).Within (WellKeptAfter component) (machine component).init acts ↔
      (machine component).Within (Apart component) (machine component).init acts := by
  have h : Inv component (machine component).init := inv_init component
  generalize (machine component).init = s at h ⊢
  induction acts generalizing s with
  | nil => exact Iff.rfl
  | cons a acts ih =>
      rw [Machine.Within, Machine.Within, h.wellKeptAfter_iff]
      refine and_congr_right fun ha => ih _ ?_
      cases hs : (machine component).step s a with
      | none => exact h
      | some s' => exact h.stepped ha hs

/-! ## Two components at one place -/

def exampleLocator : Locator := ⟨"h".toList, 0, [], [], "x".toList, .empty⟩

/-- Two importers with the same locator. -/
def twoImporters (transport : Transport) (_ : Bool) : Component :=
  ⟨transport, .importer "t".toList, exampleLocator⟩

/-- They do not share a connection, and a multiplexer stays open. -/
theorem not_wellKept_two :
    (∀ transport, ¬ (machine (twoImporters transport)).Within
        (WellKeptAfter (twoImporters transport)) (machine (twoImporters transport)).init
        [.connect false, .finish false, .connect true]) ∧
      ¬ (machine (twoImporters .redis)).Within (WellKeptAfter (twoImporters .redis))
        (machine (twoImporters .redis)).init [.connect false, .finish false, .dispose false] := by
  constructor
  · intro transport h
    cases transport with
    | rabbitMQ => exact absurd ((h.2.2.1 _ rfl).shared false true 0 1 rfl rfl rfl) (by decide)
    | redis => exact absurd ((h.2.2.1 _ rfl).shared false true 0 1 rfl rfl rfl) (by decide)
  · intro h
    obtain ⟨j, hj⟩ := ((h.2.2.1 _ rfl).opened 0).mp rfl
    cases j <;> cases hj

end DotNetConnections
