import Mathlib.Data.Finset.Erase
import Mathlib.Data.Finset.Insert
import TMTransport.Facility.Channel
import TMTransport.Library.Machine

/-!
# The remote facility over several transports

The facility keeps a sender for each registered pair of a connection type and a
locator. Senders, the map to them, and the client numbers are found by the locator
alone. A registration answers with the number of senders and a flag, but in the
other order, so that the number becomes a flag and the flag a number.

The transports are taken as their own code has it: a set call makes a client, or
throws, or, with WebSocket, gives back a sender without a client. Numbers are new in
each connection and not 0; a connection that gives out 2^32 of them is left aside.
-/

namespace RemoteFacility

open ConnectionLocator Facility Interleave

/-- `MultiTransportRemoteFacilityDispatchStrategy` -/
inductive DispatchStrategy where
  | random
  | designated
  deriving DecidableEq

/-- What is known when the facility is compiled. -/
structure Environment where
  /-- The environment has the component of the transport. -/
  hasComponent : ConnectionType → Bool
  /-- The data types and the identity suit the transport. -/
  suits : ConnectionType → Bool

def Environment.supports (env : Environment) (t : ConnectionType) : Bool :=
  match t with
  | .grpcInterop | .jsonREST => env.hasComponent t && env.suits t
  | _ => env.hasComponent t

/-- The set call gives out a client number. -/
def numbered : ConnectionType → Bool
  | .rabbitMQ | .redis | .webSocket => true
  | _ => false

/-- A client that a transport holds for this facility. -/
structure Client where
  connType : ConnectionType
  locator : Locator
  number : UInt32
  deriving DecidableEq

/-- An element of `underlyingSenders_`, with the client that its function leads to. -/
structure Sender where
  ptr : Nat
  locator : Locator
  client : Client
  deriving DecidableEq

structure State where
  underlyingSenders : List Sender
  senderMap : Locator → Option Nat
  clientNumberRecord : Locator → Option UInt32
  nextPtr : Nat
  /-- The clients that the transports hold. -/
  clients : List Client

/-- How a set call of a transport ends. -/
inductive Outcome where
  | client (number : UInt32)
  /-- There is no connection; the sender is empty and the number 0. -/
  | nothing
  | exception
  deriving DecidableEq

inductive Act where
  | register (t : ConnectionType) (l : Locator) (outcome : Outcome)
  | deregister (t : ConnectionType) (l : Locator)
  /-- The locator matters to one strategy, `std::rand()` to the other. -/
  | request (l : Locator) (rand : Nat)

inductive Response where
  | size (n : Nat)
  | result (handled : Bool)
  | passed (ptr : Nat)
  | rejected
  deriving DecidableEq

/-! ## The transports -/

def sameHostAndPort (l l' : Locator) : Bool := l.host = l'.host ∧ l.port = l'.port

/-- The set call can end so. With socket RPC, a connection is not created twice; with
gRPC it is shared. -/
def Outcome.possible (clients : List Client) (t : ConnectionType) (l : Locator) :
    Outcome → Bool
  | .client n =>
    match t with
    | .rabbitMQ | .redis | .webSocket => n ≠ 0 ∧ ⟨t, l, n⟩ ∉ clients
    | .socketRPC => n = 0 ∧ clients.all fun c => ¬ (c.connType = t ∧ sameHostAndPort c.locator l)
    | .grpcInterop | .jsonREST => n = 0
  | .nothing => t = .webSocket
  | .exception => true

def setRPCClient (clients : List Client) (t : ConnectionType) (l : Locator) (n : UInt32) :
    List Client :=
  if t = .jsonREST ∨ ⟨t, l, n⟩ ∈ clients then clients else ⟨t, l, n⟩ :: clients

def removes (t : ConnectionType) (l : Locator) (number : UInt32) (c : Client) : Bool :=
  match t with
  | .rabbitMQ | .redis | .webSocket => c = ⟨t, l, number⟩
  | .socketRPC => c.connType = t ∧ sameHostAndPort c.locator l
  | .grpcInterop => c.connType = t ∧ c.locator = l
  | .jsonREST => false

/-! ## The facility -/

/-- What each branch does once it has a sender. -/
def addSender (k : DispatchStrategy) (s : State) (client : Client) : State where
  underlyingSenders := s.underlyingSenders ++ [⟨s.nextPtr, client.locator, client⟩]
  senderMap :=
    match k, s.senderMap client.locator with
    | .designated, none => Function.update s.senderMap client.locator (some s.nextPtr)
    | _, _ => s.senderMap
  clientNumberRecord :=
    if numbered client.connType then
      Function.update s.clientNumberRecord client.locator (some client.number)
    else s.clientNumberRecord
  nextPtr := s.nextPtr + 1
  clients := s.clients

/-- The state, and the tuple that is declared as `std::tuple<bool, std::size_t>`, but
returned as `{newSize, true}`. -/
def registerFacility (k : DispatchStrategy) (env : Environment) (s : State)
    (t : ConnectionType) (l : Locator) (outcome : Outcome) : State × (Bool × Nat) :=
  let returned (s : State) (newSize : Nat) : State × (Bool × Nat) :=
    (s, (decide (newSize ≠ 0), true.toNat))
  if env.supports t then
    match outcome with
    | .client n =>
      let s := addSender k { s with clients := setRPCClient s.clients t l n } ⟨t, l, n⟩
      returned s s.underlyingSenders.length
    | .nothing =>
      let s := addSender k s ⟨t, l, 0⟩
      returned s s.underlyingSenders.length
    | .exception => returned s 0
  else returned s 0

def deregisterFacility (k : DispatchStrategy) (env : Environment) (s : State)
    (t : ConnectionType) (l : Locator) : State × (Nat × Bool) :=
  if env.hasComponent t then
    let clientNumber := if numbered t then (s.clientNumberRecord l).getD 0 else 0
    let s : State :=
      { s with
        clientNumberRecord :=
          if numbered t then Function.update s.clientNumberRecord l none
          else s.clientNumberRecord
        clients := s.clients.filter fun c => !removes t l clientNumber c
        senderMap :=
          match k with
          | .random => s.senderMap
          | .designated => Function.update s.senderMap l none
        underlyingSenders := s.underlyingSenders.filter (·.locator ≠ l) }
    (s, (s.underlyingSenders.length, true))
  else (s, (0, true))

/-- The assignment of a `std::tuple<bool, std::size_t>` to a `std::tuple<std::size_t, bool>`. -/
def assign (returned : Bool × Nat) : Nat × Bool := (returned.1.toNat, decide (returned.2 ≠ 0))

def publish : DispatchStrategy → Nat × Bool → Response
  | .random, handled => .size handled.1
  | .designated, handled => .result handled.2

/-- `actuallyHandleInput` -/
def pass (k : DispatchStrategy) (s : State) (l : Locator) (rand : Nat) : Response :=
  match k with
  | .random =>
    let sz := s.underlyingSenders.length
    match s.underlyingSenders[if sz = 1 then 0 else rand % sz]? with
    | none => .rejected
    | some sender => .passed sender.ptr
  | .designated =>
    match s.senderMap l with
    | none => .rejected
    | some ptr => .passed ptr

def handle (k : DispatchStrategy) (env : Environment) (s : State) : Act → State × Response
  | .register t l outcome =>
    let r := registerFacility k env s t l outcome
    (r.1, publish k (assign r.2))
  | .deregister t l =>
    let r := deregisterFacility k env s t l
    (r.1, publish k r.2)
  | .request l rand => (s, pass k s l rand)

/-! ## What the facility is for -/

/-- A registration is carried out if the transport makes a client, a deregistration if
there is the transport. -/
def carriedOut (env : Environment) : Act → Bool
  | .register t _ (.client _) => env.supports t
  | .register _ _ _ => false
  | .deregister t _ => env.hasComponent t
  | .request _ _ => true

abbrev Pairs := Finset (ConnectionType × Locator)

/-- The pairs that are registered after an action. -/
def Act.update (env : Environment) (a : Act) (registered : Pairs) : Pairs :=
  if carriedOut env a then
    match a with
    | .register t l _ => insert (t, l) registered
    | .deregister t l => registered.erase (t, l)
    | .request _ _ => registered
  else registered

/-- The facility, and the pairs that should be registered. -/
structure World where
  facility : State
  registered : Pairs

def step (k : DispatchStrategy) (env : Environment) (w : World) (a : Act) : Option World :=
  let w' : World := ⟨(handle k env w.facility a).1, a.update env w.registered⟩
  match a with
  | .register t l outcome =>
    if outcome.possible w.facility.clients t l then some w' else none
  | _ => some w'

def machine (k : DispatchStrategy) (env : Environment) : Machine World Act where
  init := ⟨⟨[], fun _ => none, fun _ => none, 0, []⟩, ∅⟩
  step := step k env

def Client.pair (c : Client) : ConnectionType × Locator := (c.connType, c.locator)

/-- All containers describe the registered pairs. -/
structure Bookkeeping (k : DispatchStrategy) (w : World) : Prop where
  senders_nodup : (w.facility.underlyingSenders.map fun x => x.client.pair).Nodup
  mem_senders : ∀ p, (∃ x ∈ w.facility.underlyingSenders, x.client.pair = p) ↔ p ∈ w.registered
  locator : ∀ x ∈ w.facility.underlyingSenders, x.locator = x.client.locator
  ptrs_nodup : (w.facility.underlyingSenders.map Sender.ptr).Nodup
  senderMap : k = .designated → ∀ l ptr, w.facility.senderMap l = some ptr ↔
    ∃ x ∈ w.facility.underlyingSenders, x.locator = l ∧ x.ptr = ptr
  clientNumberRecord : ∀ l n, w.facility.clientNumberRecord l = some n ↔
    ∃ x ∈ w.facility.underlyingSenders, numbered x.client.connType = true ∧ x.locator = l ∧
      x.client.number = n
  /-- The transports hold the clients of the senders, JSON over REST has none. -/
  clients : ∀ c, c ∈ w.facility.clients ↔
    c.connType ≠ .jsonREST ∧ ∃ x ∈ w.facility.underlyingSenders, x.client = c

/-- What an action does and answers in a step. -/
def RightlyDone (k : DispatchStrategy) (env : Environment) (w : World) (a : Act) (w' : World) :
    Prop :=
  let response := (handle k env w.facility a).2
  let update : Response :=
    match k with
    | .random => .size w'.facility.underlyingSenders.length
    | .designated => .result (carriedOut env a)
  match a with
  | .register _ _ _ => response = update
  | .deregister t l => response = update ∧
      w'.facility.clients = w.facility.clients.filter (·.pair ≠ (t, l))
  | .request l _ =>
    match k with
    | .random =>
      (response = .rejected ∧ w.facility.underlyingSenders = []) ∨
        ∃ x ∈ w.facility.underlyingSenders, response = .passed x.ptr
    | .designated =>
      (response = .rejected ∧ ∀ x ∈ w.facility.underlyingSenders, x.locator ≠ l) ∨
        ∃ x ∈ w.facility.underlyingSenders, x.locator = l ∧ response = .passed x.ptr

/-- The containers can be kept: nothing is added under a locator that is in use, or
without a client, and what goes is of one transport, with a connection of its own. -/
def Tidy (env : Environment) (w : World) : Act → Prop
  | .register t l outcome =>
    (env.supports t = true → outcome ≠ .nothing) ∧
      (carriedOut env (.register t l outcome) = true →
        ∀ x ∈ w.facility.underlyingSenders, x.locator ≠ l)
  | .deregister t l =>
    ∀ x ∈ w.facility.underlyingSenders,
      (x.locator = l → x.client.connType = t) ∧
      (t = .socketRPC → x.client.connType = .socketRPC →
        sameHostAndPort x.locator l = true → x.locator = l)
  | .request _ _ => True

/-- The answer can be right: a registration is the first one where the number counts, and
succeeds where the flag counts; a deregistration finds its transport. -/
def Answerable (k : DispatchStrategy) (env : Environment) (w : World) : Act → Prop
  | .register t l outcome =>
    match k with
    | .random => w.facility.underlyingSenders = []
    | .designated => carriedOut env (.register t l outcome) = true
  | .deregister t _ =>
    env.hasComponent t = true ∨ k = .random ∧ w.facility.underlyingSenders = []
  | .request _ _ => True

def Orderly (k : DispatchStrategy) (env : Environment) (w : World) (a : Act) : Prop :=
  Tidy env w a ∧ Answerable k env w a

/-! ## The invariant -/

structure Inv (k : DispatchStrategy) (w : World) : Prop extends Bookkeeping k w where
  ptr_lt : ∀ x ∈ w.facility.underlyingSenders, x.ptr < w.facility.nextPtr

variable {k : DispatchStrategy} {env : Environment} {w w' : World} {t : ConnectionType}
  {l : Locator} {n : UInt32} {c : Client} {outcome : Outcome} {a : Act}

theorem mem_setRPCClient {clients : List Client} :
    c ∈ setRPCClient clients t l n ↔ c ∈ clients ∨ t ≠ .jsonREST ∧ c = ⟨t, l, n⟩ := by
  unfold setRPCClient
  split
  case isTrue h =>
    refine ⟨.inl, fun hc => hc.elim id fun ⟨ht, heq⟩ => ?_⟩
    exact heq ▸ h.resolve_left ht
  case isFalse h =>
    rw [not_or] at h
    simp [h.1, or_comm]

theorem inv_init (k : DispatchStrategy) (env : Environment) : Inv k (machine k env).init := by
  constructor
  · constructor <;> simp [machine]
  · simp [machine]

/-! ## Adding a sender -/

section AddSender

variable {s : State} {clients : List Client}

theorem exists_mem_addSender {P : Sender → Prop} :
    (∃ x ∈ (addSender k s c).underlyingSenders, P x) ↔
      (∃ x ∈ s.underlyingSenders, P x) ∨ P ⟨s.nextPtr, c.locator, c⟩ := by
  simp [addSender, or_and_right, exists_or]

theorem forall_mem_addSender {P : Sender → Prop} :
    (∀ x ∈ (addSender k s c).underlyingSenders, P x) ↔
      (∀ x ∈ s.underlyingSenders, P x) ∧ P ⟨s.nextPtr, c.locator, c⟩ := by
  simp [addSender, or_imp, forall_and]

theorem nodup_map_addSender {β : Type} {f : Sender → β}
    (h : (s.underlyingSenders.map f).Nodup)
    (hnew : ∀ x ∈ s.underlyingSenders, f x ≠ f ⟨s.nextPtr, c.locator, c⟩) :
    ((addSender k s c).underlyingSenders.map f).Nodup := by
  simp only [addSender, List.map_append, List.map_cons, List.map_nil]
  refine List.nodup_append.mpr ⟨h, List.nodup_singleton _, fun b hb b' hb' => ?_⟩
  obtain ⟨x, hx, rfl⟩ := List.mem_map.mp hb
  rw [List.mem_singleton.mp hb']
  exact hnew x hx

theorem addSender_senderMap (hfree : s.senderMap c.locator = none) (l : Locator) :
    (addSender .designated s c).senderMap l =
      if l = c.locator then some s.nextPtr else s.senderMap l := by
  simp only [addSender, hfree, Function.update_apply]

theorem addSender_clientNumberRecord (l : Locator) :
    (addSender k s c).clientNumberRecord l =
      if numbered c.connType = true ∧ l = c.locator then some c.number
      else s.clientNumberRecord l := by
  by_cases hc : numbered c.connType = true
  · simp only [addSender, hc, if_true, Function.update_apply, true_and]
  · simp [addSender, hc]

/-- A sender of a pair whose locator is free is added to all containers. -/
theorem inv_addSender (h : Inv k w)
    (hl : ∀ x ∈ w.facility.underlyingSenders, x.locator ≠ c.locator)
    (hclients : ∀ d, d ∈ clients ↔ d ∈ w.facility.clients ∨ c.connType ≠ .jsonREST ∧ d = c) :
    Inv k ⟨addSender k { w.facility with clients := clients } c,
      insert c.pair w.registered⟩ where
  senders_nodup := by
    refine nodup_map_addSender h.senders_nodup fun x hx heq => hl x hx ?_
    exact (h.locator x hx).trans (congrArg Prod.snd heq)
  mem_senders p := by
    rw [exists_mem_addSender, Finset.mem_insert, or_comm, eq_comm, ← h.mem_senders p]
  locator := forall_mem_addSender.mpr ⟨h.locator, rfl⟩
  ptrs_nodup := nodup_map_addSender h.ptrs_nodup fun x hx => (h.ptr_lt x hx).ne
  senderMap hk l ptr := by
    subst hk
    have hfree : w.facility.senderMap c.locator = none := by
      refine Option.eq_none_iff_forall_ne_some.mpr fun ptr hptr => ?_
      obtain ⟨x, hx, hxl, -⟩ := (h.senderMap rfl _ ptr).mp hptr
      exact hl x hx hxl
    rw [exists_mem_addSender]
    dsimp only
    rw [addSender_senderMap (s := { w.facility with clients := clients }) hfree]
    split
    case isTrue hlc =>
      simp only [hlc, Option.some.injEq, true_and]
      exact ⟨.inr, fun hx => hx.resolve_left fun ⟨x, hx, hxl, _⟩ => hl x hx hxl⟩
    case isFalse hlc =>
      rw [h.senderMap rfl]
      exact ⟨.inl, fun hx => hx.resolve_right fun hnew => hlc hnew.1.symm⟩
  clientNumberRecord l m := by
    rw [exists_mem_addSender, addSender_clientNumberRecord]
    split
    case isTrue hlc =>
      simp only [hlc, Option.some.injEq, true_and]
      exact ⟨.inr, fun hx => hx.resolve_left fun ⟨x, hx, _, hxl, _⟩ => hl x hx hxl⟩
    case isFalse hlc =>
      rw [h.clientNumberRecord]
      exact ⟨.inl, fun hx => hx.resolve_right fun hnew => hlc ⟨hnew.1, hnew.2.1.symm⟩⟩
  clients d := by
    rw [exists_mem_addSender]
    simp only [addSender, hclients, h.clients]
    constructor
    · rintro (⟨hd, hx⟩ | ⟨hc, rfl⟩)
      · exact ⟨hd, .inl hx⟩
      · exact ⟨hc, .inr rfl⟩
    · rintro ⟨hd, hx | rfl⟩
      · exact .inl ⟨hd, hx⟩
      · exact .inr ⟨hd, rfl⟩
  ptr_lt := forall_mem_addSender.mpr
    ⟨fun x hx => Nat.lt_succ_of_lt (h.ptr_lt x hx), Nat.lt_succ_self _⟩

end AddSender

/-! ## The steps -/

/-- What a registration does. -/
theorem registerFacility_cases (k : DispatchStrategy) (env : Environment) (s : State)
    (t : ConnectionType) (l : Locator) (outcome : Outcome)
    (ho : env.supports t = true → outcome ≠ .nothing) :
    (carriedOut env (.register t l outcome) = false ∧
      registerFacility k env s t l outcome = (s, (false, 1))) ∨
    ∃ n, outcome = .client n ∧ carriedOut env (.register t l outcome) = true ∧
      registerFacility k env s t l outcome =
        (addSender k { s with clients := setRPCClient s.clients t l n } ⟨t, l, n⟩, (true, 1)) := by
  by_cases hsupp : env.supports t = true
  · cases outcome with
    | client n =>
        refine .inr ⟨n, rfl, hsupp, ?_⟩
        simp [registerFacility, hsupp, addSender]
    | nothing => exact absurd rfl (ho hsupp)
    | exception => exact .inl ⟨rfl, by simp [registerFacility, hsupp]⟩
  · refine .inl ⟨?_, by simp [registerFacility, hsupp]⟩
    cases outcome with
    | client n => exact eq_false_of_ne_true hsupp
    | nothing => rfl
    | exception => rfl

theorem inv_register (h : Inv k w) (ht : Tidy env w (.register t l outcome)) :
    Inv k ⟨(registerFacility k env w.facility t l outcome).1,
      (Act.register t l outcome).update env w.registered⟩ := by
  rcases registerFacility_cases k env w.facility t l outcome ht.1 with
    ⟨hout, heq⟩ | ⟨n, rfl, hout, heq⟩
  · rw [heq, Act.update, hout]
    exact h
  · rw [heq, Act.update, hout]
    exact inv_addSender (c := ⟨t, l, n⟩) h (ht.2 hout) fun d => mem_setRPCClient

/-- The number that is found for the locator. -/
theorem clientNumber_eq (h : Inv k w) (hc : c ∈ w.facility.clients) (hpair : c.pair = (t, l))
    (hnum : numbered t = true) :
    (w.facility.clientNumberRecord l).getD 0 = c.number := by
  obtain ⟨hjson, x, hx, rfl⟩ := (h.clients c).mp hc
  cases hpair
  have : w.facility.clientNumberRecord x.client.locator = some x.client.number :=
    (h.clientNumberRecord _ _).mpr ⟨x, hx, hnum, h.locator x hx, rfl⟩
  rw [this, Option.getD_some]

/-- What the transport releases is what was made for the pair. -/
theorem removes_iff (h : Inv k w) (ht : Tidy env w (.deregister t l))
    (hc : c ∈ w.facility.clients) :
    removes t l (if numbered t then (w.facility.clientNumberRecord l).getD 0 else 0) c = true ↔
      c.pair = (t, l) := by
  obtain ⟨hjson, x, hx, rfl⟩ := (h.clients c).mp hc
  have hloc := h.locator x hx
  by_cases hnum : numbered t = true
  · have hremoves : ∀ m, removes t l m x.client = decide (x.client = ⟨t, l, m⟩) := by
      cases t <;> first | exact fun _ => rfl | cases hnum
    rw [hremoves, if_pos hnum, decide_eq_true_iff]
    constructor
    · exact fun heq => by rw [heq]; rfl
    · intro hpair
      rw [clientNumber_eq h hc hpair hnum]
      cases hpair
      rfl
  · cases t with
    | rabbitMQ | redis | webSocket => exact absurd rfl hnum
    | socketRPC =>
        simp only [removes, Client.pair, Prod.mk.injEq, decide_eq_true_iff]
        refine and_congr_right fun hconn => ⟨fun hsame => ?_, fun heq => ?_⟩
        · exact hloc ▸ (ht x hx).2 rfl hconn (hloc ▸ hsame)
        · simp [heq, sameHostAndPort]
    | grpcInterop => simp [removes, Client.pair]
    | jsonREST => simp [removes, Client.pair, hjson]

/-- What a deregistration does, if the environment has the transport. -/
theorem deregister_clients (h : Inv k w) (ht : Tidy env w (.deregister t l))
    (henv : env.hasComponent t = true) :
    (deregisterFacility k env w.facility t l).1.clients =
      w.facility.clients.filter (·.pair ≠ (t, l)) := by
  simp only [deregisterFacility, henv, if_true]
  refine List.filter_congr fun c hc => ?_
  rw [Bool.eq_iff_iff, Bool.not_eq_true', ← Bool.not_eq_true, removes_iff h ht hc,
    decide_eq_true_iff]

theorem mem_deregister (h : Inv k w) (ht : Tidy env w (.deregister t l)) {x : Sender}
    (hx : x ∈ w.facility.underlyingSenders) : x.locator ≠ l ↔ x.client.pair ≠ (t, l) := by
  refine not_congr ⟨fun hl => ?_, fun hpair => ?_⟩
  · exact Prod.ext ((ht x hx).1 hl) ((h.locator x hx).symm.trans hl)
  · exact (h.locator x hx).trans (congrArg Prod.snd hpair)

theorem exists_mem_deregister {P : Sender → Prop} {senders : List Sender} :
    (∃ x ∈ senders.filter (·.locator ≠ l), P x) ↔ ∃ x ∈ senders, x.locator ≠ l ∧ P x := by
  simp [List.mem_filter, and_assoc]

theorem exists_mem_deregister_ne {P : Sender → Prop} {senders : List Sender} {l' : Locator}
    (hP : ∀ x, P x → x.locator = l') (hl : l' ≠ l) :
    (∃ x ∈ senders.filter (·.locator ≠ l), P x) ↔ ∃ x ∈ senders, P x := by
  rw [exists_mem_deregister]
  refine exists_congr fun x => and_congr_right fun _ => ⟨And.right, fun hx => ⟨?_, hx⟩⟩
  rw [hP x hx]
  exact hl

theorem not_exists_mem_deregister {P : Sender → Prop} {senders : List Sender}
    (hP : ∀ x, P x → x.locator = l) : ¬ ∃ x ∈ senders.filter (·.locator ≠ l), P x := by
  rw [exists_mem_deregister]
  exact fun ⟨x, _, hne, hx⟩ => hne (hP x hx)

section Fields

variable {s : State} (henv : env.hasComponent t = true)

include henv

theorem deregister_underlyingSenders :
    (deregisterFacility k env s t l).1.underlyingSenders =
      s.underlyingSenders.filter (·.locator ≠ l) := by
  simp only [deregisterFacility, henv, if_true]

theorem deregister_senderMap (l' : Locator) :
    (deregisterFacility .designated env s t l).1.senderMap l' =
      if l' = l then none else s.senderMap l' := by
  simp only [deregisterFacility, henv, if_true, Function.update_apply]

theorem deregister_clientNumberRecord (l' : Locator) :
    (deregisterFacility k env s t l).1.clientNumberRecord l' =
      if numbered t = true ∧ l' = l then none else s.clientNumberRecord l' := by
  by_cases hnum : numbered t = true
  · simp only [deregisterFacility, henv, hnum, if_true, Function.update_apply, true_and]
  · simp [deregisterFacility, henv, hnum]

end Fields

theorem inv_deregister (h : Inv k w) (ht : Tidy env w (.deregister t l)) :
    Inv k ⟨(deregisterFacility k env w.facility t l).1,
      (Act.deregister t l).update env w.registered⟩ := by
  by_cases henv : env.hasComponent t = true
  · have hsenders := deregister_underlyingSenders (k := k) (l := l) (s := w.facility) henv
    have hclients := deregister_clients h ht henv
    have hupdate : (Act.deregister t l).update env w.registered = w.registered.erase (t, l) := by
      simp [Act.update, carriedOut, henv]
    refine ⟨⟨?_, fun p => ?_, fun x hx => ?_, ?_, fun hk l' ptr => ?_, fun l' m => ?_,
      fun c => ?_⟩, fun x hx => ?_⟩
    · rw [hsenders]
      exact h.senders_nodup.sublist (List.filter_sublist.map _)
    · rw [hsenders, exists_mem_deregister, hupdate, Finset.mem_erase, ← h.mem_senders p]
      constructor
      · rintro ⟨x, hx, hxl, rfl⟩
        exact ⟨(mem_deregister h ht hx).mp hxl, x, hx, rfl⟩
      · rintro ⟨hp, x, hx, rfl⟩
        exact ⟨x, hx, (mem_deregister h ht hx).mpr hp, rfl⟩
    · exact h.locator x (List.mem_filter.mp (hsenders ▸ hx)).1
    · rw [hsenders]
      exact h.ptrs_nodup.sublist (List.filter_sublist.map _)
    · subst hk
      rw [hsenders, deregister_senderMap henv]
      split
      case isTrue hl =>
        exact iff_of_false (by simp) (not_exists_mem_deregister fun x hx => hx.1.trans hl)
      case isFalse hl =>
        rw [exists_mem_deregister_ne (fun x hx => hx.1) hl]
        exact h.senderMap rfl l' ptr
    · rw [hsenders, deregister_clientNumberRecord henv]
      by_cases hl : l' = l
      · subst hl
        -- what is found for the locator is of the same transport
        refine iff_of_false (fun hrecord => ?_) (not_exists_mem_deregister fun x hx => hx.2.1)
        rw [Option.ite_none_left_eq_some] at hrecord
        obtain ⟨x, hx, hnum, hxl, -⟩ := (h.clientNumberRecord l' m).mp hrecord.2
        exact hrecord.1 ⟨(ht x hx).1 hxl ▸ hnum, rfl⟩
      · rw [exists_mem_deregister_ne (fun x hx => hx.2.1) hl, if_neg fun hnl => hl hnl.2]
        exact h.clientNumberRecord l' m
    · rw [hsenders, exists_mem_deregister, hclients]
      simp only [List.mem_filter, decide_eq_true_iff, h.clients, and_assoc]
      refine and_congr_right fun _ => ?_
      constructor
      · rintro ⟨⟨x, hx, rfl⟩, hp⟩
        exact ⟨x, hx, (mem_deregister h ht hx).mpr hp, rfl⟩
      · rintro ⟨x, hx, hxl, rfl⟩
        exact ⟨⟨x, hx, rfl⟩, (mem_deregister h ht hx).mp hxl⟩
    · have := h.ptr_lt x (List.mem_filter.mp (hsenders ▸ hx)).1
      simpa only [deregisterFacility, henv, if_true] using this
  · simpa [deregisterFacility, Act.update, carriedOut, henv] using h

theorem inv_step (h : Inv k w) (ht : Tidy env w a) (hstep : (machine k env).step w a = some w') :
    Inv k w' := by
  cases a with
  | register t l outcome =>
      simp only [machine, step, Option.ite_none_right_eq_some, Option.some.injEq] at hstep
      obtain ⟨-, rfl⟩ := hstep
      exact inv_register h ht
  | deregister t l =>
      cases hstep
      exact inv_deregister h ht
  | request l rand =>
      cases hstep
      simpa [handle, Act.update] using h

theorem inv_of_tidy (h : (machine k env).Reach (Tidy env) w) : Inv k w :=
  h.invariant (inv_init k env) fun _ _ _ => inv_step

/-- **The containers describe the registered pairs in every tidy run.** -/
theorem bookkeeping_of_tidy (h : (machine k env).Reach (Tidy env) w) : Bookkeeping k w :=
  (inv_of_tidy h).toBookkeeping

/-! ## The answers -/

theorem rightlyDone_register (ho : Orderly k env w (.register t l outcome))
    (hstep : (machine k env).step w (.register t l outcome) = some w') :
    RightlyDone k env w (.register t l outcome) w' := by
  simp only [machine, step, Option.ite_none_right_eq_some, Option.some.injEq] at hstep
  obtain ⟨-, rfl⟩ := hstep
  obtain ⟨ht, hanswer⟩ := ho
  simp only [RightlyDone, handle]
  rcases registerFacility_cases k env w.facility t l outcome ht.1 with
    ⟨hout, heq⟩ | ⟨n, rfl, hout, heq⟩
  · rw [heq, hout]
    cases k with
    | random =>
        have hempty : w.facility.underlyingSenders = [] := hanswer
        simp [publish, assign, hempty]
    | designated => exact absurd (hout.symm.trans hanswer) (by simp)
  · rw [heq, hout]
    cases k with
    | random =>
        have hempty : w.facility.underlyingSenders = [] := hanswer
        simp [publish, assign, addSender, hempty]
    | designated => rfl

theorem rightlyDone_deregister (h : Inv k w) (ho : Orderly k env w (.deregister t l))
    (hstep : (machine k env).step w (.deregister t l) = some w') :
    RightlyDone k env w (.deregister t l) w' := by
  cases hstep
  obtain ⟨ht, hanswer⟩ := ho
  by_cases henv : env.hasComponent t = true
  · refine ⟨?_, deregister_clients h ht henv⟩
    cases k <;> simp [handle, deregisterFacility, henv, publish, carriedOut]
  · obtain ⟨rfl, hempty⟩ := hanswer.resolve_left henv
    have hclients : w.facility.clients = [] := by
      refine List.eq_nil_iff_forall_not_mem.mpr fun c hc => ?_
      obtain ⟨-, x, hx, -⟩ := (h.clients c).mp hc
      rw [hempty] at hx
      cases hx
    simp [RightlyDone, handle, deregisterFacility, henv, publish, hempty, hclients]

theorem rightlyDone_request {rand : Nat} (h : Inv k w)
    (hstep : (machine k env).step w (.request l rand) = some w') :
    RightlyDone k env w (.request l rand) w' := by
  cases k with
  | random =>
      simp only [RightlyDone, handle, pass]
      split
      case h_1 hnone =>
        refine .inl ⟨rfl, List.eq_nil_iff_length_eq_zero.mpr ?_⟩
        rw [List.getElem?_eq_none_iff] at hnone
        split at hnone
        case isTrue => omega
        case isFalse =>
          have := Nat.mod_lt rand (y := w.facility.underlyingSenders.length)
          omega
      case h_2 x hx => exact .inr ⟨x, List.mem_of_getElem? hx, rfl⟩
  | designated =>
      simp only [RightlyDone, handle, pass]
      split
      case h_1 hnone =>
        refine .inl ⟨rfl, fun x hx hxl => ?_⟩
        rw [(h.senderMap rfl l x.ptr).mpr ⟨x, hx, hxl, rfl⟩] at hnone
        cases hnone
      case h_2 ptr hptr =>
        obtain ⟨x, hx, hxl, rfl⟩ := (h.senderMap rfl l ptr).mp hptr
        exact .inr ⟨x, hx, hxl, rfl⟩

/-- **In an orderly run the books are kept, and each orderly action is done and answered
rightly.** -/
theorem rightlyDone_of_orderly (h : (machine k env).Reach (Orderly k env) w) :
    Bookkeeping k w ∧ ∀ a w', Orderly k env w a → (machine k env).step w a = some w' →
      RightlyDone k env w a w' := by
  have hinv : Inv k w := inv_of_tidy (h.mono fun _ _ => And.left)
  refine ⟨hinv.toBookkeeping, fun a w' ho hstep => ?_⟩
  cases a with
  | register t l outcome => exact rightlyDone_register ho hstep
  | deregister t l => exact rightlyDone_deregister hinv ho hstep
  | request l rand => exact rightlyDone_request hinv hstep

/-! ## Runs with two servers -/

instance (env : Environment) (w : World) : (a : Act) → Decidable (Tidy env w a)
  | .register _ _ _ => inferInstanceAs (Decidable (_ ∧ _))
  | .deregister _ l => inferInstanceAs
      (Decidable (∀ x ∈ w.facility.underlyingSenders, (x.locator = l → _) ∧ _))
  | .request _ _ => .isTrue trivial

instance (env : Environment) (w : World) :
    (k : DispatchStrategy) → (a : Act) → Decidable (Answerable k env w a)
  | .random, .register _ _ _ => inferInstanceAs (Decidable (_ = _))
  | .designated, .register _ _ _ => inferInstanceAs (Decidable (_ = _))
  | _, .deregister _ _ => inferInstanceAs (Decidable (_ ∨ _))
  | _, .request _ _ => .isTrue trivial

instance (k : DispatchStrategy) (env : Environment) (w : World) (a : Act) :
    Decidable (Orderly k env w a) := inferInstanceAs (Decidable (_ ∧ _))

def allTransports : Environment := ⟨fun _ => true, fun _ => true⟩

def atHost (host : Text) : Locator := { (default : Locator) with host := host }

/-- Two servers are registered, and one is deregistered. -/
def twoServers : List Act :=
  [.register .rabbitMQ (atHost ['a']) (.client 1), .register .socketRPC (atHost ['b']) (.client 0),
    .request (atHost ['b']) 0, .deregister .rabbitMQ (atHost ['a'])]

/-- The world after some actions. -/
def after (k : DispatchStrategy) (acts : List Act) : World :=
  (machine k allTransports).exec (machine k allTransports).init acts

theorem rightlyDone_twoServers :
    (after .designated twoServers).facility.clients = [⟨.socketRPC, atHost ['b'], 0⟩] ∧
    (Bookkeeping .designated (after .designated twoServers) ∧
      ∀ a w', Orderly .designated allTransports (after .designated twoServers) a →
        (machine .designated allTransports).step (after .designated twoServers) a = some w' →
        RightlyDone .designated allTransports (after .designated twoServers) a w') :=
  ⟨by decide +kernel, rightlyDone_of_orderly (Machine.Reach.init.exec
    (Machine.Within.of_all (g := fun w a => decide (Orderly .designated allTransports w a))
      (fun _ _ => of_decide_eq_true) (by decide +kernel)))⟩

/-- The second of two registrations answers that there is one sender. -/
theorem not_rightlyDone_second :
    ¬ ∀ k env w, (machine k env).Reach (fun _ _ => True) w → Bookkeeping k w ∧
      ∀ a w', (machine k env).step w a = some w' → RightlyDone k env w a w' := by
  intro hall
  have hreach : (machine .random allTransports).Reach (fun _ _ => True)
      (after .random (twoServers.take 1)) :=
    Machine.Reach.init.exec (Machine.Within.of_forall (fun _ _ => trivial) _ _)
  obtain ⟨-, hdone⟩ := hall _ _ _ hreach
  have hsecond : (handle .random allTransports (after .random (twoServers.take 1)).facility
      (.register .socketRPC (atHost ['b']) (.client 0))).2 = .size 2 :=
    hdone (.register .socketRPC (atHost ['b']) (.client 0)) _ rfl
  exact absurd hsecond (by decide +kernel)

end RemoteFacility
