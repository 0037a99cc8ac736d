import TMTransport.Library.Machine

/-!
# gRPC clients

A client is made by a call of `grpc_interop_setRPCClient`, which gives back a function
that sends. What it sends with is the sender of its locator, and one that is there
already is shared. The sender has a callback, which is that of the call that made it.
So replies go astray as soon as two clients have one locator: both have the callback
of the first one, and both are stopped with either.

A request has a reactor, and the id of the request finds it in the sender. gRPC calls
the reactor, once for each response and once at the end. The final callback is made
before the id is given free, so a client that uses its id again at once is not heard.
-/

namespace GrpcClient

open Interleave

/-- How far a call has got. -/
inductive Phase where
  /-- A read has been started. -/
  | reading
  /-- No read is under way. -/
  | idle
  /-- The final callback has been made, the reactor is still there. -/
  | finalCalled
  | removed
  /-- The call has ended when the reactor had been stopped. -/
  | dropped
  deriving DecidableEq

/-- `LocalReactor` -/
structure LocalReactor where
  /-- `parent_` -/
  sender : Nat
  id : String
  req : String
  stopped : Bool
  phase : Phase
  /-- For the record: the client that has sent the request, and what has come for it. -/
  requester : Nat
  responses : List String

/-- `RpcSender`. It goes by the number of the call that has made it, and so does its callback. -/
structure RpcSender where
  isSingleRpcCall : Bool
  wireToUserHook : Option (String → Option String)
  reactorMap : String → Option Nat

/-- A client: the sender that it sends with, and what it does to a request before. -/
structure Client where
  sender : Nat
  userToWireHook : Option (String → String)

/-- A callback has been called: with a content, or as the final one. -/
structure Call where
  reactor : Nat
  client : Nat
  id : String
  content : Option String
  deriving DecidableEq

structure State (L : Type) where
  rpcClients : L → Option Nat
  senders : Nat → Option RpcSender
  /-- The number of the next client. -/
  count : Nat
  clients : Nat → Option Client
  reactors : Nat → Option LocalReactor
  nextReactor : Nat
  /-- For the record: the clients of a locator that have not been removed, the latest one first. -/
  registered : L → List Nat
  gone : List Nat
  /-- Who was not heard, though none of its requests with this id waits for an answer. -/
  unheard : List (Nat × String)
  /-- All callbacks so far. -/
  calls : List Call

inductive Act (L : Type) where
  | setRPCClient (locator : L) (wireToUser : Option (String → Option String))
      (userToWire : Option (String → String))
  | removeRPCClient (locator : L)
  /-- The function that a client has been given is called. -/
  | send (client : Nat) (id content : String)
  /-- `OnReadDone(true)` -/
  | read (reactor : Nat) (resp : String)
  /-- `OnReadDone(false)` -/
  | readNothing (reactor : Nat)
  | onDone (reactor : Nat)
  | removeReactor (reactor : Nat)

section Step

variable {L : Type} [DecidableEq L]

def setRPCClient (isSingle : L → Bool) (s : State L) (locator : L)
    (wireToUser : Option (String → Option String)) (userToWire : Option (String → String)) :
    State L :=
  let n := s.count
  let s' := { s with
    count := n + 1
    clients := Function.update s.clients n (some ⟨(s.rpcClients locator).getD n, userToWire⟩)
    registered := Function.update s.registered locator (n :: s.registered locator) }
  match s.rpcClients locator with
  | some _ => s'
  | none =>
    { s' with
      rpcClients := Function.update s.rpcClients locator (some n)
      senders := Function.update s.senders n (some ⟨isSingle locator, wireToUser, fun _ => none⟩) }

/-- `stopAll`. A reactor is in the map of its sender, or it has been removed. -/
def stopAll (reactors : Nat → Option LocalReactor) (p r : Nat) : Option LocalReactor :=
  (reactors r).map fun x =>
    if x.sender = p ∧ x.phase ≠ .removed then { x with stopped := true } else x

/-- The latest client of the locator goes. -/
def unregister (s : State L) (locator : L) : State L :=
  { s with
    gone := (s.registered locator).take 1 ++ s.gone
    registered := Function.update s.registered locator ((s.registered locator).drop 1) }

def removeRPCClient (s : State L) (locator : L) : State L :=
  match s.rpcClients locator with
  | none => unregister s locator
  | some p =>
    { unregister s locator with
      reactors := stopAll s.reactors p
      rpcClients := Function.update s.rpcClients locator none }

/-- `sendRequest`. While the id is there, nobody is heard who has the sender and uses it. For a
request of the same client that is under way this is what is meant. -/
def sendRequest (s : State L) (client p : Nat) (sender : RpcSender) (id content : String) :
    State L :=
  match sender.reactorMap id with
  | some r =>
    match s.reactors r with
    | some x =>
      if x.requester = client ∧ x.phase ≠ .finalCalled then s
      else { s with unheard := (client, id) :: s.unheard }
    | none => { s with unheard := (client, id) :: s.unheard }
  | none =>
    { s with
      senders := Function.update s.senders p (some { sender with
        reactorMap := Function.update sender.reactorMap id (some s.nextReactor) })
      reactors := Function.update s.reactors s.nextReactor
        (some ⟨p, id, content, false, .reading, client, []⟩)
      nextReactor := s.nextReactor + 1 }

def send (s : State L) (client : Nat) (id content : String) : Option (State L) :=
  match s.clients client with
  | none => none
  | some c =>
    match s.senders c.sender with
    | none => none
    | some sender =>
      some (sendRequest s client c.sender sender id
        (match c.userToWireHook with
        | none => content
        | some hook => hook content))

/-- `callback` -/
def hooked (sender : RpcSender) (resp : String) : Option String :=
  match sender.wireToUserHook with
  | none => some resp
  | some hook => hook resp

/-- A reactor goes on, and the callback of its sender is called for `more` meanwhile. -/
def goOn (s : State L) (r : Nat) (x x' : LocalReactor) (more : List (Option String)) : State L :=
  { s with
    reactors := Function.update s.reactors r (some x')
    calls := s.calls ++ more.map fun d => ⟨r, x.sender, x.id, d⟩ }

def read (s : State L) (r : Nat) (x : LocalReactor) (sender : RpcSender) (resp : String) :
    State L :=
  goOn s r x
    { x with
      phase := if sender.isSingleRpcCall then .idle else .reading
      responses := x.responses ++ (hooked sender resp).toList }
    (if x.stopped then [] else (hooked sender resp).toList.map some)

def onDone (s : State L) (r : Nat) (x : LocalReactor) : State L :=
  if x.stopped then goOn s r x { x with phase := .dropped } []
  else goOn s r x { x with phase := .finalCalled } [none]

def removeReactor (s : State L) (r : Nat) (x : LocalReactor) (sender : RpcSender) : State L :=
  goOn
    { s with
      senders := Function.update s.senders x.sender (some { sender with
        reactorMap := Function.update sender.reactorMap x.id none }) }
    r x { x with phase := .removed } []

/-- What gRPC calls a reactor for. -/
def react (s : State L) (r : Nat) (phase : Phase)
    (f : LocalReactor → RpcSender → State L) : Option (State L) :=
  match s.reactors r with
  | none => none
  | some x =>
    if x.phase = phase then (s.senders x.sender).map (f x) else none

def step (isSingle : L → Bool) (s : State L) : Act L → Option (State L)
  | .setRPCClient locator wireToUser userToWire =>
    some (setRPCClient isSingle s locator wireToUser userToWire)
  | .removeRPCClient locator => some (removeRPCClient s locator)
  | .send client id content => send s client id content
  | .read r resp => react s r .reading fun x sender => read s r x sender resp
  | .readNothing r => react s r .reading fun x _ => goOn s r x { x with phase := .idle } []
  | .onDone r => react s r .idle fun x _ => onDone s r x
  | .removeReactor r => react s r .finalCalled fun x sender => removeReactor s r x sender

def machine (isSingle : L → Bool) : Machine (State L) (Act L) where
  init :=
    ⟨fun _ => none, fun _ => none, 0, fun _ => none, fun _ => none, 0, fun _ => [], [], [], []⟩
  step := step isSingle

end Step

variable {L : Type}

/-- The reactor that is there when the client uses the id. -/
def State.reactorOf (s : State L) (client : Nat) (id : String) : Option LocalReactor := do
  let c ← s.clients client
  let sender ← s.senders c.sender
  let r ← sender.reactorMap id
  s.reactors r

/-- A locator has one client at a time, and no id is used again between the final callback and
the removal of the reactor. -/
def Orderly (s : State L) : Act L → Prop
  | .setRPCClient locator _ _ => s.rpcClients locator = none
  | .send client id _ => ∀ x, s.reactorOf client id = some x → x.phase ≠ .finalCalled
  | _ => True

/-- The callbacks that have been called for a request, the earliest one first. -/
def callsOf (calls : List Call) (r : Nat) : List (Option String) :=
  (calls.filter fun c => c.reactor = r).map Call.content

/-- The callbacks that a request should have seen: all responses in order, and one final callback
when it is through. -/
def LocalReactor.due (x : LocalReactor) : List (Option String) :=
  x.responses.map some ++ if x.phase = .finalCalled ∨ x.phase = .removed then [none] else []

structure RightReplies (s : State L) : Prop where
  mine : ∀ c ∈ s.calls, ∃ x, s.reactors c.reactor = some x ∧ c.client = x.requester ∧ c.id = x.id
  inOrder : ∀ r x, s.reactors r = some x → callsOf s.calls r <+: x.due
  whole : ∀ r x, s.reactors r = some x → x.stopped = false → callsOf s.calls r = x.due
  /-- Only a client that has been removed itself is stopped. -/
  spared : ∀ r x, s.reactors r = some x → x.stopped = true → x.requester ∈ s.gone
  heard : s.unheard = []

/-! ## The invariant -/

structure Inv (s : State L) : Prop extends RightReplies s where
  /-- Each client has a sender of its own. -/
  own : ∀ n c, s.clients n = some c → c.sender = n
  registered : ∀ l, s.registered l = (s.rpcClients l).toList
  requester : ∀ r x, s.reactors r = some x → x.requester = x.sender
  maps : ∀ p sender id r, s.senders p = some sender → sender.reactorMap id = some r →
    ∃ x, s.reactors r = some x ∧ x.sender = p
  fresh : ∀ r, s.nextReactor ≤ r → s.reactors r = none

variable {s s' : State L} {r : Nat} {x x' : LocalReactor}

theorem callsOf_append (calls calls' : List Call) (r : Nat) :
    callsOf (calls ++ calls') r = callsOf calls r ++ callsOf calls' r := by
  rw [callsOf, List.filter_append, List.map_append]
  rfl

theorem callsOf_self (r p : Nat) (id : String) (more : List (Option String)) :
    callsOf (more.map fun d => ⟨r, p, id, d⟩) r = more := by
  induction more with
  | nil => rfl
  | cons d more ih =>
      rw [List.map_cons, callsOf, List.filter_cons_of_pos (by simp), List.map_cons]
      exact congrArg (d :: ·) ih

theorem callsOf_other {r r' : Nat} (hr : r' ≠ r) (p : Nat) (id : String)
    (more : List (Option String)) : callsOf (more.map fun d => ⟨r', p, id, d⟩) r = [] := by
  induction more with
  | nil => rfl
  | cons d more ih =>
      rw [List.map_cons, callsOf, List.filter_cons_of_neg (by simpa using hr)]
      exact ih

theorem inv_init [DecidableEq L] (isSingle : L → Bool) : Inv (machine isSingle).init where
  mine := fun c hc => by cases hc
  inOrder := fun r x hx => by cases hx
  whole := fun r x hx => by cases hx
  spared := fun r x hx => by cases hx
  heard := rfl
  own := fun n c hc => by cases hc
  registered := fun l => rfl
  requester := fun r x hx => by cases hx
  maps := fun p sender id r hp => by cases hp
  fresh := fun r _ => rfl

/-- The reactor of a request goes on. Nothing is called for it once it has been stopped. -/
structure GoesOn (x x' : LocalReactor) (more : List (Option String)) : Prop where
  sender : x'.sender = x.sender
  id : x'.id = x.id
  requester : x'.requester = x.requester
  stopped : x'.stopped = x.stopped
  due : if x.stopped then more = [] ∧ x.due <+: x'.due else x'.due = x.due ++ more

theorem Inv.goOn {more : List (Option String)} (hi : Inv s) (hx : s.reactors r = some x)
    (hgo : GoesOn x x' more) : Inv (goOn s r x x' more) := by
  obtain ⟨hsender, hid, hreq, hstopped, hdue⟩ := hgo
  -- what another request has seen is as it was
  have hother : ∀ r', r' ≠ r →
      callsOf (s.calls ++ more.map fun d => ⟨r, x.sender, x.id, d⟩) r' = callsOf s.calls r' := by
    intro r' hr'
    rw [callsOf_append, callsOf_other (Ne.symm hr'), List.append_nil]
  have hself : callsOf (s.calls ++ more.map fun d => ⟨r, x.sender, x.id, d⟩) r =
      callsOf s.calls r ++ more := by
    rw [callsOf_append, callsOf_self]
  have hat : ∀ r' y, Function.update s.reactors r (some x') r' = some y →
      (r' = r ∧ y = x') ∨ (r' ≠ r ∧ s.reactors r' = some y) := by
    intro r' y hy
    by_cases hr' : r' = r
    · rw [hr', Function.update_self] at hy
      exact .inl ⟨hr', (Option.some.inj hy).symm⟩
    · rw [Function.update_of_ne hr'] at hy
      exact .inr ⟨hr', hy⟩
  have hkept : ∀ r' y, s.reactors r' = some y → ∃ y', Function.update s.reactors r (some x') r' =
      some y' ∧ y'.sender = y.sender ∧ y'.requester = y.requester ∧ y'.id = y.id := by
    intro r' y hy
    by_cases hr' : r' = r
    · subst hr'
      obtain rfl := Option.some.inj (hx.symm.trans hy)
      exact ⟨x', Function.update_self _ _ _, hsender, hreq, hid⟩
    · exact ⟨y, by rw [Function.update_of_ne hr']; exact hy, rfl, rfl, rfl⟩
  unfold GrpcClient.goOn
  refine { mine := ?_, inOrder := ?_, whole := ?_, spared := ?_, heard := hi.heard,
           own := hi.own, registered := hi.registered, requester := ?_, maps := ?_, fresh := ?_ }
  · intro c hc
    rcases List.mem_append.mp hc with hc | hc
    · obtain ⟨y, hy, hclient, hcid⟩ := hi.mine c hc
      obtain ⟨y', hy', -, hr', hi'⟩ := hkept _ y hy
      exact ⟨y', hy', hclient.trans hr'.symm, hcid.trans hi'.symm⟩
    · obtain ⟨d, -, rfl⟩ := List.mem_map.mp hc
      refine ⟨x', Function.update_self _ _ _, ?_, hid.symm⟩
      rw [hreq, hi.requester r x hx]
  · intro r' y hy
    rcases hat r' y hy with ⟨rfl, rfl⟩ | ⟨hr', hy⟩
    · dsimp only
      rw [hself]
      split at hdue
      · obtain ⟨rfl, hdue⟩ := hdue
        rw [List.append_nil]
        exact (hi.inOrder r' x hx).trans hdue
      · next hs =>
        have hwhole := hi.whole r' x hx (Bool.eq_false_iff.mpr hs)
        exact ⟨[], by rw [List.append_nil, hwhole, hdue]⟩
    · exact hother r' hr' ▸ hi.inOrder r' y hy
  · intro r' y hy hs
    rcases hat r' y hy with ⟨rfl, rfl⟩ | ⟨hr', hy⟩
    · rw [hstopped] at hs
      rw [if_neg (by rw [hs]; exact Bool.false_ne_true)] at hdue
      dsimp only
      rw [hself, hi.whole r' x hx hs, hdue]
    · exact hother r' hr' ▸ hi.whole r' y hy hs
  · intro r' y hy hs
    rcases hat r' y hy with ⟨rfl, rfl⟩ | ⟨hr', hy⟩
    · rw [hreq]
      exact hi.spared r' x hx (hstopped ▸ hs)
    · exact hi.spared r' y hy hs
  · intro r' y hy
    rcases hat r' y hy with ⟨rfl, rfl⟩ | ⟨hr', hy⟩
    · rw [hreq, hsender]
      exact hi.requester r' x hx
    · exact hi.requester r' y hy
  · intro p sender id r' hp hr'
    obtain ⟨y, hy, hyp⟩ := hi.maps p sender id r' hp hr'
    obtain ⟨y', hy', hs', -⟩ := hkept r' y hy
    exact ⟨y', hy', hs'.trans hyp⟩
  · intro r' hr'
    have hne : r' ≠ r := by
      rintro rfl
      rw [hi.fresh r' hr'] at hx
      cases hx
    exact (Function.update_of_ne hne _ _).trans (hi.fresh r' hr')

theorem Inv.setRPCClient [DecidableEq L] {isSingle : L → Bool} {locator : L}
    {wireToUser : Option (String → Option String)} {userToWire : Option (String → String)}
    (hi : Inv s) (hfree : s.rpcClients locator = none) :
    Inv (setRPCClient isSingle s locator wireToUser userToWire) := by
  unfold GrpcClient.setRPCClient
  rw [hfree]
  refine { mine := hi.mine, inOrder := hi.inOrder, whole := hi.whole, spared := hi.spared,
           heard := hi.heard, own := fun n c hc => ?_, registered := fun l => ?_,
           requester := hi.requester, maps := fun p sender id r hp hr => ?_, fresh := hi.fresh }
  · dsimp only at hc
    by_cases hn : n = s.count
    · subst hn
      rw [Function.update_self] at hc
      cases hc
      rfl
    · rw [Function.update_of_ne hn] at hc
      exact hi.own n c hc
  · dsimp only
    by_cases hl : l = locator
    · subst hl
      rw [Function.update_self, Function.update_self, hi.registered, hfree]
      rfl
    · rw [Function.update_of_ne hl, Function.update_of_ne hl]
      exact hi.registered l
  · dsimp only at hp
    by_cases hn : p = s.count
    · -- the new sender has no reactors
      rw [hn, Function.update_self] at hp
      cases hp
      cases hr
    · rw [Function.update_of_ne hn] at hp
      exact hi.maps p sender id r hp hr

/-- The only client of the locator goes, and its requests are those that are stopped. -/
theorem Inv.removeRPCClient [DecidableEq L] {locator : L} (hi : Inv s) :
    Inv (removeRPCClient s locator) := by
  unfold GrpcClient.removeRPCClient
  cases hp : s.rpcClients locator with
  | none =>
      have hnone : s.registered locator = [] := by rw [hi.registered, hp]; rfl
      dsimp only
      rw [unregister, hnone]
      refine { mine := hi.mine, inOrder := hi.inOrder, whole := hi.whole, spared := hi.spared,
               heard := hi.heard, own := hi.own, registered := fun l => ?_,
               requester := hi.requester, maps := hi.maps, fresh := hi.fresh }
      dsimp only
      by_cases hl : l = locator
      · rw [hl, Function.update_self, hp]
        rfl
      · rw [Function.update_of_ne hl]
        exact hi.registered l
  | some p =>
      have hone : s.registered locator = [p] := by rw [hi.registered, hp]; rfl
      -- what a reactor is now
      have hat : ∀ r y, stopAll s.reactors p r = some y → ∃ x, s.reactors r = some x ∧
          (y = x ∨ x.sender = p ∧ y = { x with stopped := true }) := by
        intro r y hy
        obtain ⟨x, hx, rfl⟩ := Option.map_eq_some_iff.mp hy
        refine ⟨x, hx, ?_⟩
        split
        · next h => exact .inr ⟨h.1, rfl⟩
        · exact .inl rfl
      have hkept : ∀ r x, s.reactors r = some x → ∃ y, stopAll s.reactors p r = some y ∧
          y.sender = x.sender ∧ y.requester = x.requester ∧ y.id = x.id := by
        intro r x hx
        rw [stopAll, hx, Option.map_some]
        refine ⟨_, rfl, ?_⟩
        split <;> exact ⟨rfl, rfl, rfl⟩
      dsimp only
      rw [unregister, hone]
      refine { mine := fun c hc => ?_, inOrder := fun r y hy => ?_, whole := fun r y hy hs => ?_,
               spared := fun r y hy hs => ?_, heard := hi.heard, own := hi.own,
               registered := fun l => ?_, requester := fun r y hy => ?_,
               maps := fun q sender id r hq hr => ?_, fresh := fun r hr => ?_ }
      · obtain ⟨x, hx, hclient, hid⟩ := hi.mine c hc
        obtain ⟨y, hy, -, hreq, hyid⟩ := hkept _ x hx
        exact ⟨y, hy, hclient.trans hreq.symm, hid.trans hyid.symm⟩
      · obtain ⟨x, hx, rfl | ⟨-, rfl⟩⟩ := hat r y hy
        · exact hi.inOrder r _ hx
        · exact hi.inOrder r x hx
      · obtain ⟨x, hx, rfl | ⟨-, rfl⟩⟩ := hat r y hy
        · exact hi.whole r _ hx hs
        · cases hs
      · obtain ⟨x, hx, rfl | ⟨hsender, rfl⟩⟩ := hat r y hy
        · exact List.mem_append_right _ (hi.spared r _ hx hs)
        · refine List.mem_append_left _ (List.mem_singleton.mpr ?_)
          exact (hi.requester r x hx).trans hsender
      · dsimp only
        by_cases hl : l = locator
        · rw [hl, Function.update_self, Function.update_self]
          rfl
        · rw [Function.update_of_ne hl, Function.update_of_ne hl]
          exact hi.registered l
      · obtain ⟨x, hx, rfl | ⟨-, rfl⟩⟩ := hat r y hy
        · exact hi.requester r _ hx
        · exact hi.requester r x hx
      · obtain ⟨x, hx, hxq⟩ := hi.maps q sender id r hq hr
        obtain ⟨y, hy, hs', -⟩ := hkept r x hx
        exact ⟨y, hy, hs'.trans hxq⟩
      · dsimp only
        rw [stopAll, hi.fresh r hr]
        rfl

theorem Inv.sendRequest {client p : Nat} {sender : RpcSender} {id content : String} (hi : Inv s)
    (hp : s.senders p = some sender) (hclient : p = client)
    (hfree : ∀ r x, sender.reactorMap id = some r → s.reactors r = some x →
      x.phase ≠ .finalCalled) : Inv (sendRequest s client p sender id content) := by
  unfold GrpcClient.sendRequest
  cases hr : sender.reactorMap id with
  | some r =>
      obtain ⟨x, hx, hxp⟩ := hi.maps p sender id r hp hr
      dsimp only
      rw [hx]
      dsimp only
      rw [if_pos ⟨(hi.requester r x hx).trans (hxp.trans hclient), hfree r x hr hx⟩]
      exact hi
  | none =>
      have hnew := hi.fresh s.nextReactor (Nat.le_refl _)
      have hne : ∀ r x, s.reactors r = some x → r ≠ s.nextReactor := by
        intro r x hx heq
        rw [heq, hnew] at hx
        cases hx
      -- nothing has been called for the new reactor
      have hnone : callsOf s.calls s.nextReactor = [] := by
        rw [callsOf, List.filter_eq_nil_iff.mpr, List.map_nil]
        intro c hc
        obtain ⟨x, hx, -⟩ := hi.mine c hc
        simpa using hne _ x hx
      have hat : ∀ r y, Function.update s.reactors s.nextReactor
          (some ⟨p, id, content, false, .reading, client, []⟩) r = some y →
          (r = s.nextReactor ∧ y = ⟨p, id, content, false, .reading, client, []⟩) ∨
            s.reactors r = some y := by
        intro r y hy
        by_cases hrn : r = s.nextReactor
        · rw [hrn, Function.update_self] at hy
          exact .inl ⟨hrn, (Option.some.inj hy).symm⟩
        · rw [Function.update_of_ne hrn] at hy
          exact .inr hy
      have hkept : ∀ r x, s.reactors r = some x → Function.update s.reactors s.nextReactor
          (some ⟨p, id, content, false, .reading, client, []⟩) r = some x := fun r x hx =>
        (Function.update_of_ne (hne r x hx) _ _).trans hx
      refine { mine := fun c hc => ?_, inOrder := fun r y hy => ?_, whole := fun r y hy hs => ?_,
               spared := fun r y hy hs => ?_, heard := hi.heard, own := hi.own,
               registered := hi.registered, requester := fun r y hy => ?_,
               maps := fun q sender' id' r hq hr' => ?_, fresh := fun r hr => ?_ }
      · obtain ⟨x, hx, hc'⟩ := hi.mine c hc
        exact ⟨x, hkept _ x hx, hc'⟩
      · rcases hat r y hy with ⟨rfl, rfl⟩ | hy
        · dsimp only
          rw [hnone]
          exact List.nil_prefix
        · exact hi.inOrder r y hy
      · rcases hat r y hy with ⟨rfl, rfl⟩ | hy
        · exact hnone
        · exact hi.whole r y hy hs
      · rcases hat r y hy with ⟨rfl, rfl⟩ | hy
        · cases hs
        · exact hi.spared r y hy hs
      · rcases hat r y hy with ⟨rfl, rfl⟩ | hy
        · exact hclient.symm
        · exact hi.requester r y hy
      · dsimp only at hq
        by_cases hqp : q = p
        · subst hqp
          rw [Function.update_self] at hq
          cases hq
          by_cases hid : id' = id
          · rw [hid] at hr'
            dsimp only at hr'
            rw [Function.update_self] at hr'
            cases hr'
            exact ⟨_, Function.update_self _ _ _, rfl⟩
          · dsimp only at hr'
            rw [Function.update_of_ne hid] at hr'
            obtain ⟨x, hx, hxq⟩ := hi.maps q sender id' r hp hr'
            exact ⟨x, hkept r x hx, hxq⟩
        · rw [Function.update_of_ne hqp] at hq
          obtain ⟨x, hx, hxq⟩ := hi.maps q sender' id' r hq hr'
          exact ⟨x, hkept r x hx, hxq⟩
      · dsimp only at hr ⊢
        rw [Function.update_of_ne (by omega)]
        exact hi.fresh r (by omega)

theorem Inv.forget {p : Nat} {sender : RpcSender} {id : String} (hi : Inv s)
    (hp : s.senders p = some sender) :
    Inv { s with senders := Function.update s.senders p (some { sender with
      reactorMap := Function.update sender.reactorMap id none }) } := by
  refine { hi with maps := fun q sender' id' r hq hr => ?_ }
  dsimp only at hq
  by_cases hqp : q = p
  · subst hqp
    rw [Function.update_self] at hq
    cases hq
    dsimp only at hr
    by_cases hid : id' = id
    · rw [hid, Function.update_self] at hr
      cases hr
    · rw [Function.update_of_ne hid] at hr
      exact hi.maps q sender id' r hp hr
  · rw [Function.update_of_ne hqp] at hq
    exact hi.maps q sender' id' r hq hr

/-- What gRPC calls a reactor for, as far as the reactor is there. -/
theorem react_eq_some {r : Nat} {phase : Phase} {f : LocalReactor → RpcSender → State L}
    (h : react s r phase f = some s') : ∃ x sender, s.reactors r = some x ∧ x.phase = phase ∧
      s.senders x.sender = some sender ∧ s' = f x sender := by
  unfold react at h
  cases hx : s.reactors r with
  | none =>
      rw [hx] at h
      cases h
  | some x =>
      rw [hx] at h
      dsimp only at h
      split at h
      · next hphase =>
        obtain ⟨sender, hsender, rfl⟩ := Option.map_eq_some_iff.mp h
        exact ⟨x, sender, rfl, hphase, hsender, rfl⟩
      · cases h

theorem due_of_open (h : x.phase = .reading ∨ x.phase = .idle ∨ x.phase = .dropped) :
    x.due = x.responses.map some := by
  rw [LocalReactor.due, if_neg, List.append_nil]
  rcases h with h | h | h <;> rw [h] <;> decide

theorem due_of_final (h : x.phase = .finalCalled ∨ x.phase = .removed) :
    x.due = x.responses.map some ++ [none] := by
  rw [LocalReactor.due, if_pos h]

theorem inv_step [DecidableEq L] {isSingle : L → Bool} {a : Act L} (hi : Inv s)
    (hg : Orderly s a) (hs : step isSingle s a = some s') : Inv s' := by
  cases a with
  | setRPCClient locator wireToUser userToWire =>
      obtain rfl := Option.some.inj hs
      exact hi.setRPCClient hg
  | removeRPCClient locator =>
      obtain rfl := Option.some.inj hs
      exact hi.removeRPCClient
  | send client id content =>
      simp only [step, send] at hs
      cases hc : s.clients client with
      | none =>
          rw [hc] at hs
          cases hs
      | some c =>
          rw [hc] at hs
          dsimp only at hs
          cases hp : s.senders c.sender with
          | none =>
              rw [hp] at hs
              cases hs
          | some sender =>
              rw [hp] at hs
              obtain rfl := Option.some.inj hs
              refine hi.sendRequest hp (hi.own client c hc) fun r x hr hx => hg x ?_
              simp only [State.reactorOf, hc, hp, hr, hx, Option.bind_eq_bind, Option.bind_some]
  | read r resp =>
      obtain ⟨x, sender, hx, hphase, hp, rfl⟩ := react_eq_some hs
      refine hi.goOn hx ⟨rfl, rfl, rfl, rfl, ?_⟩
      have hlater : LocalReactor.due { x with
          phase := if sender.isSingleRpcCall then .idle else .reading
          responses := x.responses ++ (hooked sender resp).toList } =
            x.due ++ (hooked sender resp).toList.map some := by
        rw [due_of_open, due_of_open (.inl hphase), List.map_append]
        cases sender.isSingleRpcCall with
        | false => exact .inl rfl
        | true => exact .inr (.inl rfl)
      rw [hlater]
      split
      · exact ⟨rfl, List.prefix_append _ _⟩
      · rfl
  | readNothing r =>
      obtain ⟨x, sender, hx, hphase, hp, rfl⟩ := react_eq_some hs
      refine hi.goOn hx ⟨rfl, rfl, rfl, rfl, ?_⟩
      rw [due_of_open (.inl hphase), due_of_open (.inr (.inl rfl)), List.append_nil]
      split
      · exact ⟨rfl, List.prefix_rfl⟩
      · rfl
  | onDone r =>
      obtain ⟨x, sender, hx, hphase, hp, rfl⟩ := react_eq_some hs
      have hopen := due_of_open (.inr (.inl hphase))
      unfold GrpcClient.onDone
      split
      · next hstopped =>
        refine hi.goOn hx ⟨rfl, rfl, rfl, rfl, ?_⟩
        rw [if_pos hstopped, hopen, due_of_open (.inr (.inr rfl))]
        exact ⟨rfl, List.prefix_rfl⟩
      · next hstopped =>
        refine hi.goOn hx ⟨rfl, rfl, rfl, rfl, ?_⟩
        rw [if_neg hstopped, hopen, due_of_final (.inl rfl)]
  | removeReactor r =>
      obtain ⟨x, sender, hx, hphase, hp, rfl⟩ := react_eq_some hs
      refine (hi.forget hp).goOn hx ⟨rfl, rfl, rfl, rfl, ?_⟩
      rw [due_of_final (.inl hphase), due_of_final (.inr rfl), List.append_nil]
      split
      · exact ⟨rfl, List.prefix_rfl⟩
      · rfl

/-- Two clients with a locator each. Both ask, the first one is removed, and the second one hears
two responses and the end. -/
def apart : List (Act Bool) :=
  [.setRPCClient false none none, .setRPCClient true none none, .send 0 "x" "?", .send 1 "x" "??",
    .removeRPCClient false, .read 0 "a", .read 1 "b", .read 1 "c", .readNothing 1, .onDone 1,
    .removeReactor 1]

/-- Two clients with one locator. -/
def together : List (Act Bool) :=
  [.setRPCClient false none none, .setRPCClient false none none, .send 1 "x" "?", .read 0 "a"]

def twoWays : Machine (State Bool) (Act Bool) := machine fun _ => false

theorem apart_orderly : twoWays.Within Orderly twoWays.init apart := by
  refine ⟨rfl, rfl, ?_, ?_, trivial, trivial, trivial, trivial, trivial, trivial, trivial, trivial⟩
  · intro x hx
    cases hx
  · intro x hx
    cases hx

end GrpcClient
