import TMTransport.Library.LockOrder

/-!
# The mutexes of the WebSocket component

What the calls and the completion handlers do with the mutexes and the collections of
the component. Which way a call goes (what it finds in the maps, which clients there
are, how each write and each TLS set-up ends) is an argument of the call. The callbacks
of the users do nothing with the component, except that a server may reply.

Three failure paths lock a mutex that the thread has: after a failed write in `publish`
and in `sendReply` the client is removed by its own handler, and after a failed TLS
set-up in `run` the connection is removed while its owner starts it. And a subscriber
that ignores topics goes through its clients without their mutex.
-/

namespace WebSocketLocks

open Interleave Locks

inductive Mutex where
  | subscriberMapMutex
  | publisherMapMutex
  | rpcClientMapMutex
  | rpcServerMapMutex
  /-- `OneSubscriber::clientsMutex_` -/
  | subscriberClientsMutex (o : Nat)
  /-- `OnePublisher::clientHandlersMutex_` -/
  | publisherHandlersMutex (p : Nat)
  /-- `OnePublisher::OneClientHandler::writeMutex_` -/
  | publisherWriteMutex (h : Nat)
  /-- `OneRPCClient::clientsMutex_` -/
  | rpcClientsMutex (c : Nat)
  /-- `OneRPCClient::writeMutex_` -/
  | rpcWriteMutex (c : Nat)
  /-- `OneRPCServer::serversMutex_` -/
  | serversMutex (s : Nat)
  /-- `OneRPCServer::clientHandlersMutex_` -/
  | serverHandlersMutex (s : Nat)
  /-- `OneRPCServer::OneClientHandler::writeMutex_` -/
  | serverWriteMutex (h : Nat)
  deriving DecidableEq

inductive Collection where
  | subscriberMap
  | subscriberClientIDToSubscriberLocatorMap
  | noFilterClients (o : Nat)
  | stringMatchClients (o : Nat)
  | regexMatchClients (o : Nat)
  | publisherMap
  | publisherHandlers (p : Nat)
  /-- One of the sets in `pathToClientMap_`. -/
  | pathToClient (p : Nat) (path : String)
  | rpcClientMap
  | rpcClients (c : Nat)
  /-- `clientToIDMap_` and `idToClientMap_` -/
  | rpcIDs (c : Nat)
  | beforeReadyBuffer (c : Nat)
  | rpcServerMap
  | serverHandlers (s : Nat)
  | clientHandlersByID (s : Nat)
  | idsByClientHandler (s : Nat)
  /-- One of the sets in `idsByClientHandler_`. -/
  | idsOf (s h : Nat)
  deriving DecidableEq

abbrev Program := Locks.Program Mutex Collection

/-- How a write to a stream goes. -/
inductive Write where
  /-- The connection is not good, or not authorized. -/
  | skipped
  | written
  | thrown
  deriving DecidableEq

/-! ## Subscribers -/

/-- How it goes when a subscriber is made and started. -/
inductive SubscriberSetup where
  | works
  | initializationFails
  | setHostNameFails
  /-- `new` is made in its place, and started. -/
  | tlsextHostNameFails (new : Nat) (next : SubscriberSetup)

inductive Setup where
  | works
  | initializationFails
  /-- The one call for the host name or the other. -/
  | hostNameFails
  deriving DecidableEq

def removeRPCClient : Program := locked .rpcClientMapMutex [.change .rpcClientMap]

/-- The part of `moveToNewOne` about the clients. Nobody else knows the new subscriber yet. -/
def moveClients (o : Nat) : Program :=
  locked (.subscriberClientsMutex o)
    [.change (.noFilterClients o), .change (.stringMatchClients o), .change (.regexMatchClients o)]

/-- `OneSubscriber::run` -/
def runSubscriber (o : Nat) : SubscriberSetup → Program
  | .works => []
  | .initializationFails => []
  | .setHostNameFails => removeRPCClient
  | .tlsextHostNameFails new next =>
      -- `removeSubscriber`
      locked .subscriberMapMutex
        (moveClients o ++ runSubscriber new next ++ [.change .subscriberMap])

/-- A subscriber that is replaced, and how it goes with the new one. -/
structure Replacement where
  old : Nat
  new : Nat
  setup : SubscriberSetup

def removeSubscriber (r : Replacement) : Program :=
  locked .subscriberMapMutex
    (moveClients r.old ++ runSubscriber r.new r.setup ++ [.change .subscriberMap])

inductive Kind where
  | noFilter
  | stringMatch
  | regexMatch
  deriving DecidableEq

def Kind.collection (o : Nat) : Kind → Collection
  | .noFilter => .noFilterClients o
  | .stringMatch => .stringMatchClients o
  | .regexMatch => .regexMatchClients o

def addClient (o : Nat) (kind : Kind) : Program :=
  locked (.subscriberClientsMutex o) [.change (kind.collection o)]

/-- What `websocket_addSubscriptionClient` finds, or makes. -/
inductive Found where
  | already
  | made (setup : SubscriberSetup)
  /-- The subscriber is there under the locator with its port, and is started again. -/
  | again (setup : SubscriberSetup)

/-- The client is known by its id, and attached. -/
def attach (o : Nat) (kind : Kind) : Program :=
  .change .subscriberClientIDToSubscriberLocatorMap :: addClient o kind

def addSubscriptionClient (o : Nat) (kind : Kind) (found : Found) : Program :=
  locked .subscriberMapMutex
    (match found with
    | .already => attach o kind
    | .made .initializationFails => [.change .subscriberMap, .change .subscriberMap]
    | .made setup => .change .subscriberMap :: (runSubscriber o setup ++ attach o kind)
    | .again setup => runSubscriber o setup ++ attach o kind)

/-- `onResolve`, `onConnect`, `onSSLHandshake` and `onWebSocketHandshake`, which may fail. -/
def subscriberHandler : Option Replacement → Program
  | none => []
  | some r => removeSubscriber r

/-- How a read of a subscriber goes. -/
inductive SubscriberRead where
  | error (r : Replacement)
  /-- The data may be decoded or not, and the protocol reactor's answer not be written. -/
  | data (parsed : Bool) (unanswered : Option Replacement)

def subscriberOnRead (ignoresTopic : Nat → Bool) (o : Nat) : SubscriberRead → Program
  | .error r => removeSubscriber r
  | .data parsed unanswered =>
      (if ignoresTopic o then loop (.noFilterClients o) []
      else if parsed then
        locked (.subscriberClientsMutex o)
          (loop (.noFilterClients o) [] ++ loop (.stringMatchClients o) [] ++
            loop (.regexMatchClients o) [])
      else []) ++ subscriberHandler unanswered

/-! ## Publishers -/

namespace Publisher

def removeClientHandler (p : Nat) (path : String) : Program :=
  locked (.publisherHandlersMutex p)
    [.change (.pathToClient p path), .change (.publisherHandlers p)]

/-- `OneClientHandler::doPublish` -/
def doPublish (p : Nat) (path : String) (h : Nat) : Write → Program
  | .skipped => []
  | .written => locked (.publisherWriteMutex h) []
  | .thrown => locked (.publisherWriteMutex h) [] ++ removeClientHandler p path

/-- The clients on the path, and how the write to each goes. -/
def publish (p : Nat) (path : String) (clients : List (Nat × Write)) : Program :=
  locked (.publisherHandlersMutex p)
    (if clients.isEmpty then []
    else loop (.pathToClient p path) (clients.flatMap fun c => doPublish p path c.1 c.2))

/-- `onSslHandshake` and `onWrite` -/
def handler (p : Nat) (path : String) (fails : Bool) : Program :=
  if fails then removeClientHandler p path else []

def onWsHandshake (p : Nat) (path : String) (fails : Bool) : Program :=
  if fails then removeClientHandler p path
  else locked (.publisherHandlersMutex p) [.change (.pathToClient p path)]

/-- An answer of the protocol reactor is written. -/
def onRead (p : Nat) (path : String) (h : Nat) (fails : Bool) (answer : Write) : Program :=
  if fails then removeClientHandler p path
  else
    match answer with
    | .skipped => []
    | .written => locked (.publisherWriteMutex h) []
    | .thrown => locked (.publisherWriteMutex h) [] ++ removeClientHandler p path

def onAccept (p : Nat) (fails : Bool) : Program :=
  if fails then locked .publisherMapMutex [.change .publisherMap]
  else locked (.publisherHandlersMutex p) [.change (.publisherHandlers p)]

end Publisher

/-! ## RPC clients -/

namespace RPCClient

def doSendRequest (c : Nat) : Write → Program
  | .skipped => []
  | .written =>
      locked (.rpcClientsMutex c) [.change (.rpcIDs c)] ++ locked (.rpcWriteMutex c) []
  | .thrown =>
      locked (.rpcClientsMutex c) [.change (.rpcIDs c)] ++ locked (.rpcWriteMutex c) [] ++
        removeRPCClient

def sendRequest (c : Nat) (ready : Bool) (write : Write) : Program :=
  if ready then doSendRequest c write
  else locked (.rpcWriteMutex c) [.change (.beforeReadyBuffer c)]

/-- `onResolve`, `onConnect` and `onSSLHandshake` -/
def handler (fails : Bool) : Program := if fails then removeRPCClient else []

/-- The requests of the buffer are sent from a copy. -/
def onWebSocketHandshake (c : Nat) (fails : Bool) (buffer : List Write) : Program :=
  if fails then removeRPCClient
  else
    locked (.rpcWriteMutex c) [.change (.beforeReadyBuffer c)] ++ buffer.flatMap (doSendRequest c)

def onRead (c : Nat) (fails isFinal : Bool) : Program :=
  if fails then removeRPCClient
  else locked (.rpcClientsMutex c) (if isFinal then [.change (.rpcIDs c)] else [])

/-- `websocket_setRPCClient`; `made` says how it goes if the client has to be made. -/
def setRPCClient (c : Nat) (made : Option Setup) : Program :=
  let addClient : Program := locked (.rpcClientsMutex c) [.change (.rpcClients c)]
  match made with
  | none => locked .rpcClientMapMutex [] ++ addClient
  | some .initializationFails =>
      locked .rpcClientMapMutex [.change .rpcClientMap, .change .rpcClientMap]
  | some .works => locked .rpcClientMapMutex [.change .rpcClientMap] ++ addClient
  | some .hostNameFails =>
      locked .rpcClientMapMutex (.change .rpcClientMap :: removeRPCClient) ++ addClient

end RPCClient

/-! ## RPC servers -/

namespace RPCServer

/-- One turn of the loop stands for all; there is one for each id of the connection. -/
def removeClientHandler (s h : Nat) : Program :=
  locked (.serverHandlersMutex s)
    (loop (.idsOf s h) [.change (.clientHandlersByID s)] ++
      [.change (.idsOf s h), .change (.idsByClientHandler s), .change (.serverHandlers s)])

/-- A reply: who it goes to, if there is somebody, and how the write goes. -/
structure Reply where
  server : Nat
  isFinal : Bool
  client : Option (Nat × Write)

/-- `OneClientHandler::sendReply` -/
def write (s h : Nat) : Write → Program
  | .skipped => []
  | .written => locked (.serverWriteMutex h) []
  | .thrown => locked (.serverWriteMutex h) [] ++ removeClientHandler s h

def sendReply (r : Reply) : Program :=
  locked (.serverHandlersMutex r.server)
    (match r.client with
    | none => []
    | some (h, w) =>
      (if r.isFinal then [.change (.idsOf r.server h), .change (.clientHandlersByID r.server)]
      else []) ++ write r.server h w)

/-- The user's server is called, which may send replies. -/
def callServer (s h : Nat) (replies : List Reply) : Program :=
  locked (.serverHandlersMutex s)
    [.change (.clientHandlersByID s), .change (.idsByClientHandler s), .change (.idsOf s h)] ++
  locked (.serversMutex s) (replies.flatMap sendReply)

/-- `onSslHandshake`, `onWsHandshake` and `onWrite` -/
def handler (s h : Nat) (fails : Bool) : Program := if fails then removeClientHandler s h else []

/-- How a read goes: an error, something that is no request, or a request. -/
def onRead (s h : Nat) (fails : Bool) (request : Option (List Reply)) : Program :=
  if fails then removeClientHandler s h
  else
    match request with
    | none => []
    | some replies => callServer s h replies

def onAccept (s : Nat) (fails : Bool) : Program :=
  if fails then locked .rpcServerMapMutex [.change .rpcServerMap]
  else locked (.serverHandlersMutex s) [.change (.serverHandlers s)]

end RPCServer

/-! ## Calls -/

inductive Call where
  | addSubscriptionClient (o : Nat) (kind : Kind) (found : Found)
  | subscriberHandler (fails : Option Replacement)
  | subscriberOnRead (o : Nat) (read : SubscriberRead)
  | publish (p : Nat) (path : String) (clients : List (Nat × Write))
  | publisherHandler (p : Nat) (path : String) (fails : Bool)
  | publisherOnWsHandshake (p : Nat) (path : String) (fails : Bool)
  | publisherOnRead (p : Nat) (path : String) (h : Nat) (fails : Bool) (answer : Write)
  | publisherOnAccept (p : Nat) (fails : Bool)
  | setRPCClient (c : Nat) (made : Option Setup)
  | sendRequest (c : Nat) (ready : Bool) (write : Write)
  | rpcClientHandler (fails : Bool)
  | rpcClientOnWebSocketHandshake (c : Nat) (fails : Bool) (buffer : List Write)
  | rpcClientOnRead (c : Nat) (fails isFinal : Bool)
  | sendReply (r : RPCServer.Reply)
  | rpcServerHandler (s h : Nat) (fails : Bool)
  | rpcServerOnRead (s h : Nat) (fails : Bool) (request : Option (List RPCServer.Reply))
  | rpcServerOnAccept (s : Nat) (fails : Bool)

section Program

-- It does not change with time which subscribers ignore topics.
variable (ignoresTopic : Nat → Bool)

def program : Call → Program
  | .addSubscriptionClient o kind found => addSubscriptionClient o kind found
  | .subscriberHandler fails => subscriberHandler fails
  | .subscriberOnRead o read => subscriberOnRead ignoresTopic o read
  | .publish p path clients => Publisher.publish p path clients
  | .publisherHandler p path fails => Publisher.handler p path fails
  | .publisherOnWsHandshake p path fails => Publisher.onWsHandshake p path fails
  | .publisherOnRead p path h fails answer => Publisher.onRead p path h fails answer
  | .publisherOnAccept p fails => Publisher.onAccept p fails
  | .setRPCClient c made => RPCClient.setRPCClient c made
  | .sendRequest c ready write => RPCClient.sendRequest c ready write
  | .rpcClientHandler fails => RPCClient.handler fails
  | .rpcClientOnWebSocketHandshake c fails buffer => RPCClient.onWebSocketHandshake c fails buffer
  | .rpcClientOnRead c fails isFinal => RPCClient.onRead c fails isFinal
  | .sendReply r => RPCServer.sendReply r
  | .rpcServerHandler s h fails => RPCServer.handler s h fails
  | .rpcServerOnRead s h fails request => RPCServer.onRead s h fails request
  | .rpcServerOnAccept s fails => RPCServer.onAccept s fails

/-! ## When the calls are harmless -/

/-- The set-up of a subscriber does not come back to the map of the subscribers. -/
def SubscriberSetup.Harmless : SubscriberSetup → Prop
  | .tlsextHostNameFails _ _ => False
  | _ => True

def Found.Harmless : Found → Prop
  | .already => True
  | .made setup => setup.Harmless
  | .again setup => setup.Harmless

def SubscriberRead.Harmless : SubscriberRead → Prop
  | .error r => r.setup.Harmless
  | .data _ unanswered => ∀ r ∈ unanswered, r.setup.Harmless

def RPCServer.Reply.Harmless (r : RPCServer.Reply) : Prop := ∀ c ∈ r.client, c.2 ≠ .thrown

/--
No write of `publish` and `sendReply` fails, and no set-up of TLS that is made while the map of the
connections is locked, so far as it would come back to that map.
-/
def Call.Harmless : Call → Prop
  | .addSubscriptionClient _ _ found => found.Harmless
  | .subscriberHandler fails => ∀ r ∈ fails, r.setup.Harmless
  | .subscriberOnRead _ read => read.Harmless
  | .publish _ _ clients => ∀ c ∈ clients, c.2 ≠ .thrown
  | .setRPCClient _ made => made ≠ some .hostNameFails
  | .sendReply r => r.Harmless
  | .rpcServerOnRead _ _ false (some replies) => ∀ r ∈ replies, r.Harmless
  | _ => True

/-- The subscriber of which a call goes through the clients without their mutex. -/
def Call.goesThrough : Call → Option Nat
  | .subscriberOnRead o (.data _ _) => if ignoresTopic o then some o else none
  | _ => none

/-- The subscribers whose clients are moved when `o` is started. -/
def SubscriberSetup.moves (o : Nat) : SubscriberSetup → List Nat
  | .tlsextHostNameFails new next => o :: next.moves new
  | _ => []

def Replacement.moves (r : Replacement) : List Nat := r.old :: r.setup.moves r.new

def Found.moves (o : Nat) : Found → List Nat
  | .already => []
  | .made setup => setup.moves o
  | .again setup => setup.moves o

/-- The subscribers of which a call changes the clients. -/
def Call.changes : Call → List Nat
  | .addSubscriptionClient o _ found => o :: found.moves o
  | .subscriberHandler (some r) => r.moves
  | .subscriberOnRead _ (.error r) => r.moves
  | .subscriberOnRead _ (.data _ (some r)) => r.moves
  | _ => []

/-- A subscriber that ignores topics does not read while its clients change. -/
def Apart (k k' : Call) : Prop := ∀ o ∈ k.goesThrough ignoresTopic, o ∉ k'.changes

variable {τ : Type}

/--
A call that starts is harmless, and does not overlap with another one of which it would change the
clients that it goes through, or the other way round.
-/
def Orderly (s : Locks.State τ Mutex Collection Call) : Locks.Act τ Call → Prop
  | .start t k => k.Harmless ∧ ∀ t' k', t' ≠ t → s.InProgress t' k' →
      Apart ignoresTopic k k' ∧ Apart ignoresTopic k' k
  | .run _ => True

/-! ## The order of the mutexes -/

def rank : Mutex → Nat
  | .subscriberMapMutex | .publisherMapMutex | .rpcServerMapMutex | .serversMutex _ => 0
  | .rpcClientMapMutex | .subscriberClientsMutex _ | .publisherHandlersMutex _
  | .serverHandlersMutex _ | .rpcClientsMutex _ => 1
  | .publisherWriteMutex _ | .rpcWriteMutex _ | .serverWriteMutex _ => 2

def guard : Collection → Option Mutex
  | .subscriberMap | .subscriberClientIDToSubscriberLocatorMap => some .subscriberMapMutex
  | .noFilterClients o => if ignoresTopic o then none else some (.subscriberClientsMutex o)
  | .stringMatchClients o | .regexMatchClients o => some (.subscriberClientsMutex o)
  | .publisherMap => some .publisherMapMutex
  | .publisherHandlers p | .pathToClient p _ => some (.publisherHandlersMutex p)
  | .rpcClientMap => some .rpcClientMapMutex
  | .rpcClients c | .rpcIDs c => some (.rpcClientsMutex c)
  | .beforeReadyBuffer c => some (.rpcWriteMutex c)
  | .rpcServerMap => some .rpcServerMapMutex
  | .serverHandlers s | .clientHandlersByID s | .idsByClientHandler s | .idsOf s _ =>
      some (.serverHandlersMutex s)

end Program

section Proofs

variable {ignoresTopic : Nat → Bool} {held : List Mutex} {loops : List Collection}

/-- In order, wherever it stands with these mutexes locked, and in no loop. -/
abbrev InPlace (ignoresTopic : Nat → Bool) (held : List Mutex) (p : Program) : Prop :=
  Fits rank (guard ignoresTopic) held [] p

/-- Some changes under the mutex that guards what is changed. -/
theorem inPlace_changes {m : Mutex} (cs : List Collection) (hrank : ∀ x ∈ held, rank x < rank m)
    (hcs : ∀ c ∈ cs, guard ignoresTopic c = some m ∨ guard ignoresTopic c = none) :
    InPlace ignoresTopic held (locked m (cs.map .change)) := by
  refine fits_locked hrank (fun c hc => nomatch hc) ?_
  induction cs with
  | nil => exact fits_nil
  | cons c cs ih =>
      refine (fits_change (fun m' h => ?_) (by simp)).append
        (ih fun c' h => hcs c' (List.mem_cons_of_mem _ h))
      rcases hcs c List.mem_cons_self with h1 | h1
      · rw [h1] at h
        rw [← Option.some.inj h]
        exact List.mem_cons_self
      · rw [h1] at h
        cases h

/-! ### Subscribers -/

theorem guard_noFilterClients (o : Nat) :
    guard ignoresTopic (.noFilterClients o) = some (.subscriberClientsMutex o) ∨
      guard ignoresTopic (.noFilterClients o) = none := by
  simp only [guard]
  split
  · exact .inr rfl
  · exact .inl rfl

theorem inPlace_removeRPCClient (hrank : ∀ x ∈ held, rank x < 1) :
    InPlace ignoresTopic held removeRPCClient :=
  inPlace_changes [.rpcClientMap] hrank (by simp [guard])

theorem inPlace_moveClients (hrank : ∀ x ∈ held, rank x < 1) (o : Nat) :
    InPlace ignoresTopic held (moveClients o) := by
  refine inPlace_changes [.noFilterClients o, .stringMatchClients o, .regexMatchClients o] hrank ?_
  intro c hc
  simp only [List.mem_cons, List.not_mem_nil, or_false] at hc
  rcases hc with rfl | rfl | rfl
  · exact guard_noFilterClients o
  · exact .inl rfl
  · exact .inl rfl

theorem inPlace_runSubscriber (hrank : ∀ x ∈ held, rank x < 1) (o : Nat) {setup : SubscriberSetup}
    (hs : setup.Harmless) : InPlace ignoresTopic held (runSubscriber o setup) := by
  cases setup with
  | works => exact fits_nil
  | initializationFails => exact fits_nil
  | setHostNameFails => exact inPlace_removeRPCClient hrank
  | tlsextHostNameFails new next => exact hs.elim

theorem rank_subscriberMapMutex : ∀ x ∈ [Mutex.subscriberMapMutex], rank x < 1 := by
  simp [rank]

theorem inPlace_removeSubscriber {r : Replacement} (hr : r.setup.Harmless) :
    InPlace ignoresTopic [] (removeSubscriber r) := by
  refine fits_locked (fun x hx => nomatch hx) (fun c hc => nomatch hc) ?_
  refine ((inPlace_moveClients rank_subscriberMapMutex r.old).append
    (inPlace_runSubscriber rank_subscriberMapMutex r.new hr)).append ?_
  exact fits_change (by simp [guard]) (by simp)

theorem inPlace_subscriberHandler {fails : Option Replacement}
    (hr : ∀ r ∈ fails, r.setup.Harmless) :
    InPlace ignoresTopic [] (subscriberHandler fails) := by
  cases fails with
  | none => exact fits_nil
  | some r => exact inPlace_removeSubscriber (hr r rfl)

theorem inPlace_attach (o : Nat) (kind : Kind) :
    InPlace ignoresTopic [.subscriberMapMutex] (attach o kind) := by
  have hadd : InPlace ignoresTopic [.subscriberMapMutex] (addClient o kind) := by
    refine inPlace_changes [kind.collection o] rank_subscriberMapMutex ?_
    intro c hc
    obtain rfl := List.mem_singleton.mp hc
    cases kind with
    | noFilter => exact guard_noFilterClients o
    | stringMatch => exact .inl rfl
    | regexMatch => exact .inl rfl
  exact (fits_change (by simp [guard]) (by simp)).append hadd

theorem inPlace_addSubscriptionClient {o : Nat} {kind : Kind} {found : Found}
    (hf : found.Harmless) : InPlace ignoresTopic [] (addSubscriptionClient o kind found) := by
  have hmap : InPlace ignoresTopic [.subscriberMapMutex] [.change .subscriberMap] :=
    fits_change (by simp [guard]) (by simp)
  have hrun : ∀ setup : SubscriberSetup, setup.Harmless →
      InPlace ignoresTopic [.subscriberMapMutex] (runSubscriber o setup ++ attach o kind) := by
    intro setup h
    exact (inPlace_runSubscriber rank_subscriberMapMutex o h).append (inPlace_attach o kind)
  refine fits_locked (fun x hx => nomatch hx) (fun c hc => nomatch hc) ?_
  cases found with
  | already => exact inPlace_attach o kind
  | again setup => exact hrun setup hf
  | made setup =>
      cases setup with
      | initializationFails => exact hmap.append hmap
      | works => exact hmap.append (hrun .works hf)
      | setHostNameFails => exact hmap.append (hrun .setHostNameFails hf)
      | tlsextHostNameFails new next => exact hf.elim

theorem inPlace_subscriberOnRead {o : Nat} {read : SubscriberRead} (hr : read.Harmless) :
    InPlace ignoresTopic [] (subscriberOnRead ignoresTopic o read) := by
  cases read with
  | error r => exact inPlace_removeSubscriber hr
  | data parsed unanswered =>
      refine Fits.append ?_ (inPlace_subscriberHandler hr)
      by_cases hi : ignoresTopic o = true
      · -- without the mutex
        rw [if_pos hi]
        exact fits_loop (by simp [guard, hi]) fits_nil
      · rw [if_neg hi]
        cases parsed with
        | false => exact fits_nil
        | true =>
            refine fits_locked (fun x hx => nomatch hx) (fun c hc => nomatch hc) ?_
            refine (Fits.append ?_ ?_).append ?_
            all_goals exact fits_loop (by simp [guard, hi]) fits_nil

/-! ### Publishers -/

theorem inPlace_removePublisherClient (p : Nat) (path : String) :
    InPlace ignoresTopic [] (Publisher.removeClientHandler p path) :=
  inPlace_changes [.pathToClient p path, .publisherHandlers p] (fun x hx => nomatch hx)
    (by simp [guard])

theorem inPlace_publish {p : Nat} {path : String} {clients : List (Nat × Write)}
    (h : ∀ c ∈ clients, c.2 ≠ .thrown) :
    InPlace ignoresTopic [] (Publisher.publish p path clients) := by
  refine fits_locked (fun x hx => nomatch hx) (fun c hc => nomatch hc) ?_
  cases clients with
  | nil => exact fits_nil
  | cons c cs =>
      refine fits_loop (by simp [guard]) (fits_flatMap fun c hc => ?_)
      obtain ⟨client, w⟩ := c
      cases w with
      | skipped => exact fits_nil
      | written => exact fits_locked (by simp [rank]) (by simp [guard]) fits_nil
      | thrown => exact absurd rfl (h _ hc)

theorem inPlace_publisherOnRead {p h : Nat} {path : String} {fails : Bool} {answer : Write} :
    InPlace ignoresTopic [] (Publisher.onRead p path h fails answer) := by
  have hwrite : InPlace ignoresTopic [] (locked (.publisherWriteMutex h) []) :=
    fits_locked (fun x hx => nomatch hx) (fun c hc => nomatch hc) fits_nil
  cases fails with
  | true => exact inPlace_removePublisherClient p path
  | false =>
      cases answer with
      | skipped => exact fits_nil
      | written => exact hwrite
      | thrown => exact hwrite.append (inPlace_removePublisherClient p path)

/-! ### RPC clients -/

theorem inPlace_doSendRequest (c : Nat) (w : Write) :
    InPlace ignoresTopic [] (RPCClient.doSendRequest c w) := by
  have hids : InPlace ignoresTopic [] (locked (.rpcClientsMutex c) [.change (.rpcIDs c)]) :=
    inPlace_changes [.rpcIDs c] (fun x hx => nomatch hx) (by simp [guard])
  have hwrite : InPlace ignoresTopic [] (locked (.rpcWriteMutex c) []) :=
    fits_locked (fun x hx => nomatch hx) (fun c hc => nomatch hc) fits_nil
  cases w with
  | skipped => exact fits_nil
  | written => exact hids.append hwrite
  | thrown => exact (hids.append hwrite).append (inPlace_removeRPCClient fun x hx => nomatch hx)

theorem inPlace_buffer (c : Nat) :
    InPlace ignoresTopic [] (locked (.rpcWriteMutex c) [.change (.beforeReadyBuffer c)]) :=
  inPlace_changes [.beforeReadyBuffer c] (fun x hx => nomatch hx) (by simp [guard])

theorem inPlace_setRPCClient {c : Nat} {made : Option Setup} (h : made ≠ some .hostNameFails) :
    InPlace ignoresTopic [] (RPCClient.setRPCClient c made) := by
  have hadd : InPlace ignoresTopic [] (locked (.rpcClientsMutex c) [.change (.rpcClients c)]) :=
    inPlace_changes [.rpcClients c] (fun x hx => nomatch hx) (by simp [guard])
  have hmap : ∀ cs : List Collection, (∀ c ∈ cs, c = .rpcClientMap) →
      InPlace ignoresTopic [] (locked .rpcClientMapMutex (cs.map .change)) := by
    intro cs hcs
    refine inPlace_changes cs (fun x hx => nomatch hx) fun c hc => .inl ?_
    rw [hcs c hc]
    rfl
  cases made with
  | none => exact (hmap [] (by simp)).append hadd
  | some setup =>
      cases setup with
      | initializationFails => exact hmap [.rpcClientMap, .rpcClientMap] (by simp)
      | works => exact (hmap [.rpcClientMap] (by simp)).append hadd
      | hostNameFails => exact absurd rfl h

/-! ### RPC servers -/

theorem inPlace_removeServerClient (s h : Nat) :
    InPlace ignoresTopic [] (RPCServer.removeClientHandler s h) := by
  refine fits_locked (fun x hx => nomatch hx) (fun c hc => nomatch hc) (Fits.append ?_ ?_)
  · exact fits_loop (by simp [guard]) (fits_change (by simp [guard]) (by simp))
  · refine (fits_change (by simp [guard]) (by simp)).append (p := [.change _]) ?_
    refine (fits_change (by simp [guard]) (by simp)).append (p := [.change _]) ?_
    exact fits_change (by simp [guard]) (by simp)

theorem inPlace_sendReply {r : RPCServer.Reply} (hr : r.Harmless)
    (hheld : ∀ x ∈ held, rank x < 1) : InPlace ignoresTopic held (RPCServer.sendReply r) := by
  obtain ⟨s, isFinal, client⟩ := r
  refine fits_locked hheld (fun c hc => nomatch hc) ?_
  cases client with
  | none => exact fits_nil
  | some c =>
      obtain ⟨h, w⟩ := c
      refine Fits.append ?_ ?_
      · cases isFinal with
        | false => exact fits_nil
        | true =>
            refine (fits_change (by simp [guard]) (by simp)).append (p := [.change _]) ?_
            exact fits_change (by simp [guard]) (by simp)
      · cases w with
        | skipped => exact fits_nil
        | written =>
            refine fits_locked ?_ (fun c hc => nomatch hc) fits_nil
            intro x hx
            rcases List.mem_cons.mp hx with rfl | hx
            · exact Nat.lt_succ_self 1
            · exact Nat.lt_trans (hheld x hx) (Nat.lt_succ_self 1)
        | thrown => exact absurd rfl (hr _ rfl)

theorem inPlace_callServer {s h : Nat} {replies : List RPCServer.Reply}
    (hr : ∀ r ∈ replies, r.Harmless) :
    InPlace ignoresTopic [] (RPCServer.callServer s h replies) := by
  refine Fits.append ?_ ?_
  · exact inPlace_changes [.clientHandlersByID s, .idsByClientHandler s, .idsOf s h]
      (fun x hx => nomatch hx) (by simp [guard])
  · refine fits_locked (fun x hx => nomatch hx) (fun c hc => nomatch hc) (fits_flatMap ?_)
    exact fun r h => inPlace_sendReply (hr r h) (by simp [rank])

/-! ### All calls -/

theorem inPlace_program {k : Call} (hk : k.Harmless) :
    InPlace ignoresTopic [] (program ignoresTopic k) := by
  have nothing : ∀ x ∈ ([] : List Mutex), rank x < 1 := fun x hx => nomatch hx
  cases k with
  | addSubscriptionClient o kind found => exact inPlace_addSubscriptionClient hk
  | subscriberHandler fails => exact inPlace_subscriberHandler hk
  | subscriberOnRead o read => exact inPlace_subscriberOnRead hk
  | publish p path clients => exact inPlace_publish hk
  | publisherHandler p path fails =>
      cases fails with
      | false => exact fits_nil
      | true => exact inPlace_removePublisherClient p path
  | publisherOnWsHandshake p path fails =>
      cases fails with
      | false => exact inPlace_changes [.pathToClient p path] nothing (by simp [guard])
      | true => exact inPlace_removePublisherClient p path
  | publisherOnRead p path h fails answer => exact inPlace_publisherOnRead
  | publisherOnAccept p fails =>
      cases fails with
      | false => exact inPlace_changes [.publisherHandlers p] nothing (by simp [guard])
      | true =>
          exact inPlace_changes [.publisherMap] (fun x hx => nomatch hx) (by simp [guard])
  | setRPCClient c made => exact inPlace_setRPCClient hk
  | sendRequest c ready write =>
      cases ready with
      | false => exact inPlace_buffer c
      | true => exact inPlace_doSendRequest c write
  | rpcClientHandler fails =>
      cases fails with
      | false => exact fits_nil
      | true => exact inPlace_removeRPCClient nothing
  | rpcClientOnWebSocketHandshake c fails buffer =>
      cases fails with
      | false => exact (inPlace_buffer c).append (fits_flatMap fun w _ => inPlace_doSendRequest c w)
      | true => exact inPlace_removeRPCClient nothing
  | rpcClientOnRead c fails isFinal =>
      cases fails with
      | true => exact inPlace_removeRPCClient nothing
      | false =>
          cases isFinal with
          | true => exact inPlace_changes [.rpcIDs c] nothing (by simp [guard])
          | false => exact inPlace_changes [] nothing (by simp)
  | sendReply r => exact inPlace_sendReply hk nothing
  | rpcServerHandler s h fails =>
      cases fails with
      | false => exact fits_nil
      | true => exact inPlace_removeServerClient s h
  | rpcServerOnRead s h fails request =>
      cases fails with
      | true => exact inPlace_removeServerClient s h
      | false =>
          cases request with
          | none => exact fits_nil
          | some replies => exact inPlace_callServer hk
  | rpcServerOnAccept s fails =>
      cases fails with
      | false => exact inPlace_changes [.serverHandlers s] nothing (by simp [guard])
      | true =>
          exact inPlace_changes [.rpcServerMap] (fun x hx => nomatch hx) (by simp [guard])

/-! ### What calls go through, and what they change -/

theorem noFilterClients_of_guard {c : Collection} (h : guard ignoresTopic c = none) :
    ∃ o, c = .noFilterClients o ∧ ignoresTopic o = true := by
  cases c with
  | noFilterClients o =>
      refine ⟨o, rfl, ?_⟩
      by_contra hi
      simp [guard, hi] at h
  | _ => simp [guard] at h

/-- The clients of a subscriber that an operation goes through or changes. -/
def about : Op Mutex Collection → Option Nat
  | .beginLoop (.noFilterClients o) => some o
  | .change (.noFilterClients o) => some o
  | _ => none

theorem about_moveClients {x : Op Mutex Collection} {o o' : Nat} (hx : x ∈ moveClients o')
    (ho : about x = some o) : x = .change (.noFilterClients o) ∧ o = o' := by
  simp only [moveClients, locked, List.mem_cons, List.mem_append, List.not_mem_nil, or_false] at hx
  rcases hx with rfl | (rfl | rfl | rfl) | rfl
  case inr.inl.inl =>
    obtain rfl := Option.some.inj ho
    exact ⟨rfl, rfl⟩
  all_goals cases ho

theorem about_runSubscriber {x : Op Mutex Collection} {o o' : Nat} (setup : SubscriberSetup)
    (hx : x ∈ runSubscriber o' setup) (ho : about x = some o) :
    x = .change (.noFilterClients o) ∧ o ∈ setup.moves o' := by
  induction setup generalizing o' with
  | works => cases hx
  | initializationFails => cases hx
  | setHostNameFails =>
      simp only [runSubscriber, removeRPCClient, locked, List.mem_cons, List.mem_append,
        List.not_mem_nil, or_false] at hx
      rcases hx with rfl | rfl | rfl
      all_goals cases ho
  | tlsextHostNameFails new next ih =>
      simp only [runSubscriber, locked, List.mem_cons, List.mem_append, List.not_mem_nil,
        or_false] at hx
      rcases hx with rfl | ((h | h) | rfl) | rfl
      case inr.inl.inl.inl =>
        obtain ⟨h1, rfl⟩ := about_moveClients h ho
        exact ⟨h1, List.mem_cons_self⟩
      case inr.inl.inl.inr =>
        obtain ⟨h1, h2⟩ := ih h
        exact ⟨h1, List.mem_cons_of_mem _ h2⟩
      all_goals cases ho

theorem about_removeSubscriber {x : Op Mutex Collection} {o : Nat} {r : Replacement}
    (hx : x ∈ removeSubscriber r) (ho : about x = some o) :
    x = .change (.noFilterClients o) ∧ o ∈ r.moves :=
  about_runSubscriber (.tlsextHostNameFails r.new r.setup) hx ho

theorem about_attach {x : Op Mutex Collection} {o o' : Nat} {kind : Kind}
    (hx : x ∈ attach o' kind) (ho : about x = some o) :
    x = .change (.noFilterClients o) ∧ o = o' := by
  simp only [attach, addClient, locked, List.mem_cons, List.mem_append, List.not_mem_nil,
    or_false] at hx
  rcases hx with rfl | rfl | rfl | rfl
  case inr.inr.inl =>
    cases kind with
    | noFilter =>
        obtain rfl := Option.some.inj ho
        exact ⟨rfl, rfl⟩
    | _ => cases ho
  all_goals cases ho

theorem about_addSubscriptionClient {x : Op Mutex Collection} {o o' : Nat} {kind : Kind}
    {found : Found} (hx : x ∈ addSubscriptionClient o' kind found) (ho : about x = some o) :
    x = .change (.noFilterClients o) ∧ o ∈ o' :: found.moves o' := by
  have hattach : x ∈ attach o' kind → x = .change (.noFilterClients o) ∧
      o ∈ o' :: found.moves o' := by
    intro h
    obtain ⟨h1, rfl⟩ := about_attach h ho
    exact ⟨h1, List.mem_cons_self⟩
  have hrun : ∀ setup : SubscriberSetup, setup.moves o' = found.moves o' →
      x ∈ runSubscriber o' setup → x = .change (.noFilterClients o) ∧
        o ∈ o' :: found.moves o' := by
    intro setup hs h
    obtain ⟨h1, h2⟩ := about_runSubscriber setup h ho
    exact ⟨h1, List.mem_cons_of_mem _ (hs ▸ h2)⟩
  simp only [addSubscriptionClient, locked, List.mem_cons, List.mem_append, List.not_mem_nil,
    or_false] at hx
  rcases hx with rfl | hx | rfl
  · cases ho
  · split at hx
    · exact hattach hx
    · simp only [List.mem_cons, List.not_mem_nil, or_false, or_self] at hx
      rw [hx] at ho
      cases ho
    · rcases List.mem_cons.mp hx with rfl | hx
      · cases ho
      · exact (List.mem_append.mp hx).elim (hrun _ rfl) hattach
    · exact (List.mem_append.mp hx).elim (hrun _ rfl) hattach
  · cases ho

/-- Publishers, RPC clients and RPC servers have nothing to do with the clients of subscribers. -/
def Elsewhere (p : Program) : Prop := ∀ x ∈ p, about x = none

theorem elsewhere_append {p q : Program} : Elsewhere (p ++ q) ↔ Elsewhere p ∧ Elsewhere q :=
  List.forall_mem_append

theorem elsewhere_locked {m : Mutex} {p : Program} : Elsewhere (locked m p) ↔ Elsewhere p := by
  simp [Elsewhere, locked, about, or_imp, forall_and]

theorem elsewhere_flatMap {α : Type} {l : List α} {f : α → Program} (h : ∀ a, Elsewhere (f a)) :
    Elsewhere (l.flatMap f) := by
  intro x hx
  obtain ⟨a, -, ha⟩ := List.mem_flatMap.mp hx
  exact h a x ha

theorem elsewhere_publish (p : Nat) (path : String) (clients : List (Nat × Write)) :
    Elsewhere (Publisher.publish p path clients) := by
  rw [Publisher.publish, elsewhere_locked]
  split
  · simp [Elsewhere]
  · have h : Elsewhere (clients.flatMap fun c => Publisher.doPublish p path c.1 c.2) := by
      refine elsewhere_flatMap fun c => ?_
      cases c.2 <;>
        simp [Elsewhere, Publisher.doPublish, Publisher.removeClientHandler, locked, about]
    simpa [Elsewhere, loop, about, or_imp, forall_and] using h

theorem elsewhere_doSendRequest (c : Nat) (w : Write) :
    Elsewhere (RPCClient.doSendRequest c w) := by
  cases w <;> simp [Elsewhere, RPCClient.doSendRequest, removeRPCClient, locked, about]

theorem elsewhere_sendReply (r : RPCServer.Reply) : Elsewhere (RPCServer.sendReply r) := by
  obtain ⟨s, isFinal, client⟩ := r
  rw [RPCServer.sendReply, elsewhere_locked]
  cases client with
  | none => simp [Elsewhere]
  | some c =>
      obtain ⟨h, w⟩ := c
      rw [elsewhere_append]
      constructor
      · cases isFinal <;> simp [Elsewhere, about]
      · cases w <;>
          simp [Elsewhere, RPCServer.write, RPCServer.removeClientHandler, locked, loop, about]

/-- What a call goes through without a mutex, and what it changes. -/
theorem about_program {k : Call} {x : Op Mutex Collection} {o : Nat}
    (hx : x ∈ program ignoresTopic k) (ho : about x = some o) (hi : ignoresTopic o = true) :
    (x = .beginLoop (.noFilterClients o) ∧ o ∈ k.goesThrough ignoresTopic) ∨
      (x = .change (.noFilterClients o) ∧ o ∈ k.changes) := by
  have elsewhere : ∀ {p : Program}, Elsewhere p → x ∉ p := by
    intro p hp h
    rw [hp x h] at ho
    cases ho
  cases k with
  | addSubscriptionClient o' kind found => exact .inr (about_addSubscriptionClient hx ho)
  | subscriberHandler fails =>
      cases fails with
      | none => cases hx
      | some r => exact .inr (about_removeSubscriber hx ho)
  | subscriberOnRead o' read =>
      cases read with
      | error r => exact .inr (about_removeSubscriber hx ho)
      | data parsed unanswered =>
          rcases List.mem_append.mp hx with hx | hx
          · split at hx
            · next hi' =>
              simp only [loop, List.mem_cons, List.mem_append, List.not_mem_nil, or_false,
                false_or] at hx
              rcases hx with rfl | rfl
              · obtain rfl := Option.some.inj ho
                exact .inl ⟨rfl, by simp [Call.goesThrough, hi]⟩
              · cases ho
            · -- with the mutex it is not without it
              next hi' =>
              split at hx
              · simp only [locked, loop, List.mem_cons, List.mem_append, List.not_mem_nil,
                  or_false, false_or] at hx
                rcases hx with rfl | (((rfl | rfl) | (rfl | rfl)) | (rfl | rfl)) | rfl
                case inr.inl.inl.inl.inl =>
                  obtain rfl := Option.some.inj ho
                  exact absurd hi hi'
                all_goals cases ho
              · cases hx
          · cases unanswered with
            | none => cases hx
            | some r => exact .inr (about_removeSubscriber hx ho)
  | publish p path clients => exact absurd hx (elsewhere (elsewhere_publish p path clients))
  | publisherHandler p path fails =>
      refine absurd hx (elsewhere ?_)
      cases fails <;>
        simp [program, Elsewhere, Publisher.handler, Publisher.removeClientHandler, locked, about]
  | publisherOnWsHandshake p path fails =>
      refine absurd hx (elsewhere ?_)
      cases fails <;> simp [program, Elsewhere, Publisher.onWsHandshake,
        Publisher.removeClientHandler, locked, about]
  | publisherOnRead p path h fails answer =>
      refine absurd hx (elsewhere ?_)
      cases fails <;> cases answer <;> simp [program, Elsewhere, Publisher.onRead,
        Publisher.removeClientHandler, locked, about]
  | publisherOnAccept p fails =>
      refine absurd hx (elsewhere ?_)
      cases fails <;> simp [program, Elsewhere, Publisher.onAccept, locked, about]
  | setRPCClient c made =>
      refine absurd hx (elsewhere ?_)
      cases made with
      | none => simp [program, Elsewhere, RPCClient.setRPCClient, locked, about]
      | some setup =>
          cases setup <;>
            simp [program, Elsewhere, RPCClient.setRPCClient, removeRPCClient, locked, about]
  | sendRequest c ready write =>
      refine absurd hx (elsewhere ?_)
      cases ready with
      | true => exact elsewhere_doSendRequest c write
      | false => simp [program, Elsewhere, RPCClient.sendRequest, locked, about]
  | rpcClientHandler fails =>
      refine absurd hx (elsewhere ?_)
      cases fails <;>
        simp [program, Elsewhere, RPCClient.handler, removeRPCClient, locked, about]
  | rpcClientOnWebSocketHandshake c fails buffer =>
      refine absurd hx (elsewhere ?_)
      cases fails with
      | true =>
          simp [program, Elsewhere, RPCClient.onWebSocketHandshake, removeRPCClient, locked, about]
      | false =>
          refine elsewhere_append.mpr ⟨?_, elsewhere_flatMap (elsewhere_doSendRequest c)⟩
          simp [Elsewhere, locked, about]
  | rpcClientOnRead c fails isFinal =>
      refine absurd hx (elsewhere ?_)
      cases fails <;> cases isFinal <;>
        simp [program, Elsewhere, RPCClient.onRead, removeRPCClient, locked, about]
  | sendReply r => exact absurd hx (elsewhere (elsewhere_sendReply r))
  | rpcServerHandler s h fails =>
      refine absurd hx (elsewhere ?_)
      cases fails <;> simp [program, Elsewhere, RPCServer.handler, RPCServer.removeClientHandler,
        locked, loop, about]
  | rpcServerOnRead s h fails request =>
      refine absurd hx (elsewhere ?_)
      cases fails with
      | true => simp [program, Elsewhere, RPCServer.onRead, RPCServer.removeClientHandler,
          locked, loop, about]
      | false =>
          cases request with
          | none => simp [program, Elsewhere, RPCServer.onRead]
          | some replies =>
              refine elsewhere_append.mpr ⟨by simp [Elsewhere, locked, about], ?_⟩
              exact elsewhere_locked.mpr (elsewhere_flatMap elsewhere_sendReply)
  | rpcServerOnAccept s fails =>
      refine absurd hx (elsewhere ?_)
      cases fails <;> simp [program, Elsewhere, RPCServer.onAccept, locked, about]

theorem not_clash_of_apart {k k' : Call} (h : Apart ignoresTopic k k') :
    ¬ Clash (guard ignoresTopic) (program ignoresTopic) k k' := by
  intro hc
  obtain ⟨c, hg, hl, hch⟩ := hc
  obtain ⟨o, rfl, hi⟩ := noFilterClients_of_guard hg
  obtain ⟨-, h1⟩ | ⟨h1, -⟩ := about_program hl rfl hi
  · obtain ⟨h2, -⟩ | ⟨-, h2⟩ := about_program hch rfl hi
    · cases h2
    · exact h o h1 h2
  · cases h1

end Proofs

/-! ## Two threads -/

/-- No subscriber ignores topics. -/
def topics : Nat → Bool := fun _ => false

/-- One thread publishes to two clients, while another adds a client. -/
def publishAndAdd : List (Locks.Act Bool Call) :=
  [.start false (.publish 0 "/p" [(0, .written), (1, .skipped)]), .run false, .run false,
    .start true (.addSubscriptionClient 0 .noFilter (.made .works)), .run true, .run true,
    .run false, .run true, .run true]

theorem goesThrough_topics (k : Call) : k.goesThrough topics = none := by
  unfold Call.goesThrough
  split
  · simp [topics]
  · rfl

theorem publishAndAdd_orderly :
    (machine (program topics)).Within (Orderly topics) (machine (program topics)).init
      publishAndAdd := by
  have hapart : ∀ k k' : Call, Apart topics k k' := by
    intro k k' o ho
    rw [goesThrough_topics] at ho
    cases ho
  refine ⟨⟨?_, fun _ _ _ _ => ⟨hapart _ _, hapart _ _⟩⟩, trivial, trivial,
    ⟨trivial, fun _ _ _ _ => ⟨hapart _ _, hapart _ _⟩⟩, trivial, trivial, trivial, trivial,
    trivial, trivial⟩
  intro c hc
  simp only [List.mem_cons, List.not_mem_nil, or_false] at hc
  rcases hc with rfl | rfl <;> simp

/-- A thread starts a call and goes on for some steps. -/
def callFor (t : Bool) (k : Call) (n : Nat) : List (Locks.Act Bool Call) :=
  .start t k :: List.replicate n (.run t)

/--
A write of `publish` fails; a write of `sendReply` fails; the TLS set-up of an RPC client fails;
that of a subscriber fails; and a client is added to a subscriber that ignores topics, while it
reads.
-/
def failures : List (List (Locks.Act Bool Call)) :=
  [callFor false (.publish 0 "/p" [(0, .thrown)]) 4,
    callFor false (.sendReply ⟨0, false, some (0, .thrown)⟩) 3,
    callFor false (.setRPCClient 0 (some .hostNameFails)) 2,
    callFor false (.addSubscriptionClient 0 .noFilter (.made (.tlsextHostNameFails 1 .works))) 2,
    callFor false (.subscriberOnRead 0 (.data true none)) 1 ++
      callFor true (.addSubscriptionClient 0 .noFilter .already) 3]

/-- Where a run leads to. -/
def after (l : List (Locks.Act Bool Call)) : Locks.State Bool Mutex Collection Call :=
  (machine (program fun _ => true)).exec (machine (program fun _ => true)).init l

theorem not_disciplined_of_failure {l : List (Locks.Act Bool Call)} (hl : l ∈ failures) :
    ¬ Disciplined (after l) := by
  intro h
  simp only [failures, List.mem_cons, List.not_mem_nil, or_false] at hl
  rcases hl with rfl | rfl | rfl | rfl | rfl
  · exact h.noSelf false (.publisherHandlersMutex 0) _ rfl rfl
  · exact h.noSelf false (.serverHandlersMutex 0) _ rfl rfl
  · exact h.noSelf false .rpcClientMapMutex _ rfl rfl
  · exact h.noSelf false .subscriberMapMutex _ rfl rfl
  · exact h.noChange true (.noFilterClients 0) _ rfl false List.mem_cons_self

end WebSocketLocks
