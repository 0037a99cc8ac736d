import TMTransport.Facility.WrapperRegistries
import TMTransport.JsonREST.Facility
import TMTransport.JsonREST.KeepAlive

/-!
# JSON REST from end to end

Clients that keep their connections, and clients for one request each; connections, each
with a handler on the side of the server; and behind them the wrapper of a facility, with
its callbacks. A handler reads a request, looks whom it is from, and triggers the facility
or sends a response of its own. When it has sent an output of the facility it closes the
connection, so a client that keeps it writes its next request in vain: it reads the end of
the connection, connects again, and sends the request once more.

So a request may be sent more than once. The facility is triggered a second time only if a
connection breaks down on which the handler has not closed yet, or with a response on it
that has not been read.
-/

namespace RestEndToEnd

open Interleave RestServer
open PosixPath (Path)
open Tokens (Bytes)

/-! ## The server's side of a connection -/

inductive Response where
  /-- An output of the facility, by `writeResp`. -/
  | facility (output : Bytes)
  | token (token : Bytes)
  | noToken
  | badRequest
  | unauthorized (scheme : Scheme)
  | notFound
  | file (doc : Path × Bytes)
  /-- The facility's handler could not read the request. -/
  | notImplemented
  deriving DecidableEq

inductive Phase where
  | reading
  /-- The facility has been triggered. For the record: with which number, and for which request. -/
  | waiting (number : Nat) (q : Request)
  | closed

/-- `OneHandler`, and what is on the connection. -/
structure Connection (χ : Type) where
  /-- The keep-alive client at the other end, or none for a `OneClient`. -/
  client : Option χ
  /-- What has been written, and not read by the handler. -/
  inbox : List Request
  phase : Phase
  /-- What the handler has sent, and for which request. The client has not read it. -/
  outbox : List (Request × Response)

/-- The request that the facility is at work on. -/
def Phase.request : Phase → List Request
  | .waiting _ q => [q]
  | _ => []

/-- What the handler has read, and the client has not got the response to. -/
def Connection.handled {χ : Type} (c : Connection χ) : List Request :=
  c.phase.request ++ c.outbox.map Prod.fst

def Connection.pending {χ : Type} (c : Connection χ) : List Request := c.handled ++ c.inbox

/-! ## All of it -/

structure Setup (χ Req : Type) where
  client : χ → KeepAlive.Client Request Response
  lawful : ∀ i, (client i).http.Lawful
  csv : RestClient.Csv Req
  json : RestClient.JsonCodec Req
  noRequestResponseWrap : Bool
  /-- The order that the map of the queries gives out its elements in. -/
  order : QueryMap → QueryMap
  server : Server Unit
  disk : Disk
  port : Int

structure Trigger (χ κ Req : Type) where
  number : Nat
  key : κ
  login : Bytes
  req : Req
  /-- For the record: the request that has been read, by whom it was sent, and when it was read. -/
  request : Request
  client : Option χ
  now : Int

structure State (χ κ Req : Type) where
  client : χ → KeepAlive.State Request Response
  /-- `stream_` of a client, when it is connected. -/
  stream : χ → Option Nat
  connection : Nat → Option (Connection χ)
  count : Nat
  wrapper : WrapperRegistry.State κ Bytes
  /-- The connection that a callback in `cbMap_` writes to. -/
  callback : Nat → Nat
  /-- What the facility has been triggered with. -/
  triggered : List (Trigger χ κ Req)
  /-- The requests of the clients for one request, and the callbacks that have been called. -/
  askedOnce : List Request
  calledOnce : List (Request × Response)
  /-- For the record: a connection of the client has broken down that the server could still act
  on. -/
  broken : χ → Bool

inductive Act (χ κ : Type) where
  | client (i : χ) (a : KeepAlive.Act Request Response)
  /-- A `OneClient` is connected, and has written. -/
  | askOnce (q : Request)
  /-- `onRead` of a `OneClient` -/
  | readOnce (n : Nat)
  /-- `onRead` of a handler, in the thread `t`, with the new id `key`. A token is made `later`. -/
  | read (t n : Nat) (key : κ) (now later : Int)
  | triggerReturns (t : Nat)
  /-- `handleResponse` -/
  | respond (t : Nat) (key : κ) (output : Bytes)
  /-- A handler cannot read. -/
  | hangUp (n : Nat)

inductive Reaction (Req : Type) where
  | sends (m : Response) (phase : Phase)
  | triggers (login : Bytes) (req : Req)

section Step

variable {χ κ Req : Type} [DecidableEq χ] [DecidableEq κ]

/-- What a handler does with a request. Without a token it goes on reading. -/
def Setup.react (S : Setup χ Req) (now later : Int) (q : Request) : Reaction Req :=
  match S.server.onRead S.disk S.port now q with
  | .badRequest => .sends .badRequest .reading
  | .createAuthToken body =>
    match S.server.tokens.createAuthToken_internal S.port later body with
    | none => .sends .noToken .reading
    | some token => .sends (.token token) .closed
  | .unauthorized scheme => .sends (.unauthorized scheme) .reading
  | .notFound => .sends .notFound .closed
  | .file doc => .sends (.file doc) .closed
  | .invoked _ login body queryMap =>
    match RestClient.handleRequest S.csv S.json S.noRequestResponseWrap body (S.order queryMap) with
    | none => .sends .notImplemented .closed
    | some req => .triggers login req

def setConnection (s : State χ κ Req) (n : Nat) (c : Connection χ) : State χ κ Req :=
  { s with connection := Function.update s.connection n (some c) }

def connect (s : State χ κ Req) (client : Option χ) (inbox : List Request) : State χ κ Req :=
  { setConnection s s.count ⟨client, inbox, .reading, []⟩ with count := s.count + 1 }

/-- What a client has written, of which it reads the response. -/
def written (c : KeepAlive.State Request Response) : List Request :=
  if c.phase = .reading then (c.processingQueue.map KeepAlive.HTTPRequest.req).take 1 else []

def write (s : State χ κ Req) (i : χ) : Option (State χ κ Req) :=
  match s.stream i with
  | none => none
  | some n => (s.connection n).map fun c =>
    setConnection s n { c with inbox := c.inbox ++ written (s.client i) }

/-- The response has come over the client's stream. -/
def take (s : State χ κ Req) (i : χ) (m : Response) : Option (State χ κ Req) :=
  match s.stream i with
  | none => none
  | some n =>
    match s.connection n with
    | none => none
    | some c =>
      match c.outbox with
      | [] => none
      | x :: rest => if x.2 = m then some (setConnection s n { c with outbox := rest }) else none

/-- Nothing more will be done on the connection, and nothing is left on it. -/
def Connection.over (c : Connection χ) : Bool :=
  match c.phase with
  | .closed => c.outbox.isEmpty
  | _ => false

/-- The client shuts its stream down. -/
def abandon (s : State χ κ Req) (i : χ) : State χ κ Req :=
  { s with
    stream := Function.update s.stream i none
    broken := Function.update s.broken i
      (s.broken i || ((s.stream i).bind s.connection).any fun c => !c.over) }

def clientStep (S : Setup χ Req) (s : State χ κ Req) (i : χ) (a : KeepAlive.Act Request Response) :
    Option (State χ κ Req) :=
  match (S.client i).step (s.client i) a with
  | none => none
  | some c =>
    let s' := { s with client := Function.update s.client i c }
    match a with
    | .connected => some { connect s' (some i) (written c) with
        stream := Function.update s.stream i (some s.count) }
    | .handshaken | .checkAndSend => write s' i
    | .responds m => take s' i m
    | .readFails _ => some (abandon s' i)
    | _ => some s'

/-- A step of the wrapper, and what is done with it unless the thread is stuck. -/
def wrapperStep (s : State χ κ Req) (a : WrapperRegistry.Act κ Bytes)
    (f : State χ κ Req → State χ κ Req) : Option (State χ κ Req) :=
  (WrapperRegistry.step .jsonREST s.wrapper a).map fun wrapper =>
    if wrapper.stuck then { s with wrapper := wrapper } else f { s with wrapper := wrapper }

/-- A handler has read the first request in its inbox. -/
def onRead (S : Setup χ Req) (s : State χ κ Req) (t n : Nat) (c : Connection χ) (q : Request)
    (rest : List Request) (key : κ) (now later : Int) : Option (State χ κ Req) :=
  match S.react now later q with
  | .sends m phase => some (setConnection s n
      { c with inbox := rest, phase := phase, outbox := c.outbox ++ [(q, m)] })
  | .triggers login req => wrapperStep s (.request t key) fun s' =>
    { setConnection s' n { c with inbox := rest, phase := .waiting s.wrapper.count q } with
      callback := Function.update s.callback s.wrapper.count n
      triggered := s.triggered ++ [⟨s.wrapper.count, key, login, req, q, c.client, now⟩] }

/-- The callback of a request is called: it writes to its connection, which is then closed. -/
def answer (s : State χ κ Req) (r : Nat) (output : Bytes) : State χ κ Req :=
  match s.connection (s.callback r) with
  | none => s
  | some c => setConnection s (s.callback r)
    { c with
      phase := .closed
      outbox := c.outbox ++ c.phase.request.map fun q => (q, .facility output) }

/-- `handleResponse`, when the wrapper has looked for the callback in the state `s`. -/
def callBack (s s' : State χ κ Req) (key : κ) (output : Bytes) : State χ κ Req :=
  match s.wrapper.registry key with
  | none => s'
  | some r => answer s' r output

def step (S : Setup χ Req) (s : State χ κ Req) : Act χ κ → Option (State χ κ Req)
  | .client i a => clientStep S s i a
  | .askOnce q => some { connect s none [q] with askedOnce := q :: s.askedOnce }
  | .readOnce n =>
    match s.connection n with
    | none => none
    | some c =>
      match c.client, c.outbox with
      | none, x :: rest => some { setConnection s n { c with outbox := rest } with
          calledOnce := s.calledOnce ++ [x] }
      | _, _ => none
  | .read t n key now later =>
    match s.connection n with
    | none => none
    | some c =>
      match c.phase, c.inbox with
      | .reading, q :: rest => onRead S s t n c q rest key now later
      | _, _ => none
  | .triggerReturns t => wrapperStep s (.triggerReturns t) id
  | .respond t key output => wrapperStep s (.respond t key output) fun s' =>
    callBack s s' key output
  | .hangUp n =>
    match s.connection n with
    | none => none
    | some c =>
      match c.phase with
      | .reading => some (setConnection s n { c with phase := .closed })
      | _ => none

def machine (S : Setup χ Req) : Machine (State χ κ Req) (Act χ κ) where
  init := {
    client := fun i => (S.client i).init
    stream := fun _ => none
    connection := fun _ => none
    count := 0
    wrapper := (WrapperRegistry.machine .jsonREST).init
    callback := fun _ => 0
    triggered := []
    askedOnce := []
    calledOnce := []
    broken := fun _ => false }
  step := step S

/--
The clients go away only with the last request that waits and keep no part of a response that they
could not read. No thread of the server comes back to the wrapper before its trigger function
returns.
-/
def Orderly (S : Setup χ Req) (s : State χ κ Req) : Act χ κ → Prop
  | .client i a => (S.client i).Orderly (s.client i) a
  | .read t _ key _ _ => WrapperRegistry.Orderly s.wrapper (.request t key)
  | .respond t key output => WrapperRegistry.Orderly s.wrapper (.respond t key output)
  | _ => True

end Step

/-! ## What the two sides are for -/

section Promise

variable {χ κ Req : Type} [DecidableEq χ] [DecidableEq κ]

/-- What a client has been asked for. -/
def State.asked (s : State χ κ Req) : Option χ → List Request
  | some i => (s.client i).added
  | none => s.askedOnce

/-- The requests of a client that the facility has been triggered with, the first one first. -/
def State.triggeredBy (s : State χ κ Req) (i : χ) : List Request :=
  (s.triggered.filter fun tr => tr.client = some i).map Trigger.request

/-- What the facility has put out first when it had been triggered. -/
def State.FirstOutput (s : State χ κ Req) (tr : Trigger χ κ Req) (output : Bytes) : Prop :=
  ∃ before since, s.wrapper.history = before ++ .registered tr.number tr.key :: since ∧
    WrapperRegistry.due .jsonREST tr.key since = [output]

/-- A handler has sent it, or the facility has put it out when it was triggered with the request. -/
def Answer (S : Setup χ Req) (s : State χ κ Req) (q : Request) (m : Response) : Prop :=
  (∃ now later phase, S.react now later q = .sends m phase) ∨
    ∃ tr ∈ s.triggered, tr.request = q ∧ ∃ output, m = .facility output ∧ s.FirstOutput tr output

structure Right (S : Setup χ Req) (s : State χ κ Req) : Prop where
  inTurn : ∀ i, KeepAlive.InTurn (s.client i)
  answered : ∀ i, ∀ x ∈ (s.client i).called, Answer S s x.1 x.2
  answeredOnce : ∀ x ∈ s.calledOnce, x.1 ∈ s.askedOnce ∧ Answer S s x.1 x.2
  /-- The facility is triggered with what has been asked, and with the login that the server has
  let in. -/
  triggered : ∀ tr ∈ s.triggered, tr.request ∈ s.asked tr.client ∧
    ∃ later, S.react tr.now later tr.request = .triggers tr.login tr.req
  apart : (s.triggered.map Trigger.number).Nodup
  /-- And once for each request at most, as long as no connection breaks down too early. -/
  once : ∀ i, s.broken i = false → (s.triggeredBy i).Sublist (s.client i).added
  notStuck : s.wrapper.stuck = false

end Promise

/-! ## The invariant -/

variable {χ κ Req : Type} [DecidableEq χ] [DecidableEq κ] {S : Setup χ Req}
  {s s' : State χ κ Req} {i : χ} {n : Nat} {c c' : Connection χ}

/-- `Answer`, by the callbacks that the wrapper has called. -/
def Called (S : Setup χ Req) (s : State χ κ Req) (q : Request) (m : Response) : Prop :=
  (∃ now later phase, S.react now later q = .sends m phase) ∨
    ∃ tr ∈ s.triggered, tr.request = q ∧ ∃ output, m = .facility output ∧
      (tr.number, tr.key, output) ∈ s.wrapper.calls

/-- A connection has one request at a time. -/
structure Fits (S : Setup χ Req) (s : State χ κ Req) (n : Nat) (c : Connection χ) : Prop where
  single : c.pending.length ≤ 1
  asked : ∀ q ∈ c.pending, q ∈ s.asked c.client
  answers : ∀ x ∈ c.outbox, Called S s x.1 x.2
  waits : ∀ r q, c.phase = .waiting r q → ∃ tr ∈ s.triggered, tr.number = r ∧ tr.request = q
  /-- What a client has left behind is over. -/
  left : ∀ i, c.client = some i → s.broken i = false → s.stream i ≠ some n → c.phase = .closed

/-- What a client waits for is on its stream. -/
structure Attends (S : Setup χ Req) (s : State χ κ Req) (i : χ) : Prop where
  inv : KeepAlive.Inv (s.client i)
  called : ∀ x ∈ (s.client i).responses, Called S s x.1 x.2
  stream : ∀ n, s.stream i = some n → ∃ c, s.connection n = some c ∧ c.client = some i ∧
    c.pending = written (s.client i)
  connected : (s.client i).phase = .handshaking ∨ (s.client i).phase = .reading ∨
    (s.client i).phase = .resting → s.stream i ≠ none
  notConnected : (s.client i).phase = .resolving ∨ (s.client i).phase = .connecting →
    s.stream i = none
  once : s.broken i = false → (s.triggeredBy i).Sublist ((s.client i).called.map Prod.fst ++
    (((s.stream i).bind s.connection).map Connection.handled).getD [])

structure Inv (S : Setup χ Req) (s : State χ κ Req) : Prop where
  wrapper : WrapperRegistry.Inv .jsonREST s.wrapper
  fresh : ∀ n, s.count ≤ n → s.connection n = none
  fits : ∀ n c, s.connection n = some c → Fits S s n c
  attends : ∀ i, Attends S s i
  registered : ∀ key r, s.wrapper.registry key = some r → ∃ c q,
    s.connection (s.callback r) = some c ∧ c.phase = .waiting r q
  triggered : ∀ tr ∈ s.triggered, tr.request ∈ s.asked tr.client ∧
    (∃ later, S.react tr.now later tr.request = .triggers tr.login tr.req) ∧
    .registered tr.number tr.key ∈ s.wrapper.history
  apart : (s.triggered.map Trigger.number).Nodup
  calledOnce : ∀ x ∈ s.calledOnce, x.1 ∈ s.askedOnce ∧ Called S s x.1 x.2

omit [DecidableEq χ] [DecidableEq κ] in
theorem Called.mono {q : Request} {m : Response} (h : Called S s q m)
    (htriggered : ∀ tr ∈ s.triggered, tr ∈ s'.triggered)
    (hcalls : ∀ e ∈ s.wrapper.calls, e ∈ s'.wrapper.calls) : Called S s' q m := by
  rcases h with hsent | hfacility
  · exact .inl hsent
  · obtain ⟨tr, htr, hq, output, hm, hmem⟩ := hfacility
    exact .inr ⟨tr, htriggered tr htr, hq, output, hm, hcalls _ hmem⟩

theorem inv_init (S : Setup χ Req) : Inv S (machine S : Machine (State χ κ Req) _).init where
  wrapper := WrapperRegistry.inv_init .jsonREST
  fresh n _ := rfl
  fits n c h := by cases h
  attends i := {
    inv := KeepAlive.Inv.begins (S.client i)
    called := fun x hx => by cases hx
    stream := fun n hn => by cases hn
    connected := fun h => by rcases h with h | h | h <;> cases h
    notConnected := fun _ => rfl
    once := fun _ => List.nil_sublist _ }
  registered key r h := by cases h
  triggered tr h := by cases h
  apart := List.nodup_nil
  calledOnce x h := by cases h

/-! ### What the clients do -/

/-- The clients of other connections see nothing of it. -/
theorem Inv.ofClient (h : Inv S s) (who : Option χ) (hwrapper : s'.wrapper = s.wrapper)
    (hcallback : s'.callback = s.callback) (htriggered : s'.triggered = s.triggered)
    (hcalledOnce : s'.calledOnce = s.calledOnce)
    (hasked : ∀ j, ∀ q ∈ s.asked j, q ∈ s'.asked j)
    (hothers : ∀ j, some j ≠ who → s'.client j = s.client j ∧ s'.stream j = s.stream j ∧
      s'.broken j = s.broken j)
    (hfresh : ∀ n, s'.count ≤ n → s'.connection n = none)
    (hphase : ∀ n c, s.connection n = some c → ∃ c', s'.connection n = some c' ∧
      c'.phase = c.phase ∧ (c.client ≠ who → c' = c))
    (hconnection : ∀ n c, s'.connection n = some c →
      (s.connection n = some c ∧ c.client ≠ who) ∨ Fits S s' n c)
    (hattends : ∀ j, some j = who → Attends S s' j) : Inv S s' := by
  have hcalled : ∀ q m, Called S s q m → Called S s' q m := fun q m hm =>
    hm.mono (fun tr htr => htriggered ▸ htr) fun e he => hwrapper ▸ he
  refine ⟨hwrapper ▸ h.wrapper, hfresh, fun n c hc => ?_, fun j => ?_, fun key r hr => ?_,
    fun tr htr => ?_, htriggered ▸ h.apart, fun x hx => ?_⟩
  · rcases hconnection n c hc with hold | hnew
    · obtain ⟨hold, hwho⟩ := hold
      have hfits := h.fits n c hold
      refine ⟨hfits.single, fun q hq => hasked _ q (hfits.asked q hq),
        fun x hx => hcalled _ _ (hfits.answers x hx), ?_, fun j hj hbroken hstream => ?_⟩
      · rw [htriggered]
        exact hfits.waits
      · obtain ⟨-, hs, hb⟩ := hothers j (hj ▸ hwho)
        exact hfits.left j hj (hb ▸ hbroken) (hs ▸ hstream)
    · exact hnew
  · by_cases hj : some j = who
    · exact hattends j hj
    · obtain ⟨hclient, hstream, hbroken⟩ := hothers j hj
      have ha := h.attends j
      have hsame : ∀ n, s.stream j = some n → s'.connection n = s.connection n := by
        intro n hn
        obtain ⟨c, hc, hcj, -⟩ := ha.stream n hn
        obtain ⟨c', hc', -, heq⟩ := hphase n c hc
        rw [hc, hc', heq (hcj ▸ hj)]
      refine ⟨hclient ▸ ha.inv, ?_, fun n hn => ?_, ?_, ?_, fun hb => ?_⟩
      · rw [hclient]
        exact fun x hx => hcalled _ _ (ha.called x hx)
      · rw [hstream] at hn
        rw [hsame n hn, hclient]
        exact ha.stream n hn
      · rw [hclient, hstream]
        exact ha.connected
      · rw [hclient, hstream]
        exact ha.notConnected
      · have hon := ha.once (hbroken ▸ hb)
        rw [State.triggeredBy, htriggered, hclient, hstream]
        cases hs : s.stream j with
        | none =>
            rw [hs] at hon
            exact hon
        | some n =>
            rw [hs] at hon
            rw [Option.bind_some, hsame n hs]
            exact hon
  · rw [hwrapper] at hr
    obtain ⟨c, q, hc, hq⟩ := h.registered key r hr
    obtain ⟨c', hc', hp, -⟩ := hphase _ c hc
    rw [hcallback]
    exact ⟨c', q, hc', hp.trans hq⟩
  · rw [htriggered] at htr
    obtain ⟨hmem, hreact, hreg⟩ := h.triggered tr htr
    exact ⟨hasked _ _ hmem, hreact, hwrapper ▸ hreg⟩
  · rw [hcalledOnce] at hx
    obtain ⟨hmem, hc⟩ := h.calledOnce x hx
    exact ⟨hasked none _ hmem, hcalled _ _ hc⟩

/-! A client that has written a request waits for it. -/

theorem mem_waiting_of_written {x : KeepAlive.State Request Response} {q : Request}
    (h : q ∈ written x) : q ∈ x.waiting := by
  unfold written at h
  split at h
  · exact List.mem_append_left _ (List.mem_of_mem_take h)
  · cases h

theorem mem_added_of_written {x : KeepAlive.State Request Response} (hx : KeepAlive.Inv x)
    {q : Request} (h : q ∈ written x) : q ∈ x.added := by
  rw [hx.line]
  exact List.mem_append_right _ (mem_waiting_of_written h)

theorem length_written (x : KeepAlive.State Request Response) : (written x).length ≤ 1 := by
  unfold written
  split
  · exact List.length_take_le _ _
  · exact Nat.zero_le _

theorem written_of_ne {x : KeepAlive.State Request Response} (h : x.phase ≠ .reading) :
    written x = [] := if_neg h

omit [DecidableEq κ] in
/-- When one client goes on, nothing that was asked is forgotten. -/
theorem asked_of_update {x : KeepAlive.State Request Response}
    (hclient : s'.client = Function.update s.client i x) (haskedOnce : s'.askedOnce = s.askedOnce)
    (hadded : ∀ q ∈ (s.client i).added, q ∈ x.added) (j : Option χ) :
    ∀ q ∈ s.asked j, q ∈ s'.asked j := by
  intro q hq
  cases j with
  | none =>
      rw [State.asked, haskedOnce]
      exact hq
  | some j =>
      rw [State.asked, hclient]
      by_cases hj : j = i
      · subst hj
        rw [Function.update_self]
        exact hadded q hq
      · rw [Function.update_of_ne hj]
        exact hq

/-- A client goes on, and nothing happens on its stream. -/
theorem Inv.clientAlone (h : Inv S s) {x : KeepAlive.State Request Response}
    (hx : KeepAlive.Inv x) (hadded : ∀ q ∈ (s.client i).added, q ∈ x.added)
    (hresponses : x.responses = (s.client i).responses) (hcalled : x.called = (s.client i).called)
    (hwritten : written x = written (s.client i))
    (hconnected : x.phase = .handshaking ∨ x.phase = .reading ∨ x.phase = .resting →
      s.stream i ≠ none)
    (hnot : x.phase = .resolving ∨ x.phase = .connecting → s.stream i = none) :
    Inv S { s with client := Function.update s.client i x } := by
  have ha := h.attends i
  have hasked : ∀ j, ∀ q ∈ s.asked j,
      q ∈ State.asked { s with client := Function.update s.client i x } j :=
    asked_of_update rfl rfl hadded
  refine h.ofClient (some i) rfl rfl rfl rfl hasked (fun j hj => ?_) h.fresh
    (fun n c hc => ⟨c, hc, rfl, fun _ => rfl⟩) (fun n c hc => .inr ?_) fun j hj => ?_
  · exact ⟨Function.update_of_ne (fun heq => hj (congrArg some heq)) _ _, rfl, rfl⟩
  · have hfits := h.fits n c hc
    exact ⟨hfits.single, fun q hq => hasked _ q (hfits.asked q hq), hfits.answers, hfits.waits,
      hfits.left⟩
  · cases hj
    have hself : Function.update s.client i x i = x := Function.update_self _ _ _
    refine ⟨?_, ?_, fun n hn => ?_, ?_, ?_, fun hb => ?_⟩
    · dsimp only
      rw [hself]
      exact hx
    · dsimp only
      rw [hself, hresponses]
      exact ha.called
    · dsimp only
      rw [hself, hwritten]
      exact ha.stream n hn
    · dsimp only
      rw [hself]
      exact hconnected
    · dsimp only
      rw [hself]
      exact hnot
    · dsimp only
      rw [hself, hcalled]
      exact ha.once hb

/-- A client writes to its stream, or reads from it. -/
theorem Inv.onStream (h : Inv S s) (hs : s.stream i = some n) (hc : s.connection n = some c)
    (hclient : c'.client = c.client) (hphase : c'.phase = c.phase)
    (houtbox : ∀ y ∈ c'.outbox, y ∈ c.outbox) {x : KeepAlive.State Request Response}
    (hx : KeepAlive.Inv x) (hadded : ∀ q ∈ (s.client i).added, q ∈ x.added)
    (hresponses : ∀ y ∈ x.responses, y ∈ (s.client i).responses ∨ y ∈ c.outbox)
    (hpending : c'.pending = written x)
    (honce : ((s.client i).called.map Prod.fst ++ c.handled).Sublist
      (x.called.map Prod.fst ++ c'.handled))
    (hready : x.phase = .reading ∨ x.phase = .resting ∨ x.phase = .idle) :
    Inv S (setConnection { s with client := Function.update s.client i x } n c') := by
  have ha := h.attends i
  have hfits := h.fits n c hc
  obtain ⟨d, hd, hdi, -⟩ := ha.stream n hs
  obtain rfl := Option.some.inj (hc.symm.trans hd)
  have hasked : ∀ j, ∀ q ∈ s.asked j, q ∈ State.asked
      (setConnection { s with client := Function.update s.client i x } n c') j :=
    asked_of_update rfl rfl hadded
  have hself : Function.update s.client i x i = x := Function.update_self _ _ _
  have hconnection : Function.update s.connection n (some c') n = some c' :=
    Function.update_self _ _ _
  refine h.ofClient (some i) rfl rfl rfl rfl hasked (fun j hj => ?_) (fun m hm => ?_)
    (fun m e he => ?_) (fun m e he => .inr ?_) fun j hj => ?_
  · exact ⟨Function.update_of_ne (fun heq => hj (congrArg some heq)) _ _, rfl, rfl⟩
  · have hm' : m ≠ n := by
      intro heq
      have hm₀ : s.count ≤ m := hm
      rw [heq] at hm₀
      rw [h.fresh n hm₀] at hc
      cases hc
    exact (Function.update_of_ne hm' _ _).trans (h.fresh m hm)
  · by_cases hm : m = n
    · subst hm
      obtain rfl := Option.some.inj (hc.symm.trans he)
      exact ⟨c', hconnection, hphase, fun hne => absurd hdi hne⟩
    · exact ⟨e, (Function.update_of_ne hm _ _).trans he, rfl, fun _ => rfl⟩
  · by_cases hm : m = n
    · subst hm
      obtain rfl := Option.some.inj (hconnection.symm.trans he)
      refine ⟨?_, fun q hq => ?_, fun y hy => hfits.answers y (houtbox y hy), ?_, ?_⟩
      · rw [hpending]
        exact length_written x
      · rw [hpending] at hq
        rw [hclient, hdi]
        show q ∈ (Function.update s.client i x i).added
        rw [hself]
        exact mem_added_of_written hx hq
      · rw [hphase]
        exact hfits.waits
      · rw [hphase, hclient]
        exact hfits.left
    · have hold : s.connection m = some e := (Function.update_of_ne hm _ _).symm.trans he
      have he' := h.fits m e hold
      exact ⟨he'.single, fun q hq => hasked _ q (he'.asked q hq), he'.answers, he'.waits, he'.left⟩
  · cases hj
    refine ⟨?_, ?_, fun m hm => ?_, fun _ => ?_, ?_, fun hb => ?_⟩
    · show KeepAlive.Inv (Function.update s.client i x i)
      rw [hself]
      exact hx
    · show ∀ y ∈ (Function.update s.client i x i).responses, _
      rw [hself]
      intro y hy
      rcases hresponses y hy with hy | hy
      · exact ha.called y hy
      · exact hfits.answers y hy
    · obtain rfl := Option.some.inj (hs.symm.trans hm)
      refine ⟨c', hconnection, hclient.trans hdi, ?_⟩
      show _ = written (Function.update s.client i x i)
      rw [hself]
      exact hpending
    · show s.stream i ≠ none
      rw [hs]
      exact Option.some_ne_none n
    · show (Function.update s.client i x i).phase = .resolving ∨
        (Function.update s.client i x i).phase = .connecting → _
      rw [hself]
      intro hp
      rcases hready with hr | hr | hr <;> rw [hr] at hp <;> rcases hp with hp | hp <;> cases hp
    · have hon := ha.once hb
      rw [hs, Option.bind_some, hc, Option.map_some, Option.getD_some] at hon
      show List.Sublist _ ((Function.update s.client i x i).called.map Prod.fst ++
        (((s.stream i).bind (Function.update s.connection n (some c'))).map
          Connection.handled).getD [])
      rw [hself, hs, Option.bind_some, hconnection]
      exact hon.trans honce

/-- A new connection has what has been written to it. -/
theorem Inv.connect_at (h : Inv S s) (client : Option χ) (inbox : List Request) :
    (∀ m, s.count + 1 ≤ m → (connect s client inbox).connection m = none) ∧
      (∀ m c, s.connection m = some c → (connect s client inbox).connection m = some c) ∧
      ∀ m c, (connect s client inbox).connection m = some c →
        s.connection m = some c ∨ m = s.count ∧ c = ⟨client, inbox, .reading, []⟩ := by
  refine ⟨fun m hm => ?_, fun m c hc => ?_, fun m c hc => ?_⟩
  · have hne : m ≠ s.count := by omega
    exact (Function.update_of_ne hne _ _).trans (h.fresh m (by omega))
  · have hne : m ≠ s.count := by
      intro heq
      rw [heq, h.fresh s.count (Nat.le_refl _)] at hc
      cases hc
    exact (Function.update_of_ne hne _ _).trans hc
  · by_cases hm : m = s.count
    · have hself : (connect s client inbox).connection m = some ⟨client, inbox, .reading, []⟩ := by
        rw [hm]
        exact Function.update_self _ _ _
      exact .inr ⟨hm, Option.some.inj (hc.symm.trans hself)⟩
    · exact .inl ((Function.update_of_ne hm _ _).symm.trans hc)

/-- A client for one request is connected, and has written it. -/
theorem Inv.askOnce (h : Inv S s) (q : Request) :
    Inv S { connect s none [q] with askedOnce := q :: s.askedOnce } := by
  obtain ⟨hfresh, hold, hat⟩ := h.connect_at none [q]
  have hasked : ∀ j, ∀ r ∈ s.asked j,
      r ∈ State.asked { connect s none [q] with askedOnce := q :: s.askedOnce } j := by
    intro j r hr
    cases j with
    | none => exact List.mem_cons_of_mem _ hr
    | some j => exact hr
  refine h.ofClient none rfl rfl rfl rfl hasked (fun _ _ => ⟨rfl, rfl, rfl⟩) hfresh
    (fun m c hc => ⟨c, hold m c hc, rfl, fun _ => rfl⟩) (fun m c hc => .inr ?_) fun j hj => by
      cases hj
  rcases hat m c hc with hc | hnew
  · have hfits := h.fits m c hc
    exact ⟨hfits.single, fun r hr => hasked _ r (hfits.asked r hr), hfits.answers, hfits.waits,
      hfits.left⟩
  · obtain ⟨-, rfl⟩ := hnew
    refine ⟨Nat.le_refl _, fun r hr => ?_, fun x hx => (by cases hx), fun r q hp => (by cases hp),
      fun i hi => (by cases hi)⟩
    rw [List.mem_singleton.mp hr]
    exact List.mem_cons_self

/-- A client has a stream again, and has written to it what it waits for. -/
theorem Inv.connects (h : Inv S s) (hs : s.stream i = none)
    {x : KeepAlive.State Request Response} (hx : KeepAlive.Inv x)
    (hadded : ∀ q ∈ (s.client i).added, q ∈ x.added)
    (hresponses : x.responses = (s.client i).responses)
    (hcalled : x.called = (s.client i).called)
    (hready : x.phase = .handshaking ∨ x.phase = .reading ∨ x.phase = .idle) :
    Inv S { connect { s with client := Function.update s.client i x } (some i) (written x) with
      stream := Function.update s.stream i (some s.count) } := by
  have ha := h.attends i
  obtain ⟨hfresh, hold, hat⟩ := h.connect_at (some i) (written x)
  have hasked : ∀ j, ∀ q ∈ s.asked j, q ∈ State.asked
      { connect { s with client := Function.update s.client i x } (some i) (written x) with
        stream := Function.update s.stream i (some s.count) } j :=
    asked_of_update rfl rfl hadded
  have hself : Function.update s.client i x i = x := Function.update_self _ _ _
  have hstream : Function.update s.stream i (some s.count) i = some s.count :=
    Function.update_self _ _ _
  have hnew : (connect s (some i) (written x)).connection s.count =
      some ⟨some i, written x, .reading, []⟩ := Function.update_self _ _ _
  refine h.ofClient (some i) rfl rfl rfl rfl hasked (fun j hj => ?_) hfresh
    (fun m c hc => ⟨c, hold m c hc, rfl, fun _ => rfl⟩) (fun m c hc => .inr ?_) fun j hj => ?_
  · have hj' : j ≠ i := fun heq => hj (congrArg some heq)
    exact ⟨Function.update_of_ne hj' _ _, Function.update_of_ne hj' _ _, rfl⟩
  · rcases hat m c hc with hc | hnewer
    · have hfits := h.fits m c hc
      refine ⟨hfits.single, fun q hq => hasked _ q (hfits.asked q hq), hfits.answers, hfits.waits,
        fun j hj hb hne => hfits.left j hj hb fun hm => ?_⟩
      have hji : j ≠ i := by
        intro heq
        rw [heq, hs] at hm
        cases hm
      exact hne ((Function.update_of_ne hji _ _).trans hm)
    · obtain ⟨rfl, rfl⟩ := hnewer
      refine ⟨length_written x, fun q hq => ?_, fun y hy => (by cases hy),
        fun r q hp => (by cases hp), fun j hj _ hne => ?_⟩
      · show q ∈ (Function.update s.client i x i).added
        rw [hself]
        exact mem_added_of_written hx hq
      · cases hj
        exact absurd hstream hne
  · cases hj
    refine ⟨?_, ?_, fun m hm => ?_, fun _ => ?_, ?_, fun hb => ?_⟩
    · show KeepAlive.Inv (Function.update s.client i x i)
      rw [hself]
      exact hx
    · show ∀ y ∈ (Function.update s.client i x i).responses, _
      rw [hself, hresponses]
      exact ha.called
    · obtain rfl := Option.some.inj (hstream.symm.trans hm)
      refine ⟨_, hnew, rfl, ?_⟩
      show _ = written (Function.update s.client i x i)
      rw [hself]
      rfl
    · show Function.update s.stream i (some s.count) i ≠ none
      rw [hstream]
      exact Option.some_ne_none _
    · show (Function.update s.client i x i).phase = .resolving ∨
        (Function.update s.client i x i).phase = .connecting → _
      rw [hself]
      intro hp
      rcases hready with hr | hr | hr <;> rw [hr] at hp <;> rcases hp with hp | hp <;> cases hp
    · have hon := ha.once hb
      rw [hs] at hon
      show List.Sublist _ ((Function.update s.client i x i).called.map Prod.fst ++
        (((Function.update s.stream i (some s.count) i).bind
          (connect s (some i) (written x)).connection).map Connection.handled).getD [])
      rw [hself, hstream, Option.bind_some, hnew, hcalled]
      exact hon

/-- A client leaves its stream, and connects again. -/
theorem Inv.abandon (h : Inv S s) {x : KeepAlive.State Request Response} (hx : KeepAlive.Inv x)
    (hadded : ∀ q ∈ (s.client i).added, q ∈ x.added)
    (hresponses : x.responses = (s.client i).responses)
    (hcalled : x.called = (s.client i).called) (hphase : x.phase = .resolving) :
    Inv S (abandon { s with client := Function.update s.client i x } i) := by
  have ha := h.attends i
  have hasked : ∀ j, ∀ q ∈ s.asked j, q ∈ State.asked
      (RestEndToEnd.abandon { s with client := Function.update s.client i x } i) j :=
    asked_of_update rfl rfl hadded
  have hself : Function.update s.client i x i = x := Function.update_self _ _ _
  -- unless it breaks down, nothing is left to be done on the stream
  have hover : (RestEndToEnd.abandon { s with client := Function.update s.client i x } i).broken i =
      false → s.broken i = false ∧ ∀ n c, s.stream i = some n → s.connection n = some c →
        c.phase = .closed ∧ c.outbox = [] := by
    intro hb
    have hor : (s.broken i || ((s.stream i).bind s.connection).any fun c => !c.over) = false :=
      (Function.update_self _ _ _).symm.trans hb
    rw [Bool.or_eq_false_iff] at hor
    refine ⟨hor.1, fun n c hn hc => ?_⟩
    have hany := hor.2
    rw [hn, Option.bind_some, hc, Option.any_some, Bool.not_eq_false'] at hany
    unfold Connection.over at hany
    split at hany
    · next hclosed => exact ⟨hclosed, List.isEmpty_iff.mp hany⟩
    · cases hany
  refine h.ofClient (some i) rfl rfl rfl rfl hasked (fun j hj => ?_) h.fresh
    (fun m c hc => ⟨c, hc, rfl, fun _ => rfl⟩) (fun m c hc => .inr ?_) fun j hj => ?_
  · have hj' : j ≠ i := fun heq => hj (congrArg some heq)
    exact ⟨Function.update_of_ne hj' _ _, Function.update_of_ne hj' _ _,
      Function.update_of_ne hj' _ _⟩
  · have hfits := h.fits m c hc
    refine ⟨hfits.single, fun q hq => hasked _ q (hfits.asked q hq), hfits.answers, hfits.waits,
      fun j hj hb hne => ?_⟩
    by_cases hji : j = i
    · subst hji
      obtain ⟨hb, hall⟩ := hover hb
      by_cases hm : s.stream j = some m
      · exact (hall m c hm hc).1
      · exact hfits.left j hj hb hm
    · refine hfits.left j hj ((Function.update_of_ne hji _ _).symm.trans hb) fun hm => hne ?_
      exact (Function.update_of_ne hji _ _).trans hm
  · cases hj
    have hnone : Function.update s.stream i none i = none := Function.update_self _ _ _
    refine ⟨?_, ?_, fun m hm => ?_, fun hp => ?_, fun _ => hnone, fun hb => ?_⟩
    · show KeepAlive.Inv (Function.update s.client i x i)
      rw [hself]
      exact hx
    · show ∀ y ∈ (Function.update s.client i x i).responses, _
      rw [hself, hresponses]
      exact ha.called
    · have hm' : Function.update s.stream i none i = some m := hm
      rw [hnone] at hm'
      cases hm'
    · have hp' : (Function.update s.client i x i).phase = .handshaking ∨
          (Function.update s.client i x i).phase = .reading ∨
          (Function.update s.client i x i).phase = .resting := hp
      rw [hself, hphase] at hp'
      rcases hp' with hp' | hp' | hp' <;> cases hp'
    · obtain ⟨hb, hall⟩ := hover hb
      have hon := ha.once hb
      show List.Sublist _ ((Function.update s.client i x i).called.map Prod.fst ++
        (((Function.update s.stream i none i).bind s.connection).map Connection.handled).getD [])
      rw [hself, hnone, hcalled]
      cases hs : s.stream i with
      | none =>
          rw [hs] at hon
          exact hon
      | some n =>
          obtain ⟨c, hc, -⟩ := ha.stream n hs
          obtain ⟨hclosed, houtbox⟩ := hall n c hs hc
          rw [hs, Option.bind_some, hc, Option.map_some, Option.getD_some, Connection.handled,
            hclosed, houtbox] at hon
          exact hon

/-! ### What the server does -/

omit [DecidableEq κ] in
theorem triggeredBy_of_append {new : List (Trigger χ κ Req)}
    (h : s'.triggered = s.triggered ++ new) (i : χ) : s'.triggeredBy i =
      s.triggeredBy i ++ (new.filter fun tr => tr.client = some i).map Trigger.request := by
  rw [State.triggeredBy, State.triggeredBy, h, List.filter_append, List.map_append]

/-- A handler goes on. On a connection that a client keeps it takes nothing away, and it triggers
the facility with a request that it reads. -/
theorem Inv.ofServer (h : Inv S s) (hc : s.connection n = some c)
    (hconnection : s'.connection = Function.update s.connection n (some c'))
    (hframe : s'.client = s.client ∧ s'.stream = s.stream ∧ s'.broken = s.broken ∧
      s'.count = s.count ∧ s'.askedOnce = s.askedOnce)
    (hclient : c'.client = c.client) (hpending : c'.pending.Sublist c.pending)
    (hkept : c.client ≠ none → c'.pending = c.pending ∧ c.handled.Sublist c'.handled)
    (hclosed : c.phase = .closed → c'.phase = .closed)
    (hanswers : ∀ x ∈ c'.outbox, Called S s' x.1 x.2)
    (hwaits : ∀ r q, c'.phase = .waiting r q → ∃ tr ∈ s'.triggered, tr.number = r ∧ tr.request = q)
    (hwrapper : WrapperRegistry.Inv .jsonREST s'.wrapper)
    (hhistory : ∀ r key, .registered r key ∈ s.wrapper.history →
      .registered r key ∈ s'.wrapper.history)
    (hcalls : ∀ e ∈ s.wrapper.calls, e ∈ s'.wrapper.calls)
    (hregistered : ∀ key r, s'.wrapper.registry key = some r → ∃ d q,
      s'.connection (s'.callback r) = some d ∧ d.phase = .waiting r q)
    {new : List (Trigger χ κ Req)} (htriggered : s'.triggered = s.triggered ++ new)
    (hnew : ∀ tr ∈ new, tr.client = c.client ∧ tr.request ∈ c.pending ∧
      (∃ later, S.react tr.now later tr.request = .triggers tr.login tr.req) ∧
      .registered tr.number tr.key ∈ s'.wrapper.history)
    (hread : new = [] ∨ c.handled = [] ∧ new.map Trigger.request = c'.handled ∧ c.phase ≠ .closed)
    (hapart : (s'.triggered.map Trigger.number).Nodup)
    (hcalledOnce : ∀ x ∈ s'.calledOnce, x.1 ∈ s.askedOnce ∧ Called S s' x.1 x.2) : Inv S s' := by
  obtain ⟨hclients, hstream, hbroken, hcount, haskedOnce⟩ := hframe
  have hasked : ∀ j, s'.asked j = s.asked j := by
    intro j
    cases j with
    | none => exact haskedOnce
    | some j => exact congrArg KeepAlive.State.added (congrFun hclients j)
  have hself : s'.connection n = some c' := by rw [hconnection, Function.update_self]
  have hother : ∀ m, m ≠ n → s'.connection m = s.connection m := by
    intro m hm
    rw [hconnection, Function.update_of_ne hm]
  have hmono : ∀ tr ∈ s.triggered, tr ∈ s'.triggered := by
    intro tr htr
    rw [htriggered]
    exact List.mem_append_left _ htr
  have hcalled : ∀ q m, Called S s q m → Called S s' q m := fun q m hm => hm.mono hmono hcalls
  have hfits := h.fits n c hc
  refine ⟨hwrapper, fun m hm => ?_, fun m d hd => ?_, fun j => ?_, hregistered, fun tr htr => ?_,
    hapart, haskedOnce ▸ hcalledOnce⟩
  · have hm' : m ≠ n := by
      intro heq
      rw [heq, hcount] at hm
      rw [h.fresh n hm] at hc
      cases hc
    rw [hother m hm']
    exact h.fresh m (hcount ▸ hm)
  · by_cases hm : m = n
    · subst hm
      obtain rfl := Option.some.inj (hself.symm.trans hd)
      refine ⟨hpending.length_le.trans hfits.single, fun q hq => ?_, hanswers, hwaits,
        fun i hi hb hs => ?_⟩
      · rw [hasked, hclient]
        exact hfits.asked q (hpending.subset hq)
      · rw [hbroken] at hb
        rw [hstream] at hs
        exact hclosed (hfits.left i (hclient ▸ hi) hb hs)
    · rw [hother m hm] at hd
      have hd' := h.fits m d hd
      refine ⟨hd'.single, fun q hq => ?_, fun x hx => hcalled _ _ (hd'.answers x hx),
        fun r q hp => ?_, ?_⟩
      · rw [hasked]
        exact hd'.asked q hq
      · obtain ⟨tr, htr, heq⟩ := hd'.waits r q hp
        exact ⟨tr, hmono tr htr, heq⟩
      · rw [hbroken, hstream]
        exact hd'.left
  · have ha := h.attends j
    refine ⟨?_, ?_, fun m hm => ?_, ?_, ?_, fun hb => ?_⟩
    · rw [hclients]
      exact ha.inv
    · rw [hclients]
      exact fun x hx => hcalled _ _ (ha.called x hx)
    · rw [hstream] at hm
      rw [hclients]
      obtain ⟨d, hd, hdj, hdp⟩ := ha.stream m hm
      by_cases hmn : m = n
      · subst hmn
        obtain rfl := Option.some.inj (hc.symm.trans hd)
        refine ⟨c', hself, hclient.trans hdj, (hkept ?_).1.trans hdp⟩
        rw [hdj]
        exact Option.some_ne_none j
      · exact ⟨d, (hother m hmn).trans hd, hdj, hdp⟩
    · rw [hclients, hstream]
      exact ha.connected
    · rw [hclients, hstream]
      exact ha.notConnected
    · rw [hbroken] at hb
      have hon := ha.once hb
      rw [triggeredBy_of_append htriggered, hclients, hstream]
      -- what is new comes from the connection of the client, on which it had read nothing
      by_cases hn : s.stream j = some n
      · obtain ⟨d, hd, hdj, -⟩ := ha.stream n hn
        obtain rfl := Option.some.inj (hc.symm.trans hd)
        have hdne : c.client ≠ none := by
          rw [hdj]
          exact Option.some_ne_none j
        rw [hn, Option.bind_some, hc, Option.map_some, Option.getD_some] at hon
        rw [hn, Option.bind_some, hself, Option.map_some, Option.getD_some]
        rcases hread with rfl | hread
        · rw [List.filter_nil, List.map_nil, List.append_nil]
          exact hon.trans (List.Sublist.append (List.Sublist.refl _) (hkept hdne).2)
        · obtain ⟨hnone, hall, -⟩ := hread
          rw [hnone, List.append_nil] at hon
          refine hon.append ?_
          rw [← hall]
          exact List.filter_sublist.map _
      · have hnone : new.filter (fun tr => tr.client = some j) = [] := by
          rcases hread with rfl | hread
          · rfl
          · refine List.filter_eq_nil_iff.mpr fun tr htr htj => ?_
            rw [(hnew tr htr).1] at htj
            exact hread.2.2 (hfits.left j (of_decide_eq_true htj) hb hn)
        rw [hnone, List.map_nil, List.append_nil]
        cases hs : s.stream j with
        | none =>
            rw [hs] at hon
            exact hon
        | some m =>
            rw [hs] at hon hn
            rw [Option.bind_some, hother m fun heq => hn (congrArg some heq)]
            exact hon
  · rw [htriggered] at htr
    rcases List.mem_append.mp htr with htr | htr
    · obtain ⟨hmem, hreact, hreg⟩ := h.triggered tr htr
      exact ⟨hasked _ ▸ hmem, hreact, hhistory _ _ hreg⟩
    · obtain ⟨hcl, hmem, hreact, hreg⟩ := hnew tr htr
      rw [hasked, hcl]
      exact ⟨hfits.asked _ hmem, hreact, hreg⟩

/-- The wrapper goes on, and no handler does. -/
theorem Inv.ofWrapper (h : Inv S s) {wrapper : WrapperRegistry.State κ Bytes}
    (hwrapper : WrapperRegistry.Inv .jsonREST wrapper)
    (hhistory : ∀ r key, .registered r key ∈ s.wrapper.history →
      .registered r key ∈ wrapper.history)
    (hcalls : ∀ e ∈ s.wrapper.calls, e ∈ wrapper.calls)
    (hregistry : ∀ key r, wrapper.registry key = some r → s.wrapper.registry key = some r) :
    Inv S { s with wrapper := wrapper } := by
  have hcalled : ∀ q m, Called S s q m → Called S { s with wrapper := wrapper } q m :=
    fun q m hm => hm.mono (fun _ htr => htr) hcalls
  refine ⟨hwrapper, h.fresh, fun n c hc => ?_, fun j => ?_,
    fun key r hr => h.registered key r (hregistry key r hr), fun tr htr => ?_, h.apart,
    fun x hx => ?_⟩
  · have hfits := h.fits n c hc
    exact ⟨hfits.single, hfits.asked, fun x hx => hcalled _ _ (hfits.answers x hx), hfits.waits,
      hfits.left⟩
  · have ha := h.attends j
    exact ⟨ha.inv, fun x hx => hcalled _ _ (ha.called x hx), ha.stream, ha.connected,
      ha.notConnected, ha.once⟩
  · obtain ⟨hmem, hreact, hreg⟩ := h.triggered tr htr
    exact ⟨hmem, hreact, hhistory _ _ hreg⟩
  · obtain ⟨hmem, hx⟩ := h.calledOnce x hx
    exact ⟨hmem, hcalled _ _ hx⟩

omit [DecidableEq χ] [DecidableEq κ] in
/-- A connection of which a request has just been read, or is going to be, has nothing else. -/
theorem Fits.alone (h : Fits S s n c) {q : Request} {rest : List Request}
    (hphase : c.phase = .reading) (hinbox : c.inbox = q :: rest) : c.outbox = [] ∧ rest = [] := by
  have hlength := h.single
  rw [Connection.pending, Connection.handled, hphase, hinbox] at hlength
  simp only [Phase.request, List.nil_append, List.length_append, List.length_map,
    List.length_cons] at hlength
  exact ⟨List.eq_nil_of_length_eq_zero (by omega), List.eq_nil_of_length_eq_zero (by omega)⟩

omit [DecidableEq χ] [DecidableEq κ] in
theorem Fits.alone_waiting (h : Fits S s n c) {r : Nat} {q : Request}
    (hphase : c.phase = .waiting r q) : c.outbox = [] ∧ c.inbox = [] := by
  have hlength := h.single
  rw [Connection.pending, Connection.handled, hphase] at hlength
  simp only [Phase.request, List.length_append, List.length_map, List.length_cons,
    List.length_nil] at hlength
  exact ⟨List.eq_nil_of_length_eq_zero (by omega), List.eq_nil_of_length_eq_zero (by omega)⟩

omit [DecidableEq χ] in
theorem request_of_sends {now later : Int} {q : Request} {m : Response} {phase : Phase}
    (h : S.react now later q = .sends m phase) : phase = .reading ∨ phase = .closed := by
  unfold Setup.react at h
  split at h
  case h_6 =>
    split at h
    · cases h
      exact .inr rfl
    · cases h
  case h_2 =>
    split at h <;> cases h
    · exact .inl rfl
    · exact .inr rfl
  all_goals
    cases h
    first | exact .inl rfl | exact .inr rfl

/-- The registered callbacks still have their connections when another connection goes on. -/
theorem Inv.registered_update (h : Inv S s) (hc : s.connection n = some c)
    (hphase : ∀ r q, c.phase = .waiting r q → c'.phase = .waiting r q) :
    ∀ key r, s.wrapper.registry key = some r → ∃ d q,
      Function.update s.connection n (some c') (s.callback r) = some d ∧
        d.phase = .waiting r q := by
  intro key r hr
  obtain ⟨d, q, hd, hq⟩ := h.registered key r hr
  by_cases hn : s.callback r = n
  · rw [hn] at hd
    obtain rfl := Option.some.inj (hc.symm.trans hd)
    exact ⟨c', q, by rw [hn, Function.update_self], hphase r q hq⟩
  · exact ⟨d, q, by rw [Function.update_of_ne hn]; exact hd, hq⟩

/-- A handler answers on its own. -/
theorem Inv.sends (h : Inv S s) (hc : s.connection n = some c) (hphase : c.phase = .reading)
    {q : Request} {rest : List Request} (hinbox : c.inbox = q :: rest) {now later : Int}
    {m : Response} {phase : Phase} (hreact : S.react now later q = .sends m phase) :
    Inv S (setConnection s n
      { c with inbox := rest, phase := phase, outbox := c.outbox ++ [(q, m)] }) := by
  obtain ⟨houtbox, rfl⟩ := (h.fits n c hc).alone hphase hinbox
  have hrequest : phase.request = [] := by
    rcases request_of_sends hreact with rfl | rfl <;> rfl
  have hhandled : c.handled = [] := by rw [Connection.handled, hphase, houtbox]; rfl
  have hpending : Connection.pending
      { c with inbox := [], phase := phase, outbox := c.outbox ++ [(q, m)] } = c.pending := by
    rw [Connection.pending, Connection.pending, hhandled, hinbox, Connection.handled, houtbox]
    dsimp only
    rw [hrequest]
    rfl
  refine h.ofServer hc rfl ⟨rfl, rfl, rfl, rfl, rfl⟩ rfl ?_ (fun _ => ⟨hpending, ?_⟩)
    (fun hclosed => ?_) (fun x hx => ?_) (fun r q' hwaits => ?_) h.wrapper (fun _ _ hmem => hmem)
    (fun _ hmem => hmem) ?_ (List.append_nil _).symm (fun _ htr => by cases htr) (.inl rfl)
    h.apart h.calledOnce
  · rw [hpending]
  · rw [hhandled]
    exact List.nil_sublist _
  · rw [hphase] at hclosed
    cases hclosed
  · rw [houtbox, List.nil_append, List.mem_singleton] at hx
    rw [hx]
    exact .inl ⟨now, later, phase, hreact⟩
  · dsimp only at hwaits
    rw [hwaits] at hrequest
    cases hrequest
  · refine h.registered_update hc fun r q' hwaits => ?_
    rw [hphase] at hwaits
    cases hwaits

/-- A handler triggers the facility. -/
theorem Inv.triggers (h : Inv S s) (hc : s.connection n = some c) (hphase : c.phase = .reading)
    {q : Request} {rest : List Request} (hinbox : c.inbox = q :: rest) {now later : Int}
    {login : Bytes} {req : Req} (hreact : S.react now later q = .triggers login req) {t : Nat}
    {key : κ} (hkey : key ∉ s.wrapper.issued) :
    Inv S { setConnection { s with wrapper := WrapperRegistry.register s.wrapper t key } n
        { c with inbox := rest, phase := .waiting s.wrapper.count q } with
      callback := Function.update s.callback s.wrapper.count n
      triggered := s.triggered ++ [⟨s.wrapper.count, key, login, req, q, c.client, now⟩] } := by
  obtain ⟨houtbox, rfl⟩ := (h.fits n c hc).alone hphase hinbox
  have hhandled : c.handled = [] := by rw [Connection.handled, hphase, houtbox]; rfl
  have hpending : Connection.pending
      { c with inbox := [], phase := .waiting s.wrapper.count q } = c.pending := by
    rw [Connection.pending, Connection.pending, hhandled, hinbox, Connection.handled]
    dsimp only
    rw [houtbox]
    rfl
  have hold : ∀ {r key'}, .registered r key' ∈ s.wrapper.history → r ≠ s.wrapper.count :=
    fun hr => Nat.ne_of_lt (h.wrapper.lt _ _ hr).1
  have hregistered := h.wrapper.register t hkey
  have hmem : .registered s.wrapper.count key ∈
      (WrapperRegistry.register s.wrapper t key).history :=
    List.mem_append_right _ List.mem_cons_self
  refine h.ofServer hc rfl ⟨rfl, rfl, rfl, rfl, rfl⟩ rfl ?_ (fun _ => ⟨hpending, ?_⟩)
    (fun hclosed => ?_) (fun x hx => ?_) (fun r q' hwaits => ?_) hregistered
    (fun _ _ hr => List.mem_append_left _ hr) (fun _ he => he) (fun key' r hr => ?_) rfl
    (fun tr htr => ?_) (.inr ⟨hhandled, ?_, ?_⟩) ?_ fun x hx => ?_
  · rw [hpending]
  · rw [hhandled]
    exact List.nil_sublist _
  · rw [hphase] at hclosed
    cases hclosed
  · rw [houtbox] at hx
    cases hx
  · cases hwaits
    exact ⟨_, List.mem_append_right _ List.mem_cons_self, rfl, rfl⟩
  · -- the new callback writes to this connection, and the others do not
    by_cases hr' : r = s.wrapper.count
    · subst hr'
      refine ⟨{ c with inbox := [], phase := .waiting s.wrapper.count q }, q, ?_, rfl⟩
      dsimp only [setConnection]
      rw [Function.update_self, Function.update_self]
    · have hr₀ : s.wrapper.registry key' = some r := by
        have hupdate : Function.update s.wrapper.registry key (some s.wrapper.count) key' =
          some r := hr
        rw [Function.update_apply] at hupdate
        split at hupdate
        · exact absurd (Option.some.inj hupdate).symm hr'
        · exact hupdate
      dsimp only [setConnection]
      rw [Function.update_of_ne hr']
      refine h.registered_update hc (fun r' q' hwaits => ?_) key' r hr₀
      rw [hphase] at hwaits
      cases hwaits
  · rw [List.mem_singleton.mp htr]
    refine ⟨rfl, ?_, ⟨later, hreact⟩, hmem⟩
    rw [Connection.pending, hhandled, hinbox]
    exact List.mem_cons_self
  · rw [Connection.handled]
    dsimp only
    rw [houtbox]
    rfl
  · rw [hphase]
    intro heq
    cases heq
  · dsimp only
    rw [List.map_append, List.map_singleton, List.nodup_append]
    refine ⟨h.apart, List.pairwise_singleton _ _, fun r hr r' hr' heq => ?_⟩
    obtain ⟨tr, htr, rfl⟩ := List.mem_map.mp hr
    exact hold (h.triggered tr htr).2.2 (heq.trans (List.mem_singleton.mp hr'))
  · obtain ⟨hasked, hcalled⟩ := h.calledOnce x hx
    exact ⟨hasked, hcalled.mono (fun _ htr => List.mem_append_left _ htr) fun _ he => he⟩

/-- An output of the facility is sent, if its callback is still there. -/
theorem Inv.respond (h : Inv S s) (key : κ) (output : Bytes) :
    Inv S (callBack s
      { s with wrapper := WrapperRegistry.handleResponse .jsonREST s.wrapper key output }
      key output) := by
  rw [callBack]
  have hwrapper := h.wrapper.handleResponse key output
  cases hkey : s.wrapper.registry key with
  | none =>
      rw [WrapperRegistry.handleResponse_of_none hkey] at hwrapper ⊢
      exact h.ofWrapper hwrapper (fun _ _ hr => List.mem_append_left _ hr) (fun _ he => he)
        fun _ _ hr => hr
  | some r =>
      obtain ⟨c, q, hc, hphase⟩ := h.registered key r hkey
      have hfits := h.fits _ c hc
      obtain ⟨houtbox, hinbox⟩ := hfits.alone_waiting hphase
      have hreg := h.wrapper.registry r key hkey
      rw [WrapperRegistry.handleResponse_of_some hkey] at hwrapper ⊢
      dsimp only [answer]
      rw [hc]
      dsimp only
      have hpending : Connection.pending { c with
          phase := .closed
          outbox := c.outbox ++ c.phase.request.map fun q => (q, .facility output) } =
          c.pending := by
        rw [Connection.pending, Connection.pending, Connection.handled, Connection.handled]
        dsimp only
        rw [houtbox, hinbox, hphase]
        rfl
      refine h.ofServer hc rfl ⟨rfl, rfl, rfl, rfl, rfl⟩ rfl ?_ (fun _ => ⟨hpending, ?_⟩)
        (fun _ => rfl) (fun x hx => ?_) (fun r' q' hwaits => by cases hwaits) hwrapper
        (fun _ _ hr => List.mem_append_left _ hr) (fun _ he => List.mem_append_left _ he)
        (fun key' r' hr' => ?_) (List.append_nil _).symm (fun _ htr => by cases htr) (.inl rfl)
        h.apart fun x hx => ?_
      · rw [hpending]
      · rw [Connection.handled, Connection.handled]
        dsimp only
        rw [houtbox, hphase]
        exact List.Sublist.refl _
      · -- it is the output for the request that the handler has triggered the facility with
        rw [houtbox, hphase] at hx
        obtain ⟨tr, htr, hnumber, hrequest⟩ := hfits.waits r q hphase
        have hkey' : tr.key = key :=
          h.wrapper.sameID r tr.key key (hnumber ▸ (h.triggered tr htr).2.2) hreg
        rw [List.mem_singleton.mp hx]
        refine .inr ⟨tr, htr, hrequest, output, rfl, List.mem_append_right _ ?_⟩
        rw [hnumber, hkey']
        exact List.mem_cons_self
      · have hupdate : Function.update s.wrapper.registry key none key' = some r' := hr'
        rw [Function.update_apply, Option.ite_none_left_eq_some] at hupdate
        obtain ⟨hne, hr₀⟩ := hupdate
        obtain ⟨d, q', hd, hq'⟩ := h.registered key' r' hr₀
        -- two callbacks do not share a connection
        have hapart : s.callback r' ≠ s.callback r := by
          intro heq
          rw [heq] at hd
          obtain rfl := Option.some.inj (hc.symm.trans hd)
          obtain ⟨rfl, -⟩ := Phase.waiting.inj (hphase.symm.trans hq')
          exact hne (h.wrapper.sameID r key' key (h.wrapper.registry r key' hr₀) hreg)
        exact ⟨d, q', (Function.update_of_ne hapart _ _).trans hd, hq'⟩
      · obtain ⟨hasked, hcalled⟩ := h.calledOnce x hx
        exact ⟨hasked, hcalled.mono (fun _ htr => htr) fun _ he => List.mem_append_left _ he⟩

theorem Inv.hangUp (h : Inv S s) (hc : s.connection n = some c) (hphase : c.phase = .reading) :
    Inv S (setConnection s n { c with phase := .closed }) := by
  have hhandled : Connection.handled { c with phase := .closed } = c.handled := by
    rw [Connection.handled, Connection.handled, hphase]
    rfl
  have hpending : Connection.pending { c with phase := .closed } = c.pending := by
    rw [Connection.pending, Connection.pending, hhandled]
  refine h.ofServer hc rfl ⟨rfl, rfl, rfl, rfl, rfl⟩ rfl ?_ (fun _ => ⟨hpending, ?_⟩)
    (fun _ => rfl) (h.fits n c hc).answers (fun r q hwaits => by cases hwaits) h.wrapper
    (fun _ _ hr => hr) (fun _ he => he) ?_ (List.append_nil _).symm (fun _ htr => by cases htr)
    (.inl rfl) h.apart h.calledOnce
  · rw [hpending]
  · rw [hhandled]
  · refine h.registered_update hc fun r q hwaits => ?_
    rw [hphase] at hwaits
    cases hwaits

/-- A client for one request has read the response. -/
theorem Inv.readOnce (h : Inv S s) (hc : s.connection n = some c) (hclient : c.client = none)
    {x : Request × Response} {rest : List (Request × Response)} (houtbox : c.outbox = x :: rest) :
    Inv S { setConnection s n { c with outbox := rest } with
      calledOnce := s.calledOnce ++ [x] } := by
  have hfits := h.fits n c hc
  refine h.ofServer hc rfl ⟨rfl, rfl, rfl, rfl, rfl⟩ rfl ?_ (fun hne => absurd hclient hne)
    (fun hclosed => hclosed) (fun y hy => ?_) hfits.waits h.wrapper (fun _ _ hr => hr)
    (fun _ he => he) ?_ (List.append_nil _).symm (fun _ htr => by cases htr) (.inl rfl) h.apart
    fun y hy => ?_
  · rw [Connection.pending, Connection.pending, Connection.handled, Connection.handled]
    dsimp only
    rw [houtbox]
    refine List.Sublist.append ?_ (List.Sublist.refl _)
    exact List.Sublist.append (List.Sublist.refl _) (List.Sublist.map _ (List.sublist_cons_self _ _))
  · refine hfits.answers y ?_
    rw [houtbox]
    exact List.mem_cons_of_mem _ hy
  · exact h.registered_update hc fun _ _ hwaits => hwaits
  · rcases List.mem_append.mp hy with hy | hy
    · exact h.calledOnce y hy
    · rw [List.mem_singleton.mp hy]
      have hx : x ∈ c.outbox := by
        rw [houtbox]
        exact List.mem_cons_self
      refine ⟨?_, hfits.answers x hx⟩
      have hasked := hfits.asked x.1 (List.mem_append_left _ (List.mem_append_right _
        (List.mem_map_of_mem hx)))
      rw [hclient] at hasked
      exact hasked

end RestEndToEnd
