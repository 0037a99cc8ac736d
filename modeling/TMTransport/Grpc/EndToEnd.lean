import TMTransport.Facility.WrapperRegistries
import TMTransport.Grpc.ServerReactor

/-!
# gRPC facilities from end to end

The client facilities of some programs, and one that calls and waits, on the one side; on
the other the wrapper of a facility, with its registry and a reactor for each call. gRPC is
between them: it may lose a call at any time, but what the client reads are the replies
that the server has started, in this order, and a call ends well only if all of them have
been read and the last of them was the finish.

The client does not know which response is the final one. A facility whose calls are single
takes the first for it; any other publishes them all as not final, and the end of the call
ends the request.
-/

namespace GrpcEndToEnd

open Interleave GrpcServer

/-- A reply with which the call is finished. -/
def isFinish {α : Type} : Start α → Bool
  | .writeAndFinish _ => true
  | .write _ => false

/-- Up to the final output, which is the last one that is written. -/
def upToFinal {α : Type} : List (Bool × α) → List (Bool × α)
  | [] => []
  | y :: l => if y.1 then [y] else y :: upToFinal l

/-- `OneCallReactor`, or a call of `runSyncClient`, and what has become of it. -/
structure Call (χ ι Req Resp : Type) where
  client : χ
  /-- `id_`. A call that is waited for has none. -/
  id : Option ι
  req : Req
  /-- The number that the server has given to it. -/
  request : Option Nat
  /-- A read has been started. -/
  reading : Bool
  read : List Resp
  /-- The call has ended, and this is its status: was it `OK`? -/
  status : Option Bool

structure State (χ ι κ Req Resp : Type) where
  call : Nat → Option (Call χ ι Req Resp)
  count : Nat
  /-- `reactorMap_` of each client facility -/
  reactorMap : χ × ι → Option Nat
  /-- What each client facility publishes: the id, the response, and whether it is final. -/
  published : χ → List (ι × Resp × Bool)
  server : WrapperRegistry.State κ (Bool × Resp)
  reactor : Nat → Reactor Resp
  /-- What the facility behind the server has been triggered with, and for which request. -/
  triggered : List (Nat × κ × Req)
  /-- For the record: the ids that the client facilities have been given. -/
  orders : List (χ × ι)

inductive Act (χ ι κ Req Resp : Type) where
  /-- `actuallyHandle` -/
  | handle (client : χ) (id : ι) (req : Req)
  | runSyncClient (client : χ) (req : Req)
  /-- `serviceFunc`, up to the call of the trigger function in the thread `t`. -/
  | serve (t n : Nat) (key : κ)
  | triggerReturns (t : Nat)
  /-- `handleResp` -/
  | respond (t : Nat) (key : κ) (y : Resp) (isFinal : Bool)
  | onWriteDone (r : Nat) (ok : Bool)
  /-- `OnDone` of the server's reactor begins. -/
  | onServerDone (r : Nat) (ok : Bool)
  | endHandling (t : Nat) (key : κ)
  /-- `OnReadDone`, or the read that is waited for comes back. -/
  | onReadDone (n : Nat) (good : Bool)
  /-- `OnDone` of the client's reactor, or the call that is waited for comes back. -/
  | onDone (n : Nat) (ok : Bool)

variable {χ ι κ Req Resp : Type} [DecidableEq χ] [DecidableEq ι] [DecidableEq κ]

section Step

/-- What the server has begun to write for a call. -/
def State.replies (s : State χ ι κ Req Resp) (c : Call χ ι Req Resp) : List (Start Resp) :=
  match c.request with
  | none => []
  | some r => (s.reactor r).started

/-- A step of the registry, and what is done with it unless the thread is stuck. -/
def serverStep (s : State χ ι κ Req Resp) (a : WrapperRegistry.Act κ (Bool × Resp))
    (f : State χ ι κ Req Resp → State χ ι κ Req Resp) : Option (State χ ι κ Req Resp) :=
  (WrapperRegistry.step .grpc s.server a).map fun server =>
    if server.stuck then { s with server := server } else f { s with server := server }

def setCall (s : State χ ι κ Req Resp) (n : Nat) (c : Call χ ι Req Resp) :
    State χ ι κ Req Resp :=
  { s with call := Function.update s.call n (some c) }

def setReactor (s : State χ ι κ Req Resp) (r : Nat) (x : Reactor Resp) : State χ ι κ Req Resp :=
  { s with reactor := Function.update s.reactor r x }

/-- `StartCall` and `StartRead` -/
def start (s : State χ ι κ Req Resp) (client : χ) (id : Option ι) (req : Req) :
    State χ ι κ Req Resp :=
  { setCall s s.count ⟨client, id, req, none, true, [], none⟩ with count := s.count + 1 }

def handle (s : State χ ι κ Req Resp) (client : χ) (id : ι) (req : Req) : State χ ι κ Req Resp :=
  match s.reactorMap (client, id) with
  -- a duplicate on the client's side is not heard
  | some _ => s
  | none =>
    { start s client (some id) req with
      reactorMap := Function.update s.reactorMap (client, id) (some s.count)
      orders := (client, id) :: s.orders }

def serve (s : State χ ι κ Req Resp) (n : Nat) (c : Call χ ι Req Resp) (r : Nat) (key : κ) :
    State χ ι κ Req Resp :=
  { setReactor (setCall s n { c with request := some r }) r .empty with
    triggered := s.triggered ++ [(r, key, c.req)] }

/-- The output goes to the reactor that the registry has. -/
def push (s : State χ ι κ Req Resp) (key : κ) (y : Resp) (isFinal : Bool) :
    State χ ι κ Req Resp :=
  match s.server.registry key with
  | none => s
  | some r => setReactor s r (pushReply (s.reactor r) y isFinal)

/-- A response is published if it is for a facility, and the next read is started. -/
def onRead (single : χ → Bool) (s : State χ ι κ Req Resp) (n : Nat) (c : Call χ ι Req Resp)
    (y : Resp) : State χ ι κ Req Resp :=
  { setCall s n { c with read := c.read ++ [y], reading := !single c.client } with
    published := match c.id with
      | none => s.published
      | some id => Function.update s.published c.client
          (s.published c.client ++ [(id, y, single c.client)]) }

/-- `eraseReactor` -/
def erase (s : State χ ι κ Req Resp) (c : Call χ ι Req Resp) : State χ ι κ Req Resp :=
  { s with
    reactorMap := match c.id with
      | none => s.reactorMap
      | some id => Function.update s.reactorMap (c.client, id) none }

/-- A call ends well if all that was written has been read, up to the finish. -/
def MayEnd (s : State χ ι κ Req Resp) (c : Call χ ι Req Resp) (ok : Bool) : Prop :=
  c.reading = false ∧ c.status = none ∧ (ok = true →
    c.read.length = (s.replies c).length ∧ (s.replies c).any isFinish = true)

instance (s : State χ ι κ Req Resp) (c : Call χ ι Req Resp) (ok : Bool) :
    Decidable (MayEnd s c ok) :=
  inferInstanceAs (Decidable (_ ∧ _ ∧ (_ → _ ∧ _)))

def step (single : χ → Bool) (s : State χ ι κ Req Resp) :
    Act χ ι κ Req Resp → Option (State χ ι κ Req Resp)
  | .handle client id req => some (handle s client id req)
  | .runSyncClient client req => some (start s client none req)
  | .serve t n key =>
    match s.call n with
    | none => none
    | some c =>
      if c.request = none then
        serverStep s (.request t key) fun s' => serve s' n c s.server.count key
      else none
  | .triggerReturns t => serverStep s (.triggerReturns t) id
  | .respond t key y isFinal =>
    serverStep s (.respond t key (isFinal, y)) fun s' => push s' key y isFinal
  | .onWriteDone r ok => (GrpcServer.step (s.reactor r) (.onWriteDone ok)).map (setReactor s r)
  | .onServerDone r ok => (GrpcServer.step (s.reactor r) (.onDone ok)).map (setReactor s r)
  | .endHandling t key =>
    match s.server.registry key with
    | none => none
    | some r => if (s.reactor r).done then serverStep s (.endHandling t key) id else none
  | .onReadDone n good =>
    match s.call n with
    | none => none
    | some c =>
      if c.reading then
        if good then
          ((s.replies c)[c.read.length]?).map fun st => onRead single s n c st.reply
        else some (setCall s n { c with reading := false })
      else none
  | .onDone n ok =>
    match s.call n with
    | none => none
    | some c =>
      if MayEnd s c ok then some (erase (setCall s n { c with status := some ok }) c) else none

def machine (single : χ → Bool) : Machine (State χ ι κ Req Resp) (Act χ ι κ Req Resp) where
  init := {
    call := fun _ => none
    count := 0
    reactorMap := fun _ => none
    published := fun _ => []
    server := (WrapperRegistry.machine .grpc).init
    reactor := fun _ => .empty
    triggered := []
    orders := [] }
  step := step single

end Step

/-- What `runSyncClient` returns when the call has ended. The status of a stream is ignored. -/
def runSyncClient (single : χ → Bool) (c : Call χ ι Req Resp) (ok : Bool) : List Resp :=
  if single c.client ∧ ok = false then [] else c.read

/-- What the promise of `typedOneShotRemoteCall` is set to, if it is. -/
def typedOneShotRemoteCall (single : χ → Bool) (c : Call χ ι Req Resp) (ok : Bool) : Option Resp :=
  (runSyncClient single c ok).head?

/--
No id is used again when its request has ended, and no thread of the server comes back to the
wrapper before its trigger function returns.
-/
def Orderly (s : State χ ι κ Req Resp) : Act χ ι κ Req Resp → Prop
  | .handle client id _ => (client, id) ∈ s.orders → s.reactorMap (client, id) ≠ none
  | .serve t _ key => WrapperRegistry.Orderly s.server (.request t key)
  | .respond t key y isFinal => WrapperRegistry.Orderly s.server (.respond t key (isFinal, y))
  | .endHandling t key => WrapperRegistry.Orderly s.server (.endHandling t key)
  | _ => True

/-! ## What the two sides are for -/

/-- What the facility behind the server has put out for a request, up to the final output. -/
def IsAnswer (s : State χ ι κ Req Resp) (r : Nat) (ys : List Resp) : Prop :=
  ∃ key before since, s.server.history = before ++ .registered r key :: since ∧
    ys = (upToFinal (WrapperRegistry.due .grpc key since)).map Prod.snd

structure Right (single : χ → Bool) (s : State χ ι κ Req Resp) : Prop where
  /-- What is read of a call is what was put out for the call, from the first output on. -/
  answered : ∀ n c, s.call n = some c →
    c.read = [] ∨ ∃ r ys, c.request = some r ∧ IsAnswer s r ys ∧ c.read <+: ys
  /-- If the call has ended well, that is all of it, and there is something. -/
  complete : ∀ n c, s.call n = some c → c.status = some true →
    ∃ r ys, c.request = some r ∧ IsAnswer s r ys ∧ c.read = ys ∧ ys ≠ []
  /-- The facility is triggered with what was asked, once for each call. -/
  asked : ∀ x ∈ s.triggered, ∃ n c, s.call n = some c ∧ c.request = some x.1 ∧ c.req = x.2.2
  once : (s.triggered.map Prod.fst).Nodup
  apart : ∀ n n' c c' r, s.call n = some c → s.call n' = some c' →
    c.request = some r → c'.request = some r → n = n'
  /-- What is published under an id is what was read for it. -/
  published : ∀ n c id, s.call n = some c → c.id = some id →
    ((s.published c.client).filter fun p => p.1 = id).map Prod.snd =
      c.read.map fun y => (y, single c.client)
  own : ∀ client, ∀ p ∈ s.published client, ∃ n c, s.call n = some c ∧ c.client = client ∧
    c.id = some p.1
  /-- Nothing comes after what is published as final. -/
  atMostOne : ∀ n c, s.call n = some c → single c.client = true → c.read.length ≤ 1
  /-- The reactors of a facility are those of its calls that have not ended. -/
  reactorMap : ∀ client id n, s.reactorMap (client, id) = some n ↔
    ∃ c, s.call n = some c ∧ c.client = client ∧ c.id = some id ∧ c.status = none
  /-- A promise that is set has the first output of the facility, and one is set if the call has
  ended well. -/
  oneShot : ∀ n c ok, s.call n = some c → c.status = some ok →
    (∀ y, typedOneShotRemoteCall single c ok = some y →
      ∃ r ys, c.request = some r ∧ IsAnswer s r ys ∧ ys.head? = some y) ∧
    (ok = true → (typedOneShotRemoteCall single c ok).isSome = true)
  notStuck : s.server.stuck = false

/-! ## The queue of a reactor, when more is pushed -/

section Reactor

variable {α : Type} {x x' : Reactor α} {left rest : List (Bool × α)} {y : Bool × α}

theorem isFinish_startOf (y : Bool × α) : isFinish (startOf y) = y.1 := by
  rw [startOf]
  cases h : y.1 <;> rfl

theorem upToFinal_append_of_plain (h : ∀ y ∈ left, y.1 = false) :
    upToFinal (left ++ rest) = left ++ upToFinal rest := by
  induction left with
  | nil => rfl
  | cons y left ih =>
      rw [List.cons_append, upToFinal, h y List.mem_cons_self, if_neg Bool.false_ne_true,
        ih fun y' hy' => h y' (List.mem_cons_of_mem _ hy')]
      rfl

/-- The first one is always written, and it is the last if it is final. -/
theorem take_one_prefix_upToFinal (rest : List (Bool × α)) : rest.take 1 <+: upToFinal rest := by
  cases rest with
  | nil => exact List.prefix_rfl
  | cons y rest =>
      rw [upToFinal, List.take_succ_cons, List.take_zero]
      split
      · exact List.prefix_rfl
      · exact (List.prefix_cons_inj y).mpr List.nil_prefix

/-- The final reply stays in the queue, for good. -/
structure Holds (x : Reactor α) (left : List (Bool × α)) : Prop extends GrpcServer.Inv x left where
  final : x.done = true → ∃ y queue, x.resps = (true, y) :: queue

/-- Nothing is started after the finish. -/
structure Later (x x' : Reactor α) : Prop where
  started : x.started <+: x'.started
  finished : x.started.any isFinish = true → x'.started = x.started

theorem later_of_eq (h : x'.started = x.started) : Later x x' :=
  ⟨h ▸ List.prefix_rfl, fun _ => h⟩

theorem Holds.replies (h : Holds x left) :
    x.started.map Start.reply = (left ++ x.resps.take 1).map Prod.snd := by
  rw [h.started, List.map_map]
  exact List.map_congr_left fun y _ => reply_startOf y

theorem Holds.first_of_finished (h : Holds x left) (hf : x.started.any isFinish = true) :
    ∃ y queue, x.resps = (true, y) :: queue := by
  obtain ⟨st, hst, hfinish⟩ := List.any_eq_true.mp hf
  rw [h.started] at hst
  obtain ⟨z, hz, rfl⟩ := List.mem_map.mp hst
  rw [isFinish_startOf] at hfinish
  rcases List.mem_append.mp hz with hz | hz
  · -- what has left the queue is not final
    rw [h.plain z hz] at hfinish
    cases hfinish
  · cases hresps : x.resps with
    | nil =>
        rw [hresps] at hz
        cases hz
    | cons first queue =>
        rw [hresps, List.take_succ_cons, List.take_zero, List.mem_singleton] at hz
        obtain ⟨isFinal, reply⟩ := first
        cases hz
        cases hfinish
        exact ⟨reply, queue, rfl⟩

/-- What has been started is what was pushed, and no more than that up to the final reply. -/
theorem Holds.started_sub (h : Holds x left) :
    x.started.map Start.reply <+: (upToFinal x.pushed).map Prod.snd := by
  rw [h.replies, h.pushed, upToFinal_append_of_plain h.plain]
  exact ((List.prefix_append_right_inj left).mpr (take_one_prefix_upToFinal x.resps)).map _

theorem Holds.eq_of_finished (h : Holds x left) (hf : x.started.any isFinish = true) :
    x.started.map Start.reply = (upToFinal x.pushed).map Prod.snd := by
  obtain ⟨y, queue, hresps⟩ := h.first_of_finished hf
  rw [h.replies, h.pushed, upToFinal_append_of_plain h.plain, hresps]
  rfl

theorem holds_empty : Holds (.empty : Reactor α) [] where
  toInv := inv_empty
  final h := by cases h

/-- While there is something in the queue, nothing is started by a push. -/
theorem pushReply_of_ne_nil (h : x.resps ≠ []) (resp : α) (isFinal : Bool) :
    pushReply x resp isFinal = { x with
      resps := x.resps ++ [(isFinal, resp)], pushed := x.pushed ++ [(isFinal, resp)] } := by
  have hlength := List.length_pos_iff.mpr h
  rw [pushReply, if_neg]
  rw [List.length_append, List.length_singleton]
  omega

theorem pushReply_pushed (x : Reactor α) (resp : α) (isFinal : Bool) :
    (pushReply x resp isFinal).pushed = x.pushed ++ [(isFinal, resp)] := by
  unfold pushReply
  dsimp only
  split <;> rfl

theorem Holds.pushReply (h : Holds x left) (resp : α) (isFinal : Bool) :
    Holds (pushReply x resp isFinal) left ∧ Later x (pushReply x resp isFinal) := by
  by_cases hresps : x.resps = []
  · -- the call has not ended, and nothing final has been started
    have hopen : x.done = false := by
      rw [← Bool.not_eq_true]
      intro hdone
      obtain ⟨y, queue, hqueue⟩ := h.final hdone
      rw [hresps] at hqueue
      cases hqueue
    have hpush : GrpcServer.pushReply x resp isFinal = Reactor.start { x with
        resps := x.resps ++ [(isFinal, resp)], pushed := x.pushed ++ [(isFinal, resp)] }
        (isFinal, resp) := by
      rw [GrpcServer.pushReply, if_pos]
      rw [hresps]
      rfl
    refine ⟨⟨h.toInv.pushReply hopen resp isFinal, fun hdone => ?_⟩, ?_, fun hf => ?_⟩
    · rw [hpush] at hdone
      rw [← Bool.not_eq_true] at hopen
      exact absurd hdone hopen
    · rw [hpush]
      exact List.prefix_append _ _
    · obtain ⟨y, queue, hqueue⟩ := h.first_of_finished hf
      rw [hresps] at hqueue
      cases hqueue
  · have htake : (x.resps ++ [(isFinal, resp)]).take 1 = x.resps.take 1 := by
      obtain ⟨y, queue, hqueue⟩ := List.exists_cons_of_ne_nil hresps
      rw [hqueue]
      rfl
    rw [pushReply_of_ne_nil hresps]
    refine ⟨⟨⟨?_, h.started.trans (by rw [htake]), h.plain, h.outstanding.trans (by rw [htake]),
      h.written, h.caughtUp⟩, fun hdone => ?_⟩, later_of_eq rfl⟩
    · dsimp only
      rw [h.pushed, List.append_assoc]
    · obtain ⟨y, queue, hqueue⟩ := h.final hdone
      exact ⟨y, queue ++ [(isFinal, resp)], congrArg (· ++ [(isFinal, resp)]) hqueue⟩

theorem onWriteDone_eq (x : Reactor α) : (onWriteDone x).done = x.done ∧
    (onWriteDone x).pushed = x.pushed ∧ x.started <+: (onWriteDone x).started := by
  unfold onWriteDone
  dsimp only
  split
  · exact ⟨rfl, rfl, List.prefix_append _ _⟩
  · exact ⟨rfl, rfl, List.prefix_rfl⟩

/-- What gRPC says of a write, or of the end of the call. -/
theorem Holds.step (h : Holds x left) {a : GrpcServer.Act α}
    (ha : ∀ resp isFinal, a ≠ .pushReply resp isFinal) (hs : GrpcServer.step x a = some x') :
    (∃ left', Holds x' left') ∧ Later x x' ∧ x'.pushed = x.pushed := by
  cases a with
  | pushReply resp isFinal => exact absurd rfl (ha resp isFinal)
  | onWriteDone ok =>
      rw [GrpcServer.step] at hs
      split at hs
      · next resp rest hout =>
        obtain ⟨hok, rfl⟩ := of_guarded hs
        obtain ⟨hopen, -, first, queue, hresps, hfirst⟩ := h.first hout
        obtain rfl := startOf_eq_write hfirst
        obtain ⟨hdone, hpushed, hstarted⟩ := onWriteDone_eq (x.complete resp ok)
        refine ⟨⟨_, h.toInv.onWriteDone hout hok, fun hd => ?_⟩, ⟨hstarted, fun hf => ?_⟩, hpushed⟩
        · rw [hdone] at hd
          rw [← Bool.not_eq_true] at hopen
          exact absurd hd hopen
        · -- the first one would be final
          obtain ⟨y, queue', hqueue⟩ := h.first_of_finished hf
          rw [hresps] at hqueue
          cases hqueue
      · cases hs
  | onDone ok =>
      rw [GrpcServer.step] at hs
      split at hs
      · next resp rest hout =>
        obtain ⟨hok, rfl⟩ := of_guarded hs
        obtain ⟨-, -, first, queue, hresps, hfirst⟩ := h.first hout
        obtain rfl := startOf_eq_writeAndFinish hfirst
        exact ⟨⟨_, h.toInv.onDone hout hok, fun _ => ⟨resp, queue, hresps⟩⟩, later_of_eq rfl, rfl⟩
      · cases hs

end Reactor

/-! ## The invariant -/

variable {single : χ → Bool} {s s' : State χ ι κ Req Resp} {n : Nat} {c c' : Call χ ι Req Resp}

/-- What a call has read is what the server has written for it. -/
structure Sound (single : χ → Bool) (s : State χ ι κ Req Resp) (c : Call χ ι Req Resp) : Prop where
  request : ∀ r, c.request = some r → ∃ key, .registered r key ∈ s.server.history
  read : c.read <+: (s.replies c).map Start.reply
  complete : c.status = some true →
    (s.replies c).any isFinish = true ∧ c.read = (s.replies c).map Start.reply
  atMostOne : single c.client = true → c.read.length ≤ 1 ∧ (c.reading = true → c.read = [])
  isOpen : c.reading = true → c.status = none

structure Inv (single : χ → Bool) (s : State χ ι κ Req Resp) : Prop where
  server : WrapperRegistry.Inv .grpc s.server
  reactor : ∀ r, ∃ left, Holds (s.reactor r) left
  pushed : ∀ r, (s.reactor r).pushed =
    (s.server.calls.filter fun e => e.1 = r).map fun e => e.2.2
  fresh : ∀ n, s.count ≤ n → s.call n = none
  sound : ∀ n c, s.call n = some c → Sound single s c
  apart : ∀ n n' c c' r, s.call n = some c → s.call n' = some c' →
    c.request = some r → c'.request = some r → n = n'
  asked : ∀ x ∈ s.triggered, ∃ n c, s.call n = some c ∧ c.request = some x.1 ∧ c.req = x.2.2
  once : (s.triggered.map Prod.fst).Nodup
  orders : ∀ n c id, s.call n = some c → c.id = some id → (c.client, id) ∈ s.orders
  oneOrder : ∀ n n' c c' id, s.call n = some c → s.call n' = some c' → c.client = c'.client →
    c.id = some id → c'.id = some id → n = n'
  reactorMap : ∀ client id n, s.reactorMap (client, id) = some n ↔
    ∃ c, s.call n = some c ∧ c.client = client ∧ c.id = some id ∧ c.status = none
  published : ∀ n c id, s.call n = some c → c.id = some id →
    ((s.published c.client).filter fun p => p.1 = id).map Prod.snd =
      c.read.map fun y => (y, single c.client)
  own : ∀ client, ∀ p ∈ s.published client, ∃ n c, s.call n = some c ∧ c.client = client ∧
    c.id = some p.1

theorem inv_init (single : χ → Bool) :
    Inv single (machine single : Machine (State χ ι κ Req Resp) _).init where
  server := WrapperRegistry.inv_init .grpc
  reactor r := ⟨[], holds_empty⟩
  pushed r := rfl
  fresh n _ := rfl
  sound n c h := by cases h
  apart n n' c c' r h := by cases h
  asked x h := by cases h
  once := List.nodup_nil
  orders n c id h := by cases h
  oneOrder n n' c c' id h := by cases h
  reactorMap client id n := by
    refine iff_of_false (fun h => by cases h) fun h => ?_
    obtain ⟨c, hc, -⟩ := h
    cases hc
  published n c id h := by cases h
  own client p h := by cases h

/-! ### Steps of the server -/

omit [DecidableEq χ] in
/-- The server goes on: nothing is forgotten, and no reactor goes back. -/
theorem Inv.serverStep (h : Inv single s) {server : WrapperRegistry.State κ (Bool × Resp)}
    {reactor : Nat → Reactor Resp} (hserver : WrapperRegistry.Inv .grpc server)
    (hregistered : ∀ r key, .registered r key ∈ s.server.history →
      .registered r key ∈ server.history)
    (hreactor : ∀ r, (∃ left, Holds (reactor r) left) ∧ Later (s.reactor r) (reactor r))
    (hpushed : ∀ r, (reactor r).pushed =
      (server.calls.filter fun e => e.1 = r).map fun e => e.2.2) :
    Inv single { s with server := server, reactor := reactor } := by
  refine { h with
    server := hserver, reactor := fun r => (hreactor r).1, pushed := hpushed,
    sound := fun n c hc => ?_ }
  have hs := h.sound n c hc
  -- what the call may read has become more, unless the finish is in it
  have hreplies : s.replies c <+: State.replies { s with server := server, reactor := reactor } c ∧
      ((s.replies c).any isFinish = true →
        State.replies { s with server := server, reactor := reactor } c = s.replies c) := by
    unfold State.replies
    cases c.request with
    | none => exact ⟨List.prefix_rfl, fun _ => rfl⟩
    | some r => exact ⟨(hreactor r).2.started, (hreactor r).2.finished⟩
  refine ⟨fun r hr => ?_, hs.read.trans (hreplies.1.map _), fun hstatus => ?_, hs.atMostOne,
    hs.isOpen⟩
  · obtain ⟨key, hkey⟩ := hs.request r hr
    exact ⟨key, hregistered r key hkey⟩
  · obtain ⟨hfinish, hall⟩ := hs.complete hstatus
    rw [hreplies.2 hfinish]
    exact ⟨hfinish, hall⟩

omit [DecidableEq χ] in
/-- The registry goes on without any reactor. -/
theorem Inv.registry (h : Inv single s) {server : WrapperRegistry.State κ (Bool × Resp)}
    (hserver : WrapperRegistry.Inv .grpc server)
    (hregistered : ∀ r key, .registered r key ∈ s.server.history →
      .registered r key ∈ server.history) (hcalls : server.calls = s.server.calls) :
    Inv single { s with server := server } :=
  h.serverStep hserver hregistered (fun r => ⟨h.reactor r, later_of_eq rfl⟩)
    fun r => by rw [hcalls]; exact h.pushed r

omit [DecidableEq χ] in
/-- One reactor goes on. -/
theorem Inv.reactorStep (h : Inv single s) {r : Nat} {x : Reactor Resp} {a : GrpcServer.Act Resp}
    (ha : ∀ resp isFinal, a ≠ .pushReply resp isFinal)
    (hs : GrpcServer.step (s.reactor r) a = some x) : Inv single (setReactor s r x) := by
  obtain ⟨left, hleft⟩ := h.reactor r
  obtain ⟨hholds, hlater, hpushed⟩ := hleft.step ha hs
  have hat : ∀ r', (∃ left, Holds (Function.update s.reactor r x r') left) ∧
      Later (s.reactor r') (Function.update s.reactor r x r') ∧
      (Function.update s.reactor r x r').pushed = (s.reactor r').pushed := by
    intro r'
    by_cases hr : r' = r
    · rw [hr, Function.update_self]
      exact ⟨hholds, hlater, hpushed⟩
    · rw [Function.update_of_ne hr]
      exact ⟨h.reactor r', later_of_eq rfl, rfl⟩
  exact h.serverStep h.server (fun _ _ hmem => hmem) (fun r' => ⟨(hat r').1, (hat r').2.1⟩)
    fun r' => (hat r').2.2.trans (h.pushed r')

omit [DecidableEq χ] in
/-- An output of the facility is pushed to the reactor of its request, if that is still there. -/
theorem Inv.respond (h : Inv single s) (key : κ) (y : Resp) (isFinal : Bool) :
    Inv single (push
      { s with server := WrapperRegistry.handleResponse .grpc s.server key (isFinal, y) }
      key y isFinal) := by
  have hserver := h.server.handleResponse key (isFinal, y)
  cases hkey : s.server.registry key with
  | none =>
      rw [WrapperRegistry.handleResponse_of_none hkey] at hserver ⊢
      rw [push, hkey]
      exact h.registry hserver (fun _ _ hmem => List.mem_append_left _ hmem) rfl
  | some r =>
      rw [WrapperRegistry.handleResponse_of_some hkey] at hserver ⊢
      have hpush : push { s with server := { s.server with
          registry := WrapperRegistry.registryAfter .grpc s.server.registry key
          calls := s.server.calls ++ [(r, key, (isFinal, y))]
          history := s.server.history ++ [.output key (isFinal, y)] } } key y isFinal =
          setReactor { s with server := { s.server with
            registry := WrapperRegistry.registryAfter .grpc s.server.registry key
            calls := s.server.calls ++ [(r, key, (isFinal, y))]
            history := s.server.history ++ [.output key (isFinal, y)] } } r
            (pushReply (s.reactor r) y isFinal) := by
        rw [push, WrapperRegistry.registryAfter, hkey]
      rw [hpush]
      refine h.serverStep hserver (fun _ _ hmem => List.mem_append_left _ hmem) (fun r' => ?_)
        fun r' => ?_
      · by_cases hr : r' = r
        · obtain ⟨left, hleft⟩ := h.reactor r
          dsimp only
          rw [hr, Function.update_self]
          exact ⟨⟨left, (hleft.pushReply y isFinal).1⟩, (hleft.pushReply y isFinal).2⟩
        · dsimp only
          rw [Function.update_of_ne hr]
          exact ⟨h.reactor r', later_of_eq rfl⟩
      · dsimp only
        rw [List.filter_append, List.map_append, ← h.pushed r']
        by_cases hr : r' = r
        · rw [hr, Function.update_self, pushReply_pushed, List.filter_cons_of_pos (by simp)]
          rfl
        · rw [Function.update_of_ne hr, List.filter_cons_of_neg (by simp [Ne.symm hr])]
          exact (List.append_nil _).symm

/-! ### Steps of the clients -/

/-- What is published under an id, of one facility. -/
def publishedAs (published : χ → List (ι × Resp × Bool)) (client : χ) (id : ι) :
    List (Resp × Bool) :=
  ((published client).filter fun p => p.1 = id).map Prod.snd

/-- One call goes on. It may have got a number, and something may be published for it. -/
theorem Inv.callStep (h : Inv single s) (hc : s.call n = some c) (hsound : Sound single s c')
    (hclient : c'.client = c.client) (hid : c'.id = c.id) (hreq : c'.req = c.req)
    (hnumber : ∀ r, c.request = some r → c'.request = some r)
    (hnew : ∀ r, c'.request = some r → c.request = some r ∨
      ∀ m d, s.call m = some d → d.request ≠ some r)
    {reactorMap : χ × ι → Option Nat} {published : χ → List (ι × Resp × Bool)}
    (hmap : ∀ client id m, reactorMap (client, id) = some m ↔
      if m = n then c.client = client ∧ c.id = some id ∧ c'.status = none
      else s.reactorMap (client, id) = some m)
    (hpublished : ∀ id, c.id = some id → publishedAs published c.client id =
      c'.read.map fun y => (y, single c.client))
    (hothers : ∀ client id, ¬ (c.client = client ∧ c.id = some id) →
      publishedAs published client id = publishedAs s.published client id) :
    Inv single { setCall s n c' with reactorMap := reactorMap, published := published } := by
  have hself : (setCall s n c').call n = some c' := Function.update_self _ _ _
  -- each call is an old one, and of the call `n` all but its number is as it was
  have hat : ∀ m d, (setCall s n c').call m = some d →
      (m = n ∧ d = c') ∨ (m ≠ n ∧ s.call m = some d) := by
    intro m d hd
    by_cases hm : m = n
    · rw [hm, hself] at hd
      exact .inl ⟨hm, (Option.some.inj hd).symm⟩
    · exact .inr ⟨hm, (Function.update_of_ne hm _ _).symm.trans hd⟩
  have hold : ∀ m d, (setCall s n c').call m = some d → ∃ d', s.call m = some d' ∧
      d.client = d'.client ∧ d.id = d'.id := by
    intro m d hd
    rcases hat m d hd with ⟨rfl, rfl⟩ | ⟨-, hd⟩
    · exact ⟨c, hc, hclient, hid⟩
    · exact ⟨d, hd, rfl, rfl⟩
  have hkept : ∀ m d, s.call m = some d → ∃ d', (setCall s n c').call m = some d' ∧
      d'.client = d.client ∧ d'.id = d.id ∧ d'.req = d.req ∧
      ∀ r, d.request = some r → d'.request = some r := by
    intro m d hd
    by_cases hm : m = n
    · subst hm
      obtain rfl := Option.some.inj (hc.symm.trans hd)
      exact ⟨c', hself, hclient, hid, hreq, hnumber⟩
    · exact ⟨d, (Function.update_of_ne hm _ _).trans hd, rfl, rfl, rfl, fun _ hr => hr⟩
  refine ⟨h.server, h.reactor, h.pushed, fun m hm => ?_, fun m d hd => ?_,
    fun m m' d d' r hd hd' hr hr' => ?_, fun x hx => ?_, h.once, fun m d id hd hdid => ?_,
    fun m m' d d' id hd hd' hsame hdid hdid' => ?_, fun client id m => ?_,
    fun m d id hd hdid => ?_, fun client p hp => ?_⟩
  · have hm' : m ≠ n := by
      intro heq
      rw [heq] at hm
      rw [h.fresh n hm] at hc
      cases hc
    exact (Function.update_of_ne hm' _ _).trans (h.fresh m hm)
  · rcases hat m d hd with ⟨rfl, rfl⟩ | ⟨-, hd⟩
    · exact ⟨hsound.request, hsound.read, hsound.complete, hsound.atMostOne, hsound.isOpen⟩
    · have hs := h.sound m d hd
      exact ⟨hs.request, hs.read, hs.complete, hs.atMostOne, hs.isOpen⟩
  · rcases hat m d hd with ⟨rfl, rfl⟩ | ⟨hm, hbefore⟩
    · rcases hat m' d' hd' with ⟨rfl, rfl⟩ | ⟨hm', hbefore'⟩
      · rfl
      · rcases hnew r hr with hr | hr
        · exact h.apart m m' c d' r hc hbefore' hr hr'
        · exact absurd hr' (hr m' d' hbefore')
    · rcases hat m' d' hd' with ⟨rfl, rfl⟩ | ⟨hm', hbefore'⟩
      · rcases hnew r hr' with hr' | hr'
        · exact h.apart m m' d c r hbefore hc hr hr'
        · exact absurd hr (hr' m d hbefore)
      · exact h.apart m m' d d' r hbefore hbefore' hr hr'
  · obtain ⟨m, d, hd, hr, hdreq⟩ := h.asked x hx
    obtain ⟨d', hd', -, -, hreq', hnumber'⟩ := hkept m d hd
    exact ⟨m, d', hd', hnumber' _ hr, hreq'.trans hdreq⟩
  · obtain ⟨d', hd', hclient', hid'⟩ := hold m d hd
    rw [hclient']
    exact h.orders m d' id hd' (hid' ▸ hdid)
  · obtain ⟨e, he, hclient₁, hid₁⟩ := hold m d hd
    obtain ⟨e', he', hclient₂, hid₂⟩ := hold m' d' hd'
    rw [hclient₁, hclient₂] at hsame
    exact h.oneOrder m m' e e' id he he' hsame (hid₁ ▸ hdid) (hid₂ ▸ hdid')
  · rw [hmap client id m]
    by_cases hm : m = n
    · rw [if_pos hm, hm]
      constructor
      · intro heq
        exact ⟨c', hself, hclient.trans heq.1, hid.trans heq.2.1, heq.2.2⟩
      · intro hex
        obtain ⟨d, hd, hdclient, hdid, hstatus⟩ := hex
        obtain rfl := Option.some.inj (hself.symm.trans hd)
        exact ⟨hclient.symm.trans hdclient, hid.symm.trans hdid, hstatus⟩
    · rw [if_neg hm, h.reactorMap client id m]
      have hsame : (setCall s n c').call m = s.call m := Function.update_of_ne hm _ _
      show _ ↔ ∃ d, (setCall s n c').call m = some d ∧ _
      rw [hsame]
  · rcases hat m d hd with ⟨rfl, rfl⟩ | ⟨hm, hd⟩
    · rw [hclient]
      exact hpublished id (hid ▸ hdid)
    · refine (hothers d.client id fun heq => hm ?_).trans (h.published m d id hd hdid)
      exact h.oneOrder m n d c id hd hc heq.1.symm hdid heq.2
  · by_cases heq : c.client = client ∧ c.id = some p.1
    · exact ⟨n, c', hself, hclient.trans heq.1, hid.trans heq.2⟩
    · -- what is published under the id of another call was there before
      have hmem : p.2 ∈ publishedAs published client p.1 :=
        List.mem_map_of_mem (List.mem_filter.mpr ⟨hp, decide_eq_true rfl⟩)
      rw [hothers client p.1 heq] at hmem
      obtain ⟨p', hp', -⟩ := List.mem_map.mp hmem
      obtain ⟨hp', hsame⟩ := List.mem_filter.mp hp'
      obtain ⟨m, d, hd, hdclient, hdid⟩ := h.own client p' hp'
      obtain ⟨d', hd', hclient', hid', -⟩ := hkept m d hd
      rw [of_decide_eq_true hsame] at hdid
      exact ⟨m, d', hd', hclient'.trans hdclient, hid'.trans hdid⟩

omit [DecidableEq χ] in
/-- A call begins, of a facility under a new id, or one that is waited for. -/
theorem Inv.start (h : Inv single s) (client : χ) (id : Option ι) (req : Req)
    {reactorMap : χ × ι → Option Nat} {orders : List (χ × ι)}
    (hid : ∀ x, id = some x → (client, x) ∉ s.orders ∧ (client, x) ∈ orders)
    (horders : ∀ x ∈ s.orders, x ∈ orders)
    (hmap : ∀ client' x m, reactorMap (client', x) = some m ↔
      if m = s.count then client = client' ∧ id = some x
      else s.reactorMap (client', x) = some m) :
    Inv single { GrpcEndToEnd.start s client id req with
      reactorMap := reactorMap, orders := orders } := by
  have hself : (GrpcEndToEnd.start s client id req).call s.count =
      some ⟨client, id, req, none, true, [], none⟩ := Function.update_self _ _ _
  have hat : ∀ m d, (GrpcEndToEnd.start s client id req).call m = some d →
      (m = s.count ∧ d = ⟨client, id, req, none, true, [], none⟩) ∨ s.call m = some d := by
    intro m d hd
    by_cases hm : m = s.count
    · rw [hm, hself] at hd
      exact .inl ⟨hm, (Option.some.inj hd).symm⟩
    · exact .inr ((Function.update_of_ne hm _ _).symm.trans hd)
  have hkept : ∀ m d, s.call m = some d →
      (GrpcEndToEnd.start s client id req).call m = some d := by
    intro m d hd
    have hm : m ≠ s.count := by
      intro heq
      rw [heq, h.fresh s.count (Nat.le_refl _)] at hd
      cases hd
    exact (Function.update_of_ne hm _ _).trans hd
  -- nobody has used the new id
  have hunused : ∀ m d x, s.call m = some d → d.id = some x → id = some x → d.client ≠ client := by
    intro m d x hd hdid hx heq
    exact (hid x hx).1 (heq ▸ h.orders m d x hd hdid)
  refine ⟨h.server, h.reactor, h.pushed, fun m hm => ?_, fun m d hd => ?_,
    fun m m' d d' r hd hd' hr hr' => ?_, fun x hx => ?_, h.once, fun m d x hd hdid => ?_,
    fun m m' d d' x hd hd' hsame hdid hdid' => ?_, fun client' x m => ?_,
    fun m d x hd hdid => ?_, fun client' p hp => ?_⟩
  · have hle : s.count + 1 ≤ m := hm
    have hne : m ≠ s.count := by omega
    exact (Function.update_of_ne hne _ _).trans (h.fresh m (by omega))
  · rcases hat m d hd with ⟨rfl, rfl⟩ | hd
    · exact ⟨fun r hr => (by cases hr), List.nil_prefix, fun hstatus => (by cases hstatus),
        fun _ => ⟨Nat.zero_le _, fun _ => rfl⟩, fun _ => rfl⟩
    · have hs := h.sound m d hd
      exact ⟨hs.request, hs.read, hs.complete, hs.atMostOne, hs.isOpen⟩
  · rcases hat m d hd with ⟨rfl, rfl⟩ | hold
    · cases hr
    · rcases hat m' d' hd' with ⟨rfl, rfl⟩ | hold'
      · cases hr'
      · exact h.apart m m' d d' r hold hold' hr hr'
  · obtain ⟨m, d, hd, hr⟩ := h.asked x hx
    exact ⟨m, d, hkept m d hd, hr⟩
  · rcases hat m d hd with ⟨rfl, rfl⟩ | hd
    · exact (hid x hdid).2
    · exact horders _ (h.orders m d x hd hdid)
  · rcases hat m d hd with ⟨rfl, rfl⟩ | hold
    · rcases hat m' d' hd' with ⟨rfl, rfl⟩ | hold'
      · rfl
      · exact absurd hsame.symm (hunused m' d' x hold' hdid' hdid)
    · rcases hat m' d' hd' with ⟨rfl, rfl⟩ | hold'
      · exact absurd hsame (hunused m d x hold hdid hdid')
      · exact h.oneOrder m m' d d' x hold hold' hsame hdid hdid'
  · rw [hmap client' x m]
    by_cases hm : m = s.count
    · rw [if_pos hm, hm]
      constructor
      · intro heq
        exact ⟨_, hself, heq.1, heq.2, rfl⟩
      · intro hex
        obtain ⟨d, hd, hclient, hdid, -⟩ := hex
        obtain rfl := Option.some.inj (hself.symm.trans hd)
        exact ⟨hclient, hdid⟩
    · rw [if_neg hm, h.reactorMap client' x m]
      have hsame : (GrpcEndToEnd.start s client id req).call m = s.call m :=
        Function.update_of_ne hm _ _
      show _ ↔ ∃ d, (GrpcEndToEnd.start s client id req).call m = some d ∧ _
      rw [hsame]
  · rcases hat m d hd with ⟨rfl, rfl⟩ | hd
    · -- nothing has been published under the new id
      have hnone : ((s.published client).filter fun p => p.1 = x) = [] := by
        refine List.filter_eq_nil_iff.mpr fun p hp heq => ?_
        obtain ⟨m, e, he, hclient, heid⟩ := h.own client p hp
        rw [of_decide_eq_true heq] at heid
        exact hunused m e x he heid hdid hclient
      exact congrArg (List.map Prod.snd) hnone
    · exact h.published m d x hd hdid
  · obtain ⟨m, d, hd, hclient, hdid⟩ := h.own client' p hp
    exact ⟨m, d, hkept m d hd, hclient, hdid⟩

theorem Inv.handle (h : Inv single s) {client : χ} {id : ι} (req : Req)
    (ho : (client, id) ∈ s.orders → s.reactorMap (client, id) ≠ none) :
    Inv single (handle s client id req) := by
  rw [GrpcEndToEnd.handle]
  cases hmap : s.reactorMap (client, id) with
  | some n => exact h
  | none =>
      refine h.start client (some id) req (fun x hx => ?_)
        (fun x hx => List.mem_cons_of_mem _ hx) fun client' x m => ?_
      · cases hx
        exact ⟨fun hmem => ho hmem hmap, List.mem_cons_self⟩
      · have hfresh : ∀ x, s.reactorMap x ≠ some s.count := by
          intro x hx
          obtain ⟨c, hc, -⟩ := (h.reactorMap x.1 x.2 s.count).mp hx
          rw [h.fresh s.count (Nat.le_refl _)] at hc
          cases hc
        by_cases hx : (client', x) = (client, id)
        · rw [hx, Function.update_self, hmap]
          cases hx
          by_cases hm : m = s.count
          · rw [if_pos hm, hm]
            exact iff_of_true rfl ⟨rfl, rfl⟩
          · rw [if_neg hm]
            exact iff_of_false (fun heq => hm (Option.some.inj heq).symm) fun heq => by cases heq
        · rw [Function.update_of_ne hx]
          by_cases hm : m = s.count
          · rw [if_pos hm, hm]
            refine iff_of_false (hfresh _) fun heq => hx ?_
            rw [heq.1, Option.some.inj heq.2]
          · rw [if_neg hm]

omit [DecidableEq χ] in
theorem Inv.runSyncClient (h : Inv single s) (client : χ) (req : Req) :
    Inv single (GrpcEndToEnd.start s client none req) := by
  refine h.start client none req (fun x hx => by cases hx) (fun x hx => hx)
    fun client' x m => ?_
  by_cases hm : m = s.count
  · rw [if_pos hm, hm]
    refine iff_of_false (fun hx => ?_) fun heq => by cases heq.2
    obtain ⟨c, hc, -⟩ := (h.reactorMap client' x s.count).mp hx
    rw [h.fresh s.count (Nat.le_refl _)] at hc
    cases hc
  · rw [if_neg hm]
    rfl

/-- A call of which the clients see nothing new. -/
theorem Inv.quietStep (h : Inv single s) (hc : s.call n = some c) (hsound : Sound single s c')
    (hclient : c'.client = c.client) (hid : c'.id = c.id) (hreq : c'.req = c.req)
    (hnumber : ∀ r, c.request = some r → c'.request = some r)
    (hnew : ∀ r, c'.request = some r → c.request = some r ∨
      ∀ m d, s.call m = some d → d.request ≠ some r)
    (hread : c'.read = c.read) (hstatus : c'.status = c.status) :
    Inv single (setCall s n c') := by
  refine h.callStep hc hsound hclient hid hreq hnumber hnew (fun client id m => ?_)
    (fun id hcid => ?_) fun _ _ _ => rfl
  · by_cases hm : m = n
    · rw [if_pos hm, hm, h.reactorMap client id n, hstatus]
      constructor
      · intro hex
        obtain ⟨d, hd, hopen⟩ := hex
        obtain rfl := Option.some.inj (hc.symm.trans hd)
        exact hopen
      · intro hopen
        exact ⟨c, hc, hopen⟩
    · rw [if_neg hm]
  · rw [hread]
    exact h.published n c id hc hcid

/-- The server takes a call: it gets the next number, and a reactor. -/
theorem Inv.serve (h : Inv single s) {t : Nat} {key : κ} (hc : s.call n = some c)
    (hrequest : c.request = none) (hkey : key ∉ s.server.issued) :
    Inv single (serve { s with server := WrapperRegistry.register s.server t key } n c
      s.server.count key) := by
  have hunused : ∀ m d, s.call m = some d → d.request ≠ some s.server.count := by
    intro m d hd hr
    obtain ⟨key', hmem⟩ := (h.sound m d hd).request _ hr
    exact Nat.lt_irrefl _ (h.server.lt _ _ hmem).1
  -- nothing has been said to a reactor that was not there
  have hnone : (s.server.calls.filter fun e => e.1 = s.server.count) = [] := by
    refine List.filter_eq_nil_iff.mpr fun e he hcount => ?_
    have hlt := (h.server.lt _ _ (h.server.own e he)).1
    rw [of_decide_eq_true hcount] at hlt
    exact Nat.lt_irrefl _ hlt
  have hstarted : (s.reactor s.server.count).started = [] := by
    obtain ⟨left, hleft⟩ := h.reactor s.server.count
    have hpushed := h.pushed s.server.count
    rw [hnone, hleft.pushed] at hpushed
    obtain ⟨hnil, hresps⟩ := List.append_eq_nil_iff.mp hpushed
    rw [hleft.started, hnil, hresps]
    rfl
  have hserver : Inv single { s with
      server := WrapperRegistry.register s.server t key
      reactor := Function.update s.reactor s.server.count .empty } := by
    refine h.serverStep (h.server.register t hkey) (fun _ _ hmem => List.mem_append_left _ hmem)
      (fun r => ?_) fun r => ?_
    · by_cases hr : r = s.server.count
      · rw [hr, Function.update_self]
        exact ⟨⟨[], holds_empty⟩, later_of_eq hstarted.symm⟩
      · rw [Function.update_of_ne hr]
        exact ⟨h.reactor r, later_of_eq rfl⟩
    · by_cases hr : r = s.server.count
      · rw [hr, Function.update_self]
        exact (congrArg (List.map _) hnone).symm
      · rw [Function.update_of_ne hr]
        exact h.pushed r
  have hs := hserver.sound n c hc
  have hempty : State.replies { s with
      server := WrapperRegistry.register s.server t key
      reactor := Function.update s.reactor s.server.count .empty } c = [] := by
    rw [State.replies, hrequest]
  have hread : c.read = [] := by
    have hnil := hs.read
    rw [hempty] at hnil
    exact List.prefix_nil.mp hnil
  have hcall : Inv single (setCall { s with
      server := WrapperRegistry.register s.server t key
      reactor := Function.update s.reactor s.server.count .empty } n
      { c with request := some s.server.count }) := by
    refine hserver.quietStep hc ⟨fun r hr => ?_, ?_, fun hstatus => ?_, hs.atMostOne, hs.isOpen⟩
      rfl rfl rfl (fun r hr => ?_) (fun r hr => ?_) rfl rfl
    · cases hr
      exact ⟨key, List.mem_append_right _ List.mem_cons_self⟩
    · dsimp only
      rw [hread]
      exact List.nil_prefix
    · -- it has not ended well, as nothing had been written
      have hfinish := (hs.complete hstatus).1
      rw [hempty] at hfinish
      cases hfinish
    · rw [hrequest] at hr
      cases hr
    · cases hr
      exact .inr hunused
  refine { hcall with sound := fun m d hd => ?_, asked := fun x hx => ?_, once := ?_ }
  · have hd' := hcall.sound m d hd
    exact ⟨hd'.request, hd'.read, hd'.complete, hd'.atMostOne, hd'.isOpen⟩
  · rcases List.mem_append.mp hx with hx | hx
    · exact hcall.asked x hx
    · rw [List.mem_singleton.mp hx]
      exact ⟨n, _, Function.update_self _ _ _, rfl, rfl⟩
  · show ((s.triggered ++ [(s.server.count, key, c.req)]).map Prod.fst).Nodup
    rw [List.map_append, List.map_singleton, List.nodup_append]
    refine ⟨h.once, List.pairwise_singleton _ _, fun r hr r' hr' heq => ?_⟩
    obtain ⟨x, hx, rfl⟩ := List.mem_map.mp hr
    obtain ⟨m, d, hd, hnumber, -⟩ := h.asked x hx
    rw [heq, List.mem_singleton.mp hr'] at hnumber
    exact hunused m d hd hnumber

/-- A response is read: the next one of those that have been started. -/
theorem Inv.onRead (h : Inv single s) (hc : s.call n = some c) (hreading : c.reading = true)
    {st : Start Resp} (hst : (s.replies c)[c.read.length]? = some st) :
    Inv single (onRead single s n c st.reply) := by
  have hs := h.sound n c hc
  have hread : c.read ++ [st.reply] <+: (s.replies c).map Start.reply := by
    obtain ⟨rest, hrest⟩ := hs.read
    have hget : (c.read ++ rest)[c.read.length]? = some st.reply := by
      rw [hrest, List.getElem?_map, hst]
      rfl
    rw [List.getElem?_append_right (Nat.le_refl _), Nat.sub_self] at hget
    cases rest with
    | nil => cases hget
    | cons y rest =>
        cases hget
        exact ⟨rest, by rw [← hrest, List.append_assoc]; rfl⟩
  have hsound : Sound single s
      { c with read := c.read ++ [st.reply], reading := !single c.client } := by
    refine ⟨hs.request, hread, fun hstatus => ?_, fun hsingle => ?_,
      fun _ => hs.isOpen hreading⟩
    · have hstatus' : c.status = some true := hstatus
      rw [hs.isOpen hreading] at hstatus'
      cases hstatus'
    · obtain ⟨-, hnone⟩ := hs.atMostOne hsingle
      dsimp only at hsingle ⊢
      rw [hnone hreading, hsingle]
      exact ⟨Nat.le_refl _, fun hread => by cases hread⟩
  refine h.callStep hc hsound rfl rfl rfl (fun _ hr => hr) (fun _ hr => .inl hr)
    (fun client id m => ?_) (fun id hid => ?_) fun client id hother => ?_
  · by_cases hm : m = n
    · rw [if_pos hm, hm]
      show s.reactorMap (client, id) = some n ↔ _
      rw [h.reactorMap client id n]
      constructor
      · intro hex
        obtain ⟨d, hd, hstill⟩ := hex
        obtain rfl := Option.some.inj (hc.symm.trans hd)
        exact hstill
      · intro hstill
        exact ⟨c, hc, hstill⟩
    · rw [if_neg hm]
      rfl
  · rw [hid]
    dsimp only
    rw [publishedAs, Function.update_self, List.filter_append, List.map_append, List.map_append,
      h.published n c id hc hid, List.filter_cons_of_pos (by simp)]
    rfl
  · cases hid : c.id with
    | none => rfl
    | some x =>
        dsimp only
        rw [hid] at hother
        by_cases hclient : client = c.client
        · have hx : x ≠ id := fun heq => hother ⟨hclient.symm, congrArg some heq⟩
          rw [publishedAs, hclient, Function.update_self, List.filter_append,
            List.filter_cons_of_neg (by simpa using hx), List.filter_nil, List.append_nil]
          rfl
        · rw [publishedAs, Function.update_of_ne hclient]
          rfl

/-- A call ends, and its reactor goes. -/
theorem Inv.onDone (h : Inv single s) (hc : s.call n = some c) {ok : Bool}
    (hmay : MayEnd s c ok) : Inv single (erase (setCall s n { c with status := some ok }) c) := by
  obtain ⟨hidle, hopen, hall⟩ := hmay
  have hs := h.sound n c hc
  have hsound : Sound single s { c with status := some ok } := by
    refine ⟨hs.request, hs.read, fun hstatus => ?_, hs.atMostOne, fun hreading => ?_⟩
    · obtain ⟨hlength, hfinish⟩ := hall (Option.some.inj hstatus)
      exact ⟨hfinish, hs.read.eq_of_length (by rw [List.length_map]; exact hlength)⟩
    · have hreading' : c.reading = true := hreading
      rw [hidle] at hreading'
      cases hreading'
  refine h.callStep hc hsound rfl rfl rfl (fun _ hr => hr) (fun _ hr => .inl hr)
    (fun client id m => ?_) (fun id hid => h.published n c id hc hid) fun _ _ _ => rfl
  · -- the entry was that of the call
    have hentry : ∀ client id, s.reactorMap (client, id) = some n ↔
        c.client = client ∧ c.id = some id := by
      intro client id
      rw [h.reactorMap client id n]
      constructor
      · intro hex
        obtain ⟨d, hd, hclient, hid, -⟩ := hex
        obtain rfl := Option.some.inj (hc.symm.trans hd)
        exact ⟨hclient, hid⟩
      · intro heq
        exact ⟨c, hc, heq.1, heq.2, hopen⟩
    have hafter : (erase (setCall s n { c with status := some ok }) c).reactorMap (client, id) =
        if c.client = client ∧ c.id = some id then none else s.reactorMap (client, id) := by
      unfold erase
      dsimp only
      cases hid : c.id with
      | none =>
          rw [if_neg fun heq => by cases heq.2]
          rfl
      | some x =>
          dsimp only
          rw [Function.update_apply]
          refine if_congr ?_ rfl rfl
          rw [Prod.mk.injEq, Option.some.injEq, eq_comm, @eq_comm _ id]
    show (erase (setCall s n { c with status := some ok }) c).reactorMap (client, id) = some m ↔ _
    rw [hafter]
    by_cases hm : m = n
    · rw [if_pos hm, hm]
      refine iff_of_false (fun heq => ?_) fun heq => by cases heq.2.2
      obtain ⟨hnot, heq⟩ := Option.ite_none_left_eq_some.mp heq
      exact hnot ((hentry client id).mp heq)
    · rw [if_neg hm, Option.ite_none_left_eq_some, and_iff_right_of_imp]
      intro heq hsame
      rw [(hentry client id).mpr hsame] at heq
      exact hm (Option.some.inj heq).symm

/-! ### All steps -/

omit [DecidableEq χ] [DecidableEq ι] in
/-- An orderly step of the registry is made, and no thread is stuck. -/
theorem of_serverStep {a : WrapperRegistry.Act κ (Bool × Resp)}
    {f : State χ ι κ Req Resp → State χ ι κ Req Resp} (hs : serverStep s a f = some s')
    (h : WrapperRegistry.Inv .grpc s.server) (ho : WrapperRegistry.Orderly s.server a) :
    ∃ server, WrapperRegistry.step .grpc s.server a = some server ∧
      WrapperRegistry.Inv .grpc server ∧ s' = f { s with server := server } := by
  obtain ⟨server, hserver, rfl⟩ := Option.map_eq_some_iff.mp hs
  have hinv := WrapperRegistry.inv_step h ho hserver
  refine ⟨server, hserver, hinv, ?_⟩
  rw [hinv.notStuck, if_neg Bool.false_ne_true]

theorem inv_step {a : Act χ ι κ Req Resp} (h : Inv single s) (ho : Orderly s a)
    (hs : step single s a = some s') : Inv single s' := by
  cases a with
  | handle client id req =>
      cases hs
      exact h.handle req ho
  | runSyncClient client req =>
      cases hs
      exact h.runSyncClient client req
  | serve t n key =>
      dsimp only [step] at hs
      split at hs
      · cases hs
      · next c hc =>
        obtain ⟨hrequest, hs⟩ := Option.ite_none_right_eq_some.mp hs
        obtain ⟨server, hserver, -, rfl⟩ := of_serverStep hs h.server ho
        obtain ⟨hkey, hlock⟩ := Option.ite_none_right_eq_some.mp hserver
        rw [← WrapperRegistry.eq_of_locking hlock ho]
        exact h.serve hc hrequest hkey.1
  | triggerReturns t =>
      obtain ⟨server, hserver, hinv, rfl⟩ := of_serverStep hs h.server trivial
      obtain ⟨-, rfl⟩ := of_guarded hserver
      exact h.registry hinv (fun _ _ hmem => hmem) rfl
  | respond t key y isFinal =>
      dsimp only [step] at hs
      obtain ⟨server, hserver, -, rfl⟩ := of_serverStep hs h.server ho
      obtain ⟨-, hlock⟩ := Option.ite_none_right_eq_some.mp hserver
      rw [← WrapperRegistry.eq_of_locking hlock ho]
      exact h.respond key y isFinal
  | onWriteDone r ok =>
      obtain ⟨x, hx, rfl⟩ := Option.map_eq_some_iff.mp hs
      exact h.reactorStep (fun _ _ heq => by cases heq) hx
  | onServerDone r ok =>
      obtain ⟨x, hx, rfl⟩ := Option.map_eq_some_iff.mp hs
      exact h.reactorStep (fun _ _ heq => by cases heq) hx
  | endHandling t key =>
      dsimp only [step] at hs
      split at hs
      · cases hs
      · next r hr =>
        obtain ⟨-, hs⟩ := Option.ite_none_right_eq_some.mp hs
        obtain ⟨server, hserver, hinv, rfl⟩ := of_serverStep hs h.server ho
        obtain ⟨-, hlock⟩ := Option.ite_none_right_eq_some.mp hserver
        rw [← WrapperRegistry.eq_of_locking hlock ho] at hinv ⊢
        exact h.registry hinv (fun _ _ hmem => List.mem_append_left _ hmem) rfl
  | onReadDone n good =>
      dsimp only [step] at hs
      split at hs
      · cases hs
      · next c hc =>
        obtain ⟨hreading, hs⟩ := Option.ite_none_right_eq_some.mp hs
        cases good with
        | true =>
            obtain ⟨st, hst, rfl⟩ := Option.map_eq_some_iff.mp hs
            exact h.onRead hc hreading hst
        | false =>
            cases hs
            have hc' := h.sound n c hc
            refine h.quietStep hc ⟨hc'.request, hc'.read, hc'.complete, fun hsingle => ?_,
              fun hread => by cases hread⟩ rfl rfl rfl (fun _ hr => hr) (fun _ hr => .inl hr)
              rfl rfl
            exact ⟨(hc'.atMostOne hsingle).1, fun hread => by cases hread⟩
  | onDone n ok =>
      dsimp only [step] at hs
      split at hs
      · cases hs
      · next c hc =>
        obtain ⟨hmay, rfl⟩ := of_guarded hs
        exact h.onDone hc hmay

/-! ## What holds of every run -/

omit [DecidableEq χ] in
/-- What has been started for a request is the beginning of what the facility has put out for it,
and all of that if the finish is in it. -/
theorem Inv.isAnswer (h : Inv single s) {r : Nat} {key : κ}
    (hr : .registered r key ∈ s.server.history) : ∃ ys, IsAnswer s r ys ∧
      (s.reactor r).started.map Start.reply <+: ys ∧
      ((s.reactor r).started.any isFinish = true →
        (s.reactor r).started.map Start.reply = ys) := by
  obtain ⟨before, since, hsplit⟩ := List.append_of_mem hr
  obtain ⟨left, hleft⟩ := h.reactor r
  have hpushed : (s.reactor r).pushed = WrapperRegistry.due .grpc key since := by
    have hserved := congrArg (List.map Prod.snd) (h.server.served r key before since hsplit)
    rw [List.map_map, List.map_map] at hserved
    exact (h.pushed r).trans (hserved.trans (List.map_id _))
  refine ⟨_, ⟨key, before, since, hsplit, rfl⟩, ?_⟩
  rw [← hpushed]
  exact ⟨hleft.started_sub, hleft.eq_of_finished⟩

omit [DecidableEq χ] in
/-- The same for a call: what it has read. -/
theorem Inv.call (h : Inv single s) (hc : s.call n = some c) :
    c.read = [] ∧ c.status ≠ some true ∨ ∃ r ys, c.request = some r ∧ IsAnswer s r ys ∧
      c.read <+: ys ∧ (c.status = some true → c.read = ys ∧ ys ≠ []) := by
  have hs := h.sound n c hc
  cases hr : c.request with
  | none =>
      have hnone : s.replies c = [] := by rw [State.replies, hr]
      refine .inl ⟨?_, fun hstatus => ?_⟩
      · have hread := hs.read
        rw [hnone] at hread
        exact List.prefix_nil.mp hread
      · have hfinish := (hs.complete hstatus).1
        rw [hnone] at hfinish
        cases hfinish
  | some r =>
      have hreplies : s.replies c = (s.reactor r).started := by rw [State.replies, hr]
      obtain ⟨key, hkey⟩ := hs.request r hr
      obtain ⟨ys, hanswer, hstarted, hall⟩ := h.isAnswer hkey
      refine .inr ⟨r, ys, rfl, hanswer, (hreplies ▸ hs.read).trans hstarted, fun hstatus => ?_⟩
      obtain ⟨hfinish, hread⟩ := hs.complete hstatus
      rw [hreplies] at hfinish hread
      refine ⟨hread.trans (hall hfinish), fun hnil => ?_⟩
      -- the finish itself carries a reply
      have hnone := List.map_eq_nil_iff.mp ((hall hfinish).trans hnil)
      rw [hnone] at hfinish
      cases hfinish

omit [DecidableEq χ] in
theorem Inv.right (h : Inv single s) : Right single s := by
  refine ⟨fun n c hc => ?_, fun n c hc hstatus => ?_, h.asked, h.once, h.apart, h.published, h.own,
    fun n c hc hsingle => ((h.sound n c hc).atMostOne hsingle).1, h.reactorMap,
    fun n c ok hc hstatus => ?_, h.server.notStuck⟩
  · rcases h.call hc with hnone | hread
    · exact .inl hnone.1
    · obtain ⟨r, ys, hr, hanswer, hsub, -⟩ := hread
      exact .inr ⟨r, ys, hr, hanswer, hsub⟩
  · rcases h.call hc with hnone | hread
    · exact absurd hstatus hnone.2
    · obtain ⟨r, ys, hr, hanswer, -, hall⟩ := hread
      exact ⟨r, ys, hr, hanswer, hall hstatus⟩
  · constructor
    · intro y hy
      have hfirst : c.read.head? = some y := by
        rw [typedOneShotRemoteCall, GrpcEndToEnd.runSyncClient] at hy
        split at hy
        · cases hy
        · exact hy
      rcases h.call hc with hnone | hread
      · rw [hnone.1] at hfirst
        cases hfirst
      · obtain ⟨r, ys, hr, hanswer, hsub, -⟩ := hread
        refine ⟨r, ys, hr, hanswer, ?_⟩
        obtain ⟨rest, rfl⟩ := hsub
        rw [List.head?_append, hfirst]
        rfl
    · rintro rfl
      rcases h.call hc with hnone | hread
      · exact absurd hstatus hnone.2
      · obtain ⟨r, ys, -, -, -, hall⟩ := hread
        obtain ⟨heq, hne⟩ := hall hstatus
        rw [typedOneShotRemoteCall, GrpcEndToEnd.runSyncClient, if_neg (fun heq => by cases heq.2),
          heq]
        exact List.isSome_head?.mpr hne

instance (s : State χ ι κ Req Resp) : (a : Act χ ι κ Req Resp) → Decidable (Orderly s a)
  | .handle client id _ => inferInstanceAs
      (Decidable ((client, id) ∈ s.orders → s.reactorMap (client, id) ≠ none))
  | .serve t _ _ | .respond t _ _ _ | .endHandling t _ => inferInstanceAs
      (Decidable (s.server.mutex.map Prod.fst ≠ some t))
  | .runSyncClient _ _ | .triggerReturns _ | .onWriteDone _ _ | .onServerDone _ _
  | .onReadDone _ _ | .onDone _ _ => .isTrue trivial

/-- The stream has three outputs, and one more that comes after the final one. The other call is
lost when it has been answered. -/
def streamed : List (Act Bool Nat Nat Nat Char) :=
  [.handle false 7 10, .runSyncClient true 20, .serve 0 0 100, .triggerReturns 0,
    .respond 1 100 'a' false, .serve 0 1 200, .triggerReturns 0, .respond 1 100 'b' false,
    .onReadDone 0 true, .respond 1 200 'x' true, .respond 1 100 'c' true, .onWriteDone 0 true,
    .respond 1 100 'd' false, .onReadDone 0 true, .onWriteDone 0 true, .onReadDone 0 true,
    .onServerDone 0 true, .endHandling 2 100, .onReadDone 0 false, .onDone 0 true,
    .onReadDone 1 false, .onDone 1 false]

def afterStreamed : State Bool Nat Nat Nat Char :=
  (machine id).exec (machine id).init streamed

end GrpcEndToEnd
