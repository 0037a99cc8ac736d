import TMTransport.RPC.Client
import TMTransport.RPC.Server

/-!
# Requests and replies from end to end

Several client connections, the queues of a broker, and a server connection, with the
facility behind it. A request is noted by its connection before it goes out, so a reply
cannot come too early. The broker may hand the requests over in any order, and the
replies of a queue in the order in which they were published; it may lose either.

Ids are made to be unique, and so every request has its own. Nothing is said here of
hooks: what a client sends is what the server's callback gets.
-/

namespace RPCEndToEnd

open Interleave RPC

/-! ## On the wire -/

/-- The transport keeps what is sent in it, if there is no NUL in an id or a queue. -/
structure Transport where
  request : Request → Request
  reply : Reply → Reply
  request_eq : ∀ r, cStr r.data.id = r.data.id → cStr r.replyTo = r.replyTo → request r = r
  reply_eq : ∀ r, cStr r.data.id = r.data.id → reply r = r

namespace RabbitMQ

/-- `sendRequest` of the client. The properties are set from C strings. -/
def requestEnvelope (r : Request) : Envelope where
  correlationId := cStr r.data.id
  replyTo := cStr r.replyTo
  contentType := none
  body := r.data.content

/-- `sendReply` of the server. -/
def replyEnvelope (rpcQueue : String) (r : Reply) : Envelope where
  correlationId := cStr r.data.id
  replyTo := cStr rpcQueue
  contentType := if r.isFinal then some "final" else none
  body := r.data.content

def transport (rpcQueue : String) : Transport where
  request r := RPC.RabbitMQ.request (requestEnvelope r)
  reply r := RPC.RabbitMQ.reply (replyEnvelope rpcQueue r)
  request_eq r hid hqueue := by
    rw [RPC.RabbitMQ.request, requestEnvelope]
    dsimp only
    rw [hid, hqueue]
  reply_eq r hid := by
    rw [RPC.RabbitMQ.reply, replyEnvelope]
    dsimp only
    rw [hid]
    obtain ⟨isFinal, data⟩ := r
    cases isFinal <;> rfl

end RabbitMQ

namespace Redis

/-- The values are encoded and decoded as a whole. -/
def transport : Transport where
  request r := RPC.Redis.request (r.replyTo, r.data)
  reply r := RPC.Redis.reply (r.isFinal, r.data)
  request_eq _ _ _ := rfl
  reply_eq _ _ := rfl

end Redis

/-! ## The connections and the broker -/

/-- The connections of the clients are known by `ι`. Each has a queue for its replies. -/
structure Setup (ι : Type) where
  transport : Transport
  /-- `localQueue_`, or `myCommunicationID_` -/
  queue : ι → String
  queue_injective : Function.Injective queue
  queue_noNul : ∀ i, cStr (queue i) = queue i

structure Net (ι θ : Type) where
  client : ι → RPCClient.State
  server : RPCServer.State θ
  /-- The requests that have been noted by a connection, and not reached the server. -/
  requests : List Request
  /-- What is in the queue of a connection. The oldest comes first. -/
  replies : ι → List Reply
  /-- For the record: what each connection has taken from its queue, the ids that requests have been
  sent under, and those of the messages that were lost. -/
  received : ι → List Reply
  used : List String
  lost : List String

inductive Act (ι θ : Type) where
  | addClient (i : ι)
  | removeClient (i : ι) (clientNumber : UInt32)
  | sendRequest (i : ι) (clientNumber : UInt32) (data : ByteDataWithID)
  /-- The server gets one of the requests. -/
  | receiveRequest (k : Nat)
  | loseRequest (k : Nat)
  /-- The server's callback is called. -/
  | handle
  /-- The facility replies, in the thread `t`. -/
  | sendReply (t : θ) (isFinal : Bool) (data : ByteDataWithID)
  | publish (t : θ)
  | receiveReply (i : ι)
  | loseReply (i : ι) (k : Nat)

variable {ι θ : Type} [DecidableEq ι] [DecidableEq θ]

section Step

variable (S : Setup ι)

/-- The broker puts a reply into the queue that it is for. -/
def enqueue (replies : ι → List Reply) (destination : String) (r : Reply) (i : ι) : List Reply :=
  if S.queue i = destination then replies i ++ [S.transport.reply r] else replies i

/-- A step of the server alone. -/
def serverStep (s : Net ι θ) (a : RPCServer.Act θ Request) : Option (Net ι θ) :=
  (RPCServer.step false id s.server a).map fun server => { s with server := server }

def step (s : Net ι θ) : Act ι θ → Option (Net ι θ)
  | .addClient i => some { s with
      client := Function.update s.client i (RPCClient.addClient (s.client i) ⟨false⟩) }
  | .removeClient i n => some { s with
      client := Function.update s.client i (RPCClient.removeClient (s.client i) n) }
  | .sendRequest i n data =>
    if .added n ∈ (s.client i).history then
      some { s with
        client := Function.update s.client i (RPCClient.sendRequest (s.client i) n data)
        requests := s.requests ++ [S.transport.request ⟨S.queue i, data⟩]
        used := data.id :: s.used }
    else none
  | .receiveRequest k =>
    match s.requests[k]? with
    | none => none
    | some r => serverStep { s with requests := s.requests.eraseIdx k } (.receive r none)
  | .loseRequest k =>
    match s.requests[k]? with
    | none => none
    | some r => some { s with requests := s.requests.eraseIdx k, lost := r.data.id :: s.lost }
  | .handle => serverStep s .handle
  | .sendReply t isFinal data => serverStep s (.sendReply t isFinal data)
  | .publish t =>
    match s.server.taken t with
    | none => none
    | some e =>
      serverStep { s with
        replies := enqueue S s.replies (cStr e.replyQueue) ⟨e.isFinal, e.data⟩ } (.publish t)
  | .receiveReply i =>
    match s.replies i with
    | [] => none
    | r :: rest => some { s with
        client := Function.update s.client i (RPCClient.dispatch (s.client i) r none)
        replies := Function.update s.replies i rest
        received := Function.update s.received i (s.received i ++ [r]) }
  | .loseReply i k =>
    match (s.replies i)[k]? with
    | none => none
    | some r => some { s with
        replies := Function.update s.replies i ((s.replies i).eraseIdx k)
        lost := r.data.id :: s.lost }

def machine : Machine (Net ι θ) (Act ι θ) where
  init := {
    client := fun _ => ⟨0, fun _ => none, .empty, []⟩
    server := ⟨fun _ => none, none, fun _ => none, [], [], fun _ => none, [], []⟩
    requests := []
    replies := fun _ => []
    received := fun _ => []
    used := []
    lost := [] }
  step := step S

end Step

/-- No connection gives out a number twice, no id is used twice, and there is no NUL in one. -/
def Orderly (s : Net ι θ) : Act ι θ → Prop
  | .addClient i => .added ((s.client i).clientCounter + 1) ∉ (s.client i).history
  | .sendRequest _ _ data => data.id ∉ s.used ∧ cStr data.id = data.id
  | _ => True

/-! ## What the connections are for -/

/-- What is said to an id, up to the final reply. -/
def upToFinal : List Reply → List Reply
  | [] => []
  | r :: rs => if r.isFinal then [r] else r :: upToFinal rs

def about (id : String) (l : List Reply) : List Reply := l.filter fun r => r.data.id = id

/-- What the callbacks of a connection have got under an id, in this order. -/
def passedTo (c : RPCClient.State) (id : String) : List Reply :=
  c.history.reverse.filterMap fun
    | .passed _ isFinal data => if data.id = id then some ⟨isFinal, data⟩ else none
    | _ => none

/-- What the server has published, in this order. -/
def published (s : RPCServer.State θ) : List Reply :=
  s.sent.reverse.map fun e => ⟨e.isFinal, e.data⟩

/-- Nothing is on its way. -/
structure Quiet (s : Net ι θ) : Prop where
  requests : s.requests = []
  handling : s.server.handling = none
  replies : ∀ i, s.replies i = []

structure Right (s : Net ι θ) : Prop where
  /-- A callback is about a request of the client, and says what was published for it. -/
  answered : ∀ i n isFinal data, .passed n isFinal data ∈ (s.client i).history →
    ∃ content, .sent n ⟨data.id, content⟩ ∈ (s.client i).history ∧
      ⟨data.id, content⟩ ∈ s.server.requests.map Request.data ∧
      ⟨isFinal, data⟩ ∈ published s.server
  /-- The server's callback gets what clients have sent, and nothing twice. -/
  handed : ∀ data ∈ s.server.handed.map Prod.snd, ∃ i n, .sent n data ∈ (s.client i).history
  handed_once : (s.server.handed.map fun x => x.2.id).Nodup
  in_order : ∀ i id, (passedTo (s.client i) id).Sublist (about id (published s.server))
  /-- There is nothing after a final reply. -/
  final_last : ∀ i id, ∀ r ∈ (passedTo (s.client i) id).dropLast, r.isFinal = false
  /-- What is not lost arrives. -/
  complete : Quiet s → ∀ i n data, .sent n data ∈ (s.client i).history → data.id ∉ s.lost →
    data ∈ s.server.handed.map Prod.snd ∧
      (.removed n ∉ (s.client i).history →
        passedTo (s.client i) data.id = upToFinal (about data.id (published s.server)))

/-! ## Up to the final reply -/

variable {l rs : List Reply} {r : Reply} {id : String}

theorem about_snoc (id : String) (l : List Reply) (r : Reply) :
    about id (l ++ [r]) = if r.data.id = id then about id l ++ [r] else about id l := by
  by_cases h : r.data.id = id <;> simp [about, h]

theorem upToFinal_of_none (h : ∀ r ∈ l, r.isFinal = false) : upToFinal l = l := by
  induction l with
  | nil => rfl
  | cons r l ih =>
      rw [upToFinal, h r List.mem_cons_self, if_neg Bool.false_ne_true,
        ih fun r' hr' => h r' (List.mem_cons_of_mem _ hr')]

theorem upToFinal_append_of_none (h : ∀ r ∈ l, r.isFinal = false) :
    upToFinal (l ++ [r]) = l ++ [r] := by
  induction l with
  | nil =>
      rw [List.nil_append, upToFinal]
      split <;> rfl
  | cons r' l ih =>
      rw [List.cons_append, upToFinal, h r' List.mem_cons_self, if_neg Bool.false_ne_true,
        ih fun r'' hr'' => h r'' (List.mem_cons_of_mem _ hr'')]

theorem upToFinal_append_of_mem (h : ∃ r ∈ l, r.isFinal = true) :
    upToFinal (l ++ rs) = upToFinal l := by
  induction l with
  | nil =>
      obtain ⟨r, hr, -⟩ := h
      cases hr
  | cons r' l ih =>
      rw [List.cons_append, upToFinal, upToFinal]
      split
      case isTrue => rfl
      case isFalse hopen =>
        obtain ⟨r, hr, hfinal⟩ := h
        rcases List.mem_cons.mp hr with rfl | hr
        · exact absurd hfinal hopen
        · rw [ih ⟨r, hr, hfinal⟩]

theorem upToFinal_prefix_append (l rs : List Reply) : upToFinal l <+: upToFinal (l ++ rs) := by
  induction l with
  | nil => exact List.nil_prefix
  | cons r l ih =>
      rw [List.cons_append, upToFinal, upToFinal]
      split
      · exact List.prefix_rfl
      · exact (List.prefix_cons_inj r).mpr ih

theorem upToFinal_prefix_self (l : List Reply) : upToFinal l <+: l := by
  induction l with
  | nil => exact List.nil_prefix
  | cons r l ih =>
      rw [upToFinal]
      split
      · exact (List.prefix_cons_inj r).mpr List.nil_prefix
      · exact (List.prefix_cons_inj r).mpr ih

/-! ## One connection -/

section Connection

variable {c : RPCClient.State} {received : List Reply} {n : UInt32} {data : ByteDataWithID}

/-- What a connection has passed on of what it has received. -/
structure Passes (c : RPCClient.State) (received : List Reply) : Prop where
  inv : RPCClient.Inv c
  noHook : ∀ n info, c.clients n = some info → info.hasHook = false
  /-- An id has one sender. -/
  owner : ∀ n id, c.maps.owner id = some n → ∃ content, .sent n ⟨id, content⟩ ∈ c.history
  sender : ∀ n m id content content', .sent n ⟨id, content⟩ ∈ c.history →
    .sent m ⟨id, content'⟩ ∈ c.history → n = m
  /-- Before the final reply all is passed on, if the client is there. -/
  waiting : ∀ n id, c.maps.owner id = some n →
    (∀ r ∈ about id received, r.isFinal = false) ∧
      ((c.clients n).isSome = true → passedTo c id = about id received)
  upTo : ∀ id, passedTo c id <+: upToFinal (about id received)
  done : ∀ n id content, .sent n ⟨id, content⟩ ∈ c.history → .removed n ∉ c.history →
    c.maps.owner id = none → passedTo c id = upToFinal (about id received) ∧
      ∃ r ∈ about id received, r.isFinal = true

theorem passes_init : Passes ⟨0, fun _ => none, .empty, []⟩ [] where
  inv := @RPCClient.inv_init Reply id
  noHook n info h := by cases h
  owner n id h := by cases h
  sender n m id content content' h := by cases h
  waiting n id h := by cases h
  upTo id := List.prefix_rfl
  done n id content h := by cases h

/-- An event that is no callback leaves what has been passed on. -/
theorem passedTo_cons {c c' : RPCClient.State} {e : RPCClient.Event}
    (hhistory : c'.history = e :: c.history)
    (he : ∀ n isFinal data, e ≠ .passed n isFinal data) (id : String) :
    passedTo c' id = passedTo c id := by
  rw [passedTo, passedTo, hhistory, List.reverse_cons, List.filterMap_append]
  cases e with
  | passed n isFinal data => exact absurd rfl (he n isFinal data)
  | _ => exact List.append_nil _

theorem passedTo_passed {c c' : RPCClient.State} {isFinal : Bool}
    (hhistory : c'.history = .passed n isFinal data :: c.history) (id : String) :
    passedTo c' id =
      if data.id = id then passedTo c id ++ [⟨isFinal, data⟩] else passedTo c id := by
  rw [passedTo, passedTo, hhistory, List.reverse_cons, List.filterMap_append]
  by_cases h : data.id = id
  · rw [if_pos h]
    simp [h]
  · rw [if_neg h]
    simp [h]

theorem registered_of_added {h : List RPCClient.Event} (ha : .added n ∈ h)
    (hr : .removed n ∉ h) : RPCClient.Registered h n := by
  induction h with
  | nil => cases ha
  | cons e h ih =>
      have hr' : .removed n ∉ h := fun hmem => hr (List.mem_cons_of_mem _ hmem)
      cases e with
      | added m =>
          rcases List.mem_cons.mp ha with heq | ha
          · cases heq
            exact .inl rfl
          · exact .inr (ih ha hr')
      | removed m =>
          rcases List.mem_cons.mp ha with heq | ha
          · cases heq
          · refine ⟨fun heq => hr ?_, ih ha hr'⟩
            rw [heq]
            exact List.mem_cons_self
      | _ =>
          rcases List.mem_cons.mp ha with heq | ha
          · cases heq
          · exact ih ha hr'

/-- A client that has an id and has not been removed is there. -/
theorem Passes.isSome (h : Passes c received) (ho : c.maps.owner id = some n)
    (hr : .removed n ∉ c.history) : (c.clients n).isSome = true :=
  (h.inv.clients n).mpr (registered_of_added (h.inv.added n id ho) hr)

theorem Passes.addClient (h : Passes c received)
    (hn : .added (c.clientCounter + 1) ∉ c.history) :
    Passes (RPCClient.addClient c ⟨false⟩) received := by
  have hpassed : ∀ id, passedTo (RPCClient.addClient c ⟨false⟩) id = passedTo c id :=
    passedTo_cons rfl fun n isFinal data heq => by cases heq
  have hsent : ∀ n data, .sent n data ∈ (RPCClient.addClient c ⟨false⟩).history →
      .sent n data ∈ c.history := by
    intro n data hmem
    rcases List.mem_cons.mp hmem with heq | hmem
    · cases heq
    · exact hmem
  refine ⟨h.inv.addClient hn, fun n info hc => ?_, fun n id ho => ?_,
    fun n m id content content' hs hs' => h.sender n m id content content' (hsent _ _ hs)
      (hsent _ _ hs'), fun n id ho => ?_, fun id => ?_, fun n id content hs hr ho => ?_⟩
  · have hupdate : Function.update c.clients (c.clientCounter + 1) (some ⟨false⟩) n = some info :=
      hc
    by_cases hnew : n = c.clientCounter + 1
    · rw [hnew, Function.update_self] at hupdate
      cases hupdate
      rfl
    · rw [Function.update_of_ne hnew] at hupdate
      exact h.noHook n info hupdate
  · obtain ⟨content, hs⟩ := h.owner n id ho
    exact ⟨content, List.mem_cons_of_mem _ hs⟩
  · obtain ⟨hopen, hall⟩ := h.waiting n id ho
    refine ⟨hopen, fun hsome => (hpassed id).trans (hall ?_)⟩
    -- nobody waits under the new number
    have hne : n ≠ c.clientCounter + 1 := fun heq => hn (heq ▸ h.inv.added n id ho)
    have hupdate : (Function.update c.clients (c.clientCounter + 1) (some ⟨false⟩) n).isSome =
      true := hsome
    rwa [Function.update_of_ne hne] at hupdate
  · rw [hpassed]
    exact h.upTo id
  · rw [hpassed]
    exact h.done n id content (hsent _ _ hs) (fun hmem => hr (List.mem_cons_of_mem _ hmem)) ho

theorem Passes.removeClient (h : Passes c received) (m : UInt32) :
    Passes (RPCClient.removeClient c m) received := by
  have hpassed : ∀ id, passedTo (RPCClient.removeClient c m) id = passedTo c id :=
    passedTo_cons rfl fun n isFinal data heq => by cases heq
  have hsent : ∀ n data, .sent n data ∈ (RPCClient.removeClient c m).history →
      .sent n data ∈ c.history := by
    intro n data hmem
    rcases List.mem_cons.mp hmem with heq | hmem
    · cases heq
    · exact hmem
  have howner : ∀ n id, (RPCClient.removeClient c m).maps.owner id = some n →
      c.maps.owner id = some n ∧ n ≠ m := by
    intro n id ho
    have hrelease : (if id ∈ c.maps.held m then none else c.maps.owner id) = some n := ho
    rw [Option.ite_none_left_eq_some] at hrelease
    refine ⟨hrelease.2, fun heq => hrelease.1 ?_⟩
    exact (h.inv.agrees.inverse id m).mp (heq ▸ hrelease.2)
  refine ⟨h.inv.removeClient, fun n info hc => ?_, fun n id ho => ?_,
    fun n m id content content' hs hs' => h.sender n m id content content' (hsent _ _ hs)
      (hsent _ _ hs'), fun n id ho => ?_, fun id => ?_, fun n id content hs hr ho => ?_⟩
  · have hupdate : Function.update c.clients m none n = some info := hc
    rw [Function.update_apply, Option.ite_none_left_eq_some] at hupdate
    exact h.noHook n info hupdate.2
  · obtain ⟨content, hs⟩ := h.owner n id (howner n id ho).1
    exact ⟨content, List.mem_cons_of_mem _ hs⟩
  · obtain ⟨ho, hne⟩ := howner n id ho
    obtain ⟨hopen, hall⟩ := h.waiting n id ho
    refine ⟨hopen, fun hsome => (hpassed id).trans (hall ?_)⟩
    have hupdate : (Function.update c.clients m none n).isSome = true := hsome
    rwa [Function.update_of_ne hne] at hupdate
  · rw [hpassed]
    exact h.upTo id
  · rw [hpassed]
    refine h.done n id content (hsent _ _ hs) (fun hmem => hr (List.mem_cons_of_mem _ hmem)) ?_
    have hrelease : (if id ∈ c.maps.held m then none else c.maps.owner id) = none := ho
    by_cases hheld : id ∈ c.maps.held m
    · -- the id is one of the client that is removed, which is not `n`
      obtain ⟨content', hs'⟩ := h.owner m id ((h.inv.agrees.inverse id m).mpr hheld)
      have heq := h.sender n m id content content' (hsent _ _ hs) hs'
      exact absurd (heq ▸ List.mem_cons_self) hr
    · rwa [if_neg hheld] at hrelease

theorem Passes.sendRequest (h : Passes c received) (hadded : .added n ∈ c.history)
    (hnew : ∀ n content, .sent n ⟨data.id, content⟩ ∉ c.history)
    (hreceived : about data.id received = []) :
    Passes (RPCClient.sendRequest c n data) received := by
  have hpassed : ∀ id, passedTo (RPCClient.sendRequest c n data) id = passedTo c id :=
    passedTo_cons rfl fun n isFinal data heq => by cases heq
  have hsent : ∀ m id content, .sent m ⟨id, content⟩ ∈ (RPCClient.sendRequest c n data).history →
      (m = n ∧ id = data.id) ∨ id ≠ data.id ∧ .sent m ⟨id, content⟩ ∈ c.history := by
    intro m id content hmem
    rcases List.mem_cons.mp hmem with heq | hmem
    · cases heq
      exact .inl ⟨rfl, rfl⟩
    · exact .inr ⟨fun heq => hnew m content (heq ▸ hmem), hmem⟩
  have howner : ∀ m id, (RPCClient.sendRequest c n data).maps.owner id = some m →
      (m = n ∧ id = data.id) ∨ id ≠ data.id ∧ c.maps.owner id = some m := by
    intro m id ho
    have hupdate : Function.update c.maps.owner data.id (some n) id = some m := ho
    by_cases hid : id = data.id
    · rw [hid, Function.update_self] at hupdate
      exact .inl ⟨(Option.some.inj hupdate).symm, hid⟩
    · rw [Function.update_of_ne hid] at hupdate
      exact .inr ⟨hid, hupdate⟩
  -- the maps do not know the id yet
  have hfree : ∀ m, c.maps.owner data.id = some m → m = n := by
    intro m ho
    obtain ⟨content, hs⟩ := h.owner m data.id ho
    exact absurd hs (hnew m content)
  refine ⟨h.inv.sendRequest hadded hfree, h.noHook, fun m id ho => ?_,
    fun m m' id content content' hs hs' => ?_, fun m id ho => ?_, fun id => ?_,
    fun m id content hs hr ho => ?_⟩
  · rcases howner m id ho with ⟨rfl, rfl⟩ | ⟨-, ho⟩
    · exact ⟨data.content, List.mem_cons_self⟩
    · obtain ⟨content, hs⟩ := h.owner m id ho
      exact ⟨content, List.mem_cons_of_mem _ hs⟩
  · rcases hsent m id content hs with ⟨rfl, rfl⟩ | ⟨hid, hs⟩
    · rcases hsent m' _ content' hs' with ⟨rfl, -⟩ | ⟨hid', -⟩
      · rfl
      · exact absurd rfl hid'
    · rcases hsent m' id content' hs' with ⟨-, rfl⟩ | ⟨-, hs'⟩
      · exact absurd rfl hid
      · exact h.sender m m' id content content' hs hs'
  · rw [hpassed]
    rcases howner m id ho with ⟨rfl, rfl⟩ | ⟨-, ho⟩
    · have hnone := h.upTo data.id
      rw [hreceived] at hnone ⊢
      refine ⟨fun r hr => ?_, fun _ => List.prefix_nil.mp hnone⟩
      cases hr
    · exact h.waiting m id ho
  · rw [hpassed]
    exact h.upTo id
  · rw [hpassed]
    rcases hsent m id content hs with ⟨-, rfl⟩ | ⟨hid, hs⟩
    · have hupdate : Function.update c.maps.owner data.id (some n) data.id = none := ho
      rw [Function.update_self] at hupdate
      cases hupdate
    · have hupdate : Function.update c.maps.owner data.id (some n) id = none := ho
      rw [Function.update_of_ne hid] at hupdate
      exact h.done m id content hs (fun hmem => hr (List.mem_cons_of_mem _ hmem)) hupdate

/-- What a reply brings about: the callback of the client that has its id, if it is there, and
the end of the id with the final reply. -/
theorem dispatch_cases (h : Passes c received) (r : Reply) :
    (c.maps.owner r.data.id = none ∧
      (∀ id, passedTo (RPCClient.dispatch c r none) id = passedTo c id)) ∨
    ∃ n, c.maps.owner r.data.id = some n ∧
      (((c.clients n).isSome = false ∧
        ∀ id, passedTo (RPCClient.dispatch c r none) id = passedTo c id) ∨
      ((c.clients n).isSome = true ∧ ∀ id, passedTo (RPCClient.dispatch c r none) id =
        if r.data.id = id then passedTo c id ++ [r] else passedTo c id)) := by
  have hsettle : ∀ id, passedTo (RPCClient.dispatch c r none) id =
      passedTo (RPCClient.pass c r none) id :=
    passedTo_cons rfl fun n isFinal data heq => by cases heq
  simp only [hsettle]
  cases ho : c.maps.owner r.data.id with
  | none =>
      refine .inl ⟨rfl, fun id => ?_⟩
      rw [RPCClient.pass, RPCClient.callback, ho]
      rfl
  | some n =>
      refine .inr ⟨n, rfl, ?_⟩
      cases hc : c.clients n with
      | none =>
          refine .inl ⟨rfl, fun id => ?_⟩
          simp only [RPCClient.pass, RPCClient.callback, ho, hc]
          rfl
      | some info =>
          refine .inr ⟨rfl, fun id => passedTo_passed (n := n) ?_ id⟩
          simp only [RPCClient.pass, RPCClient.callback, ho, hc, RPC.received, h.noHook n info hc]
          rfl

theorem dispatch_owner (c : RPCClient.State) (r : Reply) (id : String) :
    (RPCClient.dispatch c r none).maps.owner id =
      if r.isFinal = true ∧ r.data.id = id then none else c.maps.owner id := by
  show (if r.isFinal then c.maps.finish r.data.id else c.maps).owner id = _
  cases hfinal : r.isFinal with
  | false => simp
  | true =>
      simp only [if_true, true_and]
      cases ho : c.maps.owner r.data.id with
      | none =>
          have hnone : c.maps.finish r.data.id = c.maps := by
            rw [Registry.Maps.finish, ho]
          rw [hnone]
          split
          case isTrue hid => exact hid ▸ ho
          case isFalse => rfl
      | some n =>
          rw [Registry.finish_of_owner ho]
          show Function.update c.maps.owner r.data.id none id = _
          rw [Function.update_apply]
          simp only [eq_comm]

theorem dispatch_sent {r : Reply} :
    .sent n data ∈ (RPCClient.dispatch c r none).history ↔ .sent n data ∈ c.history := by
  have hcallback : .sent n data ∉ RPCClient.callback c r none := by
    intro hmem
    rcases RPCClient.callback_cases c r none with hnone | ⟨m, info, content, -, -, hone⟩
    · rw [hnone] at hmem
      cases hmem
    · rw [hone] at hmem
      cases List.mem_singleton.mp hmem
  show .sent n data ∈ .replied r.data.id r.isFinal ::
    (RPCClient.callback c r none ++ c.history) ↔ _
  rw [List.mem_cons, List.mem_append, or_iff_right hcallback]
  exact or_iff_right fun heq => by cases heq

theorem dispatch_removed {r : Reply} (h : .removed n ∉ (RPCClient.dispatch c r none).history) :
    .removed n ∉ c.history :=
  fun hmem => h (List.mem_cons_of_mem _ (List.mem_append_right _ hmem))

theorem Passes.dispatch (h : Passes c received) (r : Reply) :
    Passes (RPCClient.dispatch c r none) (received ++ [r]) := by
  have hcases := dispatch_cases h r
  have howner : ∀ n id, (RPCClient.dispatch c r none).maps.owner id = some n →
      c.maps.owner id = some n ∧ (r.data.id = id → r.isFinal = false) := by
    intro n id ho
    rw [dispatch_owner, Option.ite_none_left_eq_some] at ho
    refine ⟨ho.2, fun hid => Bool.eq_false_iff.mpr fun hfinal => ho.1 ⟨hfinal, hid⟩⟩
  refine ⟨h.inv.dispatch r none, h.noHook, fun n id ho => ?_,
    fun n m id content content' hs hs' => h.sender n m id content content' (dispatch_sent.mp hs)
      (dispatch_sent.mp hs'), fun n id ho => ?_, fun id => ?_, fun n id content hs hr ho => ?_⟩
  · obtain ⟨content, hs⟩ := h.owner n id (howner n id ho).1
    exact ⟨content, dispatch_sent.mpr hs⟩
  · obtain ⟨hold, hopen⟩ := howner n id ho
    obtain ⟨hnone, hall⟩ := h.waiting n id hold
    rw [about_snoc]
    by_cases hid : r.data.id = id
    · rw [if_pos hid]
      refine ⟨fun r' hr' => ?_, fun hsome => ?_⟩
      · rcases List.mem_append.mp hr' with hr' | hr'
        · exact hnone r' hr'
        · rw [List.mem_singleton.mp hr']
          exact hopen hid
      · have hsome : (c.clients n).isSome = true := hsome
        rcases hcases with ⟨hfree, -⟩ | ⟨m, hm, ⟨hgone, -⟩ | ⟨-, hpassed⟩⟩
        · rw [hid, hold] at hfree
          cases hfree
        · rw [hid, hold] at hm
          cases hm
          rw [hsome] at hgone
          cases hgone
        · rw [hpassed, if_pos hid, hall hsome]
    · rw [if_neg hid]
      refine ⟨hnone, fun hsome => ?_⟩
      rw [← hall hsome]
      rcases hcases with ⟨-, hpassed⟩ | ⟨m, -, ⟨-, hpassed⟩ | ⟨-, hpassed⟩⟩
      · exact hpassed id
      · exact hpassed id
      · rw [hpassed, if_neg hid]
  · have hgrow : upToFinal (about id received) <+: upToFinal (about id (received ++ [r])) := by
      rw [about_snoc]
      split
      · exact upToFinal_prefix_append _ _
      · exact List.prefix_rfl
    rcases hcases with ⟨-, hpassed⟩ | ⟨m, hm, ⟨-, hpassed⟩ | ⟨hsome, hpassed⟩⟩
    · rw [hpassed]
      exact (h.upTo id).trans hgrow
    · rw [hpassed]
      exact (h.upTo id).trans hgrow
    · rw [hpassed]
      by_cases hid : r.data.id = id
      · obtain ⟨hnone, hall⟩ := h.waiting m id (hid ▸ hm)
        rw [if_pos hid, about_snoc, if_pos hid, upToFinal_append_of_none hnone, hall hsome]
      · rw [if_neg hid]
        exact (h.upTo id).trans hgrow
  · have hs := dispatch_sent.mp hs
    have hr := dispatch_removed hr
    rw [about_snoc]
    cases hold : c.maps.owner id with
    | none =>
        obtain ⟨hall, hfinal⟩ := h.done n id content hs hr hold
        have hpassed : passedTo (RPCClient.dispatch c r none) id = passedTo c id := by
          rcases hcases with ⟨-, hpassed⟩ | ⟨m, hm, ⟨-, hpassed⟩ | ⟨-, hpassed⟩⟩
          · exact hpassed id
          · exact hpassed id
          · rw [hpassed, if_neg]
            intro hid
            rw [hid, hold] at hm
            cases hm
        rw [hpassed]
        split
        · rw [upToFinal_append_of_mem hfinal]
          obtain ⟨r', hr', hf⟩ := hfinal
          exact ⟨hall, r', List.mem_append_left _ hr', hf⟩
        · exact ⟨hall, hfinal⟩
    | some m =>
        -- this is the final reply to the id
        rw [dispatch_owner, hold] at ho
        have hlast : r.isFinal = true ∧ r.data.id = id := by
          by_contra hno
          rw [if_neg hno] at ho
          cases ho
        obtain ⟨content', hs'⟩ := h.owner m id hold
        obtain rfl := h.sender n m id content content' hs hs'
        have hsome := h.isSome hold hr
        obtain ⟨hnone, hall⟩ := h.waiting n id hold
        rw [if_pos hlast.2, upToFinal_append_of_none hnone]
        refine ⟨?_, r, List.mem_append_right _ List.mem_cons_self, hlast.1⟩
        rcases hcases with ⟨hfree, -⟩ | ⟨m, hm, ⟨hgone, -⟩ | ⟨-, hpassed⟩⟩
        · rw [hlast.2, hold] at hfree
          cases hfree
        · rw [hlast.2, hold] at hm
          cases hm
          rw [hsome] at hgone
          cases hgone
        · rw [hpassed, if_pos hlast.2, hall hsome]

end Connection

/-! ## The invariant -/

structure Inv (S : Setup ι) (s : Net ι θ) : Prop where
  passes : ∀ i, Passes (s.client i) (s.received i)
  sent_used : ∀ i n data, .sent n data ∈ (s.client i).history → data.id ∈ s.used
  /-- An id has one connection and one content. -/
  one_request : ∀ i j n m id content content', .sent n ⟨id, content⟩ ∈ (s.client i).history →
    .sent m ⟨id, content'⟩ ∈ (s.client j).history → i = j ∧ content = content'
  requests_nodup : ((s.requests ++ s.server.requests).map fun r => r.data.id).Nodup
  request_from : ∀ r ∈ s.requests ++ s.server.requests, cStr r.data.id = r.data.id ∧
    ∃ i n, r.replyTo = S.queue i ∧ .sent n r.data ∈ (s.client i).history
  request_kept : ∀ i n data, .sent n data ∈ (s.client i).history → data.id ∉ s.lost →
    ⟨S.queue i, data⟩ ∈ s.requests ++ s.server.requests
  replyMap : ∀ id q, s.server.replyMap id = some q →
    ∃ r ∈ s.server.requests, r.data.id = id ∧ r.replyTo = q
  taken : ∀ t e, s.server.taken t = some e →
    ∃ r ∈ s.server.requests, r.data.id = e.data.id ∧ r.replyTo = e.replyQueue
  sent : ∀ e ∈ s.server.sent, ∃ r ∈ s.server.requests, r.data.id = e.data.id
  /-- The server's callback gets all requests, in their order. -/
  handed : s.server.handed.reverse.map Prod.snd ++ (s.server.handling.bind Prod.snd).toList =
    s.server.requests.map Request.data
  arrived : ∀ i, (s.received i ++ s.replies i).Sublist (published s.server)
  arrived_all : ∀ i n data, .sent n data ∈ (s.client i).history → data.id ∉ s.lost →
    about data.id (s.received i ++ s.replies i) = about data.id (published s.server)

variable {S : Setup ι} {s s' : Net ι θ} {a : Act ι θ}

theorem inv_init (S : Setup ι) : Inv S (machine S : Machine (Net ι θ) (Act ι θ)).init where
  passes _ := passes_init
  sent_used i n data h := by cases h
  one_request i j n m id content content' h := by cases h
  requests_nodup := List.nodup_nil
  request_from r h := by cases h
  request_kept i n data h := by cases h
  replyMap id q h := by cases h
  taken t e h := by cases h
  sent e h := by cases h
  handed := rfl
  arrived _ := List.Sublist.slnil
  arrived_all i n data h := by cases h

omit [DecidableEq ι] [DecidableEq θ] in
/-- What a connection has received was published, for a request that the server has got. -/
theorem Inv.reply_from (h : Inv S s) {i : ι} {r : Reply} (hr : r ∈ s.received i ++ s.replies i) :
    r ∈ published s.server ∧ ∃ q ∈ s.server.requests, q.data.id = r.data.id := by
  have hpublished := (h.arrived i).subset hr
  obtain ⟨e, he, rfl⟩ := List.mem_map.mp hpublished
  exact ⟨hpublished, h.sent e (List.mem_reverse.mp he)⟩

omit [DecidableEq ι] [DecidableEq θ] in
theorem Inv.used_of_request (h : Inv S s) {r : Request} (hr : r ∈ s.requests ++ s.server.requests) :
    r.data.id ∈ s.used := by
  obtain ⟨-, i, n, -, hsent⟩ := h.request_from r hr
  exact h.sent_used i n r.data hsent

/-! ### Steps of a client -/

omit [DecidableEq θ] in
/-- A step of one connection that sends nothing. -/
theorem Inv.client (h : Inv S s) (i : ι) {c : RPCClient.State}
    (hpasses : Passes c (s.received i))
    (hsent : ∀ n data, .sent n data ∈ c.history ↔ .sent n data ∈ (s.client i).history) :
    Inv S { s with client := Function.update s.client i c } := by
  have hall : ∀ j n data, .sent n data ∈ (Function.update s.client i c j).history ↔
      .sent n data ∈ (s.client j).history := by
    intro j n data
    by_cases hj : j = i
    · rw [hj, Function.update_self]
      exact hsent n data
    · rw [Function.update_of_ne hj]
  refine ⟨fun j => ?_, fun j n data hs => h.sent_used j n data ((hall j n data).mp hs),
    fun j k n m id content content' hs hs' => h.one_request j k n m id content content'
      ((hall j n _).mp hs) ((hall k m _).mp hs'), h.requests_nodup, fun r hr => ?_,
    fun j n data hs hl => h.request_kept j n data ((hall j n data).mp hs) hl, h.replyMap, h.taken,
    h.sent, h.handed, h.arrived,
    fun j n data hs hl => h.arrived_all j n data ((hall j n data).mp hs) hl⟩
  · by_cases hj : j = i
    · subst hj
      show Passes (Function.update s.client j c j) (s.received j)
      rw [Function.update_self]
      exact hpasses
    · show Passes (Function.update s.client i c j) (s.received j)
      rw [Function.update_of_ne hj]
      exact h.passes j
  · obtain ⟨hnul, j, n, hq, hs⟩ := h.request_from r hr
    exact ⟨hnul, j, n, hq, (hall j n r.data).mpr hs⟩

theorem sent_addClient {c : RPCClient.State} {info : RPCClient.OneClientInfo} {n : UInt32}
    {data : ByteDataWithID} :
    .sent n data ∈ (RPCClient.addClient c info).history ↔ .sent n data ∈ c.history :=
  List.mem_cons.trans (or_iff_right fun heq => by cases heq)

theorem sent_removeClient {c : RPCClient.State} {m n : UInt32} {data : ByteDataWithID} :
    .sent n data ∈ (RPCClient.removeClient c m).history ↔ .sent n data ∈ c.history :=
  List.mem_cons.trans (or_iff_right fun heq => by cases heq)

omit [DecidableEq θ] in
/-- A new request. -/
theorem Inv.sendRequest (h : Inv S s) (i : ι) {n : UInt32} {data : ByteDataWithID}
    (hadded : .added n ∈ (s.client i).history) (hfresh : data.id ∉ s.used)
    (hnul : cStr data.id = data.id) :
    Inv S { s with
      client := Function.update s.client i (RPCClient.sendRequest (s.client i) n data)
      requests := s.requests ++ [S.transport.request ⟨S.queue i, data⟩]
      used := data.id :: s.used } := by
  have hwire : S.transport.request ⟨S.queue i, data⟩ = ⟨S.queue i, data⟩ :=
    S.transport.request_eq _ hnul (S.queue_noNul i)
  rw [hwire]
  have hall : ∀ j m x, .sent m x ∈ (Function.update s.client i
      (RPCClient.sendRequest (s.client i) n data) j).history ↔
      (j = i ∧ m = n ∧ x = data) ∨ .sent m x ∈ (s.client j).history := by
    intro j m x
    by_cases hj : j = i
    · subst hj
      rw [Function.update_self]
      refine List.mem_cons.trans (or_congr_left ?_)
      simp
    · rw [Function.update_of_ne hj]
      exact (or_iff_right fun hnew => hj hnew.1).symm
  have hold : ∀ {j m content}, .sent m ⟨data.id, content⟩ ∉ (s.client j).history := by
    intro j m content hs
    exact hfresh (h.sent_used j m ⟨data.id, content⟩ hs)
  have hmem : ∀ r, r ∈ s.requests ++ [⟨S.queue i, data⟩] ++ s.server.requests ↔
      r = ⟨S.queue i, data⟩ ∨ r ∈ s.requests ++ s.server.requests := by
    intro r
    simp only [List.mem_append, List.mem_singleton]
    exact or_assoc.trans or_left_comm
  -- nothing has been said to the id
  have hsilent : about data.id (published s.server) = [] := by
    refine List.filter_eq_nil_iff.mpr fun r hr hid => ?_
    obtain ⟨e, he, rfl⟩ := List.mem_map.mp hr
    obtain ⟨q, hq, hqid⟩ := h.sent e (List.mem_reverse.mp he)
    have hused := h.used_of_request (List.mem_append_right _ hq)
    rw [hqid] at hused
    exact hfresh ((of_decide_eq_true hid) ▸ hused)
  have hnone : about data.id (s.received i ++ s.replies i) = [] := by
    have hsub := (h.arrived i).filter fun r => r.data.id = data.id
    exact List.sublist_nil.mp (hsilent ▸ hsub)
  refine ⟨fun j => ?_, fun j m x hs => ?_, fun j k m m' id content content' hs hs' => ?_, ?_,
    fun r hr => ?_, fun j m x hs hl => ?_, h.replyMap, h.taken, h.sent, h.handed, h.arrived,
    fun j m x hs hl => ?_⟩
  · by_cases hj : j = i
    · subst hj
      show Passes (Function.update s.client j _ j) (s.received j)
      rw [Function.update_self]
      refine (h.passes j).sendRequest hadded (fun _ _ => hold) ?_
      rw [about, List.filter_append, List.append_eq_nil_iff] at hnone
      exact hnone.1
    · show Passes (Function.update s.client i _ j) (s.received j)
      rw [Function.update_of_ne hj]
      exact h.passes j
  · rcases (hall j m x).mp hs with ⟨-, -, rfl⟩ | hs
    · exact List.mem_cons_self
    · exact List.mem_cons_of_mem _ (h.sent_used j m x hs)
  · rcases (hall j m _).mp hs with ⟨rfl, -, rfl⟩ | hearlier
    · rcases (hall k m' _).mp hs' with ⟨rfl, -, heq⟩ | hearlier
      · cases heq
        exact ⟨rfl, rfl⟩
      · exact (hold hearlier).elim
    · rcases (hall k m' _).mp hs' with ⟨-, -, rfl⟩ | hearlier'
      · exact (hold hearlier).elim
      · exact h.one_request j k m m' id content content' hearlier hearlier'
  · have hnodup := h.requests_nodup
    have hperm : (s.requests ++ [(⟨S.queue i, data⟩ : Request)] ++ s.server.requests).Perm
        (⟨S.queue i, data⟩ :: (s.requests ++ s.server.requests)) := by
      rw [List.append_assoc]
      exact List.perm_middle
    rw [(hperm.map fun r => r.data.id).nodup_iff, List.map_cons, List.nodup_cons]
    refine ⟨fun hid => ?_, hnodup⟩
    obtain ⟨r, hr, heq⟩ := List.mem_map.mp hid
    exact hfresh (heq ▸ h.used_of_request hr)
  · rcases (hmem r).mp hr with rfl | hr
    · exact ⟨hnul, i, n, rfl, (hall i n data).mpr (.inl ⟨rfl, rfl, rfl⟩)⟩
    · obtain ⟨hnul, j, m, hq, hs⟩ := h.request_from r hr
      exact ⟨hnul, j, m, hq, (hall j m r.data).mpr (.inr hs)⟩
  · refine (hmem _).mpr ?_
    rcases (hall j m x).mp hs with ⟨rfl, -, rfl⟩ | hs
    · exact .inl rfl
    · exact .inr (h.request_kept j m x hs hl)
  · rcases (hall j m x).mp hs with ⟨rfl, -, rfl⟩ | hs
    · exact hnone.trans hsilent.symm
    · exact h.arrived_all j m x hs hl

omit [DecidableEq θ] in
/-- A reply is taken from the queue. -/
theorem Inv.receiveReply (h : Inv S s) (i : ι) {r : Reply} {rest : List Reply}
    (hreplies : s.replies i = r :: rest) :
    Inv S { s with
      client := Function.update s.client i (RPCClient.dispatch (s.client i) r none)
      replies := Function.update s.replies i rest
      received := Function.update s.received i (s.received i ++ [r]) } := by
  have hall : ∀ j n data, .sent n data ∈ (Function.update s.client i
      (RPCClient.dispatch (s.client i) r none) j).history ↔
      .sent n data ∈ (s.client j).history := by
    intro j n data
    by_cases hj : j = i
    · rw [hj, Function.update_self]
      exact dispatch_sent
    · rw [Function.update_of_ne hj]
  have hsame : ∀ j, Function.update s.received i (s.received i ++ [r]) j ++
      Function.update s.replies i rest j = s.received j ++ s.replies j := by
    intro j
    by_cases hj : j = i
    · rw [hj, Function.update_self, Function.update_self, hreplies, List.append_assoc]
      rfl
    · rw [Function.update_of_ne hj, Function.update_of_ne hj]
  refine ⟨fun j => ?_, fun j n data hs => h.sent_used j n data ((hall j n data).mp hs),
    fun j k n m id content content' hs hs' => h.one_request j k n m id content content'
      ((hall j n _).mp hs) ((hall k m _).mp hs'), h.requests_nodup, fun q hq => ?_,
    fun j n data hs hl => h.request_kept j n data ((hall j n data).mp hs) hl, h.replyMap, h.taken,
    h.sent, h.handed, fun j => ?_, fun j n data hs hl => ?_⟩
  · by_cases hj : j = i
    · subst hj
      show Passes (Function.update s.client j _ j) (Function.update s.received j _ j)
      rw [Function.update_self, Function.update_self]
      exact (h.passes j).dispatch r
    · show Passes (Function.update s.client i _ j) (Function.update s.received i _ j)
      rw [Function.update_of_ne hj, Function.update_of_ne hj]
      exact h.passes j
  · obtain ⟨hnul, j, n, hto, hs⟩ := h.request_from q hq
    exact ⟨hnul, j, n, hto, (hall j n q.data).mpr hs⟩
  · have hsub := h.arrived j
    rwa [← hsame j] at hsub
  · have heq := h.arrived_all j n data ((hall j n data).mp hs) hl
    rwa [← hsame j] at heq

/-! ### Losses -/

/-- What is taken out of a list at an index, and what is left. -/
theorem perm_eraseIdx {α : Type} {l : List α} {k : Nat} {x : α} (hk : l[k]? = some x) :
    (x :: l.eraseIdx k).Perm l := by
  obtain ⟨hlt, rfl⟩ := List.getElem?_eq_some_iff.mp hk
  exact List.getElem_cons_eraseIdx_perm hlt

omit [DecidableEq ι] [DecidableEq θ] in
theorem Inv.loseRequest (h : Inv S s) {k : Nat} {r : Request} (hk : s.requests[k]? = some r) :
    Inv S { s with requests := s.requests.eraseIdx k, lost := r.data.id :: s.lost } := by
  have hperm := (perm_eraseIdx hk).append_right s.server.requests
  have hsub : ∀ q, q ∈ s.requests.eraseIdx k ++ s.server.requests →
      q ∈ s.requests ++ s.server.requests :=
    fun q hq => hperm.mem_iff.mp (List.mem_cons_of_mem r hq)
  have hlost : ∀ {id : String}, id ∉ r.data.id :: s.lost → id ≠ r.data.id ∧ id ∉ s.lost := by
    intro id hid
    exact ⟨fun heq => hid (heq ▸ List.mem_cons_self), fun hmem => hid (List.mem_cons_of_mem _ hmem)⟩
  refine ⟨h.passes, h.sent_used, h.one_request, ?_, fun q hq => h.request_from q (hsub q hq),
    fun i n data hs hl => ?_, h.replyMap, h.taken, h.sent, h.handed, h.arrived,
    fun i n data hs hl => h.arrived_all i n data hs (hlost hl).2⟩
  · have hnodup := ((hperm.map fun q => q.data.id).nodup_iff).mpr h.requests_nodup
    exact (List.nodup_cons.mp hnodup).2
  · rcases List.mem_cons.mp (hperm.mem_iff.mpr (h.request_kept i n data hs (hlost hl).2)) with
      heq | hmem
    · exact absurd (congrArg (fun q => q.data.id) heq) (hlost hl).1
    · exact hmem

omit [DecidableEq θ] in
theorem Inv.loseReply (h : Inv S s) {i : ι} {k : Nat} {r : Reply}
    (hk : (s.replies i)[k]? = some r) :
    Inv S { s with
      replies := Function.update s.replies i ((s.replies i).eraseIdx k)
      lost := r.data.id :: s.lost } := by
  refine ⟨h.passes, h.sent_used, h.one_request, h.requests_nodup, h.request_from,
    fun j n data hs hl => h.request_kept j n data hs fun hmem => hl (List.mem_cons_of_mem _ hmem),
    h.replyMap, h.taken, h.sent, h.handed, fun j => ?_, fun j n data hs hl => ?_⟩
  · have hsub := h.arrived j
    by_cases hj : j = i
    · subst hj
      show (s.received j ++ Function.update s.replies j _ j).Sublist _
      rw [Function.update_self]
      exact ((List.eraseIdx_sublist ..).append_left _).trans hsub
    · show (s.received j ++ Function.update s.replies i _ j).Sublist _
      rwa [Function.update_of_ne hj]
  · have heq := h.arrived_all j n data hs fun hmem => hl (List.mem_cons_of_mem _ hmem)
    by_cases hj : j = i
    · subst hj
      show about data.id (s.received j ++ Function.update s.replies j _ j) = _
      rw [Function.update_self, ← heq]
      -- what is lost is about another id
      have hne : r.data.id ≠ data.id := fun hid => hl (hid ▸ List.mem_cons_self)
      obtain ⟨hlt, hr⟩ := List.getElem?_eq_some_iff.mp hk
      have hsplit : (s.replies j) =
          (s.replies j).take k ++ r :: (s.replies j).drop (k + 1) := by
        rw [← hr, List.getElem_cons_drop, List.take_append_drop]
      rw [List.eraseIdx_eq_take_drop_succ, about, about, List.filter_append, List.filter_append]
      conv_rhs => rw [hsplit]
      rw [List.filter_append, List.filter_append, List.filter_cons_of_neg (by simpa using hne)]
    · show about data.id (s.received j ++ Function.update s.replies i _ j) = _
      rwa [Function.update_of_ne hj]

/-! ### Steps of the server -/

omit [DecidableEq ι] [DecidableEq θ] in
theorem Inv.receiveRequest (h : Inv S s) {k : Nat} {r : Request} (hk : s.requests[k]? = some r)
    (hidle : s.server.handling = none) :
    Inv S { s with
      requests := s.requests.eraseIdx k
      server := RPCServer.receive false s.server r none } := by
  have hperm : (s.requests.eraseIdx k ++ (s.server.requests ++ [r])).Perm
      (s.requests ++ s.server.requests) := by
    refine List.Perm.trans ?_ ((perm_eraseIdx hk).append_right s.server.requests)
    rw [← List.append_assoc]
    exact List.perm_append_singleton r _
  have hgrow : ∀ {p : Request → Prop}, (∃ q ∈ s.server.requests, p q) →
      ∃ q ∈ s.server.requests ++ [r], p q := by
    intro p ⟨q, hq, hp⟩
    exact ⟨q, List.mem_append_left _ hq, hp⟩
  refine ⟨h.passes, h.sent_used, h.one_request, ?_,
    fun q hq => h.request_from q (hperm.mem_iff.mp hq),
    fun i n data hs hl => hperm.mem_iff.mpr (h.request_kept i n data hs hl), fun id q hq => ?_,
    fun t e he => hgrow (h.taken t e he), fun e he => hgrow (h.sent e he), ?_, h.arrived,
    h.arrived_all⟩
  · exact ((hperm.map fun q => q.data.id).nodup_iff).mpr h.requests_nodup
  · have hupdate : Function.update s.server.replyMap r.data.id (some r.replyTo) id = some q := hq
    by_cases hid : id = r.data.id
    · subst hid
      rw [Function.update_self] at hupdate
      exact ⟨r, List.mem_append_right _ List.mem_cons_self, rfl, Option.some.inj hupdate⟩
    · rw [Function.update_of_ne hid] at hupdate
      exact hgrow (h.replyMap id q hupdate)
  · have hhanded := h.handed
    rw [hidle] at hhanded
    show s.server.handed.reverse.map Prod.snd ++ [r.data] =
      (s.server.requests ++ [r]).map Request.data
    rw [List.map_append, ← hhanded]
    simp

omit [DecidableEq ι] [DecidableEq θ] in
/-- A step of the server that changes nothing but what is named. -/
theorem Inv.server (h : Inv S s) {server : RPCServer.State θ}
    (hrequests : server.requests = s.server.requests)
    (hmap : ∀ id q, server.replyMap id = some q → s.server.replyMap id = some q)
    (htaken : ∀ t e, server.taken t = some e →
      ∃ r ∈ s.server.requests, r.data.id = e.data.id ∧ r.replyTo = e.replyQueue)
    (hsent : server.sent = s.server.sent)
    (hhanded : server.handed.reverse.map Prod.snd ++ (server.handling.bind Prod.snd).toList =
      s.server.handed.reverse.map Prod.snd ++ (s.server.handling.bind Prod.snd).toList) :
    Inv S { s with server := server } := by
  refine ⟨h.passes, h.sent_used, h.one_request, ?_, ?_, ?_, fun id q hq => ?_, ?_, ?_, ?_,
    fun i => ?_, fun i n data hs hl => ?_⟩
  · show ((s.requests ++ server.requests).map _).Nodup
    rw [hrequests]
    exact h.requests_nodup
  · show ∀ r ∈ s.requests ++ server.requests, _
    rw [hrequests]
    exact h.request_from
  · show ∀ i n data, _ → _ → _ ∈ s.requests ++ server.requests
    rw [hrequests]
    exact h.request_kept
  · show ∃ r ∈ server.requests, _
    rw [hrequests]
    exact h.replyMap id q (hmap id q hq)
  · show ∀ t e, server.taken t = some e → ∃ r ∈ server.requests, _
    rw [hrequests]
    exact htaken
  · show ∀ e ∈ server.sent, ∃ r ∈ server.requests, _
    rw [hrequests, hsent]
    exact h.sent
  · show _ = server.requests.map Request.data
    rw [hrequests, ← h.handed]
    exact hhanded
  · show List.Sublist _ (server.sent.reverse.map _)
    rw [hsent]
    exact h.arrived i
  · show _ = about data.id (server.sent.reverse.map _)
    rw [hsent]
    exact h.arrived_all i n data hs hl

omit [DecidableEq ι] in
theorem Inv.sendReply (h : Inv S s) (t : θ) (isFinal : Bool) (data : ByteDataWithID) :
    Inv S { s with server := RPCServer.take s.server t isFinal data } := by
  rw [RPCServer.take]
  cases hq : s.server.replyMap data.id with
  | none => exact h
  | some replyQueue =>
      have htaken : ∀ t' e, Function.update s.server.taken t
          (some ⟨replyQueue, isFinal, data, s.server.pending data.id⟩) t' = some e →
          ∃ r ∈ s.server.requests, r.data.id = e.data.id ∧ r.replyTo = e.replyQueue := by
        intro t' e he
        by_cases ht : t' = t
        · rw [ht, Function.update_self] at he
          cases he
          exact h.replyMap data.id replyQueue hq
        · rw [Function.update_of_ne ht] at he
          exact h.taken t' e he
      cases isFinal with
      | false => exact h.server rfl (fun _ _ => id) htaken rfl rfl
      | true =>
          refine h.server rfl (fun id q hid => ?_) htaken rfl rfl
          have hupdate : Function.update s.server.replyMap data.id none id = some q := hid
          rw [Function.update_apply, Option.ite_none_left_eq_some] at hupdate
          exact hupdate.2

omit [DecidableEq ι] [DecidableEq θ] in
theorem Inv.handle (h : Inv S s) {k : Nat} {accepted : Option ByteDataWithID}
    (hh : s.server.handling = some (k, accepted)) :
    Inv S { s with server := { s.server with
      handling := none
      handed := (accepted.map fun data => (k, data)).toList ++ s.server.handed } } := by
  refine h.server rfl (fun _ _ => id) h.taken rfl ?_
  rw [hh]
  cases accepted with
  | none => simp
  | some data => simp

/-- A reply goes out, into the queue of the connection that its request is from. -/
theorem Inv.publish (h : Inv S s) {t : θ} {e : RPCServer.Taken}
    (ht : s.server.taken t = some e) :
    Inv S { s with
      replies := enqueue S s.replies (cStr e.replyQueue) ⟨e.isFinal, e.data⟩
      server := { s.server with
        taken := Function.update s.server.taken t none
        sent := ⟨cStr e.replyQueue, e.isFinal, e.data, e.request⟩ :: s.server.sent } } := by
  obtain ⟨r, hr, hid, hto⟩ := h.taken t e ht
  obtain ⟨hnul, j, m, hqueue, hfrom⟩ := h.request_from r (List.mem_append_right _ hr)
  have hdestination : cStr e.replyQueue = S.queue j := by
    rw [← hto, hqueue, S.queue_noNul]
  have hwire : S.transport.reply ⟨e.isFinal, e.data⟩ = ⟨e.isFinal, e.data⟩ :=
    S.transport.reply_eq _ (hid ▸ hnul)
  have hpublished : published ({ s.server with
      taken := Function.update s.server.taken t none
      sent := ⟨cStr e.replyQueue, e.isFinal, e.data, e.request⟩ :: s.server.sent }) =
      published s.server ++ [⟨e.isFinal, e.data⟩] := by
    rw [published, published, List.reverse_cons, List.map_append]
    rfl
  refine ⟨h.passes, h.sent_used, h.one_request, h.requests_nodup, h.request_from, h.request_kept,
    h.replyMap, fun t' e' he => ?_, fun e' he => ?_, h.handed, fun i => ?_,
    fun i n data hs hl => ?_⟩
  · have hupdate : Function.update s.server.taken t none t' = some e' := he
    rw [Function.update_apply, Option.ite_none_left_eq_some] at hupdate
    exact h.taken t' e' hupdate.2
  · rcases List.mem_cons.mp he with rfl | he
    · exact ⟨r, hr, hid⟩
    · exact h.sent e' he
  · rw [hpublished]
    show (s.received i ++ enqueue S s.replies (cStr e.replyQueue) _ i).Sublist _
    rw [enqueue, hdestination, hwire]
    split
    · rw [← List.append_assoc]
      exact (h.arrived i).append (List.Sublist.refl _)
    · exact (h.arrived i).trans (List.sublist_append_left _ _)
  · have heq := h.arrived_all i n data hs hl
    rw [hpublished, about_snoc]
    show about data.id (s.received i ++ enqueue S s.replies (cStr e.replyQueue) _ i) = _
    rw [enqueue, hdestination, hwire]
    by_cases hi : i = j
    · subst hi
      rw [if_pos rfl, ← List.append_assoc, about_snoc, heq]
    · rw [if_neg fun hq => hi (S.queue_injective hq), if_neg, heq]
      -- an id of this connection is of no other one
      intro hsame
      have hdata : r.data.id = data.id := hid.trans hsame
      obtain ⟨id, content⟩ := data
      obtain ⟨replyTo, id', content'⟩ := r
      cases hdata
      exact hi (h.one_request i j n m id content content' hs hfrom).1

/-! ### All steps -/

theorem inv_step (h : Inv S s) (ho : Orderly s a) (hstep : step S s a = some s') : Inv S s' := by
  cases a with
  | addClient i =>
      cases hstep
      exact h.client i ((h.passes i).addClient ho) fun _ _ => sent_addClient
  | removeClient i n =>
      cases hstep
      exact h.client i ((h.passes i).removeClient n) fun _ _ => sent_removeClient
  | sendRequest i n data =>
      obtain ⟨hadded, rfl⟩ := of_guarded hstep
      exact h.sendRequest i hadded ho.1 ho.2
  | receiveRequest k =>
      simp only [step] at hstep
      split at hstep
      · cases hstep
      · next r hk =>
        obtain ⟨server, hserver, rfl⟩ := Option.map_eq_some_iff.mp hstep
        simp only [RPCServer.step] at hserver
        split at hserver
        · next hidle =>
          cases hserver
          exact h.receiveRequest hk hidle
        · cases hserver
  | loseRequest k =>
      simp only [step] at hstep
      split at hstep
      · cases hstep
      · next r hk =>
        cases hstep
        exact h.loseRequest hk
  | handle =>
      obtain ⟨server, hserver, rfl⟩ := Option.map_eq_some_iff.mp hstep
      simp only [RPCServer.step] at hserver
      split at hserver
      · cases hserver
      · next k accepted hh =>
        cases hserver
        exact h.handle hh
  | sendReply t isFinal data =>
      obtain ⟨server, hserver, rfl⟩ := Option.map_eq_some_iff.mp hstep
      simp only [RPCServer.step] at hserver
      split at hserver
      · cases hserver
        exact h.sendReply t isFinal data
      · cases hserver
  | publish t =>
      simp only [step] at hstep
      split at hstep
      · cases hstep
      · next e ht =>
        obtain ⟨server, hserver, rfl⟩ := Option.map_eq_some_iff.mp hstep
        simp only [RPCServer.step, ht] at hserver
        cases hserver
        exact h.publish ht
  | receiveReply i =>
      simp only [step] at hstep
      split at hstep
      · cases hstep
      · next r rest hreplies =>
        cases hstep
        exact h.receiveReply i hreplies
  | loseReply i k =>
      simp only [step] at hstep
      split at hstep
      · cases hstep
      · next r hk =>
        cases hstep
        exact h.loseReply hk

/-! ## What holds of every run -/

omit [DecidableEq ι] [DecidableEq θ] in
/-- What a callback has got was received by its connection. -/
theorem Inv.passed_sub (h : Inv S s) (i : ι) (id : String) :
    (passedTo (s.client i) id).Sublist (about id (published s.server)) := by
  have hprefix := ((h.passes i).upTo id).trans (upToFinal_prefix_self _)
  refine hprefix.sublist.trans (List.Sublist.filter _ ?_)
  exact (List.sublist_append_left _ _).trans (h.arrived i)

theorem mem_passedTo {c : RPCClient.State} {n : UInt32} {isFinal : Bool} {data : ByteDataWithID}
    (h : .passed n isFinal data ∈ c.history) : ⟨isFinal, data⟩ ∈ passedTo c data.id :=
  List.mem_filterMap.mpr ⟨_, List.mem_reverse.mpr h, by simp⟩

theorem final_last_of_upToFinal (l : List Reply) :
    ∀ r ∈ (upToFinal l).dropLast, r.isFinal = false := by
  induction l with
  | nil =>
      intro r hr
      cases hr
  | cons r' l ih =>
      intro r hr
      rw [upToFinal] at hr
      split at hr
      case isTrue => cases hr
      case isFalse hopen =>
        cases hrest : upToFinal l with
        | nil =>
            rw [hrest] at hr
            cases hr
        | cons r'' rest =>
            rw [hrest, List.dropLast_cons_cons] at hr
            rcases List.mem_cons.mp hr with rfl | hr
            · exact eq_false_of_ne_true hopen
            · exact ih r (hrest ▸ hr)

theorem mem_dropLast_of_initial {α : Type} {l l' : List α} (h : l <+: l') {x : α}
    (hx : x ∈ l.dropLast) : x ∈ l'.dropLast := by
  obtain ⟨rest, rfl⟩ := h
  cases rest with
  | nil => rwa [List.append_nil]
  | cons y rest =>
      rw [List.dropLast_append_of_ne_nil (List.cons_ne_nil y rest)]
      exact List.mem_append_left _ (List.dropLast_subset _ hx)

omit [DecidableEq ι] [DecidableEq θ] in
theorem Inv.right (h : Inv S s) : Right s := by
  have hdata : ∀ data ∈ s.server.handed.map Prod.snd,
      data ∈ s.server.requests.map Request.data := by
    intro data hmem
    rw [← h.handed]
    refine List.mem_append_left _ ?_
    rwa [List.map_reverse, List.mem_reverse]
  refine ⟨fun i n isFinal data hp => ?_, fun data hmem => ?_, ?_, h.passed_sub, fun i id => ?_,
    fun hquiet i n data hs hl => ?_⟩
  · -- the client was waiting, and the reply was published for its request
    obtain ⟨since, before, hsplit⟩ := List.append_of_mem hp
    obtain ⟨⟨since', before', content, hbefore, -⟩, -⟩ :=
      (h.passes i).inv.passed since before n isFinal data hsplit
    have hsent : .sent n ⟨data.id, content⟩ ∈ (s.client i).history := by
      rw [hsplit, hbefore]
      simp
    have hpublished := List.mem_of_mem_filter ((h.passed_sub i data.id).subset (mem_passedTo hp))
    obtain ⟨e, he, heq⟩ := List.mem_map.mp hpublished
    obtain ⟨r, hr, hid⟩ := h.sent e (List.mem_reverse.mp he)
    obtain ⟨-, j, m, -, hfrom⟩ := h.request_from r (List.mem_append_right _ hr)
    obtain ⟨replyTo, id', content'⟩ := r
    have hsame : id' = data.id := hid.trans (congrArg (fun q => q.data.id) heq)
    subst hsame
    obtain ⟨-, rfl⟩ := h.one_request i j n m _ content content' hsent hfrom
    exact ⟨content, hsent, List.mem_map_of_mem hr, hpublished⟩
  · obtain ⟨r, hr, rfl⟩ := List.mem_map.mp (hdata data hmem)
    obtain ⟨-, i, n, -, hs⟩ := h.request_from r (List.mem_append_right _ hr)
    exact ⟨i, n, hs⟩
  · have hnodup : (s.server.requests.map fun r => r.data.id).Nodup := by
      refine h.requests_nodup.sublist (List.Sublist.map _ ?_)
      exact List.sublist_append_right _ _
    have hids : (s.server.handed.reverse.map fun x => x.2.id).Sublist
        (s.server.requests.map fun r => r.data.id) := by
      have hmap := congrArg (List.map fun data : ByteDataWithID => data.id) h.handed
      rw [List.map_append, List.map_map, List.map_map] at hmap
      exact hmap ▸ List.sublist_append_left _ _
    have hreverse := hnodup.sublist hids
    rwa [List.map_reverse, List.nodup_reverse] at hreverse
  · intro r hr
    exact final_last_of_upToFinal _ r (mem_dropLast_of_initial ((h.passes i).upTo id) hr)
  · have hrequest := h.request_kept i n data hs hl
    rw [hquiet.requests, List.nil_append] at hrequest
    have hhanded := h.handed
    rw [hquiet.handling, Option.bind_none, Option.toList_none, List.append_nil] at hhanded
    refine ⟨?_, fun hr => ?_⟩
    · have hmem : data ∈ s.server.requests.map Request.data := List.mem_map_of_mem hrequest
      rwa [← hhanded, List.map_reverse, List.mem_reverse] at hmem
    · have harrived := h.arrived_all i n data hs hl
      rw [hquiet.replies i, List.append_nil] at harrived
      rw [← harrived]
      cases ho : (s.client i).maps.owner data.id with
      | none => exact ((h.passes i).done n data.id data.content hs hr ho).1
      | some m =>
          obtain ⟨content, hs'⟩ := (h.passes i).owner m data.id ho
          obtain rfl := (h.passes i).sender n m data.id data.content content hs hs'
          obtain ⟨hnone, hall⟩ := (h.passes i).waiting n data.id ho
          rw [upToFinal_of_none hnone, hall ((h.passes i).isSome ho hr)]

instance (s : Net ι θ) : (a : Act ι θ) → Decidable (Orderly s a)
  | .addClient i => inferInstanceAs
      (Decidable (.added ((s.client i).clientCounter + 1) ∉ (s.client i).history))
  | .sendRequest _ _ data => inferInstanceAs (Decidable (data.id ∉ s.used ∧ cStr data.id = data.id))
  | .removeClient _ _ | .receiveRequest _ | .loseRequest _ | .handle | .sendReply _ _ _
  | .publish _ | .receiveReply _ | .loseReply _ _ => .isTrue trivial

def twoConnections : Setup Bool where
  transport := RabbitMQ.transport "rpc"
  queue i := if i then "a" else "b"
  queue_injective i j h := by cases i <;> cases j <;> first | rfl | exact absurd h (by decide)
  queue_noNul := by decide +kernel

/-- Both ask. The one is answered twice, and one of the answers to the other is lost. -/
def asked : List (Act Bool Unit) :=
  [.addClient true, .addClient false, .sendRequest true 1 ⟨"x", "?"⟩,
    .sendRequest false 1 ⟨"y", "??"⟩, .receiveRequest 1, .handle, .receiveRequest 0, .handle,
    .sendReply () false ⟨"x", "wait"⟩, .publish (), .sendReply () false ⟨"y", "wait"⟩, .publish (),
    .sendReply () true ⟨"x", "!"⟩, .publish (), .sendReply () true ⟨"y", "!!"⟩, .publish (),
    .loseReply false 0, .receiveReply true, .receiveReply false, .receiveReply true]

def afterAsked : Net Bool Unit := (machine twoConnections).exec (machine twoConnections).init asked

end RPCEndToEnd
