import Mathlib.Data.List.Count
import TMTransport.RPC.Connections

/-!
# Calls for one reply

`typedOneShotRemoteCall` sets a client of its own, sends one request and gives back a
future. The client's callback fulfils the promise with the first reply that is for the
caller. A reply that cannot be decoded fulfils it with an exception. With `autoDisconnect`
a new thread waits a little, removes the client and then fulfils the promise.

The flag `done` is set where a reply has been decoded, and not where it could not be. So
each undecodable reply starts a thread of its own, and the second one to finish removes a
client that may be somebody else's by then. While the first reply of each call can be
decoded, the calls clean up after themselves and disturb nobody (`settled_of_orderly`).
-/

namespace OneShotCalls

open Interleave RPC RPCConnections

/-! ## One call -/

section Call

variable (L B E : Type)

/-- What the callback makes of a reply. -/
inductive Reply where
  /-- `process_incoming_data` does not accept it. -/
  | ignored
  | undecodable (ex : E)
  | decoded (b : B)

/-- How far a thread has come that disconnects. -/
inductive Stage where
  | sleeping
  | disconnected
  /-- The promise is made ready, if it was this thread that fulfilled it. -/
  | exited
  deriving DecidableEq

structure Thread where
  outcome : Except E B
  stage : Stage

structure Call where
  /-- `rpcQueueLocator` and `*clientNum`, and the connection that the requester has. -/
  handle : Handle L
  autoDisconnect : Bool
  done : Bool
  /-- `ret` -/
  promise : Option (Except E B)
  /-- The threads that the callback has started. -/
  threads : List (Thread B E)
  /-- For the record: the replies that have come. -/
  replies : List (Reply B E)

end Call

variable {θ L ι B E : Type}

/-- What a reply is to the caller, unless it is ignored. -/
def Reply.outcome : Reply B E → Option (Except E B)
  | .ignored => none
  | .undecodable ex => some (.error ex)
  | .decoded b => some (.ok b)

/-- What the first reply was that is for the caller. -/
def firstOutcome (replies : List (Reply B E)) : Option (Except E B) :=
  replies.findSome? Reply.outcome

namespace Call

/-- `set_value` and `set_exception`: a promise that is fulfilled throws, which is caught. -/
def fulfil (c : Call L B E) (outcome : Except E B) : Call L B E :=
  { c with promise := c.promise.or (some outcome) }

/-- At once, or by a thread that disconnects first. -/
def finish (c : Call L B E) (outcome : Except E B) : Call L B E :=
  if c.autoDisconnect then { c with threads := c.threads ++ [⟨outcome, .sleeping⟩] }
  else c.fulfil outcome

def callback (c : Call L B E) (r : Reply B E) : Call L B E :=
  if c.done then c
  else
    match r with
    | .ignored => c
    | .decoded b => { c with done := true }.finish (.ok b)
    | .undecodable ex => c.finish (.error ex)

def receive (c : Call L B E) (r : Reply B E) : Call L B E :=
  { c.callback r with replies := c.replies ++ [r] }

def setStage (c : Call L B E) (n : Nat) (stage : Stage) : Call L B E :=
  { c with threads := c.threads.modify n fun t => { t with stage := stage } }

end Call

/-! ## Many calls, and other clients -/

structure State (θ L ι B E : Type) where
  connections : RPCConnections.State θ L
  calls : ι → Option (Call L B E)

inductive Act (θ L ι B E : Type) where
  /-- Other clients, and the parts of a call before its client is added and after. -/
  | connections (a : RPCConnections.Act θ L)
  /-- The client of a call is added. -/
  | addClient (t : θ) (i : ι) (autoDisconnect : Bool)
  /-- A reply to the call's request. -/
  | reply (i : ι) (r : Reply B E)
  /-- A thread removes the client. -/
  | disconnect (i : ι) (n : Nat)
  /-- It fulfils the promise. -/
  | exit (i : ι) (n : Nat)

section Step

variable [DecidableEq θ] [DecidableEq L] [DecidableEq ι] (k : Component)

def State.setCall (s : State θ L ι B E) (i : ι) (c : Call L B E) : State θ L ι B E :=
  { s with calls := Function.update s.calls i (some c) }

/-- The client is among those of its connection, so its callback is called. -/
def Registered (s : RPCConnections.State θ L) (h : Handle L) : Bool :=
  match s.objects h.conn with
  | some conn => h.number ∈ conn.clients
  | none => false

def step (s : State θ L ι B E) : Act θ L ι B E → Option (State θ L ι B E)
  | .connections a => (RPCConnections.step k s.connections a).map fun conns =>
      { s with connections := conns }
  | .addClient t i autoDisconnect =>
    match s.calls i, s.connections.call t with
    | none, .adding c =>
      match s.connections.objects c with
      | some conn => some
          { connections := RPCConnections.addClient s.connections t c
            calls := Function.update s.calls i (some
              ⟨⟨conn.locator, c, conn.clientCounter + 1⟩, autoDisconnect, false, none, [], []⟩) }
      | none => some { s with connections := s.connections.fault t }
    | _, _ => none
  | .reply i r =>
    match s.calls i with
    | some c => if Registered s.connections c.handle then some (s.setCall i (c.receive r)) else none
    | none => none
  | .disconnect i n =>
    match s.calls i with
    | some c =>
      match c.threads[n]? with
      | some ⟨_, .sleeping⟩ => some
          { s.setCall i (c.setStage n .disconnected) with
            connections := removeClient k s.connections c.handle }
      | _ => none
    | none => none
  | .exit i n =>
    match s.calls i with
    | some c =>
      match c.threads[n]? with
      | some ⟨outcome, .disconnected⟩ => some (s.setCall i ((c.fulfil outcome).setStage n .exited))
      | _ => none
    | none => none

def machine : Machine (State θ L ι B E) (Act θ L ι B E) where
  init := ⟨(RPCConnections.machine k).init, fun _ => none⟩
  step := step k

end Step

/-! ## What a connection holds -/

/-- The connections in the component hold the clients that have been set and not removed, and none
is there without reason. -/
structure Tight (s : RPCConnections.State θ L) : Prop where
  clients : ∀ l c conn, s.connections l = some c → s.objects c = some conn → ∀ n ∈ conn.clients,
    ⟨l, c, n⟩ ∈ s.issued ∧ ⟨l, c, n⟩ ∉ s.removed
  /-- Where there are no clients, one is being added. -/
  busy : ∀ l c conn, s.connections l = some c → s.objects c = some conn → conn.clients = ∅ →
    ∃ t, s.call t = .adding c
  removed : ∀ h ∈ s.removed, h ∈ s.issued

/-- Once all clients are removed, no connection is left. -/
theorem Tight.gone {s : RPCConnections.State θ L} (h : Tight s) (hi : RPCConnections.Inv s)
    (hidle : ∀ t, s.call t = .idle) (hremoved : ∀ h ∈ s.issued, h ∈ s.removed) (l : L) :
    s.connections l = none := by
  cases hl : s.connections l with
  | none => rfl
  | some c =>
      obtain ⟨conn, hconn, -⟩ := hi.held l c hl
      exfalso
      rcases conn.clients.eq_empty_or_nonempty with hempty | ⟨n, hn⟩
      · obtain ⟨t, ht⟩ := h.busy l c conn hl hconn hempty
        rw [hidle t] at ht
        cases ht
      · obtain ⟨hissued, hnot⟩ := h.clients l c conn hl hconn n hn
        exact hnot (hremoved _ hissued)

section TightStep

variable [DecidableEq θ] [DecidableEq L] {k : Component} {s s' : RPCConnections.State θ L}

omit [DecidableEq L] in
/-- A thread that is not adding a client is no reason for a connection to be there. -/
theorem adding_setCall {t t' : θ} {c : Nat} {call : RPCConnections.Call}
    (ht : s.call t ≠ .adding c) (h : s.call t' = .adding c) :
    (s.setCall t call).call t' = .adding c := by
  have hne : t' ≠ t := fun e => ht (e ▸ h)
  exact (Function.update_of_ne hne _ _).trans h

omit [DecidableEq L] in
theorem Tight.setCall {t : θ} {call : RPCConnections.Call} (h : Tight s)
    (ht : ∀ c, s.call t ≠ .adding c) : Tight (s.setCall t call) where
  clients := h.clients
  busy l c conn hl hc hempty := by
    obtain ⟨t', ht'⟩ := h.busy l c conn hl hc hempty
    exact ⟨t', adding_setCall (ht c) ht'⟩
  removed := h.removed

theorem Tight.createConnection {t : θ} {l : L} {fails : Bool} (h : Tight s)
    (hi : RPCConnections.Inv s) (ht : s.call t = .idle) :
    Tight (createConnection s t l fails) := by
  have hnot : ∀ c, s.call t ≠ .adding c := fun c e => by rw [ht] at e; cases e
  unfold RPCConnections.createConnection
  cases hl : s.connections l with
  | some c => exact h.setCall hnot
  | none =>
      cases fails with
      | true => exact h
      | false =>
          simp only [Bool.false_eq_true, if_false]
          -- the connections that were there are other objects
          have hold : ∀ l' c conn, Function.update s.connections l (some s.nextObject) l' = some c →
              Function.update s.objects s.nextObject (some ⟨l, 0, ∅⟩) c = some conn →
              (conn.clients = ∅ ∧ c = s.nextObject) ∨
                (s.connections l' = some c ∧ s.objects c = some conn) := by
            intro l' c conn hl' hc
            by_cases e : l' = l
            · rw [e, Function.update_self] at hl'
              obtain rfl := Option.some.inj hl'
              rw [Function.update_self] at hc
              obtain rfl := Option.some.inj hc
              exact .inl ⟨rfl, rfl⟩
            · rw [Function.update_of_ne e] at hl'
              obtain ⟨conn', hconn', -⟩ := hi.held l' c hl'
              have hlt := hi.allocated c conn' hconn'
              rw [Function.update_of_ne (by omega)] at hc
              exact .inr ⟨hl', hc⟩
          refine ⟨fun l' c conn hl' hc n hn => ?_, fun l' c conn hl' hc hempty => ?_, h.removed⟩
          · rcases hold l' c conn hl' hc with ⟨hempty, -⟩ | ⟨hl', hc⟩
            · rw [hempty] at hn
              exact absurd hn (Finset.notMem_empty n)
            · exact h.clients l' c conn hl' hc n hn
          · rcases hold l' c conn hl' hc with ⟨-, rfl⟩ | ⟨hl', hc⟩
            · exact ⟨t, Function.update_self _ _ _⟩
            · obtain ⟨t', ht'⟩ := h.busy l' c conn hl' hc hempty
              exact ⟨t', adding_setCall (hnot c) ht'⟩

omit [DecidableEq θ] [DecidableEq L] in
/-- The new client's number has not been given out before. -/
theorem new_of_fresh {c : Nat} {conn : Connection L}
    (hfresh : ∀ h ∈ s.issued, h.conn = c → h.number ≠ conn.clientCounter + 1) :
    (⟨conn.locator, c, conn.clientCounter + 1⟩ : Handle L) ∉ s.issued :=
  fun hmem => hfresh _ hmem rfl rfl

omit [DecidableEq L] in
theorem Tight.addClient {t : θ} {c : Nat} {conn : Connection L} (h : Tight s)
    (hi : RPCConnections.Inv s) (ht : s.call t = .adding c) (hconn : s.objects c = some conn)
    (hfresh : ∀ h ∈ s.issued, h.conn = c → h.number ≠ conn.clientCounter + 1) :
    Tight (addClient s t c) := by
  have hnew := new_of_fresh hfresh
  simp only [RPCConnections.addClient, hconn]
  have hobjects : ∀ c' conn', Function.update s.objects c (some { conn with
      clientCounter := conn.clientCounter + 1
      clients := insert (conn.clientCounter + 1) conn.clients }) c' = some conn' →
      (c' = c ∧ conn'.clients = insert (conn.clientCounter + 1) conn.clients) ∨
        (c' ≠ c ∧ s.objects c' = some conn') := by
    intro c' conn' hc
    by_cases e : c' = c
    · rw [e, Function.update_self] at hc
      obtain rfl := Option.some.inj hc
      exact .inl ⟨e, rfl⟩
    · rw [Function.update_of_ne e] at hc
      exact .inr ⟨e, hc⟩
  refine ⟨fun l c' conn' hl hc n hn => ?_, fun l c' conn' hl hc hempty => ?_, fun h' hmem => ?_⟩
  · rcases hobjects c' conn' hc with ⟨rfl, hclients⟩ | ⟨-, hc⟩
    · rw [hclients] at hn
      rcases Finset.mem_insert.mp hn with rfl | hn
      · obtain ⟨conn'', hconn'', hlocator⟩ := hi.held l c' hl
        obtain rfl := Option.some.inj (hconn.symm.trans hconn'')
        rw [← hlocator]
        exact ⟨List.mem_cons_self, fun hmem => hnew (h.removed _ hmem)⟩
      · obtain ⟨hissued, hnot⟩ := h.clients l c' conn hl hconn n hn
        exact ⟨List.mem_cons_of_mem _ hissued, hnot⟩
    · obtain ⟨hissued, hnot⟩ := h.clients l c' conn' hl hc n hn
      exact ⟨List.mem_cons_of_mem _ hissued, hnot⟩
  · rcases hobjects c' conn' hc with ⟨-, hclients⟩ | ⟨hne, hc⟩
    · rw [hclients] at hempty
      exact absurd hempty (Finset.insert_ne_empty _ _)
    · obtain ⟨t', ht'⟩ := h.busy l c' conn' hl hc hempty
      have hadding : s.call t ≠ .adding c' := by
        intro e
        rw [ht] at e
        exact hne (RPCConnections.Call.adding.inj e).symm
      exact ⟨t', adding_setCall hadding ht'⟩
  · exact List.mem_cons_of_mem _ (h.removed h' hmem)

omit [DecidableEq θ] in
/-- What a removal changes: nothing but its record, or the connection that is found, which goes
with its last client. -/
theorem removeClient_cases (k : Component) (hi : RPCConnections.Inv s) (h : Handle L) :
    (removeClient k s h).issued = s.issued ∧ (removeClient k s h).removed = h :: s.removed ∧
      (removeClient k s h).call = s.call ∧
      ((s.connections h.locator = none ∧ (removeClient k s h).connections = s.connections ∧
          (removeClient k s h).objects = s.objects) ∨
        ∃ c conn, s.connections h.locator = some c ∧ s.objects c = some conn ∧
          conn.locator = h.locator ∧
          ((∃ x, (removeClient k s h).objects = Function.update s.objects c x ∧
              (removeClient k s h).connections = Function.update s.connections h.locator none) ∨
            (conn.clients.erase h.number ≠ ∅ ∧ (removeClient k s h).objects =
                Function.update s.objects c
                  (some { conn with clients := conn.clients.erase h.number }) ∧
              (removeClient k s h).connections = s.connections))) := by
  cases hl : s.connections h.locator with
  | none =>
      have hs : removeClient k s h = { s with removed := h :: s.removed } := by
        simp [removeClient, hl]
      rw [hs]
      exact ⟨rfl, rfl, rfl, .inl ⟨rfl, rfl, rfl⟩⟩
  | some c =>
      obtain ⟨conn, hconn, hlocator⟩ := hi.held _ c hl
      by_cases hempty : conn.clients.erase h.number = ∅
      · simp only [removeClient, hl, hconn, hempty, if_true]
        exact ⟨rfl, rfl, rfl, .inr ⟨c, conn, rfl, hconn, hlocator, .inl ⟨_, rfl, trivial⟩⟩⟩
      · simp only [removeClient, hl, hconn, hempty, if_false]
        exact ⟨rfl, rfl, rfl, .inr ⟨c, conn, rfl, hconn, hlocator, .inr ⟨hempty, rfl, rfl⟩⟩⟩

omit [DecidableEq θ] in
theorem Tight.removeClient {h : Handle L} (ht : Tight s) (hi : RPCConnections.Inv s)
    (hmem : h ∈ s.issued) : Tight (removeClient k s h) := by
  obtain ⟨hissued, hremoved, hcall, hcases⟩ := removeClient_cases k hi h
  -- who is still in a connection of the component was there, and is another client
  have hkept : ∀ l c conn, s.connections l = some c → s.objects c = some conn →
      ∀ n ∈ conn.clients, (⟨l, c, n⟩ : Handle L) ≠ h →
        ⟨l, c, n⟩ ∈ (RPCConnections.removeClient k s h).issued ∧
          ⟨l, c, n⟩ ∉ (RPCConnections.removeClient k s h).removed := by
    intro l c conn hl hc n hn hne
    obtain ⟨hold, hnot⟩ := ht.clients l c conn hl hc n hn
    rw [hissued, hremoved]
    exact ⟨hold, fun hin => (List.mem_cons.mp hin).elim hne hnot⟩
  have hrecord : ∀ h' ∈ (RPCConnections.removeClient k s h).removed,
      h' ∈ (RPCConnections.removeClient k s h).issued := by
    rw [hissued, hremoved]
    intro h' hin
    rcases List.mem_cons.mp hin with rfl | hin
    · exact hmem
    · exact ht.removed h' hin
  rcases hcases with ⟨hnone, hconns, hobjs⟩ | ⟨c, conn, hl, hconn, hlocator, hcases⟩
  · refine ⟨fun l' c' conn' hl' hc' n hn => ?_, fun l' c' conn' hl' hc' hempty => ?_, hrecord⟩
    · rw [hconns] at hl'
      rw [hobjs] at hc'
      refine hkept l' c' conn' hl' hc' n hn fun heq => ?_
      rw [← heq, hl'] at hnone
      cases hnone
    · rw [hconns] at hl'
      rw [hobjs] at hc'
      rw [hcall]
      exact ht.busy l' c' conn' hl' hc' hempty
  -- the connections of other locators are other objects
  have hother : ∀ l' c', s.connections l' = some c' → l' ≠ h.locator → c' ≠ c := by
    intro l' c' hl' hne e
    obtain ⟨conn', hconn', hlocator'⟩ := hi.held l' c' hl'
    rw [e, hconn] at hconn'
    obtain rfl := Option.some.inj hconn'
    exact hne (hlocator'.symm.trans hlocator)
  rcases hcases with ⟨x, hobjs, hconns⟩ | ⟨hempty, hobjs, hconns⟩
  · have hold : ∀ l' c' conn', (RPCConnections.removeClient k s h).connections l' = some c' →
        (RPCConnections.removeClient k s h).objects c' = some conn' →
        l' ≠ h.locator ∧ s.connections l' = some c' ∧ s.objects c' = some conn' := by
      intro l' c' conn' hl' hc'
      rw [hconns] at hl'
      rw [hobjs] at hc'
      by_cases e : l' = h.locator
      · rw [e, Function.update_self] at hl'
        cases hl'
      · rw [Function.update_of_ne e] at hl'
        rw [Function.update_of_ne (hother l' c' hl' e)] at hc'
        exact ⟨e, hl', hc'⟩
    refine ⟨fun l' c' conn' hl' hc' n hn => ?_, fun l' c' conn' hl' hc' hempty => ?_, hrecord⟩
    · obtain ⟨hne, hl', hc'⟩ := hold l' c' conn' hl' hc'
      exact hkept l' c' conn' hl' hc' n hn fun heq => hne (congrArg Handle.locator heq)
    · obtain ⟨-, hl', hc'⟩ := hold l' c' conn' hl' hc'
      rw [hcall]
      exact ht.busy l' c' conn' hl' hc' hempty
  · refine ⟨fun l' c' conn' hl' hc' n hn => ?_, fun l' c' conn' hl' hc' hnone => ?_, hrecord⟩
    · rw [hconns] at hl'
      rw [hobjs] at hc'
      by_cases e : c' = c
      · rw [e, Function.update_self] at hc'
        obtain rfl := Option.some.inj hc'
        obtain ⟨hnumber, hn⟩ := Finset.mem_erase.mp hn
        rw [e] at hl' ⊢
        exact hkept l' c conn hl' hconn n hn fun heq => hnumber (congrArg Handle.number heq)
      · rw [Function.update_of_ne e] at hc'
        refine hkept l' c' conn' hl' hc' n hn fun heq => e ?_
        rw [← heq, hl'] at hl
        exact Option.some.inj hl
    · rw [hconns] at hl'
      rw [hobjs] at hc'
      rw [hcall]
      by_cases e : c' = c
      · rw [e, Function.update_self] at hc'
        obtain rfl := Option.some.inj hc'
        exact absurd hnone hempty
      · rw [Function.update_of_ne e] at hc'
        exact ht.busy l' c' conn' hl' hc' hnone

theorem Tight.step {a : RPCConnections.Act θ L} (h : Tight s) (hi : RPCConnections.Inv s)
    (ho : RPCConnections.Orderly s a) (hs : RPCConnections.step k s a = some s') : Tight s' := by
  cases a with
  | createConnection t l fails =>
      simp only [RPCConnections.step] at hs
      split at hs
      · next ht =>
        obtain rfl := Option.some.inj hs
        exact h.createConnection hi ht
      · cases hs
  | addClient t =>
      simp only [RPCConnections.step] at hs
      split at hs
      · next c ht =>
        obtain rfl := Option.some.inj hs
        obtain ⟨conn, hconn, -⟩ := hi.used t c (.inl ht)
        exact h.addClient hi ht hconn (ho c conn ht hconn)
      · cases hs
  | sendRequest t handle =>
      simp only [RPCConnections.step] at hs
      split at hs
      · next ht =>
        have hnot : ∀ c, s.call t ≠ .adding c := fun c e => by rw [ht] at e; cases e
        have hidle := @Tight.setCall θ L _ s t .idle h hnot
        split at hs
        · split at hs <;> obtain rfl := Option.some.inj hs
          · exact ⟨hidle.clients, hidle.busy, h.removed⟩
          · exact h.setCall hnot
        · cases hs
      · cases hs
  | publish t =>
      simp only [RPCConnections.step] at hs
      split at hs
      · next c ht =>
        have hnot : ∀ c, s.call t ≠ .adding c := fun c e => by rw [ht] at e; cases e
        have hidle := @Tight.setCall θ L _ s t .idle h hnot
        split at hs <;> obtain rfl := Option.some.inj hs
        · exact ⟨hidle.clients, hidle.busy, h.removed⟩
        · exact hidle
      · cases hs
  | removeClient handle =>
      simp only [RPCConnections.step] at hs
      split at hs
      · next hmem =>
        obtain rfl := Option.some.inj hs
        exact h.removeClient hi hmem
      · cases hs
  | fail c =>
      simp only [RPCConnections.step] at hs
      split at hs
      · cases hs
      · next conn hconn =>
        split at hs
        · obtain rfl := Option.some.inj hs
          have hold : ∀ l' c', Function.update s.connections conn.locator none l' = some c' →
              s.connections l' = some c' := by
            intro l' c' hl'
            by_cases e : l' = conn.locator
            · rw [e, Function.update_self] at hl'
              cases hl'
            · rwa [Function.update_of_ne e] at hl'
          exact ⟨fun l' c' conn' hl' => h.clients l' c' conn' (hold l' c' hl'),
            fun l' c' conn' hl' => h.busy l' c' conn' (hold l' c' hl'), h.removed⟩
        · cases hs
  | release c =>
      simp only [RPCConnections.step] at hs
      split at hs
      · cases hs
      · next conn hconn =>
        split at hs
        · next hk =>
          obtain rfl := Option.some.inj hs
          have hold : ∀ c' conn', Function.update s.objects c none c' = some conn' →
              s.objects c' = some conn' := by
            intro c' conn' hc'
            by_cases e : c' = c
            · rw [e, Function.update_self] at hc'
              cases hc'
            · rwa [Function.update_of_ne e] at hc'
          exact ⟨fun l' c' conn' hl' hc' => h.clients l' c' conn' hl' (hold c' conn' hc'),
            fun l' c' conn' hl' hc' => h.busy l' c' conn' hl' (hold c' conn' hc'), h.removed⟩
        · cases hs

end TightStep

/-! ## What one call comes to -/

section OneCall

theorem firstOutcome_append (replies : List (Reply B E)) (r : Reply B E) :
    firstOutcome (replies ++ [r]) = (firstOutcome replies).or r.outcome := by
  rw [firstOutcome, List.findSome?_append, List.findSome?_singleton]
  rfl

/-- A call that leaves its client. -/
structure Plain (c : Call L B E) : Prop where
  done : c.done = true → (firstOutcome c.replies).isSome
  promise : c.promise = firstOutcome c.replies
  threads : c.threads = []

/-- A call that removes its client, which has been removed so many times. -/
structure Disconnects (removed : Nat) (c : Call L B E) : Prop where
  waiting : firstOutcome c.replies = none →
    c.done = false ∧ c.threads = [] ∧ c.promise = none ∧ removed = 0
  through : ∀ o, firstOutcome c.replies = some o → c.done = true ∧ ∃ stage,
    c.threads = [⟨o, stage⟩] ∧ c.promise = (if stage = .exited then some o else none) ∧
      removed = if stage = .sleeping then 0 else 1

variable {c : Call L B E} {r : Reply B E} {removed : Nat}

/-- A reply changes neither whose client it is nor what is to be done with it. -/
theorem receive_frame (c : Call L B E) (r : Reply B E) :
    (c.receive r).handle = c.handle ∧ (c.receive r).autoDisconnect = c.autoDisconnect := by
  unfold Call.receive Call.callback
  cases c.done with
  | true => exact ⟨rfl, rfl⟩
  | false =>
      cases r <;> cases h : c.autoDisconnect <;>
        simp [Call.finish, Call.fulfil, h]

theorem plain_receive (h : Plain c) (hauto : c.autoDisconnect = false) : Plain (c.receive r) := by
  cases hdone : c.done with
  | true =>
      -- what comes after a value has been decoded is left alone
      have hsome := h.done hdone
      have hreceive : c.receive r = { c with replies := c.replies ++ [r] } := by
        simp [Call.receive, Call.callback, hdone]
      have hfirst : firstOutcome (c.replies ++ [r]) = firstOutcome c.replies := by
        rw [firstOutcome_append]
        exact Option.or_of_isSome hsome
      rw [hreceive]
      refine ⟨fun _ => ?_, ?_, h.threads⟩
      · rw [hfirst]
        exact hsome
      · rw [hfirst]
        exact h.promise
  | false =>
      have hpromise := h.promise
      cases r with
      | ignored =>
          have hreceive : c.receive .ignored = { c with replies := c.replies ++ [.ignored] } := by
            simp [Call.receive, Call.callback, hdone]
          rw [hreceive]
          refine ⟨fun hd => ?_, ?_, h.threads⟩
          · rw [hdone] at hd
            cases hd
          · rw [firstOutcome_append, hpromise]
            exact Option.or_none.symm
      | undecodable ex =>
          have hreceive : c.receive (.undecodable ex) = { c with
              promise := c.promise.or (some (.error ex))
              replies := c.replies ++ [.undecodable ex] } := by
            simp [Call.receive, Call.callback, Call.finish, Call.fulfil, hdone, hauto]
          rw [hreceive]
          refine ⟨fun hd => ?_, ?_, h.threads⟩
          · rw [hdone] at hd
            cases hd
          · rw [firstOutcome_append, hpromise]
            rfl
      | decoded b =>
          have hreceive : c.receive (.decoded b) = { c with
              done := true
              promise := c.promise.or (some (.ok b))
              replies := c.replies ++ [.decoded b] } := by
            simp [Call.receive, Call.callback, Call.finish, Call.fulfil, hdone, hauto]
          rw [hreceive]
          refine ⟨fun _ => ?_, ?_, h.threads⟩
          · rw [firstOutcome_append, Option.isSome_or]
            exact Bool.or_true _
          · rw [firstOutcome_append, hpromise]
            rfl

theorem disconnects_receive (h : Disconnects removed c) (hauto : c.autoDisconnect = true)
    (hr : firstOutcome c.replies = none → ∀ ex, r ≠ .undecodable ex) :
    Disconnects removed (c.receive r) := by
  cases hfirst : firstOutcome c.replies with
  | some o =>
      obtain ⟨hdone, hthrough⟩ := h.through o hfirst
      have hreceive : c.receive r = { c with replies := c.replies ++ [r] } := by
        simp [Call.receive, Call.callback, hdone]
      have hsame : firstOutcome (c.replies ++ [r]) = some o := by
        rw [firstOutcome_append, hfirst]
        rfl
      rw [hreceive]
      refine ⟨fun hnone => ?_, fun o' ho' => ?_⟩
      · rw [hsame] at hnone
        cases hnone
      · rw [hsame] at ho'
        obtain rfl := Option.some.inj ho'
        exact ⟨hdone, hthrough⟩
  | none =>
      obtain ⟨hdone, hthreads, hpromise, hremoved⟩ := h.waiting hfirst
      have hnext : firstOutcome (c.replies ++ [r]) = r.outcome := by
        rw [firstOutcome_append, hfirst, Option.none_or]
      cases r with
      | undecodable ex => exact absurd rfl (hr hfirst ex)
      | ignored =>
          have hreceive : c.receive .ignored = { c with replies := c.replies ++ [.ignored] } := by
            simp [Call.receive, Call.callback, hdone]
          rw [hreceive]
          refine ⟨fun _ => ⟨hdone, hthreads, hpromise, hremoved⟩, fun o ho => ?_⟩
          rw [hnext] at ho
          cases ho
      | decoded b =>
          have hreceive : c.receive (.decoded b) = { c with
              done := true
              threads := [⟨.ok b, .sleeping⟩]
              replies := c.replies ++ [.decoded b] } := by
            simp [Call.receive, Call.callback, Call.finish, hdone, hauto, hthreads]
          rw [hreceive]
          refine ⟨fun hnone => ?_, fun o ho => ?_⟩
          · rw [hnext] at hnone
            cases hnone
          · rw [hnext] at ho
            obtain rfl := Option.some.inj ho
            exact ⟨rfl, .sleeping, rfl, hpromise, hremoved⟩

/-- The one thread of the call, when it takes its next step. -/
theorem Disconnects.thread {n : Nat} {outcome : Except E B} {stage : Stage}
    (h : Disconnects removed c) (hn : c.threads[n]? = some ⟨outcome, stage⟩) :
    n = 0 ∧ firstOutcome c.replies = some outcome ∧ c.done = true ∧
      c.threads = [⟨outcome, stage⟩] ∧
      c.promise = (if stage = .exited then some outcome else none) ∧
      removed = if stage = .sleeping then 0 else 1 := by
  cases hfirst : firstOutcome c.replies with
  | none =>
      obtain ⟨-, hthreads, -⟩ := h.waiting hfirst
      rw [hthreads] at hn
      cases hn
  | some o =>
      obtain ⟨hdone, stage', hthreads, hpromise, hremoved⟩ := h.through o hfirst
      rw [hthreads] at hn
      cases n with
      | succ n => cases hn
      | zero =>
          obtain ⟨rfl, rfl⟩ := Thread.mk.inj (Option.some.inj hn)
          exact ⟨rfl, rfl, hdone, hthreads, hpromise, hremoved⟩

theorem disconnects_disconnect {n : Nat} {outcome : Except E B} (h : Disconnects removed c)
    (hn : c.threads[n]? = some ⟨outcome, .sleeping⟩) :
    removed = 0 ∧ Disconnects 1 (c.setStage n .disconnected) := by
  obtain ⟨rfl, hfirst, hdone, hthreads, hpromise, hremoved⟩ := h.thread hn
  refine ⟨hremoved, fun hnone => ?_, fun o ho => ?_⟩
  · have hnone' : firstOutcome c.replies = none := hnone
    rw [hfirst] at hnone'
    cases hnone'
  · have ho' : firstOutcome c.replies = some o := ho
    rw [hfirst] at ho'
    obtain rfl := Option.some.inj ho'
    refine ⟨hdone, .disconnected, ?_, hpromise, rfl⟩
    simp [Call.setStage, hthreads]

theorem disconnects_exit {n : Nat} {outcome : Except E B} (h : Disconnects removed c)
    (hn : c.threads[n]? = some ⟨outcome, .disconnected⟩) :
    Disconnects removed ((c.fulfil outcome).setStage n .exited) := by
  obtain ⟨rfl, hfirst, hdone, hthreads, hpromise, hremoved⟩ := h.thread hn
  refine ⟨fun hnone => ?_, fun o ho => ?_⟩
  · have hnone' : firstOutcome c.replies = none := hnone
    rw [hfirst] at hnone'
    cases hnone'
  · have ho' : firstOutcome c.replies = some o := ho
    rw [hfirst] at ho'
    obtain rfl := Option.some.inj ho'
    refine ⟨hdone, .exited, ?_, ?_, hremoved⟩
    · simp [Call.setStage, Call.fulfil, hthreads]
    · show c.promise.or (some outcome) = some outcome
      rw [hpromise]
      rfl

end OneCall

/-! ## Orderly runs -/

section Runs

variable [DecidableEq L]

/--
The other clients are as orderly as they have to be without these calls, and leave the calls'
clients alone. The first reply of a call that disconnects can be decoded, its connection has not
failed when it does, and no connection goes that somebody is using.
-/
def Orderly (s : State θ L ι B E) : Act θ L ι B E → Prop
  | .connections a => RPCConnections.Orderly s.connections a ∧ ∀ h, a = .removeClient h →
      ∀ i c, s.calls i = some c → c.autoDisconnect = true → c.handle ≠ h
  | .addClient t _ _ => RPCConnections.Orderly s.connections (.addClient t)
  | .reply i r => ∀ c, s.calls i = some c → c.autoDisconnect = true →
      firstOutcome c.replies = none → ∀ ex, r ≠ .undecodable ex
  | .disconnect i _ => ∀ c, s.calls i = some c → c.handle.conn ∉ s.connections.failed ∧
      ∀ x conn, s.connections.connections c.handle.locator = some x →
        s.connections.objects x = some conn → conn.clients.erase c.handle.number = ∅ →
          Unused s.connections x
  | .exit _ _ => True

/-- What the calls have come to, and what they leave behind. -/
structure Settled (s : State θ L ι B E) : Prop where
  outlives : Outlives s.connections
  /-- The connections hold just the clients that have not been removed. -/
  tight : Tight s.connections
  /-- Without disconnecting, the future gets what the first reply is that is for the caller. -/
  plain : ∀ i c, s.calls i = some c → c.autoDisconnect = false →
    c.promise = firstOutcome c.replies
  /-- With it, nothing happens before there is such a reply. -/
  waiting : ∀ i c, s.calls i = some c → c.autoDisconnect = true → firstOutcome c.replies = none →
    c.promise = none ∧ c.threads = [] ∧ c.handle ∉ s.connections.removed
  /-- Then one thread removes the client, once, and then fulfils the promise with it. -/
  through : ∀ i c o, s.calls i = some c → c.autoDisconnect = true →
    firstOutcome c.replies = some o → ∃ stage, c.threads = [⟨o, stage⟩] ∧
      c.promise = (if stage = .exited then some o else none) ∧
      s.connections.removed.count c.handle = if stage = .sleeping then 0 else 1
  /-- When all clients are removed, there are no connections any more. -/
  gone : (∀ t, s.connections.call t = .idle) →
    (∀ h ∈ s.connections.issued, h ∈ s.connections.removed) →
      ∀ l, s.connections.connections l = none

/-! ## The invariant -/

structure Inv (s : State θ L ι B E) : Prop where
  connections : RPCConnections.Inv s.connections
  tight : Tight s.connections
  issued : ∀ i c, s.calls i = some c → c.handle ∈ s.connections.issued
  apart : ∀ i j c c', s.calls i = some c → s.calls j = some c' → c.handle = c'.handle → i = j
  plain : ∀ i c, s.calls i = some c → c.autoDisconnect = false → Plain c
  disconnects : ∀ i c, s.calls i = some c → c.autoDisconnect = true →
    Disconnects (s.connections.removed.count c.handle) c

variable {s s' : State θ L ι B E} {k : Component}

theorem Inv.settled (h : Inv s) : Settled s where
  outlives := h.connections.outlives
  tight := h.tight
  plain i c hc hauto := (h.plain i c hc hauto).promise
  waiting i c hc hauto hnone := by
    obtain ⟨-, hthreads, hpromise, hcount⟩ := (h.disconnects i c hc hauto).waiting hnone
    exact ⟨hpromise, hthreads, List.count_eq_zero.mp hcount⟩
  through i c o hc hauto ho := ((h.disconnects i c hc hauto).through o ho).2
  gone hidle hremoved := h.tight.gone h.connections hidle hremoved

variable [DecidableEq ι] [DecidableEq θ]

omit [DecidableEq L] [DecidableEq θ] in
theorem calls_setCall {i j : ι} {c c' : Call L B E} (h : (s.setCall i c).calls j = some c') :
    (j = i ∧ c' = c) ∨ (j ≠ i ∧ s.calls j = some c') := by
  by_cases e : j = i
  · subst e
    have h' : Function.update s.calls j (some c) j = some c' := h
    rw [Function.update_self] at h'
    exact .inl ⟨rfl, (Option.some.inj h').symm⟩
  · have h' : Function.update s.calls i (some c) j = some c' := h
    rw [Function.update_of_ne e] at h'
    exact .inr ⟨e, h'⟩

omit [DecidableEq L] [DecidableEq θ] in
/-- A call that has the same client leaves the clients of all calls as they are. -/
theorem handle_setCall {i j : ι} {c c' cj : Call L B E} (hc : s.calls i = some c)
    (hhandle : c'.handle = c.handle) (hj : (s.setCall i c').calls j = some cj) :
    ∃ old, s.calls j = some old ∧ cj.handle = old.handle := by
  rcases calls_setCall hj with ⟨rfl, rfl⟩ | ⟨-, hj⟩
  · exact ⟨c, hc, hhandle⟩
  · exact ⟨cj, hj, rfl⟩

omit [DecidableEq θ] in
/-- A call goes on while its client stays as it is. -/
theorem Inv.setCall {i : ι} {c c' : Call L B E} (h : Inv s) (hc : s.calls i = some c)
    (hhandle : c'.handle = c.handle) (hauto : c'.autoDisconnect = c.autoDisconnect)
    (hplain : c.autoDisconnect = false → Plain c')
    (hdisconnects : c.autoDisconnect = true →
      Disconnects (s.connections.removed.count c.handle) c') : Inv (s.setCall i c') := by
  refine ⟨h.connections, h.tight, fun j cj hj => ?_, fun j j' cj cj' hj hj' heq => ?_,
    fun j cj hj ha => ?_, fun j cj hj ha => ?_⟩
  · obtain ⟨old, hold, hsame⟩ := handle_setCall hc hhandle hj
    rw [hsame]
    exact h.issued j old hold
  · obtain ⟨old, hold, hsame⟩ := handle_setCall hc hhandle hj
    obtain ⟨old', hold', hsame'⟩ := handle_setCall hc hhandle hj'
    rw [hsame, hsame'] at heq
    exact h.apart j j' old old' hold hold' heq
  · rcases calls_setCall hj with ⟨rfl, rfl⟩ | ⟨-, hj⟩
    · exact hplain (hauto ▸ ha)
    · exact h.plain j cj hj ha
  · rcases calls_setCall hj with ⟨rfl, rfl⟩ | ⟨-, hj⟩
    · rw [hauto] at ha
      show Disconnects (s.connections.removed.count cj.handle) cj
      rw [hhandle]
      exact hdisconnects ha
    · exact h.disconnects j cj hj ha

/-! ## The steps -/

/-- What a step of the connections adds to its records. -/
theorem records_step {conns conns' : RPCConnections.State θ L} {a : RPCConnections.Act θ L}
    (hi : RPCConnections.Inv conns) (hs : RPCConnections.step k conns a = some conns') :
    (∀ h ∈ conns.issued, h ∈ conns'.issued) ∧ (conns'.removed = conns.removed ∨
      ∃ h, a = .removeClient h ∧ conns'.removed = h :: conns.removed) := by
  cases a with
  | removeClient h =>
      simp only [RPCConnections.step] at hs
      split at hs
      · obtain rfl := Option.some.inj hs
        obtain ⟨hissued, hremoved, -⟩ := removeClient_cases k hi h
        rw [hissued, hremoved]
        exact ⟨fun _ hmem => hmem, .inr ⟨h, rfl, rfl⟩⟩
      · cases hs
  | createConnection t l fails =>
      simp only [RPCConnections.step] at hs
      split at hs
      · obtain rfl := Option.some.inj hs
        unfold createConnection
        split
        · exact ⟨fun _ hmem => hmem, .inl rfl⟩
        · split
          · exact ⟨fun _ hmem => hmem, .inl rfl⟩
          · exact ⟨fun _ hmem => hmem, .inl rfl⟩
      · cases hs
  | addClient t =>
      simp only [RPCConnections.step] at hs
      split at hs
      · obtain rfl := Option.some.inj hs
        unfold addClient
        split
        · exact ⟨fun _ hmem => hmem, .inl rfl⟩
        · exact ⟨fun _ hmem => List.mem_cons_of_mem _ hmem, .inl rfl⟩
      · cases hs
  | sendRequest t h =>
      simp only [RPCConnections.step] at hs
      split at hs
      · split at hs
        · split at hs <;> obtain rfl := Option.some.inj hs <;>
            exact ⟨fun _ hmem => hmem, .inl rfl⟩
        · cases hs
      · cases hs
  | publish t =>
      simp only [RPCConnections.step] at hs
      split at hs
      · split at hs <;> obtain rfl := Option.some.inj hs <;>
          exact ⟨fun _ hmem => hmem, .inl rfl⟩
      · cases hs
  | fail c =>
      simp only [RPCConnections.step] at hs
      split at hs
      · cases hs
      · split at hs
        · obtain rfl := Option.some.inj hs
          exact ⟨fun _ hmem => hmem, .inl rfl⟩
        · cases hs
  | release c =>
      simp only [RPCConnections.step] at hs
      split at hs
      · cases hs
      · split at hs
        · obtain rfl := Option.some.inj hs
          exact ⟨fun _ hmem => hmem, .inl rfl⟩
        · cases hs

theorem inv_connections {a : RPCConnections.Act θ L} (h : Inv s)
    (ho : Orderly s (.connections a)) (hs : step k s (.connections a) = some s') : Inv s' := by
  obtain ⟨conns, hconns, rfl⟩ := Option.map_eq_some_iff.mp hs
  obtain ⟨hissued, hremoved⟩ := records_step h.connections hconns
  refine ⟨RPCConnections.inv_step h.connections ho.1 hconns, h.tight.step h.connections ho.1 hconns,
    fun i c hc => hissued _ (h.issued i c hc), h.apart, h.plain, fun i c hc hauto => ?_⟩
  have hcount : conns.removed.count c.handle = s.connections.removed.count c.handle := by
    rcases hremoved with hsame | ⟨handle, ha, hcons⟩
    · rw [hsame]
    · rw [hcons]
      exact List.count_cons_of_ne (ho.2 handle ha i c hc hauto).symm
  show Disconnects (conns.removed.count c.handle) c
  rw [hcount]
  exact h.disconnects i c hc hauto

theorem inv_addClient {t : θ} {i : ι} {autoDisconnect : Bool} (h : Inv s)
    (ho : Orderly s (.addClient t i autoDisconnect))
    (hs : step k s (.addClient t i autoDisconnect) = some s') : Inv s' := by
  simp only [step] at hs
  split at hs
  · next c hfree ht =>
    obtain ⟨conn, hconn, -⟩ := h.connections.used t c (.inl ht)
    rw [hconn] at hs
    obtain rfl := Option.some.inj hs
    have hfresh := ho c conn ht hconn
    have hnew := new_of_fresh hfresh
    have hissued : (addClient s.connections t c).issued =
        ⟨conn.locator, c, conn.clientCounter + 1⟩ :: s.connections.issued := by
      simp [addClient, hconn]
    have hremoved : (addClient s.connections t c).removed = s.connections.removed := by
      simp only [addClient, hconn]
      rfl
    have hcalls : ∀ j cj, Function.update s.calls i (some ⟨⟨conn.locator, c,
        conn.clientCounter + 1⟩, autoDisconnect, false, none, [], []⟩) j = some cj →
        (j = i ∧ cj = ⟨⟨conn.locator, c, conn.clientCounter + 1⟩, autoDisconnect, false, none, [],
          []⟩) ∨ s.calls j = some cj := by
      intro j cj hj
      by_cases e : j = i
      · rw [e, Function.update_self] at hj
        exact .inl ⟨e, (Option.some.inj hj).symm⟩
      · rw [Function.update_of_ne e] at hj
        exact .inr hj
    refine ⟨h.connections.addClient ht fun conn' hconn' => ?_,
      h.tight.addClient h.connections ht hconn hfresh, fun j cj hj => ?_,
      fun j j' cj cj' hj hj' heq => ?_, fun j cj hj ha => ?_, fun j cj hj ha => ?_⟩
    · exact ho c conn' ht hconn'
    · show cj.handle ∈ (addClient s.connections t c).issued
      rw [hissued]
      rcases hcalls j cj hj with ⟨-, rfl⟩ | hj
      · exact List.mem_cons_self
      · exact List.mem_cons_of_mem _ (h.issued j cj hj)
    · rcases hcalls j cj hj with ⟨hji, rfl⟩ | hj <;> rcases hcalls j' cj' hj' with ⟨hji', rfl⟩ | hj'
      · rw [hji, hji']
      · have hold := h.issued j' cj' hj'
        rw [← heq] at hold
        exact absurd hold hnew
      · have hold := h.issued j cj hj
        rw [heq] at hold
        exact absurd hold hnew
      · exact h.apart j j' cj cj' hj hj' heq
    · rcases hcalls j cj hj with ⟨-, rfl⟩ | hj
      · exact ⟨fun hd => (by cases hd), rfl, rfl⟩
      · exact h.plain j cj hj ha
    · show Disconnects ((addClient s.connections t c).removed.count cj.handle) cj
      rw [hremoved]
      rcases hcalls j cj hj with ⟨-, rfl⟩ | hj
      · have hnot : (⟨conn.locator, c, conn.clientCounter + 1⟩ : Handle L) ∉
            s.connections.removed := fun hmem => hnew (h.tight.removed _ hmem)
        exact ⟨fun _ => ⟨rfl, rfl, rfl, List.count_eq_zero.mpr hnot⟩, fun o ho => (by cases ho)⟩
      · exact h.disconnects j cj hj ha
  · cases hs

theorem inv_reply {i : ι} {r : Reply B E} (h : Inv s) (ho : Orderly s (.reply i r))
    (hs : step k s (.reply i r) = some s') : Inv s' := by
  simp only [step] at hs
  split at hs
  · next c hc =>
    split at hs
    · obtain rfl := Option.some.inj hs
      obtain ⟨hhandle, hauto⟩ := receive_frame c r
      exact h.setCall hc hhandle hauto
        (fun ha => plain_receive (h.plain i c hc ha) ha)
        (fun ha => disconnects_receive (h.disconnects i c hc ha) ha (ho c hc ha))
    · cases hs
  · cases hs

omit [DecidableEq ι] [DecidableEq θ] in
/-- The removal of a call's own client is a fitting one. -/
theorem fitting_disconnect {i : ι} {n : Nat} {c : Call L B E} (h : Inv s)
    (ho : Orderly s (.disconnect i n)) (hc : s.calls i = some c)
    (hnot : c.handle ∉ s.connections.removed) : FittingRemoval s.connections c.handle := by
  intro x conn hx hconn
  obtain ⟨hfailed, hunused⟩ := ho c hc
  refine ⟨fun _ => ?_, hunused x conn hx hconn⟩
  obtain ⟨hheld, -⟩ := h.connections.registered c.handle (h.issued i c hc) hnot hfailed
  exact Option.some.inj (hheld.symm.trans hx)

theorem inv_disconnect {i : ι} {n : Nat} (h : Inv s) (ho : Orderly s (.disconnect i n))
    (hs : step k s (.disconnect i n) = some s') : Inv s' := by
  simp only [step] at hs
  split at hs
  · next c hc =>
    split at hs
    · next outcome hthread =>
      obtain rfl := Option.some.inj hs
      -- a call that leaves its client has no threads
      have hauto : c.autoDisconnect = true := by
        cases ha : c.autoDisconnect with
        | true => rfl
        | false =>
            rw [(h.plain i c hc ha).threads] at hthread
            cases hthread
      obtain ⟨hzero, hnext⟩ := disconnects_disconnect (h.disconnects i c hc hauto) hthread
      have hissued := h.issued i c hc
      have hfit := fitting_disconnect h ho hc (List.count_eq_zero.mp hzero)
      obtain ⟨hissuedSame, hremoved, -⟩ := removeClient_cases k h.connections c.handle
      have hhandle : (c.setStage n .disconnected).handle = c.handle := rfl
      have hself : (removeClient k s.connections c.handle).removed.count c.handle = 1 := by
        rw [hremoved, List.count_cons_self, hzero]
      refine ⟨h.connections.removeClient hissued hfit, h.tight.removeClient h.connections hissued,
        fun j cj hj => ?_, fun j j' cj cj' hj hj' heq => ?_, fun j cj hj ha => ?_,
        fun j cj hj ha => ?_⟩
      · show cj.handle ∈ (removeClient k s.connections c.handle).issued
        rw [hissuedSame]
        obtain ⟨old, hold, hsame⟩ := handle_setCall hc hhandle hj
        rw [hsame]
        exact h.issued j old hold
      · obtain ⟨old, hold, hsame⟩ := handle_setCall hc hhandle hj
        obtain ⟨old', hold', hsame'⟩ := handle_setCall hc hhandle hj'
        rw [hsame, hsame'] at heq
        exact h.apart j j' old old' hold hold' heq
      · rcases calls_setCall hj with ⟨rfl, rfl⟩ | ⟨-, hj⟩
        · have ha' : c.autoDisconnect = false := ha
          rw [hauto] at ha'
          cases ha'
        · exact h.plain j cj hj ha
      · show Disconnects ((removeClient k s.connections c.handle).removed.count cj.handle) cj
        rcases calls_setCall hj with ⟨rfl, rfl⟩ | ⟨hne, hj⟩
        · have hone : (removeClient k s.connections c.handle).removed.count
              (c.setStage n .disconnected).handle = 1 := hself
          rw [hone]
          exact hnext
        · have hother : c.handle ≠ cj.handle := fun heq => hne (h.apart i j c cj hc hj heq).symm
          rw [hremoved, List.count_cons_of_ne hother]
          exact h.disconnects j cj hj ha
    · cases hs
  · cases hs

theorem inv_exit {i : ι} {n : Nat} (h : Inv s) (hs : step k s (.exit i n) = some s') : Inv s' := by
  simp only [step] at hs
  split at hs
  · next c hc =>
    split at hs
    · next outcome hthread =>
      obtain rfl := Option.some.inj hs
      refine h.setCall hc rfl rfl (fun ha => ?_)
        fun ha => disconnects_exit (h.disconnects i c hc ha) hthread
      rw [(h.plain i c hc ha).threads] at hthread
      cases hthread
    · cases hs
  · cases hs

theorem inv_step {a : Act θ L ι B E} (h : Inv s) (ho : Orderly s a) (hs : step k s a = some s') :
    Inv s' := by
  cases a with
  | connections a => exact inv_connections h ho hs
  | addClient t i autoDisconnect => exact inv_addClient h ho hs
  | reply i r => exact inv_reply h ho hs
  | disconnect i n => exact inv_disconnect h ho hs
  | exit i n => exact inv_exit h hs

theorem inv_init : Inv (machine (θ := θ) (L := L) (ι := ι) (B := B) (E := E) k).init := by
  refine ⟨@RPCConnections.inv_init θ L k _ _, ?_, ?_, ?_, ?_, ?_⟩
  · refine ⟨fun l c conn hl => ?_, fun l c conn hl => ?_, fun h hmem => ?_⟩
    · cases hl
    · cases hl
    · cases hmem
  · intro i c hc
    cases hc
  · intro i j c c' hc
    cases hc
  · intro i c hc
    cases hc
  · intro i c hc
    cases hc

/--
**Calls for one reply clean up after themselves.** In every orderly run, a call's future gets what
the first reply for the caller is, and nothing else. A call that disconnects removes its client
exactly once, before that, and nobody else's. The connections hold just the clients that have not
been removed, and when there are none left, no connection is.
-/
theorem settled_of_orderly
    (h : (machine (θ := θ) (L := L) (ι := ι) (B := B) (E := E) k).Reach Orderly s) : Settled s :=
  (h.invariant (I := Inv) inv_init fun _ _ _ hi ho hs => inv_step hi ho hs).settled

end Runs

/-! ## Two calls -/

/-- The first call disconnects, and has a reply ignored; the second does not, and gets a reply that
cannot be decoded. Its client is removed by the caller. -/
def twoCalls : List (Act Unit Unit Bool Nat Unit) :=
  [.connections (.createConnection () () false), .addClient () true true,
    .connections (.createConnection () () false), .addClient () false false,
    .connections (.sendRequest () ⟨(), 0, 1⟩), .connections (.publish ()),
    .reply true .ignored, .reply true (.decoded 5), .reply false (.undecodable ()),
    .disconnect true 0, .exit true 0, .connections (.removeClient ⟨(), 0, 2⟩)]

theorem twoCalls_orderly : (machine .redis).Within Orderly (machine .redis).init twoCalls := by
  refine ⟨⟨trivial, fun _ e => (by cases e)⟩, ?_, ⟨trivial, fun _ e => (by cases e)⟩, ?_,
    ⟨List.not_mem_nil, fun _ e => (by cases e)⟩, ⟨trivial, fun _ e => (by cases e)⟩, ?_, ?_, ?_, ?_,
    trivial, ?_, trivial⟩
  · intro c conn _ _ h hmem
    cases hmem
  · intro c conn hc hobj h hmem _
    cases hc
    cases hobj
    obtain rfl := List.mem_singleton.mp hmem
    decide
  · intro c _ _ _ ex e
    cases e
  · intro c _ _ _ ex e
    cases e
  · intro c hc hauto
    cases hc
    cases hauto
  · intro c hc
    cases hc
    refine ⟨List.not_mem_nil, fun x conn hx hconn hempty => ?_⟩
    cases hx
    cases hconn
    exact absurd hempty (by decide)
  · refine ⟨fun x conn hx hconn => ?_, fun h e i c hc hauto heq => ?_⟩
    · cases hx
      cases hconn
      exact ⟨fun _ => rfl, fun _ t => ⟨fun e => (by cases e), fun e => (by cases e)⟩⟩
    · cases e
      cases i with
      | false =>
          cases hc
          cases hauto
      | true =>
          cases hc
          cases heq

theorem settled_twoCalls :
    ∃ s, (machine (θ := Unit) (L := Unit) (ι := Bool) (B := Nat) (E := Unit) .redis).Reach
      Orderly s ∧ Settled s ∧ (s.calls true).bind (·.promise) = some (.ok 5) ∧
      (s.calls false).bind (·.promise) = some (.error ()) ∧
      s.connections.connections () = none := by
  have hr := Machine.Reach.init.exec twoCalls_orderly
  exact ⟨_, hr, settled_of_orderly hr, rfl, rfl, rfl⟩

/-- Two replies cannot be decoded, and another client comes between the two removals. -/
def twoUndecodable : List (Act Unit Unit Unit Nat Unit) :=
  [.connections (.createConnection () () false), .addClient () () true, .reply () (.undecodable ()),
    .reply () (.undecodable ()), .disconnect () 0, .connections (.createConnection () () false),
    .connections (.addClient ()), .disconnect () 1]

/-- The second removal takes the other client out. -/
theorem not_settled_twoUndecodable :
    ∃ s, (machine (θ := Unit) (L := Unit) (ι := Unit) (B := Nat) (E := Unit) .redis).Reach
      (fun _ _ => True) s ∧ ¬ Settled s := by
  have hr := (Machine.Reach.init (M := machine (θ := Unit) (L := Unit) (ι := Unit) (B := Nat)
    (E := Unit) .redis)).exec (Machine.Within.of_forall (fun _ _ => trivial) _ twoUndecodable)
  refine ⟨_, hr, fun h => ?_⟩
  have hmeant := h.outlives.meant
  cases hmeant

end OneShotCalls
