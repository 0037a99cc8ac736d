import TMTransport.RPC.Client

/-!
# A callback that sends the next request

The loop that receives the replies calls the client's callback while it has locked
`clientsMutex_`, and while it has an iterator in hand that it uses afterwards. The
sender of a client locks the same mutex. So a callback that sends a request locks a
mutex that its thread has already.

The sender of a WebSocket client looks first whether the connection has been set up,
and only then locks that mutex. As long as it has not, a request is put into a buffer.

Each locked region of a thread is one step: the callback and what it does is inside
the region of the loop, and no other thread's region comes in between.
-/

namespace RPCReentry

open RPC RPCClient

inductive Thread where
  | receiver
  | caller (t : Nat)
  deriving DecidableEq

inductive Fault where
  /-- A thread locks a mutex that it has locked. -/
  | selfLock
  /-- An iterator is used after its map may have been laid out anew. -/
  | staleIterator

structure Conn where
  client : RPCClient.State
  clientsMutex : Option Thread
  /-- How many times an id has been added to `idToClientMap_`. -/
  inserted : Nat
  running : Bool
  ready : Bool
  beforeReadyBuffer : List (UInt32 × ByteDataWithID)
  published : List (UInt32 × ByteDataWithID)

inductive Act where
  | addClient (t : Nat) (info : OneClientInfo)
  | removeClient (t : Nat) (clientNumber : UInt32)
  | sendRequest (t : Nat) (clientNumber : UInt32) (data : ByteDataWithID)
  /-- A reply; if its callback is called, the callback calls these senders. -/
  | receive (r : Reply) (hooked : Option String) (calls : List (UInt32 × ByteDataWithID))
  /-- `onWebSocketHandshake` -/
  | handshake
  /-- Reading or writing has failed. -/
  | lost

def lock (t : Thread) (c : Conn) : Except Fault Conn :=
  if c.clientsMutex = some t then .error .selfLock else .ok { c with clientsMutex := some t }

def unlock (c : Conn) : Conn := { c with clientsMutex := none }

/-- The id is registered, and the request is put on the wire. -/
def doSendRequest (t : Thread) (c : Conn) (x : UInt32 × ByteDataWithID) : Except Fault Conn := do
  let c ← lock t c
  pure (unlock { c with
    client := RPCClient.sendRequest c.client x.1 x.2
    inserted := if (c.client.maps.owner x.2.id).isSome then c.inserted else c.inserted + 1
    published := c.published ++ [x] })

def sendRequest (k : Component) (t : Thread) (c : Conn) (x : UInt32 × ByteDataWithID) :
    Except Fault Conn :=
  match k with
  | .rabbitMQ => doSendRequest t c x
  | .redis => doSendRequest t c x
  | .webSocket =>
    if !c.running then pure c
    else if !c.ready then pure { c with beforeReadyBuffer := c.beforeReadyBuffer ++ [x] }
    else doSendRequest t c x

/-- The calls that a callback makes. -/
def makeCalls (k : Component) (calls : List (UInt32 × ByteDataWithID)) (c : Conn) :
    Except Fault Conn :=
  calls.foldlM (sendRequest k .receiver) c

/-- Is there a callback that is called? -/
def called (s : RPCClient.State) (r : Reply) (hooked : Option String) : Bool :=
  !(callback s r hooked).isEmpty

/-- A reply is looked at, in `run`, or `onRead`. -/
def receive (k : Component) (r : Reply) (hooked : Option String)
    (calls : List (UInt32 × ByteDataWithID)) (c : Conn) : Except Fault Conn := do
  let c ← lock .receiver c
  let iter := (c.client.maps.owner r.data.id, c.inserted)
  let called := called c.client r hooked
  let c := { c with client := pass c.client r hooked }
  let c ← if called then makeCalls k calls c else pure c
  -- `iter` is used once more for a final reply
  if iter.1.isSome && r.isFinal && c.inserted != iter.2 then throw .staleIterator
  pure (unlock { c with client := settle c.client r })

def exec (k : Component) (c : Conn) : Act → Except Fault Conn
  | .addClient t info => do
    let c ← lock (.caller t) c
    pure (unlock { c with client := RPCClient.addClient c.client info })
  | .removeClient t n => do
    let c ← lock (.caller t) c
    pure (unlock { c with client := RPCClient.removeClient c.client n })
  | .sendRequest t n data => sendRequest k (.caller t) c (n, data)
  | .receive r hooked calls => receive k r hooked calls c
  | .handshake =>
    match k with
    | .webSocket =>
      c.beforeReadyBuffer.foldlM (doSendRequest .receiver)
        { c with ready := true, beforeReadyBuffer := [] }
    | _ => pure c
  | .lost =>
    match k with
    | .webSocket => pure { c with ready := false }
    | _ => pure c

/-- The same, but the callback's calls are made after it has returned. -/
def execDeferred (k : Component) (c : Conn) : Act → Except Fault Conn
  | .receive r hooked calls => do
    let c' ← receive k r hooked [] c
    if called c.client r hooked then makeCalls k calls c' else pure c'
  | a => exec k c a

def start (k : Component) : Conn where
  client := ⟨0, fun _ => none, .empty, []⟩
  clientsMutex := none
  inserted := 0
  running := true
  ready := k ≠ .webSocket
  beforeReadyBuffer := []
  published := []

/-- No fault, and all is as if the callbacks' calls had been made after they returned. -/
def Undisturbed (k : Component) (c : Conn) (acts : List Act) : Prop :=
  ∃ c', acts.foldlM (exec k) c = .ok c' ∧ acts.foldlM (execDeferred k) c = .ok c'

/-- Does the sender of a client go on to lock the mutex? -/
def Locks (k : Component) (c : Conn) : Prop :=
  k = .webSocket → c.running = true ∧ c.ready = true

/-- A callback that is called makes no calls, unless its connection is not ready for them. -/
def Calm (k : Component) (c : Conn) : Act → Prop
  | .receive r hooked calls => called c.client r hooked = true → Locks k c → calls = []
  | _ => True

def CalmThroughout (k : Component) : Conn → List Act → Prop
  | _, [] => True
  | c, a :: as => Calm k c a ∧ ∀ c', exec k c a = .ok c' → CalmThroughout k c' as

/-! ## One step -/

variable {k : Component} {c c' : Conn} {t : Thread} {x : UInt32 × ByteDataWithID}

theorem lock_free (h : c.clientsMutex = none) :
    lock t c = .ok { c with clientsMutex := some t } := by
  simp [lock, h]

theorem doSendRequest_free (h : c.clientsMutex = none) :
    ∃ c', doSendRequest t c x = .ok c' ∧ c'.clientsMutex = none := by
  simp only [doSendRequest, lock_free h]
  exact ⟨_, rfl, rfl⟩

theorem sendRequest_free (h : c.clientsMutex = none) :
    ∃ c', sendRequest k t c x = .ok c' ∧ c'.clientsMutex = none := by
  cases k with
  | webSocket =>
      simp only [sendRequest]
      split
      · exact ⟨c, rfl, h⟩
      · split
        · exact ⟨_, rfl, h⟩
        · exact doSendRequest_free h
  | _ => exact doSendRequest_free h

theorem foldlM_free {f : Conn → UInt32 × ByteDataWithID → Except Fault Conn}
    (hf : ∀ c x, c.clientsMutex = none → ∃ c', f c x = .ok c' ∧ c'.clientsMutex = none)
    (l : List (UInt32 × ByteDataWithID)) (h : c.clientsMutex = none) :
    ∃ c', l.foldlM f c = .ok c' ∧ c'.clientsMutex = none := by
  induction l generalizing c with
  | nil => exact ⟨c, rfl, h⟩
  | cons x l ih =>
      obtain ⟨c₁, h1, h2⟩ := hf c x h
      obtain ⟨c', h3, h4⟩ := ih h2
      refine ⟨c', ?_, h4⟩
      rw [List.foldlM_cons, h1]
      exact h3

/-- Where the mutex is held, the first call that locks it is the end. -/
theorem makeCalls_locked {calls : List (UInt32 × ByteDataWithID)}
    (h : c.clientsMutex = some .receiver) (hk : Locks k c) :
    makeCalls k calls c = if calls = [] then .ok c else .error .selfLock := by
  cases calls with
  | nil => rfl
  | cons x calls =>
      have h1 : sendRequest k .receiver c x = .error .selfLock := by
        cases k with
        | webSocket =>
            obtain ⟨hr, hd⟩ := hk rfl
            simp [sendRequest, hr, hd, doSendRequest, lock, h, bind, Except.bind]
        | _ => simp [sendRequest, doSendRequest, lock, h, bind, Except.bind]
      simp [makeCalls, List.foldlM_cons, h1, bind, Except.bind]

/-- A connection that is not ready takes note of the calls, at most. -/
theorem makeCalls_unlocked (hk : ¬ Locks k c) (calls : List (UInt32 × ByteDataWithID)) :
    makeCalls k calls c = .ok { c with
      beforeReadyBuffer := if c.running then c.beforeReadyBuffer ++ calls
        else c.beforeReadyBuffer } := by
  obtain ⟨rfl, hn⟩ : k = .webSocket ∧ ¬ (c.running = true ∧ c.ready = true) := by
    unfold Locks at hk
    tauto
  clear hk
  induction calls generalizing c with
  | nil => simp [makeCalls, pure, Except.pure]
  | cons x calls ih =>
      cases hr : c.running with
      | false =>
          have h1 : sendRequest .webSocket .receiver c x = .ok c := by
            simp [sendRequest, hr, pure, Except.pure]
          have h2 := ih hn
          simp only [makeCalls, List.foldlM_cons, h1] at h2 ⊢
          simpa [hr, bind, Except.bind] using h2
      | true =>
          have hd : c.ready = false := by simpa [hr] using hn
          have h1 : sendRequest .webSocket .receiver c x =
              .ok { c with beforeReadyBuffer := c.beforeReadyBuffer ++ [x] } := by
            simp [sendRequest, hr, hd, pure, Except.pure]
          have h2 := ih (c := { c with beforeReadyBuffer := c.beforeReadyBuffer ++ [x] }) hn
          simp only [makeCalls, List.foldlM_cons, h1] at h2 ⊢
          simpa [hr, bind, Except.bind] using h2

/-- What a reply does when its callback makes no calls. -/
def settled (c : Conn) (r : Reply) (hooked : Option String) : Conn :=
  { c with client := dispatch c.client r hooked }

section Receive

variable {r : Reply} {hooked : Option String} {calls : List (UInt32 × ByteDataWithID)}

theorem receive_quiet (h : c.clientsMutex = none)
    (hq : called c.client r hooked = true → calls = []) :
    receive k r hooked calls c = .ok (settled c r hooked) := by
  cases hcalled : called c.client r hooked with
  | false =>
      simp [receive, lock_free h, hcalled, bind, Except.bind, pure, Except.pure, unlock, settled,
        dispatch, h]
  | true =>
      obtain rfl := hq hcalled
      simp [receive, lock_free h, hcalled, makeCalls, bind, Except.bind, pure, Except.pure, unlock,
        settled, dispatch, h]

theorem receive_locked (h : c.clientsMutex = none) (hcalled : called c.client r hooked = true)
    (hk : Locks k c) (hcalls : calls ≠ []) : receive k r hooked calls c = .error .selfLock := by
  have h1 : makeCalls k calls { c with
      clientsMutex := some .receiver, client := pass c.client r hooked } = _ :=
    makeCalls_locked rfl hk
  rw [if_neg hcalls] at h1
  simp [receive, lock_free h, hcalled, h1, bind, Except.bind]

theorem receive_unlocked (h : c.clientsMutex = none) (hcalled : called c.client r hooked = true)
    (hk : ¬ Locks k c) : receive k r hooked calls c = makeCalls k calls (settled c r hooked) := by
  have h1 := makeCalls_unlocked (k := k) (c := { c with
    clientsMutex := some .receiver, client := pass c.client r hooked }) hk calls
  have h2 := makeCalls_unlocked (k := k) (c := settled c r hooked) hk calls
  rw [h2]
  simp [receive, lock_free h, hcalled, h1, bind, Except.bind, pure, Except.pure, unlock, settled,
    dispatch, h]

end Receive

/-- Where a step goes through, no callback has locked what its thread had locked. -/
theorem calm_of_ok {a : Act} (h : c.clientsMutex = none) (he : exec k c a = .ok c') :
    Calm k c a := by
  cases a with
  | receive r hooked calls =>
      intro hcalled hk
      by_contra hcalls
      rw [exec, receive_locked h hcalled hk hcalls] at he
      cases he
  | _ => trivial

theorem exec_of_calm {a : Act} (h : c.clientsMutex = none) (hc : Calm k c a) :
    ∃ c', exec k c a = .ok c' ∧ c'.clientsMutex = none := by
  cases a with
  | addClient t info =>
      simp only [exec, lock_free h]
      exact ⟨_, rfl, rfl⟩
  | removeClient t n =>
      simp only [exec, lock_free h]
      exact ⟨_, rfl, rfl⟩
  | sendRequest t n data => exact sendRequest_free h
  | receive r hooked calls =>
      by_cases hq : called c.client r hooked = true → calls = []
      · exact ⟨_, receive_quiet h hq, h⟩
      · obtain ⟨hcalled, hcalls⟩ := Classical.not_imp.mp hq
        rw [exec, receive_unlocked h hcalled fun hk => hcalls (hc hcalled hk)]
        exact foldlM_free (fun _ _ => sendRequest_free) calls h
  | handshake =>
      cases k with
      | webSocket => exact foldlM_free (fun _ _ => doSendRequest_free) _ h
      | _ => exact ⟨c, rfl, h⟩
  | lost =>
      cases k with
      | webSocket => exact ⟨_, rfl, h⟩
      | _ => exact ⟨c, rfl, h⟩

/-- If it goes through, it does what it would do with the calls made afterwards. -/
theorem execDeferred_eq {a : Act} (h : c.clientsMutex = none) (hc : Calm k c a) :
    execDeferred k c a = exec k c a := by
  cases a with
  | receive r hooked calls =>
      have h1 : receive k r hooked [] c = .ok (settled c r hooked) := receive_quiet h fun _ => rfl
      simp only [execDeferred, exec, h1, bind, Except.bind]
      cases hcalled : called c.client r hooked with
      | false => exact (receive_quiet h fun hq => by rw [hcalled] at hq; cases hq).symm
      | true =>
          rw [if_pos rfl]
          by_cases hk : Locks k c
          · obtain rfl := hc hcalled hk
            exact (receive_quiet h fun _ => rfl).symm
          · exact (receive_unlocked h hcalled hk).symm
  | _ => rfl

theorem undisturbed_iff {acts : List Act} (h : c.clientsMutex = none) :
    Undisturbed k c acts ↔ CalmThroughout k c acts := by
  induction acts generalizing c with
  | nil => exact ⟨fun _ => trivial, fun _ => ⟨c, rfl, rfl⟩⟩
  | cons a acts ih =>
      constructor
      · intro hu
        obtain ⟨c', h1, h2⟩ := hu
        rw [List.foldlM_cons] at h1 h2
        -- the first step has gone through
        cases he : exec k c a with
        | error e =>
            rw [he] at h1
            cases h1
        | ok c₁ =>
            have hcalm := calm_of_ok h he
            obtain ⟨c₂, he', hfree⟩ := exec_of_calm h hcalm
            obtain rfl : c₁ = c₂ := Except.ok.inj (he.symm.trans he')
            rw [he] at h1
            rw [execDeferred_eq h hcalm, he] at h2
            refine ⟨hcalm, fun c₂ he₂ => ?_⟩
            obtain rfl : c₁ = c₂ := Except.ok.inj (he.symm.trans he₂)
            exact (ih hfree).mp ⟨c', h1, h2⟩
      · intro hcalm
        obtain ⟨c₁, he, hfree⟩ := exec_of_calm h hcalm.1
        obtain ⟨c', h1, h2⟩ := (ih hfree).mpr (hcalm.2 c₁ he)
        refine ⟨c', ?_, ?_⟩
        · rw [List.foldlM_cons, he]
          exact h1
        · rw [List.foldlM_cons, execDeferred_eq h hcalm.1, he]
          exact h2

/--
**Callbacks that make no calls.** A run goes through without a fault, and as if its callbacks had
made their calls after they returned, exactly if no callback that is called makes a call, except on
a WebSocket connection that is not set up.
-/
theorem undisturbed_iff_calmThroughout (k : Component) (acts : List Act) :
    Undisturbed k (start k) acts ↔ CalmThroughout k (start k) acts :=
  undisturbed_iff rfl

/-- A client that sends its next request when it gets the reply to the first one. -/
def nextRequest : List Act :=
  [.addClient 0 ⟨false⟩, .handshake, .sendRequest 0 1 ⟨"x", "?"⟩,
    .receive ⟨true, ⟨"x", "!"⟩⟩ none [(1, ⟨"y", "?"⟩)]]

/-- It locks its own mutex, with each of the components. -/
theorem not_undisturbed_nextRequest :
    ¬ Undisturbed .rabbitMQ (start .rabbitMQ) nextRequest ∧
      ¬ Undisturbed .redis (start .redis) nextRequest ∧
      ¬ Undisturbed .webSocket (start .webSocket) nextRequest := by
  refine ⟨fun h => ?_, fun h => ?_, fun h => ?_⟩ <;>
    · obtain ⟨c', h1, -⟩ := h
      cases h1

end RPCReentry
