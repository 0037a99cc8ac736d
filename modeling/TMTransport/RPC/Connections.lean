import Mathlib.Data.Finset.Erase
import Mathlib.Data.Finset.Insert
import TMTransport.Library.Machine
import TMTransport.RPC.Wire

/-!
# The life of the shared RPC client connections

A component holds one connection for each locator that has clients. Setting a client
finds the connection, or creates it, and then, in a second step, adds the client to
it. The sender that is returned keeps a bare pointer to the connection. Removing the
last client of a connection destroys it: at once with RabbitMQ and Redis, and as soon
as no handler needs it any more with WebSocket. There, a connection that fails drops
out of the component, by its locator.

The pointer that a call has got is good as long as nobody takes the last client out
meanwhile. Numbers start again with each connection, so a number that is removed for
a second time may be somebody else's by then.
-/

namespace RPCConnections

open Interleave RPC

structure Connection (L : Type) where
  locator : L
  clientCounter : UInt32
  clients : Finset UInt32

/-- What a set call gives back. -/
structure Handle (L : Type) where
  locator : L
  conn : Nat
  number : UInt32
  deriving DecidableEq

/-- What a thread is in the middle of, with the pointer that it has got. -/
inductive Call where
  | idle
  | adding (conn : Nat)
  | sending (conn : Nat)
  deriving DecidableEq

structure State (θ L : Type) where
  /-- The connection objects that are allocated. -/
  objects : Nat → Option (Connection L)
  nextObject : Nat
  connections : L → Option Nat
  call : θ → Call
  /-- All clients that have been set. -/
  issued : List (Handle L)
  removed : List (Handle L)
  failed : List Nat
  /-- An object has been used that is not allocated. -/
  faulty : Bool
  /-- A removal has removed somebody else. -/
  misremoved : Bool

inductive Act (θ L : Type) where
  /-- The connection is found or created, unless creating it fails. -/
  | createConnection (t : θ) (l : L) (fails : Bool)
  | addClient (t : θ)
  /-- `sendRequest` registers the id, and then it publishes. -/
  | sendRequest (t : θ) (h : Handle L)
  | publish (t : θ)
  | removeClient (h : Handle L)
  /-- A WebSocket connection fails. -/
  | fail (conn : Nat)
  /-- The last handler of a WebSocket connection lets go of it. -/
  | release (conn : Nat)

variable {θ L : Type}

section Step

variable [DecidableEq θ] [DecidableEq L] (k : Component)

def State.setCall (s : State θ L) (t : θ) (c : Call) : State θ L :=
  { s with call := Function.update s.call t c }

def State.fault (s : State θ L) (t : θ) : State θ L := { s.setCall t .idle with faulty := true }

def State.put (s : State θ L) (c : Nat) (conn : Option (Connection L)) : State θ L :=
  { s with objects := Function.update s.objects c conn }

def createConnection (s : State θ L) (t : θ) (l : L) (fails : Bool) : State θ L :=
  match s.connections l with
  | some c => s.setCall t (.adding c)
  | none =>
    if fails then s
    else { (s.put s.nextObject (some ⟨l, 0, ∅⟩)).setCall t (.adding s.nextObject) with
      nextObject := s.nextObject + 1
      connections := Function.update s.connections l (some s.nextObject) }

def addClient (s : State θ L) (t : θ) (c : Nat) : State θ L :=
  match s.objects c with
  | none => s.fault t
  | some conn =>
    let n := conn.clientCounter + 1
    { (s.put c (some { conn with clientCounter := n, clients := insert n conn.clients })).setCall
        t .idle with
      issued := ⟨conn.locator, c, n⟩ :: s.issued }

def removeClient (s : State θ L) (h : Handle L) : State θ L :=
  let s := { s with removed := h :: s.removed }
  match s.connections h.locator with
  | none => s
  | some c =>
    match s.objects c with
    | none => { s with faulty := true }
    | some conn =>
      let clients := conn.clients.erase h.number
      let s := { s with
        misremoved := s.misremoved || (h.number ∈ conn.clients ∧ h.conn ≠ c) }
      if clients = ∅ then
        { s.put c (if k = .webSocket then some { conn with clients := clients } else none) with
          connections := Function.update s.connections h.locator none }
      else s.put c (some { conn with clients := clients })

def step (s : State θ L) : Act θ L → Option (State θ L)
  | .createConnection t l fails =>
    match s.call t with
    | .idle => some (createConnection s t l fails)
    | _ => none
  | .addClient t =>
    match s.call t with
    | .adding c => some (addClient s t c)
    | _ => none
  | .sendRequest t h =>
    match s.call t with
    | .idle =>
      if h ∈ s.issued ∧ h ∉ s.removed then
        match s.objects h.conn with
        | none => some (s.fault t)
        | some _ => some (s.setCall t (.sending h.conn))
      else none
    | _ => none
  | .publish t =>
    match s.call t with
    | .sending c =>
      match s.objects c with
      | none => some (s.fault t)
      | some _ => some (s.setCall t .idle)
    | _ => none
  | .removeClient h => if h ∈ s.issued then some (removeClient k s h) else none
  | .fail c =>
    match s.objects c with
    | none => none
    | some conn =>
      if k = .webSocket then
        some { s with
          connections := Function.update s.connections conn.locator none
          failed := c :: s.failed }
      else none
  | .release c =>
    match s.objects c with
    | none => none
    | some conn =>
      if k = .webSocket ∧ s.connections conn.locator ≠ some c then some (s.put c none) else none

def machine : Machine (State θ L) (Act θ L) where
  init := ⟨fun _ => none, 0, fun _ => none, fun _ => .idle, [], [], [], false, false⟩
  step := step k

end Step

/-- No thread has a pointer to the connection. -/
def Unused (s : State θ L) (c : Nat) : Prop := ∀ t, s.call t ≠ .adding c ∧ s.call t ≠ .sending c

/-- A removal finds the client it is meant for, and leaves no connection empty that is in use. -/
def FittingRemoval (s : State θ L) (h : Handle L) : Prop :=
  ∀ c conn, s.connections h.locator = some c → s.objects c = some conn →
    (h.number ∈ conn.clients → h.conn = c) ∧ (conn.clients.erase h.number = ∅ → Unused s c)

/--
Removals fit, numbers do not come round, senders are not called when their connection has failed,
a connection that fails is the one that the component has, or it has none, and nobody uses one that
is released.
-/
def Orderly (s : State θ L) : Act θ L → Prop
  | .addClient t => ∀ c conn, s.call t = .adding c → s.objects c = some conn →
      ∀ h ∈ s.issued, h.conn = c → h.number ≠ conn.clientCounter + 1
  | .sendRequest _ h => h.conn ∉ s.failed
  | .removeClient h => FittingRemoval s h
  | .fail c => ∀ conn c', s.objects c = some conn → s.connections conn.locator = some c' → c' = c
  | .release c => Unused s c
  | _ => True

structure Outlives (s : State θ L) : Prop where
  /-- Nothing has been used that is not allocated, and what is in use is. -/
  faultless : s.faulty = false
  allocated : ∀ t c, s.call t = .adding c ∨ s.call t = .sending c → (s.objects c).isSome
  /-- Between the calls, each client is registered in the connection held for its locator. -/
  registered : (∀ t, s.call t = .idle) → ∀ h ∈ s.issued, h ∉ s.removed → h.conn ∉ s.failed →
    s.connections h.locator = some h.conn ∧
      ∃ conn, s.objects h.conn = some conn ∧ h.number ∈ conn.clients
  /-- Who was removed was meant. -/
  meant : s.misremoved = false

/-! ## The invariant -/

structure Inv (s : State θ L) : Prop where
  faultless : s.faulty = false
  meant : s.misremoved = false
  allocated : ∀ c conn, s.objects c = some conn → c < s.nextObject
  /-- What the component holds is there, at its locator. -/
  held : ∀ l c, s.connections l = some c → ∃ conn, s.objects c = some conn ∧ conn.locator = l
  /-- What is in use is there, and held by the component unless it has failed. -/
  used : ∀ t c, s.call t = .adding c ∨ s.call t = .sending c → ∃ conn, s.objects c = some conn ∧
    (c ∉ s.failed → s.connections conn.locator = some c)
  registered : ∀ h ∈ s.issued, h ∉ s.removed → h.conn ∉ s.failed →
    s.connections h.locator = some h.conn ∧
      ∃ conn, s.objects h.conn = some conn ∧ h.number ∈ conn.clients
  unique : ∀ h ∈ s.issued, ∀ h' ∈ s.issued, h.conn = h'.conn → h.number = h'.number → h = h'
  issued : ∀ h ∈ s.issued, h.conn < s.nextObject
  failed : ∀ c ∈ s.failed, c < s.nextObject

variable {s s' : State θ L} {k : Component}

theorem Inv.outlives (hi : Inv s) : Outlives s where
  faultless := hi.faultless
  allocated := fun t c hc => by
    obtain ⟨conn, h, -⟩ := hi.used t c hc
    rw [h]; rfl
  registered := fun _ => hi.registered
  meant := hi.meant

/-! ## The steps -/

theorem inv_init [DecidableEq θ] [DecidableEq L] : Inv (machine (θ := θ) (L := L) k).init := by
  refine ⟨rfl, rfl, ?_, ?_, ?_, ?_, ?_, ?_, ?_⟩ <;> simp [machine]

/-- A connection that the component does not have any more goes. -/
theorem Inv.release {c : Nat} {conn : Connection L} (hi : Inv s) (hobj : s.objects c = some conn)
    (hnot : s.connections conn.locator ≠ some c) (hu : Unused s c) : Inv (s.put c none) := by
  have hkeep : ∀ c', c' ≠ c → Function.update s.objects c none c' = s.objects c' :=
    fun c' h => Function.update_of_ne h _ _
  refine ⟨hi.faultless, hi.meant, fun c' conn' h => ?_, fun l c' h => ?_, fun t c' h => ?_,
    fun h hmem hrem hfail => ?_, hi.unique, hi.issued, hi.failed⟩
  · by_cases e : c' = c
    · rw [e]
      exact hi.allocated c conn hobj
    · exact hi.allocated c' conn' ((hkeep c' e).symm.trans h)
  · obtain ⟨conn', h1, h2⟩ := hi.held l c' h
    have hne : c' ≠ c := by
      intro e
      subst e
      obtain rfl := Option.some.inj (hobj.symm.trans h1)
      exact hnot (h2 ▸ h)
    exact ⟨conn', (hkeep c' hne).trans h1, h2⟩
  · have hne : c' ≠ c := by
      intro e
      subst e
      exact h.elim (hu t).1 (hu t).2
    obtain ⟨conn', h1, h2⟩ := hi.used t c' h
    exact ⟨conn', (hkeep c' hne).trans h1, h2⟩
  · obtain ⟨h1, conn', h2, h3⟩ := hi.registered h hmem hrem hfail
    have hne : h.conn ≠ c := by
      intro e
      rw [e] at h1
      obtain ⟨conn'', h4, h5⟩ := hi.held _ c h1
      obtain rfl := Option.some.inj (hobj.symm.trans h4)
      exact hnot (h5 ▸ h1)
    exact ⟨h1, conn', (hkeep _ hne).trans h2, h3⟩

section Leave

variable [DecidableEq L]

/-- A connection fails, and it is the one that the component has, if it has one. -/
theorem Inv.fail {c : Nat} {conn : Connection L} (hi : Inv s) (hobj : s.objects c = some conn)
    (hg : ∀ c', s.connections conn.locator = some c' → c' = c) : Inv { s with
      connections := Function.update s.connections conn.locator none
      failed := c :: s.failed } := by
  have hconn : ∀ l c', s.connections l = some c' → c' ≠ c →
      Function.update s.connections conn.locator none l = some c' := by
    intro l c' h hne
    have hl : l ≠ conn.locator := by
      intro e
      rw [e] at h
      exact hne (hg c' h)
    rwa [Function.update_of_ne hl]
  refine ⟨hi.faultless, hi.meant, hi.allocated, fun l c' h => ?_, fun t c' h => ?_,
    fun h hmem hrem hfail => ?_, hi.unique, hi.issued, fun c' h => ?_⟩
  · have h1 : Function.update s.connections conn.locator none l = some c' := h
    by_cases e : l = conn.locator
    · rw [e, Function.update_self] at h1
      cases h1
    · rw [Function.update_of_ne e] at h1
      exact hi.held l c' h1
  · obtain ⟨conn', h1, h2⟩ := hi.used t c' h
    refine ⟨conn', h1, fun hf => ?_⟩
    have hf' := not_or.mp (List.mem_cons.not.mp hf)
    exact hconn _ c' (h2 hf'.2) hf'.1
  · have hf' := not_or.mp (List.mem_cons.not.mp hfail)
    obtain ⟨h1, h2⟩ := hi.registered h hmem hrem hf'.2
    exact ⟨hconn _ _ h1 hf'.1, h2⟩
  · rcases List.mem_cons.mp h with rfl | h
    · exact hi.allocated _ conn hobj
    · exact hi.failed c' h

/-- A client is removed; if it was the last one, so is the connection. -/
theorem Inv.removeClient {h : Handle L} (hi : Inv s) (hmem : h ∈ s.issued)
    (hg : FittingRemoval s h) : Inv (removeClient k s h) := by
  cases hl : s.connections h.locator with
  | none =>
      have hs : RPCConnections.removeClient k s h = { s with removed := h :: s.removed } := by
        simp [RPCConnections.removeClient, hl]
      rw [hs]
      exact ⟨hi.faultless, hi.meant, hi.allocated, hi.held, hi.used,
        fun h' hmem' hrem => hi.registered h' hmem' (fun hr => hrem (List.mem_cons_of_mem _ hr)),
        hi.unique, hi.issued, hi.failed⟩
  | some c =>
      obtain ⟨conn, hobj, hloc⟩ := hi.held _ c hl
      obtain ⟨hown, hlast⟩ := hg c conn hl hobj
      -- any other client has another number, or another connection
      have hother : ∀ h' ∈ s.issued, h' ∉ h :: s.removed → h'.conn = c →
          h'.number ∈ conn.clients → h'.number ∈ conn.clients.erase h.number := by
        intro h' hmem' hrem hc hn
        refine Finset.mem_erase.mpr ⟨fun e => hrem ?_, hn⟩
        rw [e] at hn
        rw [hi.unique h' hmem' h hmem (hc.trans (hown hn).symm) e]
        exact List.mem_cons_self
      have hkeep : ∀ c' x, c' ≠ c → Function.update s.objects c x c' = s.objects c' :=
        fun c' x hne => Function.update_of_ne hne _ _
      by_cases hempty : conn.clients.erase h.number = ∅
      · have hs : RPCConnections.removeClient k s h = { s with
            removed := h :: s.removed
            misremoved := false
            objects := Function.update s.objects c
              (if k = .webSocket then some { conn with clients := ∅ } else none)
            connections := Function.update s.connections h.locator none } := by
          simpa [RPCConnections.removeClient, hl, hobj, hempty, State.put, hi.meant] using hown
        rw [hs]
        have hunused := hlast hempty
        have hnot : ∀ l' c', s.connections l' = some c' → c' ≠ c → l' ≠ h.locator := by
          intro l' c' h1 hne e
          rw [e, hl] at h1
          exact hne (Option.some.inj h1).symm
        refine ⟨hi.faultless, rfl, fun c' conn' h1 => ?_, fun l' c' h1 => ?_, fun t c' h1 => ?_,
          fun h' hmem' hrem hfail => ?_, hi.unique, hi.issued, hi.failed⟩
        · by_cases e : c' = c
          · rw [e]
            exact hi.allocated c conn hobj
          · exact hi.allocated c' conn' ((hkeep c' _ e).symm.trans h1)
        · have h2 : Function.update s.connections h.locator none l' = some c' := h1
          by_cases e : l' = h.locator
          · rw [e, Function.update_self] at h2
            cases h2
          · rw [Function.update_of_ne e] at h2
            obtain ⟨conn', h3, h4⟩ := hi.held l' c' h2
            have hne : c' ≠ c := by
              intro e'
              subst e'
              obtain rfl := Option.some.inj (hobj.symm.trans h3)
              exact e (h4.symm.trans hloc)
            exact ⟨conn', (hkeep c' _ hne).trans h3, h4⟩
        · have hne : c' ≠ c := by
            intro e
            subst e
            exact h1.elim (hunused t).1 (hunused t).2
          obtain ⟨conn', h2, h3⟩ := hi.used t c' h1
          refine ⟨conn', (hkeep c' _ hne).trans h2, fun hf => ?_⟩
          exact (Function.update_of_ne (hnot _ c' (h3 hf) hne) _ _).trans (h3 hf)
        · obtain ⟨h1, conn', h2, h3⟩ := hi.registered h' hmem'
            (fun hr => hrem (List.mem_cons_of_mem _ hr)) hfail
          have hne : h'.conn ≠ c := by
            intro e
            rw [e] at h2
            obtain rfl := Option.some.inj (hobj.symm.trans h2)
            have h4 := hother h' hmem' hrem e h3
            rw [hempty] at h4
            exact absurd h4 (Finset.notMem_empty _)
          exact ⟨(Function.update_of_ne (hnot _ _ h1 hne) _ _).trans h1, conn',
            (hkeep _ _ hne).trans h2, h3⟩
      · have hs : RPCConnections.removeClient k s h = { s with
            removed := h :: s.removed
            misremoved := false
            objects := Function.update s.objects c
              (some { conn with clients := conn.clients.erase h.number }) } := by
          simpa [RPCConnections.removeClient, hl, hobj, hempty, State.put, hi.meant] using hown
        rw [hs]
        refine ⟨hi.faultless, rfl, fun c' conn' h1 => ?_, fun l' c' h1 => ?_, fun t c' h1 => ?_,
          fun h' hmem' hrem hfail => ?_, hi.unique, hi.issued, hi.failed⟩
        · by_cases e : c' = c
          · rw [e]
            exact hi.allocated c conn hobj
          · exact hi.allocated c' conn' ((hkeep c' _ e).symm.trans h1)
        · obtain ⟨conn', h2, h3⟩ := hi.held l' c' h1
          by_cases e : c' = c
          · subst e
            obtain rfl := Option.some.inj (hobj.symm.trans h2)
            exact ⟨_, Function.update_self _ _ _, h3⟩
          · exact ⟨conn', (hkeep c' _ e).trans h2, h3⟩
        · obtain ⟨conn', h2, h3⟩ := hi.used t c' h1
          by_cases e : c' = c
          · subst e
            obtain rfl := Option.some.inj (hobj.symm.trans h2)
            exact ⟨_, Function.update_self _ _ _, h3⟩
          · exact ⟨conn', (hkeep c' _ e).trans h2, h3⟩
        · obtain ⟨h1, conn', h2, h3⟩ := hi.registered h' hmem'
            (fun hr => hrem (List.mem_cons_of_mem _ hr)) hfail
          refine ⟨h1, ?_⟩
          by_cases e : h'.conn = c
          · rw [e] at h2 ⊢
            obtain rfl := Option.some.inj (hobj.symm.trans h2)
            exact ⟨_, Function.update_self _ _ _, hother h' hmem' hrem e h3⟩
          · exact ⟨conn', (hkeep _ _ e).trans h2, h3⟩

end Leave

variable [DecidableEq θ]

theorem setCall_cases {t t' : θ} {call : Call} {c : Nat}
    (h : (s.setCall t call).call t' = .adding c ∨ (s.setCall t call).call t' = .sending c) :
    (t' = t ∧ (call = .adding c ∨ call = .sending c)) ∨ s.call t' = .adding c ∨
      s.call t' = .sending c := by
  by_cases ht : t' = t
  · subst ht
    simp only [State.setCall, Function.update_self] at h
    exact Or.inl ⟨rfl, h⟩
  · simp only [State.setCall, Function.update_of_ne ht] at h
    exact Or.inr h

/-- A thread gets a pointer, or lets go of one. -/
theorem Inv.setCall (hi : Inv s) (t : θ) {call : Call}
    (hc : ∀ c, call = .adding c ∨ call = .sending c → ∃ conn, s.objects c = some conn ∧
      (c ∉ s.failed → s.connections conn.locator = some c)) : Inv (s.setCall t call) where
  faultless := hi.faultless
  meant := hi.meant
  allocated := hi.allocated
  held := hi.held
  used := fun t' c h => by
    rcases setCall_cases h with ⟨-, h⟩ | h
    · exact hc c h
    · exact hi.used t' c h
  registered := hi.registered
  unique := hi.unique
  issued := hi.issued
  failed := hi.failed

theorem Inv.idle (hi : Inv s) (t : θ) : Inv (s.setCall t .idle) :=
  hi.setCall t fun c h => by rcases h with h | h <;> cases h

/-- The client is added to the connection that its thread has found. -/
theorem Inv.addClient {t : θ} {c : Nat} (hi : Inv s) (hcall : s.call t = .adding c)
    (hfresh : ∀ conn, s.objects c = some conn → ∀ h ∈ s.issued, h.conn = c →
      h.number ≠ conn.clientCounter + 1) : Inv (addClient s t c) := by
  obtain ⟨conn, hobj, hheld⟩ := hi.used t c (Or.inl hcall)
  have hkeep : ∀ c' x, c' ≠ c → Function.update s.objects c x c' = s.objects c' :=
    fun c' x h => Function.update_of_ne h _ _
  simp only [RPCConnections.addClient, hobj]
  refine ⟨hi.faultless, hi.meant, fun c' conn' h => ?_, fun l c' h => ?_, fun t' c' h => ?_,
    fun h hmem hrem hfail => ?_, ?_, ?_, hi.failed⟩
  · by_cases e : c' = c
    · rw [e]
      exact hi.allocated c conn hobj
    · exact hi.allocated c' conn' ((hkeep c' _ e).symm.trans h)
  · obtain ⟨conn', h1, h2⟩ := hi.held l c' h
    by_cases e : c' = c
    · subst e
      obtain rfl := Option.some.inj (hobj.symm.trans h1)
      exact ⟨_, Function.update_self _ _ _, h2⟩
    · exact ⟨conn', (hkeep c' _ e).trans h1, h2⟩
  · have h' : s.call t' = .adding c' ∨ s.call t' = .sending c' := by
      rcases setCall_cases h with ⟨-, h | h⟩ | h
      · cases h
      · cases h
      · exact h
    obtain ⟨conn', h1, h2⟩ := hi.used t' c' h'
    by_cases e : c' = c
    · subst e
      obtain rfl := Option.some.inj (hobj.symm.trans h1)
      exact ⟨_, Function.update_self _ _ _, h2⟩
    · exact ⟨conn', (hkeep c' _ e).trans h1, h2⟩
  · rcases List.mem_cons.mp hmem with rfl | hmem
    · exact ⟨hheld hfail, _, Function.update_self _ _ _, Finset.mem_insert_self _ _⟩
    · obtain ⟨h1, conn', h2, h3⟩ := hi.registered h hmem hrem hfail
      refine ⟨h1, ?_⟩
      by_cases e : h.conn = c
      · rw [e] at h2 ⊢
        obtain rfl := Option.some.inj (hobj.symm.trans h2)
        exact ⟨_, Function.update_self _ _ _, Finset.mem_insert_of_mem h3⟩
      · exact ⟨conn', (hkeep _ _ e).trans h2, h3⟩
  · intro h hmem h' hmem' hc hn
    rcases List.mem_cons.mp hmem with rfl | hmem <;> rcases List.mem_cons.mp hmem' with rfl | hmem'
    · rfl
    · exact absurd hn.symm (hfresh conn hobj h' hmem' hc.symm)
    · exact absurd hn (hfresh conn hobj h hmem hc)
    · exact hi.unique h hmem h' hmem' hc hn
  · intro h hmem
    rcases List.mem_cons.mp hmem with rfl | hmem
    · exact hi.allocated c conn hobj
    · exact hi.issued h hmem

variable [DecidableEq L]

theorem Inv.createConnection {t : θ} {l : L} {fails : Bool} (hi : Inv s) :
    Inv (createConnection s t l fails) := by
  unfold RPCConnections.createConnection
  cases hl : s.connections l with
  | some c =>
      obtain ⟨conn, hobj, hloc⟩ := hi.held l c hl
      refine hi.setCall t fun c' h => ?_
      obtain rfl : c = c' := by
        rcases h with h | h <;> cases h
        rfl
      exact ⟨conn, hobj, fun _ => hloc ▸ hl⟩
  | none =>
      cases fails with
      | true => simpa using hi
      | false =>
          simp only [Bool.false_eq_true, if_false]
          have hnone : s.objects s.nextObject = none := by
            cases h : s.objects s.nextObject with
            | none => rfl
            | some conn => exact absurd (hi.allocated _ conn h) (by omega)
          have hkeep : ∀ c x, c < s.nextObject →
              Function.update s.objects s.nextObject x c = s.objects c :=
            fun c x h => Function.update_of_ne (by omega) _ _
          have hconn : ∀ l' c, s.connections l' = some c →
              Function.update s.connections l (some s.nextObject) l' = some c := by
            intro l' c h
            have hne : l' ≠ l := by
              intro e
              rw [e, hl] at h
              cases h
            rwa [Function.update_of_ne hne]
          refine ⟨hi.faultless, hi.meant, fun c conn h => ?_, fun l' c h => ?_, fun t' c h => ?_,
            fun h hmem hrem hfail => ?_, hi.unique, fun h hmem => ?_, fun c hc => ?_⟩
          · show c < s.nextObject + 1
            by_cases e : c = s.nextObject
            · omega
            · have h1 : Function.update s.objects s.nextObject _ c = some conn := h
              rw [Function.update_of_ne e] at h1
              have h2 := hi.allocated c conn h1
              omega
          · have h1 : Function.update s.connections l (some s.nextObject) l' = some c := h
            by_cases e : l' = l
            · rw [e, Function.update_self] at h1
              obtain rfl := Option.some.inj h1
              exact ⟨_, Function.update_self _ _ _, e.symm⟩
            · rw [Function.update_of_ne e] at h1
              obtain ⟨conn, h2, h3⟩ := hi.held l' c h1
              exact ⟨conn, (hkeep c _ (hi.allocated c conn h2)).trans h2, h3⟩
          · rcases setCall_cases h with ⟨-, h⟩ | h
            · obtain rfl : s.nextObject = c := by
                rcases h with h | h <;> cases h
                rfl
              exact ⟨_, Function.update_self _ _ _, fun _ => Function.update_self _ _ _⟩
            · obtain ⟨conn, h1, h2⟩ := hi.used t' c h
              exact ⟨conn, (hkeep c _ (hi.allocated c conn h1)).trans h1,
                fun hf => hconn _ c (h2 hf)⟩
          · obtain ⟨h1, conn, h2, h3⟩ := hi.registered h hmem hrem hfail
            exact ⟨hconn _ _ h1, conn, (hkeep _ _ (hi.issued h hmem)).trans h2, h3⟩
          · exact Nat.lt_succ_of_lt (hi.issued h hmem)
          · exact Nat.lt_succ_of_lt (hi.failed c hc)

theorem inv_step {a : Act θ L} (hi : Inv s) (hg : Orderly s a) (hs : step k s a = some s') :
    Inv s' := by
  cases a with
  | createConnection t l fails =>
      simp only [step] at hs
      split at hs
      · obtain rfl := Option.some.inj hs
        exact hi.createConnection
      · cases hs
  | addClient t =>
      simp only [step] at hs
      split at hs
      · next c hcall =>
        obtain rfl := Option.some.inj hs
        exact hi.addClient hcall fun conn hobj => hg c conn hcall hobj
      · cases hs
  | sendRequest t h =>
      simp only [step] at hs
      split at hs
      · split at hs
        · next hmem =>
          obtain ⟨h1, conn, h2, -⟩ := hi.registered h hmem.1 hmem.2 hg
          rw [h2] at hs
          obtain rfl := Option.some.inj hs
          obtain ⟨conn', h3, h4⟩ := hi.held _ _ h1
          refine hi.setCall t fun c hc => ?_
          obtain rfl : h.conn = c := by
            rcases hc with hc | hc <;> cases hc
            rfl
          exact ⟨conn', h3, fun _ => h4 ▸ h1⟩
        · cases hs
      · cases hs
  | publish t =>
      simp only [step] at hs
      split at hs
      · next c hcall =>
        obtain ⟨conn, h1, -⟩ := hi.used t c (Or.inr hcall)
        rw [h1] at hs
        obtain rfl := Option.some.inj hs
        exact hi.idle t
      · cases hs
  | removeClient h =>
      simp only [step] at hs
      split at hs
      · next hmem =>
        obtain rfl := Option.some.inj hs
        exact hi.removeClient hmem hg
      · cases hs
  | fail c =>
      simp only [step] at hs
      split at hs
      · cases hs
      · next conn hobj =>
        split at hs
        · obtain rfl := Option.some.inj hs
          exact hi.fail hobj fun c' => hg conn c' hobj
        · cases hs
  | release c =>
      simp only [step] at hs
      split at hs
      · cases hs
      · next conn hobj =>
        split at hs
        · next hk =>
          obtain rfl := Option.some.inj hs
          exact hi.release hobj hk.2 hg
        · cases hs

/--
**While removals are orderly.** In every run in which each removal finds the client that it is
meant for and takes the last client out of no connection that a call is using, no client number
comes round, no sender is called when its connection has failed, and a WebSocket connection that
fails or goes is not in the way of another one: nothing is used that is not allocated, each client
is registered in the connection that the component holds for its locator, and no removal hits
another client.
-/
theorem outlives_of_orderly (hr : (machine (θ := θ) (L := L) k).Reach Orderly s) : Outlives s :=
  (hr.invariant (I := Inv) inv_init fun _ _ _ hi hg hs => inv_step hi hg hs).outlives

/-! ## Two clients of one locator -/

def first : Handle Unit := ⟨(), 0, 1⟩

def second : Handle Unit := ⟨(), 0, 2⟩

/-- Two clients are set; the first one asks, and is removed. -/
def setTwo : List (Act Bool Unit) :=
  [.createConnection true () false, .createConnection false () false, .addClient true,
    .addClient false, .sendRequest true first, .publish true]

theorem setTwo_orderly : (machine (θ := Bool) (L := Unit) .redis).Within Orderly
    (machine (θ := Bool) .redis).init (setTwo ++ [.removeClient first]) := by
  refine ⟨trivial, trivial, ?_, ?_, ?_, trivial, ?_, trivial⟩
  · intro c conn _ _ h hmem
    cases hmem
  · intro c conn hc hobj h hmem _
    cases hc
    cases hobj
    obtain rfl := List.mem_singleton.mp hmem
    decide
  · exact List.not_mem_nil
  · intro c conn hc hobj
    cases hc
    cases hobj
    exact ⟨fun _ => rfl, fun h => absurd h (by decide)⟩

theorem outlives_setTwo :
    ∃ s, (machine (θ := Bool) (L := Unit) .redis).Reach Orderly s ∧ second ∈ s.issued ∧
      s.removed = [first] ∧ Outlives s := by
  have hr := Machine.Reach.init.exec setTwo_orderly
  exact ⟨_, hr, by decide +kernel, by decide +kernel, outlives_of_orderly hr⟩

/-- One thread has found the connection, and another one removes its last client. -/
def removeMeanwhile : List (Act Bool Unit) :=
  [.createConnection true () false, .addClient true, .createConnection false () false,
    .removeClient first, .addClient false]

/-- The client is added to a connection that is gone. -/
theorem not_outlives_removeMeanwhile :
    ∃ s, (machine (θ := Bool) (L := Unit) .redis).Reach (fun _ _ => True) s ∧ ¬ Outlives s := by
  have hr := (Machine.Reach.init (M := machine (θ := Bool) (L := Unit) .redis)).exec
    (Machine.Within.of_forall (fun _ _ => trivial) _ removeMeanwhile)
  refine ⟨_, hr, fun h => ?_⟩
  have h1 := h.faultless
  rw [show ((machine .redis).exec (machine .redis).init removeMeanwhile).faulty = true by
    decide +kernel] at h1
  cases h1

end RPCConnections
