import TMTransport.Library.Machine
import TMTransport.RPC.Wire

/-!
# Requests before the handshake

An RPC client is started and can be given requests at once, from any thread. Until
the handshake is done they go to a buffer. The handler that completes the handshake
sets the ready flag, takes the buffer, and writes what was in it, request by request,
in the way in which `sendRequest` writes when it finds the flag set.

The flag is read before the buffer's mutex is locked. A request can so come to the
buffer after the buffer has been taken; and a later request of a thread can be written
while an earlier one is still in what was taken.
-/

namespace WebSocketRPCClient

open Interleave RPC

structure Request where
  clientNumber : Nat
  data : ByteDataWithID
  deriving DecidableEq

/-- Where a thread is in `doSendRequest`. -/
inductive Stage where
  /-- It is to read the flag again. -/
  | test
  /-- It is to lock `clientsMutex_`. -/
  | register
  /-- It is to lock `writeMutex_`, and to write. -/
  | write
  deriving DecidableEq

/-- Where a thread is in `sendRequest`. -/
inductive Sender where
  | idle
  /-- It is to read the flag. -/
  | testing (r : Request)
  /-- It has found the flag not set. -/
  | buffering (r : Request)
  | sending (stage : Stage) (r : Request)
  deriving DecidableEq

/-- Where the handler `onWebSocketHandshake` is. -/
inductive Handler (τ : Type) where
  | waiting
  /-- The flag is set. -/
  | splicing
  /-- It goes through `bufferCopy`; the stage is that of the first request. -/
  | flushing (stage : Stage) (bufferCopy : List (τ × Request))
  deriving DecidableEq

/-- The requests come with the threads that have given them. -/
structure State (τ : Type) where
  ready : Bool
  sender : τ → Sender
  handler : Handler τ
  beforeReadyBuffer : List (τ × Request)
  /-- What has been given to `sendRequest`. -/
  given : List (τ × Request)
  /-- What has been written to the stream. -/
  written : List (τ × Request)

inductive Act (τ : Type) where
  | sendRequest (t : τ) (r : Request)
  /-- The thread goes on, and if it writes, writing may fail. -/
  | send (t : τ) (fails : Bool)
  | onWebSocketHandshake
  /-- The handler goes on. -/
  | flush (fails : Bool)
  /-- A read fails. -/
  | onReadError

section Step

variable {τ : Type} [DecidableEq τ]

/-- The thread is now somewhere else. -/
def State.move (s : State τ) (t : τ) (x : Sender) : State τ :=
  { s with sender := Function.update s.sender t x }

/-- The next step of `sendRequest`. -/
def send (s : State τ) (t : τ) (fails : Bool) : Option (State τ) :=
  match s.sender t with
  | .idle => none
  | .testing r => some (s.move t (if s.ready then .sending .test r else .buffering r))
  | .buffering r =>
      some { s.move t .idle with beforeReadyBuffer := s.beforeReadyBuffer ++ [(t, r)] }
  | .sending .test r => some (s.move t (if s.ready then .sending .register r else .idle))
  | .sending .register r => some (s.move t (.sending .write r))
  | .sending .write r =>
      if fails then some { s.move t .idle with ready := false }
      else some { s.move t .idle with written := s.written ++ [(t, r)] }

/-- The next step of the handler, once the flag is set. -/
def flush (s : State τ) (fails : Bool) : Option (State τ) :=
  match s.handler with
  | .waiting => none
  | .splicing =>
      some { s with handler := .flushing .test s.beforeReadyBuffer, beforeReadyBuffer := [] }
  | .flushing _ [] => none
  | .flushing .test (x :: xs) =>
      some { s with
        handler := if s.ready then .flushing .register (x :: xs) else .flushing .test xs }
  | .flushing .register (x :: xs) => some { s with handler := .flushing .write (x :: xs) }
  | .flushing .write (x :: xs) =>
      if fails then some { s with handler := .flushing .test xs, ready := false }
      else some { s with handler := .flushing .test xs, written := s.written ++ [x] }

def step (s : State τ) : Act τ → Option (State τ)
  | .sendRequest t r =>
    if s.sender t = .idle then
      some { s.move t (.testing r) with given := s.given ++ [(t, r)] }
    else none
  | .send t fails => send s t fails
  | .onWebSocketHandshake =>
    if s.handler = .waiting then some { s with handler := .splicing, ready := true } else none
  | .flush fails => flush s fails
  | .onReadError => some { s with ready := false }

/-- From after `run()` on. -/
def machine (τ : Type) [DecidableEq τ] : Machine (State τ) (Act τ) where
  init := ⟨false, fun _ => .idle, .waiting, [], [], []⟩
  step := step

/-- The requests of one thread, in their order. -/
def ofThread (t : τ) (l : List (τ × Request)) : List Request :=
  (l.filter fun x => x.1 = t).map Prod.snd

end Step

variable {τ : Type}

/-- No call is going on, and the handshake is done with. -/
def State.Quiet (s : State τ) : Prop :=
  (∀ t, s.sender t = .idle) ∧ ∃ stage, s.handler = .flushing stage []

structure Kept [DecidableEq τ] (s : State τ) : Prop where
  /-- The requests of a thread are written in the order given. -/
  inOrder : ∀ t, ofThread t s.written <+: ofThread t s.given
  /-- In the end all of them have been written, each of them once. -/
  all : s.Quiet → ∀ t, ofThread t s.written = ofThread t s.given

/-- The connection does not fail. -/
def Lasts (_ : State τ) : Act τ → Prop
  | .send _ fails => fails = false
  | .flush fails => fails = false
  | .onReadError => False
  | _ => True

/-- The requests that the handler has taken and not written. -/
def Handler.copy : Handler τ → List (τ × Request)
  | .flushing _ bufferCopy => bufferCopy
  | _ => []

/--
The connection lasts. The buffer is not taken while a thread is about to put a request there, and
no thread writes while an earlier request of its own waits, in the buffer or in what was taken.
-/
def Orderly [DecidableEq τ] (s : State τ) : Act τ → Prop
  | .send t fails => fails = false ∧ ∀ r, s.sender t = .sending .write r →
      ofThread t (s.handler.copy ++ s.beforeReadyBuffer) = []
  | .flush fails => fails = false ∧ (s.handler = .splicing → ∀ t r, s.sender t ≠ .buffering r)
  | .onReadError => False
  | _ => True

/-! ## The invariant -/

/-- The request that a thread is giving. -/
def Sender.current : Sender → List Request
  | .idle => []
  | .testing r => [r]
  | .buffering r => [r]
  | .sending _ r => [r]

variable [DecidableEq τ]

structure Inv (s : State τ) : Prop where
  /-- Where the requests of a thread are, the earliest first. -/
  parts : ∀ t, ofThread t s.given =
    ofThread t s.written ++ (ofThread t (s.handler.copy ++ s.beforeReadyBuffer) ++
      (s.sender t).current)
  ready : s.ready = true ↔ s.handler ≠ .waiting
  sending : ∀ t stage r, s.sender t = .sending stage r → s.handler ≠ .waiting
  /-- Once the buffer has been taken nothing gets there any more. -/
  taken : ∀ stage copy, s.handler = .flushing stage copy →
    s.beforeReadyBuffer = [] ∧ ∀ t r, s.sender t ≠ .buffering r

variable {s s' : State τ} {t t' : τ} {r : Request} {l l' : List (τ × Request)}

@[simp]
theorem ofThread_nil : ofThread t ([] : List (τ × Request)) = [] := rfl

@[simp]
theorem ofThread_append : ofThread t (l ++ l') = ofThread t l ++ ofThread t l' := by
  simp [ofThread]

theorem ofThread_cons {x : τ × Request} :
    ofThread t (x :: l) = ofThread t [x] ++ ofThread t l := by
  rw [← ofThread_append, List.singleton_append]

@[simp]
theorem ofThread_self : ofThread t [(t, r)] = [r] := by
  simp [ofThread]

theorem ofThread_of_ne (h : t ≠ t') : ofThread t [(t', r)] = [] := by
  simp [ofThread, Ne.symm h]

theorem Inv.kept (hi : Inv s) : Kept s where
  inOrder := fun t => ⟨_, (hi.parts t).symm⟩
  all := fun hq t => by
    obtain ⟨hidle, stage, hh⟩ := hq
    obtain ⟨hb, -⟩ := hi.taken stage [] hh
    have hp := hi.parts t
    rw [hidle t, hh, hb] at hp
    simpa [Handler.copy, Sender.current] using hp.symm

theorem inv_init : Inv (machine τ).init where
  parts := fun t => rfl
  ready := by simp [machine]
  sending := fun t stage r h => by cases h
  taken := fun stage copy h => by cases h

/-! ## The steps -/

/-- A thread goes on, and its requests stay where they are in order. -/
theorem Inv.move (hi : Inv s) {x : Sender} {given buffer written : List (τ × Request)}
    (hother : ∀ t', t' ≠ t → ofThread t' given = ofThread t' s.given ∧
      ofThread t' buffer = ofThread t' s.beforeReadyBuffer ∧
      ofThread t' written = ofThread t' s.written)
    (hparts : ofThread t given = ofThread t written ++
      (ofThread t (s.handler.copy ++ buffer) ++ x.current))
    (hsending : ∀ stage r, x = .sending stage r → s.handler ≠ .waiting)
    (htaken : ∀ stage copy, s.handler = .flushing stage copy →
      buffer = [] ∧ ∀ r, x ≠ .buffering r) :
    Inv { s.move t x with given := given, beforeReadyBuffer := buffer, written := written } where
  parts := fun t' => by
    show ofThread t' given = ofThread t' written ++ (ofThread t' (s.handler.copy ++ buffer) ++
      (Function.update s.sender t x t').current)
    by_cases he : t' = t
    · subst he
      rw [Function.update_self]
      exact hparts
    · obtain ⟨h1, h2, h3⟩ := hother t' he
      rw [Function.update_of_ne he, ofThread_append, h1, h2, h3, ← ofThread_append]
      exact hi.parts t'
  ready := hi.ready
  sending := fun t' stage r h => by
    have h1 : Function.update s.sender t x t' = .sending stage r := h
    rw [Function.update_apply] at h1
    split at h1
    · exact hsending stage r h1
    · exact hi.sending t' stage r h1
  taken := fun stage copy h => by
    obtain ⟨h1, h2⟩ := htaken stage copy h
    refine ⟨h1, fun t' r => ?_⟩
    show Function.update s.sender t x t' ≠ .buffering r
    rw [Function.update_apply]
    split
    · exact h2 r
    · exact (hi.taken stage copy h).2 t' r

theorem Inv.sendRequest (hi : Inv s) (hidle : s.sender t = .idle) :
    Inv { s.move t (.testing r) with given := s.given ++ [(t, r)] } := by
  refine hi.move (fun t' he => ?_) ?_ (fun stage r h => nomatch h) fun stage copy h =>
    ⟨(hi.taken stage copy h).1, fun r h => nomatch h⟩
  · simp [State.move, ofThread_of_ne he]
  · have hp := hi.parts t
    rw [hidle] at hp
    simp only [State.move, ofThread_append, ofThread_self, Sender.current, List.append_nil] at hp ⊢
    rw [hp]
    simp

/-- A thread goes on in its call, and nothing else changes. -/
theorem Inv.goOn (hi : Inv s) {x : Sender} (hcur : x.current = (s.sender t).current)
    (hsending : ∀ stage r, x = .sending stage r → s.handler ≠ .waiting)
    (htaken : ∀ stage copy, s.handler = .flushing stage copy → ∀ r, x ≠ .buffering r) :
    Inv (s.move t x) := by
  refine hi.move (fun t' _ => ⟨rfl, rfl, rfl⟩) ?_ hsending fun stage copy h =>
    ⟨(hi.taken stage copy h).1, htaken stage copy h⟩
  rw [hcur]
  exact hi.parts t

theorem Inv.send (hi : Inv s) (hg : ∀ r, s.sender t = .sending .write r →
    ofThread t (s.handler.copy ++ s.beforeReadyBuffer) = [])
    (hs : send s t false = some s') : Inv s' := by
  unfold WebSocketRPCClient.send at hs
  cases hx : s.sender t with
  | idle => simp [hx] at hs
  | testing r =>
      simp only [hx] at hs
      obtain rfl := Option.some.inj hs
      by_cases hr : s.ready = true
      · rw [if_pos hr]
        exact hi.goOn (by rw [hx]; rfl) (fun _ _ _ => hi.ready.mp hr) fun _ _ _ r h => nomatch h
      · rw [if_neg hr]
        refine hi.goOn (by rw [hx]; rfl) (fun _ _ h => nomatch h) fun stage copy h => ?_
        exact absurd (hi.ready.mpr (by rw [h]; exact fun h => nomatch h)) hr
  | buffering r =>
      simp only [hx] at hs
      obtain rfl := Option.some.inj hs
      refine hi.move (fun t' he => ?_) ?_ (fun _ _ h => nomatch h) fun stage copy h =>
        absurd hx ((hi.taken stage copy h).2 t r)
      · simp [State.move, ofThread_of_ne he]
      · have hp := hi.parts t
        rw [hx] at hp
        simpa [State.move, Sender.current] using hp
  | sending stage r =>
      have hw := hi.sending t stage r hx
      have hr := hi.ready.mpr hw
      cases stage with
      | test =>
          simp only [hx, hr, if_true] at hs
          obtain rfl := Option.some.inj hs
          exact hi.goOn (by rw [hx]; rfl) (fun _ _ _ => hw) fun _ _ _ r h => nomatch h
      | register =>
          simp only [hx] at hs
          obtain rfl := Option.some.inj hs
          exact hi.goOn (by rw [hx]; rfl) (fun _ _ _ => hw) fun _ _ _ r h => nomatch h
      | write =>
          simp only [hx, Bool.false_eq_true, if_false] at hs
          obtain rfl := Option.some.inj hs
          refine hi.move (fun t' he => ⟨rfl, rfl, ?_⟩) ?_ (fun _ _ h => nomatch h)
            fun stage copy h => ⟨(hi.taken stage copy h).1, fun r h => nomatch h⟩
          · simp [ofThread_of_ne he]
          · -- nothing of the thread waits before this request
            have hp := hi.parts t
            rw [hx, hg r hx] at hp
            show ofThread t s.given = _ ++ (ofThread t (s.handler.copy ++ s.beforeReadyBuffer) ++ _)
            rw [hg r hx, hp]
            simp [Sender.current]

/-- The handler goes on with what it has taken. -/
theorem Inv.flushing (hi : Inv s) {stage stage' : Stage} {copy copy' written : List (τ × Request)}
    (hh : s.handler = .flushing stage copy)
    (hparts : ∀ t, ofThread t s.written ++ ofThread t copy =
      ofThread t written ++ ofThread t copy') :
    Inv { s with handler := .flushing stage' copy', written := written } where
  parts := fun t => by
    have hp := hi.parts t
    rw [hh] at hp
    simp only [Handler.copy, ofThread_append, ← List.append_assoc] at hp ⊢
    rw [hp, hparts t]
  ready := by
    have hr := hi.ready.mpr (by rw [hh]; exact fun h => nomatch h)
    simpa using hr
  sending := fun _ _ _ _ h => nomatch h
  taken := fun _ _ _ => hi.taken _ _ hh

theorem Inv.flush (hi : Inv s) (hg : s.handler = .splicing → ∀ t r, s.sender t ≠ .buffering r)
    (hs : flush s false = some s') : Inv s' := by
  unfold WebSocketRPCClient.flush at hs
  split at hs
  · cases hs
  · next hh =>
    obtain rfl := Option.some.inj hs
    have hr := hi.ready
    refine ⟨fun t => ?_, by simpa [hh] using hr, fun _ _ _ _ h => (nomatch h),
      fun _ _ _ => ⟨rfl, hg hh⟩⟩
    have hp := hi.parts t
    rw [hh] at hp
    simpa [Handler.copy] using hp
  · cases hs
  · next x xs hh =>
    have hr := hi.ready.mpr (by rw [hh]; exact fun h => nomatch h)
    rw [if_pos hr] at hs
    obtain rfl := Option.some.inj hs
    exact hi.flushing hh fun t => rfl
  · next x xs hh =>
    obtain rfl := Option.some.inj hs
    exact hi.flushing hh fun t => rfl
  · next x xs hh =>
    simp only [Bool.false_eq_true, if_false] at hs
    obtain rfl := Option.some.inj hs
    -- the first request of the copy is now the last one written
    refine hi.flushing hh fun t => ?_
    rw [ofThread_append, List.append_assoc, ofThread_cons]

theorem inv_step {a : Act τ} (hi : Inv s) (hg : Orderly s a) (hs : step s a = some s') :
    Inv s' := by
  cases a with
  | sendRequest t r =>
      obtain ⟨hidle, rfl⟩ := of_guarded hs
      exact hi.sendRequest hidle
  | send t fails =>
      obtain ⟨rfl, hg⟩ := hg
      exact hi.send hg hs
  | onWebSocketHandshake =>
      obtain ⟨hh, rfl⟩ := of_guarded hs
      refine ⟨fun t => ?_, by simp, fun _ _ _ _ h => (nomatch h), fun _ _ h => nomatch h⟩
      have hp := hi.parts t
      rw [hh] at hp
      exact hp
  | flush fails =>
      obtain ⟨rfl, hg⟩ := hg
      exact hi.flush hg hs
  | onReadError => exact hg.elim

def ask (id : String) : Request := ⟨1, ⟨id, "?"⟩⟩

/-- One thread is early, the other one comes when the handshake is done with. -/
def oneEarly : List (Act Bool) :=
  [.sendRequest false (ask "a"), .send false false, .send false false, .onWebSocketHandshake,
    .flush false, .flush false, .flush false, .flush false,
    .sendRequest true (ask "b"), .send true false, .send true false, .send true false,
    .send true false]

theorem oneEarly_orderly : (machine Bool).Within Orderly (machine Bool).init oneEarly := by
  refine ⟨trivial, ⟨rfl, fun _ _ => rfl⟩, ⟨rfl, fun _ _ => rfl⟩, trivial, ⟨rfl, ?_⟩,
    ⟨rfl, fun h => (nomatch h)⟩, ⟨rfl, fun h => (nomatch h)⟩, ⟨rfl, fun h => (nomatch h)⟩, trivial,
    ⟨rfl, fun _ _ => rfl⟩, ⟨rfl, fun _ _ => rfl⟩, ⟨rfl, fun _ _ => rfl⟩, ⟨rfl, fun _ _ => rfl⟩,
    trivial⟩
  intro _ t r h
  cases t <;> cases h

/-- The thread has read the flag; the handshake comes to its end; the thread goes on. -/
def late : List (Act Bool) :=
  [.sendRequest false (ask "a"), .send false false, .onWebSocketHandshake, .flush false,
    .send false false]

/-- A thread's second request is written while the first one waits in what was taken. -/
def overtaken : List (Act Bool) :=
  [.sendRequest false (ask "a"), .send false false, .send false false, .onWebSocketHandshake,
    .flush false, .sendRequest false (ask "b"), .send false false, .send false false,
    .send false false, .send false false]

/-- The second request is written first. -/
theorem not_inOrder_overtaken : ∃ s, (machine Bool).Reach Lasts s ∧
    ¬ ofThread false s.written <+: ofThread false s.given := by
  have hl : (machine Bool).Within Lasts (machine Bool).init overtaken :=
    ⟨trivial, rfl, rfl, trivial, rfl, trivial, rfl, rfl, rfl, rfl, trivial⟩
  exact ⟨_, Machine.Reach.init.exec hl, by decide⟩

end WebSocketRPCClient
