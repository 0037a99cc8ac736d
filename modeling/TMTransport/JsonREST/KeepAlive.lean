import Mathlib.Data.List.Infix
import TMTransport.Library.Machine

/-!
# The keep-alive client for JSON REST

All requests to one host go through one connection, one at a time. The application adds
them to `requests_`; whenever a request can go out, the client moves what is there to
`processingQueue_`, writes the first one, and reads the response. It then calls the
callback of that request, takes it off, and looks again after a millisecond.

When a read fails, the client connects again and sends the first request once more. It
reads the response to that into the same buffer, so that part of a header which has come
over the old connection stands before it. And when it cannot connect, or cannot write, it
goes away, with all requests that wait (`inTurn_of_orderly`).
-/

namespace KeepAlive

open Interleave

abbrev Bytes := List UInt8

/-- HTTP, as Boost reads it. -/
structure Http (Res : Type) where
  /-- A response, on its way. -/
  wire : Res → Bytes
  /-- The response that the bytes in the buffer begin with. `none` is an error, or the end
  of what comes. -/
  parse : Bytes → Option Res
  /-- What a read that fails does not take out of the buffer. -/
  leftover : Bytes → Bytes

/-- A response that comes into an empty buffer is read as it is. -/
def Http.Lawful {Res : Type} (http : Http Res) : Prop :=
  ∀ m, http.parse (http.wire m) = some m

structure Client (Req Res : Type) where
  http : Http Res
  tls : Bool
  /-- The one that the client is made for. -/
  initialRequest : Req

/-- A request that has been built. Its callback is that of the request. -/
structure HTTPRequest (Req : Type) where
  req : Req
  buffer : Bytes

inductive Phase where
  /-- From `run` on. -/
  | resolving
  | connecting
  | handshaking
  /-- The first request has been written. -/
  | reading
  /-- A timer runs. -/
  | resting
  /-- Connected, with nothing to do and nothing to come. -/
  | idle
  /-- No longer in `keepAliveClientMap_`, and destroyed. -/
  | removed
  /-- An exception has come out of a handler, in a thread that catches none. -/
  | terminated
  deriving DecidableEq

/-- Is the client there for those who look it up? -/
def Phase.up : Phase → Bool
  | removed => false
  | terminated => false
  | _ => true

/-- The last four are not in the client. -/
structure State (Req Res : Type) where
  phase : Phase
  requests : List Req
  processingQueue : List (HTTPRequest Req)
  /-- All requests, in the order in which they have been added. -/
  added : List Req
  /-- What the server has sent, and to which request. -/
  responses : List (Req × Res)
  /-- The callbacks that have been called, in this order. -/
  called : List (Req × Res)
  /-- The request whose turn it was when the client went away. -/
  struck : List Req

inductive Act (Req Res : Type) where
  | addRequest (r : Req)
  /-- `onResolve` -/
  | resolved
  /-- `onConnect` -/
  | connected
  /-- `onSSLHandshake` -/
  | handshaken
  /-- An error in one of the three, or in `run`. -/
  | connectionFails
  /-- `http::write` throws. -/
  | writeFails
  /-- The server sends a response to the request that has been written, and it is there. A
  callback that adds a request to the same client would never come back, as `onRead` has the
  mutex. -/
  | responds (m : Res)
  /-- An error in `onRead`, after so much of a response. -/
  | readFails (part : Bytes)
  /-- The timer is up. -/
  | checkAndSend

section Steps

variable {Req Res : Type}

/-- The requests that wait, in their order. -/
def State.waiting (s : State Req Res) : List Req :=
  s.processingQueue.map HTTPRequest.req ++ s.requests

/-- Move all requests over. -/
def State.take (s : State Req Res) : State Req Res :=
  { s with
    requests := []
    processingQueue := s.processingQueue ++ s.requests.map fun r => ⟨r, []⟩ }

/-- Write the first request, if there is one. -/
def State.send (s : State Req Res) (otherwise : Phase) : State Req Res :=
  { s.take with
    phase := if s.take.processingQueue.isEmpty then otherwise else .reading }

/-- The client goes away. -/
def State.leave (s : State Req Res) (phase : Phase) : State Req Res :=
  { s with
    phase
    requests := []
    processingQueue := []
    struck := s.struck ++ s.waiting.head?.toList }

variable (x : Client Req Res)

/-- `onShutdown`, after this has come for the first request. -/
def Client.restart (s : State Req Res) (p : HTTPRequest Req) (ps : List (HTTPRequest Req))
    (part : Bytes) : State Req Res :=
  { s with
    phase := .resolving
    processingQueue := { p with buffer := x.http.leftover (p.buffer ++ part) } :: ps }

/-- `onRead`, when a response has come for the first request. What the buffer has in it
already comes first. -/
def Client.onRead (s : State Req Res) (p : HTTPRequest Req) (ps : List (HTTPRequest Req))
    (m : Res) : State Req Res :=
  match x.http.parse (p.buffer ++ x.http.wire m) with
  | none => x.restart s p ps (x.http.wire m)
  | some res =>
      { s with
        phase := .resting
        processingQueue := ps
        called := s.called ++ [(p.req, res)] }

def Client.step (s : State Req Res) : Act Req Res → Option (State Req Res)
  | .addRequest r =>
      if s.phase.up then
        some { s with
          requests := s.requests ++ [r]
          added := s.added ++ [r] }
      else none
  | .resolved => if s.phase = .resolving then some { s with phase := .connecting } else none
  | .connected =>
      if s.phase = .connecting then
        some (if x.tls then { s with phase := .handshaking } else s.send .idle)
      else none
  | .handshaken => if s.phase = .handshaking then some (s.send .idle) else none
  | .connectionFails =>
      if s.phase = .resolving ∨ s.phase = .connecting ∨ s.phase = .handshaking then
        some (s.leave .removed)
      else none
  | .writeFails =>
      if s.waiting ≠ [] ∧
          (s.phase = .connecting ∧ x.tls = false ∨ s.phase = .handshaking ∨ s.phase = .resting) then
        some (s.leave .terminated)
      else none
  | .responds m =>
      match s.phase, s.processingQueue with
      | .reading, p :: ps =>
          some (x.onRead { s with responses := s.responses ++ [(p.req, m)] } p ps m)
      | _, _ => none
  | .readFails part =>
      match s.phase, s.processingQueue with
      | .reading, p :: ps => some (x.restart s p ps part)
      | _, _ => none
  | .checkAndSend => if s.phase = .resting then some (s.send .resting) else none

/-- A client that has just been made, and runs. -/
def Client.init : State Req Res where
  phase := .resolving
  requests := [x.initialRequest]
  processingQueue := []
  added := [x.initialRequest]
  responses := []
  called := []
  struck := []

def Client.machine : Machine (State Req Res) (Act Req Res) where
  init := x.init
  step := x.step

/-! ## Requests in their turn -/

/-- **Each request in its turn**: what has been added is what has been called, then perhaps
the request that the client has gone away with, then what waits. So nothing is called out of
order or twice, and nothing is lost but a request that an error has struck itself. And each
has been called with a response to it. -/
structure InTurn (s : State Req Res) : Prop where
  line : s.added = s.called.map Prod.fst ++ s.struck ++ s.waiting
  own : ∀ c ∈ s.called, c ∈ s.responses
  struck : s.struck.length ≤ 1

/-- The client goes away only with the last request that waits, and a read that fails leaves
nothing in the buffer. -/
def Client.Orderly (s : State Req Res) : Act Req Res → Prop
  | .connectionFails => s.waiting.length ≤ 1
  | .writeFails => s.waiting.length ≤ 1
  | .readFails part => x.http.leftover part = []
  | _ => True

instance (s : State Req Res) (a : Act Req Res) : Decidable (x.Orderly s a) :=
  match a with
  | .connectionFails => inferInstanceAs (Decidable (_ ≤ 1))
  | .writeFails => inferInstanceAs (Decidable (_ ≤ 1))
  | .readFails _ => inferInstanceAs (Decidable (_ = []))
  | .addRequest _ | .resolved | .connected | .handshaken | .responds _ | .checkAndSend =>
      inferInstanceAs (Decidable True)

/-! ## Steps, one by one -/

variable {x : Client Req Res} {s s' : State Req Res} {a : Act Req Res}

@[simp] theorem waiting_take : s.take.waiting = s.waiting := by
  simp [State.waiting, State.take, Function.comp_def]

@[simp] theorem waiting_send (otherwise : Phase) : (s.send otherwise).waiting = s.waiting :=
  waiting_take

theorem buffer_take (h : ∀ p ∈ s.processingQueue, p.buffer = []) :
    ∀ p ∈ s.take.processingQueue, p.buffer = [] := by
  intro p hp
  rcases List.mem_append.mp hp with hp | hp
  · exact h p hp
  · obtain ⟨r, -, rfl⟩ := List.mem_map.mp hp
    rfl

/-- What the requests and their callbacks have come to. -/
structure Inv (s : State Req Res) : Prop where
  line : s.added = s.called.map Prod.fst ++ s.struck ++ s.waiting
  own : ∀ c ∈ s.called, c ∈ s.responses
  buffer : ∀ p ∈ s.processingQueue, p.buffer = []
  up : s.phase.up = true → s.struck = []
  gone : s.struck.length ≤ 1

theorem Inv.inTurn (h : Inv s) : InTurn s := ⟨h.line, h.own, h.gone⟩

theorem Inv.begins (x : Client Req Res) : Inv x.init where
  line := rfl
  own := by simp [Client.init]
  buffer := by simp [Client.init]
  up := fun _ => rfl
  gone := by simp [Client.init]

/-- Another phase. -/
theorem Inv.phased (h : Inv s) {phase : Phase} (hup : s.phase.up = true) :
    Inv { s with phase } where
  line := h.line
  own := h.own
  buffer := h.buffer
  up := fun _ => h.up hup
  gone := h.gone

theorem Inv.sends (h : Inv s) (hup : s.phase.up = true) (otherwise : Phase) :
    Inv (s.send otherwise) where
  line := by
    rw [waiting_send]
    exact h.line
  own := h.own
  buffer := buffer_take h.buffer
  up := fun _ => h.up hup
  gone := h.gone

/-- With one request at most, nothing else is lost. -/
theorem Inv.leaves (h : Inv s) (hup : s.phase.up = true) (hone : s.waiting.length ≤ 1)
    {phase : Phase} (hgone : phase.up = false) : Inv (s.leave phase) where
  line := by
    have hhead : s.waiting.head?.toList = s.waiting := by
      cases hw : s.waiting with
      | nil => rfl
      | cons r rs =>
          rw [hw, List.length_cons] at hone
          rw [List.eq_nil_of_length_eq_zero (l := rs) (by omega)]
          rfl
    show s.added = s.called.map Prod.fst ++ (s.struck ++ s.waiting.head?.toList) ++ []
    rw [hhead, h.line, List.append_nil, List.append_assoc]
  own := h.own
  buffer := by simp [State.leave]
  up := by
    intro hp
    rw [show (s.leave phase).phase = phase from rfl, hgone] at hp
    cases hp
  gone := by
    rw [State.leave, h.up hup]
    cases s.waiting <;> simp

/-- The first request keeps its place. -/
theorem Inv.restarts (h : Inv s) {p : HTTPRequest Req} {ps : List (HTTPRequest Req)}
    (hup : s.phase.up = true) (hq : s.processingQueue = p :: ps) {part : Bytes}
    (hleft : x.http.leftover part = []) : Inv (x.restart s p ps part) where
  line := by
    rw [Client.restart, State.waiting, List.map_cons]
    have hline := h.line
    rw [State.waiting, hq, List.map_cons] at hline
    exact hline
  own := h.own
  buffer := by
    have hp := h.buffer p (hq ▸ List.mem_cons_self)
    intro q hmem
    rcases List.mem_cons.mp hmem with rfl | hmem
    · show x.http.leftover (p.buffer ++ part) = []
      rw [hp, List.nil_append, hleft]
    · exact h.buffer q (hq ▸ List.mem_cons_of_mem _ hmem)
  up := fun _ => h.up hup
  gone := h.gone

/-- The response goes to the first request, and the next one moves up. -/
theorem Inv.reads (h : Inv s) (hx : x.http.Lawful) {p : HTTPRequest Req}
    {ps : List (HTTPRequest Req)} (hup : s.phase.up = true) (hq : s.processingQueue = p :: ps)
    (m : Res) : Inv (x.onRead { s with responses := s.responses ++ [(p.req, m)] } p ps m) := by
  have hp := h.buffer p (hq ▸ List.mem_cons_self)
  have hnone := h.up hup
  have hline := h.line
  rw [Client.onRead, hp, List.nil_append, hx m]
  constructor
  · rw [State.waiting, hq, hnone, List.append_nil, List.map_cons] at hline
    show s.added = (s.called ++ [(p.req, m)]).map Prod.fst ++ s.struck ++
      (ps.map HTTPRequest.req ++ s.requests)
    rw [hline, hnone]
    simp
  · intro c hc
    rcases List.mem_append.mp hc with hc | hc
    · exact List.mem_append_left _ (h.own c hc)
    · exact List.mem_append_right _ hc
  · intro q hmem
    exact h.buffer q (hq ▸ List.mem_cons_of_mem _ hmem)
  · exact fun _ => hnone
  · exact h.gone

theorem Inv.adds (h : Inv s) (hup : s.phase.up = true) (r : Req) :
    Inv { s with
      requests := s.requests ++ [r]
      added := s.added ++ [r] } where
  line := by
    show s.added ++ [r] = s.called.map Prod.fst ++ s.struck ++
      (s.processingQueue.map HTTPRequest.req ++ (s.requests ++ [r]))
    rw [h.line, State.waiting]
    simp
  own := h.own
  buffer := h.buffer
  up := fun _ => h.up hup
  gone := h.gone

theorem Inv.stepped (h : Inv s) (hx : x.http.Lawful) (hg : x.Orderly s a)
    (hs : x.step s a = some s') : Inv s' := by
  cases a with
  | addRequest r =>
      simp only [Client.step, Option.ite_none_right_eq_some, Option.some.injEq] at hs
      obtain ⟨hup, rfl⟩ := hs
      exact h.adds hup r
  | resolved =>
      simp only [Client.step, Option.ite_none_right_eq_some, Option.some.injEq] at hs
      obtain ⟨hp, rfl⟩ := hs
      exact h.phased (by rw [hp]; rfl)
  | connected =>
      simp only [Client.step, Option.ite_none_right_eq_some, Option.some.injEq] at hs
      obtain ⟨hp, rfl⟩ := hs
      split
      · exact h.phased (by rw [hp]; rfl)
      · exact h.sends (by rw [hp]; rfl) .idle
  | handshaken =>
      simp only [Client.step, Option.ite_none_right_eq_some, Option.some.injEq] at hs
      obtain ⟨hp, rfl⟩ := hs
      exact h.sends (by rw [hp]; rfl) .idle
  | connectionFails =>
      simp only [Client.step, Option.ite_none_right_eq_some, Option.some.injEq] at hs
      obtain ⟨hp, rfl⟩ := hs
      have hup : s.phase.up = true := by
        rcases hp with hp | hp | hp <;> rw [hp] <;> rfl
      exact h.leaves hup hg rfl
  | writeFails =>
      simp only [Client.step, Option.ite_none_right_eq_some, Option.some.injEq] at hs
      obtain ⟨⟨-, hp⟩, rfl⟩ := hs
      have hup : s.phase.up = true := by
        rcases hp with ⟨hp, -⟩ | hp | hp <;> rw [hp] <;> rfl
      exact h.leaves hup hg rfl
  | responds m =>
      simp only [Client.step] at hs
      split at hs
      · rename_i p ps hp hq
        cases hs
        exact h.reads hx (by rw [hp]; rfl) hq m
      · cases hs
  | readFails part =>
      simp only [Client.step] at hs
      split at hs
      · rename_i p ps hp hq
        cases hs
        exact h.restarts (by rw [hp]; rfl) hq hg
      · cases hs
  | checkAndSend =>
      simp only [Client.step, Option.ite_none_right_eq_some, Option.some.injEq] at hs
      obtain ⟨hp, rfl⟩ := hs
      exact h.sends (by rw [hp]; rfl) .resting

/-- A client that is there is on its way to a connection with a request to send, or waits for
a response, or has its timer running. -/
structure Busy (s : State Req Res) : Prop where
  notIdle : s.phase ≠ .idle
  reading : s.phase = .reading → s.processingQueue ≠ []
  connects : s.phase.up = true → s.phase ≠ .resting → s.waiting ≠ []

theorem queue_of_waiting (h : s.waiting ≠ []) : s.take.processingQueue ≠ [] := by
  intro hq
  rw [← waiting_take, State.waiting, hq] at h
  exact h rfl

theorem phase_send (h : s.waiting ≠ []) (otherwise : Phase) :
    (s.send otherwise).phase = .reading := by
  have hq := queue_of_waiting h
  rw [State.send]
  simp [hq]

theorem Busy.sends (h : s.waiting ≠ []) (otherwise : Phase) : Busy (s.send otherwise) where
  notIdle := by
    rw [phase_send h]
    decide
  reading := fun _ => queue_of_waiting h
  connects := fun _ _ => by
    rw [waiting_send]
    exact h

theorem Busy.rests (hp : s.phase = .resting ∨ s.phase = .removed ∨ s.phase = .terminated) :
    Busy s := by
  rcases hp with hp | hp | hp <;> constructor <;> simp [hp, Phase.up]

theorem Busy.restarts (p : HTTPRequest Req) (ps : List (HTTPRequest Req)) (part : Bytes) :
    Busy (x.restart s p ps part) where
  notIdle := by simp [Client.restart]
  reading := by simp [Client.restart]
  connects := by simp [Client.restart, State.waiting]

theorem Busy.stepped (h : Busy s) (hs : x.step s a = some s') : Busy s' := by
  cases a with
  | addRequest r =>
      simp only [Client.step, Option.ite_none_right_eq_some, Option.some.injEq] at hs
      obtain ⟨-, rfl⟩ := hs
      exact ⟨h.notIdle, h.reading, fun _ _ => by simp [State.waiting]⟩
  | resolved =>
      simp only [Client.step, Option.ite_none_right_eq_some, Option.some.injEq] at hs
      obtain ⟨hp, rfl⟩ := hs
      have hwait := h.connects (by rw [hp]; rfl) (by rw [hp]; decide)
      exact ⟨fun hi => (by cases hi), fun hr => (by cases hr), fun _ _ => hwait⟩
  | connected =>
      simp only [Client.step, Option.ite_none_right_eq_some, Option.some.injEq] at hs
      obtain ⟨hp, rfl⟩ := hs
      have hwait := h.connects (by rw [hp]; rfl) (by rw [hp]; decide)
      split
      · exact ⟨fun hi => (by cases hi), fun hr => (by cases hr), fun _ _ => hwait⟩
      · exact Busy.sends hwait .idle
  | handshaken =>
      simp only [Client.step, Option.ite_none_right_eq_some, Option.some.injEq] at hs
      obtain ⟨hp, rfl⟩ := hs
      exact Busy.sends (h.connects (by rw [hp]; rfl) (by rw [hp]; decide)) .idle
  | connectionFails =>
      simp only [Client.step, Option.ite_none_right_eq_some, Option.some.injEq] at hs
      obtain ⟨-, rfl⟩ := hs
      exact Busy.rests (.inr (.inl rfl))
  | writeFails =>
      simp only [Client.step, Option.ite_none_right_eq_some, Option.some.injEq] at hs
      obtain ⟨-, rfl⟩ := hs
      exact Busy.rests (.inr (.inr rfl))
  | responds m =>
      simp only [Client.step] at hs
      split at hs
      · cases hs
        rw [Client.onRead]
        split
        · exact Busy.restarts _ _ _
        · exact Busy.rests (.inl rfl)
      · cases hs
  | readFails part =>
      simp only [Client.step] at hs
      split at hs
      · cases hs
        exact Busy.restarts _ _ _
      · cases hs
  | checkAndSend =>
      simp only [Client.step, Option.ite_none_right_eq_some, Option.some.injEq] at hs
      obtain ⟨hp, rfl⟩ := hs
      by_cases hw : s.waiting = []
      · refine Busy.rests (.inl ?_)
        have hq : s.take.processingQueue = [] := by
          rw [← waiting_take, State.waiting, List.append_eq_nil_iff, List.map_eq_nil_iff] at hw
          exact hw.1
        simp [State.send, hq]
      · exact Busy.sends hw .resting

/-- **It never stops on its own**: in whatever order the steps come, a client that is there has
a step of its own ahead. So a request that waits is not forgotten. -/
theorem busy (h : x.machine.Reach (fun _ _ => True) s) : Busy s := by
  refine h.invariant ⟨?_, ?_, ?_⟩ fun _ _ _ hi _ hs => hi.stepped hs
  · intro hp
    cases hp
  · intro hp
    cases hp
  · intro _ _ hw
    cases hw

end Steps

/-! ## A client -/

def ascii (s : String) : Bytes := s.toList.map Char.toUInt8

def startOfHeader : Bytes := ascii "HTTP/1.1 "

def endOfHeader : Bytes := ascii "\r\nContent-Length: 0\r\n\r\n"

/-- Responses without a body, by what their header has before the length. -/
def headers : Http Bytes where
  wire := fun m => startOfHeader ++ m ++ endOfHeader
  parse := fun cs =>
    if startOfHeader <+: cs ∧ endOfHeader <:+ cs then
      some ((cs.drop startOfHeader.length).take
        (cs.length - startOfHeader.length - endOfHeader.length))
    else none
  leftover := fun cs => if endOfHeader <:+: cs then [] else cs

theorem headers_lawful : headers.Lawful := by
  intro m
  have hpre : startOfHeader <+: startOfHeader ++ m ++ endOfHeader :=
    ⟨m ++ endOfHeader, (List.append_assoc _ _ _).symm⟩
  simp only [headers]
  rw [if_pos ⟨hpre, List.suffix_append _ _⟩, List.append_assoc, List.drop_left]
  congr 1
  have hlen : (startOfHeader ++ (m ++ endOfHeader)).length - startOfHeader.length -
      endOfHeader.length = m.length := by
    simp only [List.length_append]
    omega
  rw [hlen, List.take_left]

def demo : Client Nat Bytes where
  http := headers
  tls := false
  initialRequest := 1

def ok : Bytes := ascii "200 OK"

/-- The connection breaks down before the first response. -/
def broken : List (Act Nat Bytes) :=
  [.addRequest 2, .resolved, .connected, .readFails [], .resolved, .connected, .responds ok,
    .checkAndSend, .addRequest 3, .responds ok]

/-- The first connection cannot be made. -/
def refused : List (Act Nat Bytes) := [.addRequest 2, .connectionFails]

/-- The second request cannot be written. -/
def thrown : List (Act Nat Bytes) :=
  [.addRequest 2, .addRequest 3, .resolved, .connected, .responds ok, .writeFails]

/-- The connection breaks down in the middle of a header. The server is overloaded by the time
of the next one. -/
def mixed : List (Act Nat Bytes) :=
  [.resolved, .connected, .readFails (ascii "HTTP/1.1 200 OK\r\nX-A: b"), .resolved, .connected,
    .responds (ascii "503 Service Unavailable")]

def after (as : List (Act Nat Bytes)) : State Nat Bytes :=
  demo.machine.exec demo.machine.init as

theorem reach_after (as : List (Act Nat Bytes)) :
    demo.machine.Reach (fun _ _ => True) (after as) :=
  .exec .init (.of_forall (fun _ _ => trivial) _ as)

end KeepAlive
