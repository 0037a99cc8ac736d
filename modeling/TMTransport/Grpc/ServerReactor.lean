import Mathlib.Data.List.Basic
import TMTransport.Library.Machine

/-!
# The replies of a gRPC server

A call has a reactor, with a queue of replies. The first one in the queue is the one that
gRPC is writing: it is taken out of the queue when it has been written, and the next one is
started. So the thread that pushes a reply starts it only if the queue was empty.

The final reply is written together with the finishing of the call. gRPC does not say that
such a reply has been written. It says that the call is done, and until then the reply stays
in the queue, where it keeps all that is pushed later from being started.
-/

namespace GrpcServer

open Interleave

variable {α : Type}

/-- What gRPC is asked to do. -/
inductive Start (α : Type) where
  | write (resp : α)
  | writeAndFinish (resp : α)
  deriving DecidableEq

def Start.reply : Start α → α
  | .write resp => resp
  | .writeAndFinish resp => resp

/-- How a reply is to be started. -/
def startOf (resp : Bool × α) : Start α :=
  if resp.1 then .writeAndFinish resp.2 else .write resp.2

/-- `LocalReactor`, and what gRPC has of it. -/
structure Reactor (α : Type) where
  /-- `resps_`: is it the final one, and the reply -/
  resps : List (Bool × α)
  /-- What has been started, and has not come to an end. -/
  outstanding : List (Start α)
  /-- No write has failed. -/
  good : Bool
  /-- The call has ended. -/
  done : Bool
  /-- For the record: what has been pushed, what has been started, and what has been written. -/
  pushed : List (Bool × α)
  started : List (Start α)
  written : List α

def Reactor.empty : Reactor α := ⟨[], [], true, false, [], [], []⟩

/-- The call of `StartWrite` or `StartWriteAndFinish`. -/
def Reactor.start (r : Reactor α) (resp : Bool × α) : Reactor α :=
  { r with
    outstanding := r.outstanding ++ [startOf resp]
    started := r.started ++ [startOf resp] }

def pushReply (r : Reactor α) (resp : α) (final : Bool) : Reactor α :=
  let r' := { r with resps := r.resps ++ [(final, resp)], pushed := r.pushed ++ [(final, resp)] }
  -- any other reply is started by the `OnWriteDone` of the one before it
  if r'.resps.length = 1 then r'.start (final, resp) else r'

def onWriteDone (r : Reactor α) : Reactor α :=
  let r' := { r with resps := r.resps.tail }
  match r'.resps with
  | resp :: _ => r'.start resp
  | [] => r'

inductive Act (α : Type) where
  | pushReply (resp : α) (final : Bool)
  | onWriteDone (ok : Bool)
  /-- `OnDone`: the final reply has been written, or not, and the call has ended. -/
  | onDone (ok : Bool)

/-- gRPC has done the first thing that it was asked for. -/
def Reactor.complete (r : Reactor α) (resp : α) (ok : Bool) : Reactor α :=
  { r with
    outstanding := r.outstanding.tail
    good := r.good && ok
    written := if ok then r.written ++ [resp] else r.written }

/--
One step. gRPC says of each write that it has come to an end, and of the call that it has when it
was asked to finish it. Once a write has failed there are no others that do not. What is pushed
after the end finds no reactor.
-/
def step (r : Reactor α) : Act α → Option (Reactor α)
  | .pushReply resp final => if r.done = false then some (pushReply r resp final) else none
  | .onWriteDone ok =>
    match r.outstanding with
    | .write resp :: _ =>
      if ok = true → r.good = true then some (onWriteDone (r.complete resp ok)) else none
    | _ => none
  | .onDone ok =>
    match r.outstanding with
    | .writeAndFinish resp :: _ =>
      -- the final reply stays in `resps_`
      if ok = true → r.good = true then some { r.complete resp ok with done := true } else none
    | _ => none

def machine (α : Type) : Machine (Reactor α) (Act α) where
  init := .empty
  step := step

/-- What is promised of the queue. -/
structure Disciplined (r : Reactor α) : Prop where
  oneAtATime : r.outstanding.length ≤ 1
  /-- In the order of pushing, and the final reply, and no other, with the finish. -/
  started : r.started <+: r.pushed.map startOf
  written : r.written <+: r.started.map Start.reply
  /-- Nothing is started after the finish. -/
  last : ∀ st ∈ r.started.dropLast, ∃ resp, st = .write resp
  neverLeft : r.done = false → r.resps ≠ [] → r.outstanding ≠ []

/-! ## The queue -/

/-- The replies that have left the queue are the first ones, and none of them is final. -/
structure Inv (r : Reactor α) (left : List (Bool × α)) : Prop where
  pushed : r.pushed = left ++ r.resps
  started : r.started = (left ++ r.resps.take 1).map startOf
  plain : ∀ resp ∈ left, resp.1 = false
  outstanding : r.outstanding = if r.done then [] else (r.resps.take 1).map startOf
  written : r.written <+: r.started.map Start.reply
  caughtUp : r.good = true → r.done = false → r.written = left.map Prod.snd

variable {r r' : Reactor α} {left : List (Bool × α)} {x : Bool × α}

theorem reply_startOf (x : Bool × α) : (startOf x).reply = x.2 := by
  rw [startOf]
  cases x.1 <;> rfl

theorem startOf_eq_write {resp : α} (h : startOf x = .write resp) : x = (false, resp) := by
  obtain ⟨final, resp'⟩ := x
  cases final with
  | true => cases h
  | false =>
      cases h
      rfl

theorem startOf_eq_writeAndFinish {resp : α} (h : startOf x = .writeAndFinish resp) :
    x = (true, resp) := by
  obtain ⟨final, resp'⟩ := x
  cases final with
  | true =>
      cases h
      rfl
  | false => cases h

theorem inv_empty : Inv (.empty : Reactor α) [] where
  pushed := rfl
  started := rfl
  plain _ h := nomatch h
  outstanding := rfl
  written := List.nil_prefix
  caughtUp _ _ := rfl

theorem Inv.outstanding_eq (h : Inv r left) (hd : r.done = false) :
    r.outstanding = (r.resps.take 1).map startOf := by
  rw [h.outstanding, hd]
  rfl

/-- Nothing is being written, and what is in the queue has not been started. -/
structure Idle (r : Reactor α) (left : List (Bool × α)) : Prop where
  pushed : r.pushed = left ++ r.resps
  started : r.started = left.map startOf
  plain : ∀ resp ∈ left, resp.1 = false
  outstanding : r.outstanding = []
  done : r.done = false
  written : r.written <+: r.started.map Start.reply
  caughtUp : r.good = true → r.written = left.map Prod.snd

theorem Idle.inv_of_empty (h : Idle r left) (hr : r.resps = []) : Inv r left where
  pushed := h.pushed
  started := by
    rw [h.started, hr]
    exact congrArg _ (List.append_nil left).symm
  plain := h.plain
  outstanding := by
    rw [h.outstanding, h.done, hr]
    rfl
  written := h.written
  caughtUp hgood _ := h.caughtUp hgood

/-- The first reply in the queue is started. -/
theorem Idle.start (h : Idle r left) {rest : List (Bool × α)} (hr : r.resps = x :: rest) :
    Inv (r.start x) left where
  pushed := h.pushed
  started := by
    have htake : (r.start x).resps.take 1 = [x] := congrArg (List.take 1) hr
    rw [htake, List.map_append, ← h.started]
    rfl
  plain := h.plain
  outstanding := by
    have htake : (r.start x).resps.take 1 = [x] := congrArg (List.take 1) hr
    have hopen : (r.start x).done = false := h.done
    rw [htake, hopen]
    exact congrArg (· ++ [startOf x]) h.outstanding
  written := by
    have hmap : (r.start x).started.map Start.reply = r.started.map Start.reply ++ [x.2] := by
      rw [← reply_startOf x]
      exact List.map_append
    rw [hmap]
    exact h.written.trans (List.prefix_append _ _)
  caughtUp hgood _ := h.caughtUp hgood

theorem Inv.idle (h : Inv r left) (hr : r.resps = []) (hd : r.done = false) : Idle r left where
  pushed := h.pushed
  started := by
    rw [h.started, hr]
    exact congrArg _ (List.append_nil left)
  plain := h.plain
  outstanding := by
    rw [h.outstanding_eq hd, hr]
    rfl
  done := hd
  written := h.written
  caughtUp hgood := h.caughtUp hgood hd

/-- A reply that is pushed is started only if it is the first one. -/
theorem Inv.pushReply (h : Inv r left) (hd : r.done = false) (resp : α) (final : Bool) :
    Inv (pushReply r resp final) left := by
  have hpushed : r.pushed ++ [(final, resp)] = left ++ (r.resps ++ [(final, resp)]) := by
    rw [h.pushed, List.append_assoc]
  cases hresps : r.resps with
  | nil =>
      -- all that was started is written, so that the new reply may be started
      have hidle := h.idle hresps hd
      have hpush : Idle { r with
          resps := r.resps ++ [(final, resp)], pushed := r.pushed ++ [(final, resp)] } left :=
        { hidle with pushed := hpushed }
      have hone : (r.resps ++ [(final, resp)]).length = 1 := by rw [hresps]; rfl
      rw [GrpcServer.pushReply, if_pos hone]
      exact hpush.start (congrArg (· ++ [(final, resp)]) hresps)
  | cons first rest =>
      have hmore : ¬ (r.resps ++ [(final, resp)]).length = 1 := by
        rw [hresps, List.length_append, List.length_cons, List.length_singleton]
        omega
      have htake : (r.resps ++ [(final, resp)]).take 1 = r.resps.take 1 := by
        rw [hresps]
        rfl
      rw [GrpcServer.pushReply, if_neg hmore]
      exact {
        pushed := hpushed
        started := h.started.trans (by rw [htake])
        plain := h.plain
        outstanding := h.outstanding.trans (by rw [htake])
        written := h.written
        caughtUp := h.caughtUp }

/-- What is outstanding is the first in the queue. -/
theorem Inv.first (h : Inv r left) {st : Start α} {rest : List (Start α)}
    (hout : r.outstanding = st :: rest) :
    r.done = false ∧ rest = [] ∧ ∃ x queue, r.resps = x :: queue ∧ startOf x = st := by
  have hd : r.done = false := by
    rw [← Bool.not_eq_true]
    intro hd
    rw [h.outstanding, if_pos hd] at hout
    cases hout
  rw [h.outstanding_eq hd] at hout
  cases hq : r.resps with
  | nil =>
      rw [hq] at hout
      cases hout
  | cons x queue =>
      rw [hq] at hout
      obtain ⟨hfirst, hrest⟩ := List.cons.inj hout
      exact ⟨hd, hrest.symm, x, queue, rfl, hfirst⟩

/-- A write that succeeds, while no other has failed, has been written in its turn. -/
theorem Inv.complete (h : Inv r left) (hd : r.done = false) {queue : List (Bool × α)} {ok : Bool}
    (hresps : r.resps = x :: queue) (hok : ok = true → r.good = true) :
    (r.complete x.2 ok).written <+: r.started.map Start.reply ∧
      ((r.complete x.2 ok).good = true →
        (r.complete x.2 ok).written = (left ++ [x]).map Prod.snd) := by
  cases ok with
  | false =>
      refine ⟨h.written, fun hgood => ?_⟩
      rw [Reactor.complete, Bool.and_false] at hgood
      cases hgood
  | true =>
      have hreplies : r.started.map Start.reply = (left ++ [x]).map Prod.snd := by
        rw [h.started, hresps, List.map_map]
        exact List.map_congr_left fun y _ => reply_startOf y
      have hwritten : (r.complete x.2 true).written = (left ++ [x]).map Prod.snd := by
        rw [Reactor.complete, if_pos rfl, h.caughtUp (hok rfl) hd, List.map_append]
        rfl
      rw [hwritten, hreplies]
      exact ⟨List.prefix_rfl, fun _ => rfl⟩

theorem onWriteDone_of_nil (h : r.resps.tail = []) :
    onWriteDone r = { r with resps := r.resps.tail } := by
  unfold onWriteDone
  dsimp only
  rw [h]

theorem onWriteDone_of_cons {queue : List (Bool × α)} (h : r.resps.tail = x :: queue) :
    onWriteDone r = { r with resps := r.resps.tail }.start x := by
  unfold onWriteDone
  dsimp only
  rw [h]

/-- A reply that has been written makes room for the next one. -/
theorem Inv.onWriteDone (h : Inv r left) {resp : α} {rest : List (Start α)} {ok : Bool}
    (hout : r.outstanding = .write resp :: rest) (hok : ok = true → r.good = true) :
    Inv (onWriteDone (r.complete resp ok)) (left ++ [(false, resp)]) := by
  obtain ⟨hd, rfl, x, queue, hresps, hx⟩ := h.first hout
  obtain rfl := startOf_eq_write hx
  obtain ⟨hwritten, hcaught⟩ := h.complete hd hresps hok
  have hidle : Idle { r.complete resp ok with resps := r.resps.tail } (left ++ [(false, resp)]) := {
    pushed := by
      rw [hresps, List.append_assoc]
      exact h.pushed.trans (by rw [hresps]; rfl)
    started := h.started.trans (by rw [hresps]; rfl)
    plain := fun y hy => by
      rcases List.mem_append.mp hy with hy | hy
      · exact h.plain y hy
      · rw [List.mem_singleton.mp hy]
    outstanding := congrArg List.tail hout
    done := hd
    written := hwritten
    caughtUp := hcaught }
  have htail : (r.complete resp ok).resps.tail = queue := congrArg List.tail hresps
  cases queue with
  | nil =>
      rw [onWriteDone_of_nil htail]
      exact hidle.inv_of_empty htail
  | cons next queue =>
      rw [onWriteDone_of_cons htail]
      exact hidle.start htail

theorem Inv.onDone (h : Inv r left) {resp : α} {rest : List (Start α)} {ok : Bool}
    (hout : r.outstanding = .writeAndFinish resp :: rest) (hok : ok = true → r.good = true) :
    Inv { r.complete resp ok with done := true } left := by
  obtain ⟨hd, rfl, x, queue, hresps, hx⟩ := h.first hout
  obtain rfl := startOf_eq_writeAndFinish hx
  exact {
    pushed := h.pushed
    started := h.started
    plain := h.plain
    outstanding := congrArg List.tail hout
    written := (h.complete hd hresps hok).1
    caughtUp := fun _ => nofun }

theorem inv_step {a : Act α} (h : Inv r left) (hs : step r a = some r') :
    ∃ left', Inv r' left' := by
  cases a with
  | pushReply resp final =>
      obtain ⟨hd, rfl⟩ := of_guarded hs
      exact ⟨_, h.pushReply hd resp final⟩
  | onWriteDone ok =>
      rw [step] at hs
      split at hs
      · next resp rest hout =>
        obtain ⟨hok, rfl⟩ := of_guarded hs
        exact ⟨_, h.onWriteDone hout hok⟩
      · cases hs
  | onDone ok =>
      rw [step] at hs
      split at hs
      · next resp rest hout =>
        obtain ⟨hok, rfl⟩ := of_guarded hs
        exact ⟨_, h.onDone hout hok⟩
      · cases hs

/-! ## What the queue promises -/

theorem Inv.disciplined (h : Inv r left) : Disciplined r where
  oneAtATime := by
    rw [h.outstanding]
    split
    · exact Nat.zero_le _
    · rw [List.length_map]
      exact List.length_take_le _ _
  started := by
    rw [h.started, h.pushed, List.map_append, List.map_append]
    exact (List.prefix_append_right_inj _).mpr ((List.take_prefix _ _).map _)
  written := h.written
  last := by
    intro st hst
    have hleft : st ∈ left.map startOf := by
      rw [h.started] at hst
      cases hr : r.resps with
      | nil =>
          rw [hr, List.take_nil, List.append_nil] at hst
          exact List.dropLast_subset _ hst
      | cons x queue =>
          rw [hr, List.take_succ_cons, List.take_zero, List.map_append, List.map_singleton,
            List.dropLast_concat] at hst
          exact hst
    obtain ⟨x, hx, rfl⟩ := List.mem_map.mp hleft
    exact ⟨x.2, by rw [startOf, h.plain x hx]; rfl⟩
  neverLeft hd hr := by
    rw [h.outstanding_eq hd]
    cases hq : r.resps with
    | nil => exact absurd hq hr
    | cons x queue => exact List.cons_ne_nil _ _

/--
**The queue is disciplined** in every state that pushes from any threads, completed writes and the
end of the call lead to.
-/
theorem disciplined_of_reach {G : Reactor α → Act α → Prop} (h : (machine α).Reach G r) :
    Disciplined r := by
  obtain ⟨left, hi⟩ : ∃ left, Inv r left := by
    induction h with
    | init => exact ⟨[], inv_empty⟩
    | step _ _ hs ih =>
        obtain ⟨left, hi⟩ := ih
        exact inv_step hi hs
  exact hi.disciplined

/-- What is pushed while the final reply is being written stays in the queue. -/
theorem disciplined_after_final :
    let r := (machine Nat).exec .empty [.pushReply 1 false, .pushReply 2 true, .onWriteDone true,
      .pushReply 3 false, .onDone true]
    r.written = [1, 2] ∧ r.pushed.length = 3 ∧ Disciplined r :=
  ⟨rfl, rfl, disciplined_of_reach (G := fun _ _ => True)
    (Machine.Reach.init.exec (.of_forall (fun _ _ => trivial) _ _))⟩

end GrpcServer
