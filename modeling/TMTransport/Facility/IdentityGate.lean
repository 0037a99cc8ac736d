import TMTransport.Library.Machine

/-!
# The identity gate of the facility servers

A server with an identity checker lets a message through its hook, then through the
checker, then through the decoder, and invokes the facility with what comes out. It
also notes where the replies go.

Most wrappers leave the last to the transport, which notes the message before anybody
has looked at it. The .NET wrappers note it last, but when their checker rejects a
message, they decode the message itself and go on with the default identity. The Python
server asks the checker before the hook, and then gives the hook a pair.

So the gate holds in a run exactly as far as the messages do not touch these spots
(`gateHolds_iff`).
-/

namespace IdentityGate

open Interleave

abbrev Bytes := List UInt8

/-- A message, as the transport takes it apart. `R` is where replies can go: a queue, a
topic or a connection. -/
structure Delivery (R : Type) where
  id : String
  replyTo : R
  content : Bytes

inductive Wrapper where
  /-- RabbitMQ, Redis, socket RPC and WebSocket. Without replies, the map is kept as well. -/
  | cxx
  /-- `SyntheticMultiTransportFacility`. Requests and replies are broadcast. -/
  | cxxSynthetic
  /-- `WrapperDecoderImporter`, of RabbitMQ and of Redis -/
  | dotNet
  /-- `WrapperDecoderImporterWithoutReply`, of RabbitMQ and of Redis -/
  | dotNetWithoutReply
  | typeScript
  | python
  deriving DecidableEq

/-- A server. `μ` is what comes over the wire, `I` the identities, `X` the input. -/
structure Server (μ R I X : Type) where
  wrapper : Wrapper
  parse : μ → Option (Delivery R)
  wireToUserHook : Option (Bytes → Option Bytes)
  identityChecker : Bytes → Option (I × Bytes)
  /-- In TypeScript and Python, the application has it. -/
  decoder : Bytes → Option X
  /-- What the hook makes of a pair in Python, unless that is an error. -/
  hookOnPair : I × Bytes → Option (I × Bytes)

structure State (R I X : Type) where
  replyMap : String → Option R
  /-- What the facility has been invoked with, the latest first. -/
  invoked : List (I × X)

section Receive

variable {μ R I X : Type}

def State.note (s : State R I X) (m : Delivery R) : State R I X :=
  { s with replyMap := Function.update s.replyMap m.id (some m.replyTo) }

def State.invoke (s : State R I X) : Option (I × X) → State R I X
  | none => s
  | some r => { s with invoked := r :: s.invoked }

namespace Server

variable (srv : Server μ R I X)

def hooked (content : Bytes) : Option Bytes :=
  match srv.wireToUserHook with
  | none => some content
  | some hook => hook content

def checkIdentityAndDeserialize (content : Bytes) : Option (I × X) :=
  match srv.identityChecker content with
  | none => none
  | some (identity, data) => (srv.decoder data).map (identity, ·)

/-- **What the facility may be invoked with**, for a message with this content. -/
def accepted (content : Bytes) : Option (I × X) :=
  (srv.hooked content).bind srv.checkIdentityAndDeserialize

/-- The checker does not accept what the hook makes of the content. -/
def Rejects (content : Bytes) : Prop :=
  ∃ b, srv.hooked content = some b ∧ srv.identityChecker b = none

/-! ## The wrappers -/

def cxxReceive (s : State R I X) (m : Delivery R) : State R I X :=
  (s.note m).invoke (srv.accepted m.content)

def cxxSyntheticReceive (s : State R I X) (m : Delivery R) : State R I X :=
  s.invoke (srv.accepted m.content)

/-- The data that are decoded, and for whom. There is no way out for a rejected message. -/
def dotNetCheck [Inhabited I] (b : Bytes) : I × Bytes :=
  match srv.identityChecker b with
  | some b2 => b2
  | none => (default, b)

/-- What is published in the end. -/
def dotNetDecoded [Inhabited I] (content : Bytes) : Option (I × X) :=
  match srv.hooked content with
  | none => none
  | some b => (srv.decoder (srv.dotNetCheck b).2).map ((srv.dotNetCheck b).1, ·)

def dotNetReceive [Inhabited I] (s : State R I X) (m : Delivery R) : State R I X :=
  match srv.dotNetDecoded m.content with
  | none => s
  | some r => if (s.replyMap m.id).isSome then s else (s.note m).invoke (some r)

def dotNetWithoutReplyReceive [Inhabited I] (s : State R I X) (m : Delivery R) : State R I X :=
  s.invoke (srv.dotNetDecoded m.content)

def typeScriptReceive (s : State R I X) (m : Delivery R) : State R I X :=
  if (s.replyMap m.id).isSome then s
  else (s.note m).invoke (srv.accepted m.content)

/-- With a hook, the resolver's queue comes first, and the hook gets what it puts out. -/
def pythonOutcome (content : Bytes) : Option (I × X) :=
  match srv.wireToUserHook with
  | none => srv.checkIdentityAndDeserialize content
  | some _ =>
    match (srv.identityChecker content).bind srv.hookOnPair with
    | none => none
    | some (identity, data) => (srv.decoder data).map (identity, ·)

def pythonReceive (s : State R I X) (m : Delivery R) : State R I X :=
  if (s.replyMap m.id).isSome then s
  else (s.note m).invoke (srv.pythonOutcome m.content)

def receive [Inhabited I] (s : State R I X) (m : Delivery R) : State R I X :=
  match srv.wrapper with
  | .cxx => srv.cxxReceive s m
  | .cxxSynthetic => srv.cxxSyntheticReceive s m
  | .dotNet => srv.dotNetReceive s m
  | .dotNetWithoutReply => srv.dotNetWithoutReplyReceive s m
  | .typeScript => srv.typeScriptReceive s m
  | .python => srv.pythonReceive s m

end Server

inductive Act (μ R : Type) where
  | receive (message : μ)
  | reply (id : String) (isFinal : Bool)
  /-- A connection is gone, with its entries. -/
  | close (peer : R)

def Server.step [Inhabited I] [DecidableEq R] (srv : Server μ R I X) (s : State R I X) :
    Act μ R → Option (State R I X)
  | .receive message =>
    match srv.parse message with
    | none => some s
    | some m => some (srv.receive s m)
  | .reply id isFinal =>
    some (if isFinal then { s with replyMap := Function.update s.replyMap id none } else s)
  | .close peer => some { s with
      replyMap := fun id => if s.replyMap id = some peer then none else s.replyMap id }

def Server.machine [Inhabited I] [DecidableEq R] (srv : Server μ R I X) :
    Machine (State R I X) (Act μ R) where
  init := ⟨fun _ => none, []⟩
  step := srv.step

/-! ## The gate -/

/-- What a message may do. -/
structure Gated (srv : Server μ R I X) (s s' : State R I X) (content : Bytes) : Prop where
  /-- The facility is invoked with what the checker has accepted, if at all. -/
  invoked : s'.invoked = s.invoked ∨
    ∃ r, srv.accepted content = some r ∧ s'.invoked = r :: s.invoked
  /-- A rejected message leaves nothing behind. -/
  rejected : srv.Rejects content → s' = s

/-- The message does nothing wrong, by what the wrapper does with a rejected one. -/
def Harmless (srv : Server μ R I X) (s : State R I X) (m : Delivery R) : Prop :=
  match srv.wrapper with
  | .cxx => s.replyMap m.id = some m.replyTo
  | .cxxSynthetic => True
  | .dotNet => (s.replyMap m.id).isSome ∨ ∀ b, srv.hooked m.content = some b → srv.decoder b = none
  | .dotNetWithoutReply => ∀ b, srv.hooked m.content = some b → srv.decoder b = none
  | .typeScript => (s.replyMap m.id).isSome
  | .python => (s.replyMap m.id).isSome

/-- Asking the checker first makes no difference to what is invoked. -/
def InOrder (srv : Server μ R I X) (s : State R I X) (m : Delivery R) : Prop :=
  srv.wrapper = .python → (s.replyMap m.id).isSome ∨
    ∀ r, srv.pythonOutcome m.content = some r → srv.accepted m.content = some r

variable [Inhabited I] [DecidableEq R]

/-- The messages that come in are dealt with properly. -/
def StepGated (srv : Server μ R I X) (s : State R I X) : Act μ R → Prop
  | .receive message => ∀ m, srv.parse message = some m →
      Gated srv s (srv.receive s m) m.content
  | _ => True

/-- The condition for that. -/
def StepHarmless (srv : Server μ R I X) (s : State R I X) : Act μ R → Prop
  | .receive message => ∀ m, srv.parse message = some m →
      (srv.Rejects m.content → Harmless srv s m) ∧ InOrder srv s m
  | _ => True

/-- The gate holds at each step of a run. -/
def GateHolds (srv : Server μ R I X) (acts : List (Act μ R)) : Prop :=
  srv.machine.Within (StepGated srv) srv.machine.init acts

end Receive

/-! ## One message -/

section OneMessage

variable {μ R I X : Type} {srv : Server μ R I X} {s : State R I X} {m : Delivery R}
  {content b : Bytes}

@[simp]
theorem note_invoked : (s.note m).invoked = s.invoked := rfl

@[simp]
theorem invoke_none : s.invoke none = s := rfl

theorem note_eq_self_iff : s.note m = s ↔ s.replyMap m.id = some m.replyTo := by
  constructor
  · intro h
    have h1 := congrArg (fun t => State.replyMap t m.id) h
    simpa [State.note] using h1.symm
  · intro h
    rw [State.note, ← h, Function.update_eq_self]

theorem accepted_of_rejects (h : srv.Rejects content) : srv.accepted content = none := by
  obtain ⟨b, hb, hc⟩ := h
  simp [Server.accepted, hb, Server.checkIdentityAndDeserialize, hc]

/-- Invoking with what is accepted is never wrong. -/
theorem invoke_accepted_invoked (t : State R I X) :
    (t.invoke (srv.accepted content)).invoked = t.invoked ∨
      ∃ r, srv.accepted content = some r ∧
        (t.invoke (srv.accepted content)).invoked = r :: t.invoked := by
  cases h : srv.accepted content with
  | none => exact .inl rfl
  | some r => exact .inr ⟨r, rfl, rfl⟩

/-- The transport notes the message first, whatever becomes of it. -/
theorem gated_note_iff : Gated srv s ((s.note m).invoke (srv.accepted m.content)) m.content ↔
    (srv.Rejects m.content → s.replyMap m.id = some m.replyTo) := by
  constructor
  · intro h hr
    have h1 := h.rejected hr
    rw [accepted_of_rejects hr] at h1
    exact note_eq_self_iff.mp h1
  · intro h
    refine ⟨invoke_accepted_invoked _, fun hr => ?_⟩
    rw [accepted_of_rejects hr]
    exact note_eq_self_iff.mpr (h hr)

theorem gated_self : Gated srv s s content := ⟨.inl rfl, fun _ => rfl⟩

section DotNet

variable [Inhabited I]

/-- If the checker does not reject, it decides. -/
theorem dotNetDecoded_of_not_rejects (h : ¬ srv.Rejects content) :
    srv.dotNetDecoded content = srv.accepted content := by
  unfold Server.dotNetDecoded Server.accepted
  cases hb : srv.hooked content with
  | none => rfl
  | some b =>
      cases hc : srv.identityChecker b with
      | none => exact absurd ⟨b, hb, hc⟩ h
      | some r => simp [Server.dotNetCheck, Server.checkIdentityAndDeserialize, hc]

/-- If it rejects, the message is decoded as it is. -/
theorem dotNetDecoded_of_rejects (h : srv.Rejects content) :
    srv.dotNetDecoded content = none ↔
      ∀ b, srv.hooked content = some b → srv.decoder b = none := by
  obtain ⟨b, hb, hc⟩ := h
  simp [Server.dotNetDecoded, Server.dotNetCheck, hb, hc]

theorem gated_dotNet_iff : Gated srv s (srv.dotNetReceive s m) m.content ↔
    (srv.Rejects m.content → (s.replyMap m.id).isSome ∨
      ∀ b, srv.hooked m.content = some b → srv.decoder b = none) := by
  unfold Server.dotNetReceive
  by_cases hr : srv.Rejects m.content
  · rw [← dotNetDecoded_of_rejects hr]
    cases hd : srv.dotNetDecoded m.content with
    | none => exact ⟨fun _ _ => .inr rfl, fun _ => gated_self⟩
    | some r =>
        by_cases hm : (s.replyMap m.id).isSome
        · simp only [if_pos hm]
          exact ⟨fun _ _ => .inl hm, fun _ => gated_self⟩
        · simp only [if_neg hm]
          constructor
          · intro h
            -- One more has been invoked.
            have h1 := congrArg (fun t => t.invoked.length) (h.rejected hr)
            simp [State.invoke] at h1
          · intro h
            rcases h hr with h1 | h1
            · exact absurd h1 hm
            · cases h1
  · refine ⟨fun _ h => absurd h hr, fun _ => ⟨?_, fun h => absurd h hr⟩⟩
    rw [dotNetDecoded_of_not_rejects hr]
    cases ha : srv.accepted m.content with
    | none => exact .inl rfl
    | some r =>
        by_cases hm : (s.replyMap m.id).isSome
        · exact .inl (by simp only [if_pos hm])
        · exact .inr ⟨r, rfl, by simp only [if_neg hm]; rfl⟩

theorem gated_dotNetWithoutReply_iff :
    Gated srv s (srv.dotNetWithoutReplyReceive s m) m.content ↔
      (srv.Rejects m.content → ∀ b, srv.hooked m.content = some b → srv.decoder b = none) := by
  unfold Server.dotNetWithoutReplyReceive
  by_cases hr : srv.Rejects m.content
  · rw [← dotNetDecoded_of_rejects hr]
    constructor
    · intro h _
      have h1 := h.rejected hr
      cases hd : srv.dotNetDecoded m.content with
      | none => rfl
      | some r =>
          rw [hd] at h1
          have h2 := congrArg (fun t => t.invoked.length) h1
          simp [State.invoke] at h2
    · intro h
      rw [h hr]
      exact gated_self
  · rw [dotNetDecoded_of_not_rejects hr]
    exact ⟨fun _ h => absurd h hr, fun _ => ⟨invoke_accepted_invoked s, fun h => absurd h hr⟩⟩

end DotNet

theorem gated_typeScript_iff : Gated srv s (srv.typeScriptReceive s m) m.content ↔
    (srv.Rejects m.content → (s.replyMap m.id).isSome) := by
  unfold Server.typeScriptReceive
  by_cases hm : (s.replyMap m.id).isSome
  · rw [if_pos hm]
    exact ⟨fun _ _ => hm, fun _ => gated_self⟩
  · rw [if_neg hm, gated_note_iff]
    constructor
    · intro h hr
      rw [h hr]
      rfl
    · intro h hr
      exact absurd (h hr) hm

theorem gated_python_iff : Gated srv s (srv.pythonReceive s m) m.content ↔
    (srv.Rejects m.content → (s.replyMap m.id).isSome) ∧ ((s.replyMap m.id).isSome ∨
      ∀ r, srv.pythonOutcome m.content = some r → srv.accepted m.content = some r) := by
  unfold Server.pythonReceive
  by_cases hm : (s.replyMap m.id).isSome
  · rw [if_pos hm]
    exact ⟨fun _ => ⟨fun _ => hm, .inl hm⟩, fun _ => gated_self⟩
  · rw [if_neg hm]
    constructor
    · intro h
      refine ⟨fun hr => ?_, .inr fun r hr => ?_⟩
      · have h1 := congrArg (fun t => State.replyMap t m.id) (h.rejected hr)
        have h2 : s.replyMap m.id = some m.replyTo := by
          rw [← h1]
          cases srv.pythonOutcome m.content <;> simp [State.invoke, State.note]
        rw [h2]
        rfl
      · have h1 := h.invoked
        rw [hr] at h1
        rcases h1 with h1 | ⟨r', hr', h1⟩
        · have h2 := congrArg List.length h1
          simp [State.invoke] at h2
        · have h2 : r = r' := (List.cons.inj h1).1
          rw [h2, hr']
    · intro ⟨h1, h2⟩
      refine ⟨?_, fun hr => absurd (h1 hr) hm⟩
      rcases h2 with h2 | h2
      · exact absurd h2 hm
      · cases hp : srv.pythonOutcome m.content with
        | none => exact .inl rfl
        | some r => exact .inr ⟨r, h2 r hp, rfl⟩

/-- **One message**, whatever server gets it. -/
theorem gated_receive_iff [Inhabited I] : Gated srv s (srv.receive s m) m.content ↔
    (srv.Rejects m.content → Harmless srv s m) ∧ InOrder srv s m := by
  unfold Server.receive Harmless InOrder
  cases hw : srv.wrapper with
  | cxx => simpa [Server.cxxReceive] using gated_note_iff
  | cxxSynthetic =>
      simp only [reduceCtorEq, false_implies, and_true, implies_true, iff_true]
      refine ⟨invoke_accepted_invoked s, fun hr => ?_⟩
      rw [Server.cxxSyntheticReceive, accepted_of_rejects hr, invoke_none]
  | dotNet => simpa using gated_dotNet_iff
  | dotNetWithoutReply => simpa using gated_dotNetWithoutReply_iff
  | typeScript => simpa using gated_typeScript_iff
  | python => simpa using gated_python_iff

end OneMessage

/-! ## Runs -/

section Runs

variable {μ R I X : Type} {srv : Server μ R I X} {s s' : State R I X} {m : Delivery R}
  {received : List (Delivery R)}

theorem stepGated_iff [Inhabited I] {a : Act μ R} : StepGated srv s a ↔ StepHarmless srv s a := by
  cases a with
  | receive message => exact forall₂_congr fun m _ => gated_receive_iff
  | reply id isFinal => exact Iff.rfl
  | close peer => exact Iff.rfl

/-- What a state of a server may have in it, after some messages. -/
structure Justified (srv : Server μ R I X) (received : List (Delivery R)) (s : State R I X) :
    Prop where
  /-- The facility has been invoked for messages that the checker has accepted. -/
  invoked : ∀ r ∈ s.invoked, ∃ m ∈ received, srv.accepted m.content = some r
  /-- Replies go to where messages want them that the checker has not rejected. -/
  replyMap : ∀ id r, s.replyMap id = some r →
    ∃ m ∈ received, m.id = id ∧ m.replyTo = r ∧ ¬ srv.Rejects m.content

/-- The message that comes in, if it can be taken apart. -/
def delivery? (srv : Server μ R I X) : Act μ R → Option (Delivery R)
  | .receive message => srv.parse message
  | _ => none

theorem Justified.mono {more : List (Delivery R)} (h : Justified srv received s)
    (hsub : ∀ m ∈ received, m ∈ more) : Justified srv more s where
  invoked := fun r hr => by
    obtain ⟨m, hm, h1⟩ := h.invoked r hr
    exact ⟨m, hsub m hm, h1⟩
  replyMap := fun id r hr => by
    obtain ⟨m, hm, h1⟩ := h.replyMap id r hr
    exact ⟨m, hsub m hm, h1⟩

/-- Fewer entries need no more justification. -/
theorem Justified.forget (h : Justified srv received s) (hi : s'.invoked = s.invoked)
    (hr : ∀ id r, s'.replyMap id = some r → s.replyMap id = some r) :
    Justified srv received s' where
  invoked := fun r h1 => h.invoked r (hi ▸ h1)
  replyMap := fun id r h1 => h.replyMap id r (hr id r h1)

theorem invoke_replyMap (r : Option (I × X)) : (s.invoke r).replyMap = s.replyMap := by
  cases r <;> rfl

variable [Inhabited I]

/-- A message changes no entries but its own. -/
theorem receive_replyMap (srv : Server μ R I X) (s : State R I X) (m : Delivery R) :
    (srv.receive s m).replyMap = s.replyMap ∨
      (srv.receive s m).replyMap = (s.note m).replyMap := by
  unfold Server.receive
  cases srv.wrapper with
  | cxx => exact .inr (invoke_replyMap _)
  | cxxSynthetic => exact .inl (invoke_replyMap _)
  | dotNet =>
      unfold Server.dotNetReceive
      cases srv.dotNetDecoded m.content with
      | none => exact .inl rfl
      | some r =>
          by_cases hm : (s.replyMap m.id).isSome
          · exact .inl (by simp only [if_pos hm])
          · exact .inr (by simp only [if_neg hm, invoke_replyMap])
  | dotNetWithoutReply => exact .inl (invoke_replyMap _)
  | typeScript =>
      unfold Server.typeScriptReceive
      by_cases hm : (s.replyMap m.id).isSome
      · exact .inl (by rw [if_pos hm])
      · exact .inr (by rw [if_neg hm, invoke_replyMap])
  | python =>
      unfold Server.pythonReceive
      by_cases hm : (s.replyMap m.id).isSome
      · exact .inl (by rw [if_pos hm])
      · exact .inr (by rw [if_neg hm, invoke_replyMap])

theorem Justified.receive (h : Justified srv received s)
    (hg : Gated srv s (srv.receive s m) m.content) :
    Justified srv (received ++ [m]) (srv.receive s m) := by
  have h1 : Justified srv (received ++ [m]) s :=
    h.mono fun _ h => List.mem_append_left _ h
  by_cases hr : srv.Rejects m.content
  · rw [hg.rejected hr]
    exact h1
  · have hm : m ∈ received ++ [m] := by simp
    constructor
    · intro r hr'
      rcases hg.invoked with h2 | ⟨r', h2, h3⟩
      · exact h1.invoked r (h2 ▸ hr')
      · rw [h3] at hr'
        rcases List.mem_cons.mp hr' with h4 | h4
        · exact ⟨m, hm, h4 ▸ h2⟩
        · exact h1.invoked r h4
    · intro id r hr'
      rcases receive_replyMap srv s m with h2 | h2
      · exact h1.replyMap id r (h2 ▸ hr')
      · rw [h2] at hr'
        by_cases hid : id = m.id
        · subst hid
          have h3 : m.replyTo = r := by simpa [State.note] using hr'
          exact ⟨m, hm, rfl, h3, hr⟩
        · refine h1.replyMap id r ?_
          simpa [State.note, Function.update_of_ne hid] using hr'

variable [DecidableEq R] {acts : List (Act μ R)}

theorem Justified.step {a : Act μ R} (h : Justified srv received s) (hg : StepGated srv s a)
    (hs : srv.machine.step s a = some s') :
    Justified srv (received ++ (delivery? srv a).toList) s' := by
  cases a with
  | receive message =>
      simp only [Server.machine, Server.step] at hs
      cases hp : srv.parse message with
      | none =>
          rw [hp] at hs
          cases hs
          simpa [delivery?, hp] using h
      | some m =>
          rw [hp] at hs
          cases hs
          simpa [delivery?, hp] using h.receive (hg m hp)
  | reply id isFinal =>
      cases hs
      simp only [delivery?, Option.toList_none, List.append_nil]
      refine h.forget ?_ ?_
      · split <;> rfl
      · intro id' r hr
        split at hr
        · by_cases hid : id' = id
          · subst hid
            simp at hr
          · simpa [Function.update_of_ne hid] using hr
        · exact hr
  | close peer =>
      cases hs
      simp only [delivery?, Option.toList_none, List.append_nil]
      refine h.forget rfl ?_
      intro id r hr
      simp only at hr
      split at hr
      · cases hr
      · exact hr

/-- **A run in which the gate holds** ends in a state in which there is nothing but what the
checker has let through. -/
theorem justified_of_gateHolds (h : GateHolds srv acts) :
    Justified srv (acts.filterMap (delivery? srv)) (srv.machine.exec srv.machine.init acts) := by
  have run (s : State R I X) (received : List (Delivery R)) (hj : Justified srv received s)
      (hw : srv.machine.Within (StepGated srv) s acts) :
      Justified srv (received ++ acts.filterMap (delivery? srv)) (srv.machine.exec s acts) := by
    clear h
    induction acts generalizing s received with
    | nil => simpa [Machine.exec] using hj
    | cons a acts ih =>
        have h1 : Justified srv (received ++ (delivery? srv a).toList)
            ((srv.machine.step s a).getD s) := by
          cases hs : srv.machine.step s a with
          | none => exact hj.mono fun _ h => List.mem_append_left _ h
          | some s' => exact hj.step hw.1 hs
        have h2 := ih _ _ h1 hw.2
        rw [List.append_assoc] at h2
        cases hd : delivery? srv a with
        | none => simpa [hd, Machine.exec] using h2
        | some m => simpa [hd, Machine.exec] using h2
  simpa using run _ [] ⟨by simp [Server.machine], by simp [Server.machine]⟩ h

end Runs

/-! ## Messages that get through, or leave something behind -/

/-- Messages are there as they are. The checker wants a 7 in front, and accepts it for identity 1;
identity 0 is the default. -/
def exampleServer (wrapper : Wrapper) : Server (Delivery String) String Nat Bytes where
  wrapper := wrapper
  parse := some
  wireToUserHook := none
  identityChecker := fun b => match b with
    | 7 :: data => some (1, data)
    | _ => none
  decoder := some
  hookOnPair := some

def forged : Delivery String := ⟨"id", "queue", [8, 5]⟩

end IdentityGate
