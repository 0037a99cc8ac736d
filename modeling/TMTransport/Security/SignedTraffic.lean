import TMTransport.Library.Machine
import TMTransport.Security.SignatureHelper

/-!
# Signed traffic

Hooks change data on their way out and in. They are composed (`ByteDataHook`), and those that the
user does not give come from components of the environment (`DefaultHookFactory`). A facility's
clients sign their requests below all that (`ClientSideSignatureBasedIdentityAttacherComponent`),
and its servers may sign the replies in a hook (`SignatureHookFactoryComponent`).

Between the two is a network that may lose, repeat, reorder and make up whatever it wants, except
for signatures: a signature under the key of a client or a server is on something that the very
client or server has signed. `authentic_of_unforged` says what both sides can then rely on, while
keys are being added to the servers.
-/

namespace SignedTraffic

open SignatureHelper

/-! ## Hooks -/

structure ByteDataHookPair where
  userToWire : Option (Bytes → Bytes)
  wireToUser : Option (Bytes → Option Bytes)

/-- Data flow through `h1` first, then `h2`. -/
def composeUserToWireHook (h1 h2 : Option (Bytes → Bytes)) : Option (Bytes → Bytes) :=
  match h1, h2 with
  | none, h2 => h2
  | some h1, none => some h1
  | some h1, some h2 => some fun b => h2 (h1 b)

def composeWireToUserHook (h1 h2 : Option (Bytes → Option Bytes)) :
    Option (Bytes → Option Bytes) :=
  match h1, h2 with
  | none, h2 => h2
  | some h1, none => some h1
  | some h1, some h2 => some fun b =>
    match h1 b with
    | some x => h2 x
    | none => none

/-- On the way out `h1` is first, on the way in `h2` is. -/
def composeByteDataHookPair (h1 h2 : ByteDataHookPair) : ByteDataHookPair where
  userToWire := composeUserToWireHook h1.userToWire h2.userToWire
  wireToUser := composeWireToUserHook h2.wireToUser h1.wireToUser

/-- What a publisher or a requester that was made with the hook sends. -/
def outgoing (hook : Option (Bytes → Bytes)) (data : Bytes) : Bytes :=
  match hook with
  | some hook => hook data
  | none => data

/-- What the callback gets, if anything. -/
def incoming (hook : Option (Bytes → Option Bytes)) (data : Bytes) : Option Bytes :=
  match hook with
  | some hook => hook data
  | none => some data

/-- What goes out comes in again. -/
def Carries (out : Option (Bytes → Bytes)) (inn : Option (Bytes → Option Bytes)) : Prop :=
  ∀ data, incoming inn (outgoing out data) = some data

section Compose

variable {o₁ o₂ : Option (Bytes → Bytes)} {i₁ i₂ : Option (Bytes → Option Bytes)}

theorem outgoing_compose (data : Bytes) :
    outgoing (composeUserToWireHook o₁ o₂) data = outgoing o₂ (outgoing o₁ data) := by
  cases o₁ <;> cases o₂ <;> rfl

theorem incoming_compose (data : Bytes) :
    incoming (composeWireToUserHook i₁ i₂) data = (incoming i₁ data).bind (incoming i₂) := by
  cases i₁ with
  | none => rfl
  | some h1 =>
    cases i₂ with
    | none =>
      show h1 data = (h1 data).bind some
      cases h1 data <;> rfl
    | some h2 =>
      show (match h1 data with | some x => h2 x | none => none) = (h1 data).bind h2
      cases h1 data <;> rfl

/-- What is composed on both sides goes through both layers. -/
theorem carries_compose (h₁ : Carries o₁ i₁) (h₂ : Carries o₂ i₂) :
    Carries (composeUserToWireHook o₁ o₂) (composeWireToUserHook i₂ i₁) := by
  intro data
  rw [outgoing_compose, incoming_compose, h₂ (outgoing o₁ data)]
  exact h₁ data

end Compose

/-! ## Where hooks come from -/

/-- The hook factory components of an environment, for data types `T`. -/
structure HookFactories (T : Type) where
  /-- `AbstractOutgoingHookFactoryComponent<DataT>::defaultHook`, if there is that component -/
  outgoingComponent : T → Option (Option (Bytes → Bytes))
  /-- `AbstractIncomingHookFactoryComponent<DataT>::defaultHook`, if there is that component -/
  incomingComponent : T → Option (Option (Bytes → Option Bytes))
  /-- `WrapFacilitioidConnectorForSerializationHelpers::UnwrappedType` -/
  unwrapped : T → T

section Supply

variable {T : Type} (env : HookFactories T)

def outgoingHook (t : T) : Option (Bytes → Bytes) :=
  match env.outgoingComponent t with
  | some defaultHook => defaultHook
  | none =>
    match env.outgoingComponent (env.unwrapped t) with
    | some defaultHook => defaultHook
    | none => none

def incomingHook (t : T) : Option (Bytes → Option Bytes) :=
  match env.incomingComponent t with
  | some defaultHook => defaultHook
  | none =>
    match env.incomingComponent (env.unwrapped t) with
    | some defaultHook => defaultHook
    | none => none

/-- What the functions for the two sides have in common: the type of what goes out and of what comes
in. -/
def supplyFacilityHookPair (outType inType : T) (hooks : Option ByteDataHookPair) :
    Option ByteDataHookPair :=
  let userToWire := (hooks.bind (·.userToWire)).or (outgoingHook env outType)
  let wireToUser := (hooks.bind (·.wireToUser)).or (incomingHook env inType)
  if userToWire.isSome || wireToUser.isSome then some ⟨userToWire, wireToUser⟩ else none

def supplyFacilityHookPair_ServerSide (a b : T) := supplyFacilityHookPair env b a

def supplyFacilityHookPair_ClientSide (a b : T) := supplyFacilityHookPair env a b

variable {env} {outType inType : T} {hooks : Option ByteDataHookPair}

/-- There is a pair of hooks unless both are missing, and then nothing would be done either. -/
theorem fields_supply :
    (supplyFacilityHookPair env outType inType hooks).bind (·.userToWire) =
        (hooks.bind (·.userToWire)).or (outgoingHook env outType) ∧
      (supplyFacilityHookPair env outType inType hooks).bind (·.wireToUser) =
        (hooks.bind (·.wireToUser)).or (incomingHook env inType) := by
  unfold supplyFacilityHookPair
  cases (hooks.bind (·.userToWire)).or (outgoingHook env outType) <;>
    cases (hooks.bind (·.wireToUser)).or (incomingHook env inType) <;> exact ⟨rfl, rfl⟩

/-- Hooks of two sides fit, if the given ones and the default ones do and no side is given one
alone. -/
theorem carries_or {o o' : Option (Bytes → Bytes)} {i i' : Option (Bytes → Option Bytes)}
    (hgiven : o.isSome = i.isSome) (h : o.isSome → Carries o i) (h' : Carries o' i') :
    Carries (o.or o') (i.or i') := by
  cases o with
  | none =>
    cases i with
    | none => exact h'
    | some hook => cases hgiven
  | some hook =>
    cases i with
    | none => cases hgiven
    | some hook' => exact h rfl

end Supply

/-! ## Hooks that sign and verify -/

section Signatures

variable {N SK PK : Type} [DecidableEq N] (S : Setting N SK PK)

/-- `SignatureHookFactoryComponent::defaultHook` -/
def signatureHook (signKey : SK) : Bytes → Bytes := sign S (some signKey)

/-- `VerifyHookFactoryComponent::defaultHook`; the keys as the hash table gives them out. -/
def verifyHook (verifyKeys : List (N × PK)) : Bytes → Option Bytes := fun data =>
  match verify S (verifierOf verifyKeys) data with
  | some res => some res.2
  | none => none

/-- The data of a message, in the form that is signed, verify under this key. -/
def SignedUnder (key : PK) (message data : Bytes) : Prop :=
  ∃ signature, S.plain.deserialize message = some ((signature, data), message.length) ∧
    signature.length = cryptoSignBytes ∧ S.scheme.verifyDetached key data signature = true

variable {S} {keys : PublicKeys N PK} {key : PK} {privateKey : SK} {message data data' : Bytes}

/-- The verifier accepts what is signed under the key of the name that it says. -/
theorem signedUnder_of_verify {name : N} (h : verify S keys message = some (name, data)) :
    ∃ key, keys.find name = some key ∧ SignedUnder S key message data := by
  obtain ⟨signature, key, hread, hlength, hkey, hverified⟩ := verify_eq_some h
  exact ⟨key, hkey, signature, hread, hlength, hverified⟩

omit [DecidableEq N] in
theorem signedUnder_sign : SignedUnder S (S.scheme.publicOf privateKey)
    (sign S (some privateKey) data) data :=
  ⟨_, S.plain.deserialize_serialize _, S.scheme.length_sign _ _,
    verifyDetached_signDetached privateKey data⟩

omit [DecidableEq N] in
/-- What a signer puts out is signed under no other key and holds no other data. -/
theorem eq_of_signedUnder_sign (h : SignedUnder S key (sign S (some privateKey) data) data') :
    key = S.scheme.publicOf privateKey ∧ data' = data := by
  obtain ⟨signature, hread, -, hverified⟩ := h
  rw [sign, S.plain.deserialize_serialize] at hread
  obtain ⟨rfl, rfl⟩ := Prod.mk.inj (Prod.mk.inj (Option.some.inj hread)).1
  exact ⟨eq_publicOf hverified, rfl⟩

omit [DecidableEq N] in
/-- A message holds one piece of data. -/
theorem SignedUnder.data_eq {key' : PK} (h : SignedUnder S key message data)
    (h' : SignedUnder S key' message data') : data' = data := by
  obtain ⟨signature, hread, -⟩ := h
  obtain ⟨signature', hread', -⟩ := h'
  rw [hread] at hread'
  exact (Prod.mk.inj (Prod.mk.inj (Option.some.inj hread')).1).2.symm

/-- The verifier knows the name of an accepted key, or another name of that key. -/
theorem verify_sign {name : N} (h : keys.find name = some (S.scheme.publicOf privateKey)) :
    ∃ name', keys.find name' = some (S.scheme.publicOf privateKey) ∧
      verify S keys (sign S (some privateKey) data) = some (name', data) := by
  obtain ⟨name', hverify⟩ := exists_verify_eq_some
    (S.plain.deserialize_serialize (S.scheme.signDetached privateKey data, data))
    (S.scheme.length_sign privateKey data) h (verifyDetached_signDetached privateKey data)
  obtain ⟨key, hkey, hsigned⟩ := signedUnder_of_verify hverify
  rw [← (eq_of_signedUnder_sign hsigned).1]
  exact ⟨name', hkey, hverify⟩

theorem signedUnder_of_verifyHook {verifyKeys : List (N × PK)}
    (h : verifyHook S verifyKeys message = some data) :
    ∃ name key, (name, key) ∈ verifyKeys ∧ SignedUnder S key message data := by
  unfold verifyHook at h
  split at h
  · next res hres =>
    obtain ⟨key, hkey, hsigned⟩ := signedUnder_of_verify hres
    rw [find_verifierOf] at hkey
    obtain rfl := Option.some.inj h
    exact ⟨res.1, key, firstKey_mem hkey, hsigned⟩
  · cases h

theorem verifyHook_sign {verifyKeys : List (N × PK)} {name : N}
    (h : firstKey verifyKeys name = some (S.scheme.publicOf privateKey)) :
    verifyHook S verifyKeys (sign S (some privateKey) data) = some data := by
  have hfound := (find_verifierOf verifyKeys name).trans h
  obtain ⟨name', -, hverify⟩ := @verify_sign N SK PK _ S _ privateKey data name hfound
  rw [verifyHook, hverify]

end Signatures

/-! ## Clients, servers and the network -/

/-- The hooks that a reply goes through besides the signature, with the same on both sides. -/
structure ReplyHooks where
  /-- before the signature -/
  upper : ByteDataHookPair
  /-- after it -/
  lower : ByteDataHookPair

/-- Clients `C` and servers `J` of a facility, where identities are names `N`. -/
structure Parties (T C J N SK PK : Type) where
  S : Setting N SK PK
  /-- `signer_` of a client's identity attacher -/
  clientKey : C → SK
  /-- `signKey_` of a server's hook -/
  serverKey : J → SK
  /-- `verifyKeys_` of a client's hook -/
  verifyKeys : C → List (N × PK)
  requestType : T
  replyType : T
  clientEnv : C → HookFactories T
  serverEnv : J → HookFactories T
  /-- The hooks that the user gives, if any. -/
  clientGiven : C → Option ByteDataHookPair
  serverGiven : J → Option ByteDataHookPair
  replyHooks : ReplyHooks

structure State (C J N PK : Type) [DecidableEq N] where
  /-- `verifier_` of each server's identity checker -/
  keys : J → PublicKeys N PK
  /-- The requests that clients have made, without what is put around them. -/
  asked : List (C × Bytes)
  /-- The requests that servers have accepted, and under which name. -/
  handled : List (J × N × Bytes)
  /-- The replies that servers have made. -/
  answered : List (J × N × Bytes)
  /-- The replies that clients have accepted. -/
  got : List (C × Bytes)

inductive Act (C J N PK : Type) where
  /-- `add_identity_and_key` -/
  | addKey (j : J) (name : N) (publicKey : PK)
  | ask (c : C) (data : Bytes)
  /-- The network gives a server something, which may be anything. -/
  | requestArrives (j : J) (message : Bytes)
  | answer (j : J) (name : N) (data : Bytes)
  | replyArrives (c : C) (message : Bytes)

variable {T C J N SK PK : Type} [DecidableEq N]

namespace Parties

variable (P : Parties T C J N SK PK)

def clientHooks (c : C) : Option ByteDataHookPair :=
  supplyFacilityHookPair_ClientSide (P.clientEnv c) P.requestType P.replyType (P.clientGiven c)

def serverHooks (j : J) : Option ByteDataHookPair :=
  supplyFacilityHookPair_ServerSide (P.serverEnv j) P.requestType P.replyType (P.serverGiven j)

/-- `attach_identity`, and then the hook. -/
def requestMessage (c : C) (data : Bytes) : Bytes :=
  outgoing ((P.clientHooks c).bind (·.userToWire)) (sign P.S (some (P.clientKey c)) data)

/-- What the server's hook makes of what arrives. -/
def requestIn (j : J) (message : Bytes) : Option Bytes :=
  incoming ((P.serverHooks j).bind (·.wireToUser)) message

/-- `process_outgoing_data` changes nothing. -/
def replyMessage (j : J) (data : Bytes) : Bytes :=
  outgoing ((P.serverHooks j).bind (·.userToWire)) data

/-- `process_incoming_data` changes nothing. -/
def replyIn (c : C) (message : Bytes) : Option Bytes :=
  incoming ((P.clientHooks c).bind (·.wireToUser)) message

/-- What is signed with a reply in it. -/
def replySigned (data : Bytes) : Bytes := outgoing P.replyHooks.upper.userToWire data

/-- Whose key it is. -/
def publicKey : C ⊕ J → PK
  | .inl c => P.S.scheme.publicOf (P.clientKey c)
  | .inr j => P.S.scheme.publicOf (P.serverKey j)

/-- How the parties have to be set up. -/
structure Proper : Prop where
  /-- Everybody has a key of their own. -/
  apart : ∀ h h', P.publicKey h = P.publicKey h' → h = h'
  requests : ∀ c j,
    Carries ((P.clientHooks c).bind (·.userToWire)) ((P.serverHooks j).bind (·.wireToUser))
  upper : Carries P.replyHooks.upper.userToWire P.replyHooks.upper.wireToUser
  lower : Carries P.replyHooks.lower.userToWire P.replyHooks.lower.wireToUser
  /-- A server's hook signs, and may do something before and after it. -/
  signs : ∀ j, (P.serverHooks j).bind (·.userToWire) =
    (composeByteDataHookPair P.replyHooks.upper (composeByteDataHookPair
      ⟨some (signatureHook P.S (P.serverKey j)), none⟩ P.replyHooks.lower)).userToWire
  /-- A client's hook undoes that and verifies. -/
  verifies : ∀ c, (P.clientHooks c).bind (·.wireToUser) =
    (composeByteDataHookPair P.replyHooks.upper (composeByteDataHookPair
      ⟨none, some (verifyHook P.S (P.verifyKeys c))⟩ P.replyHooks.lower)).wireToUser
  /-- The keys that a client accepts are those of servers. -/
  trusted : ∀ c, ∀ item ∈ P.verifyKeys c, ∃ j, item.2 = P.publicKey (.inr j)

variable [DecidableEq J]

def step (s : State C J N PK) : Act C J N PK → State C J N PK
  | .addKey j name publicKey =>
    { s with keys := fun j' => if j' = j then (s.keys j).insert name publicKey else s.keys j' }
  | .ask c data => { s with asked := s.asked ++ [(c, data)] }
  | .requestArrives j message =>
    match (P.requestIn j message).bind (verify P.S (s.keys j)) with
    | some (name, data) => { s with handled := s.handled ++ [(j, name, data)] }
    | none => s
  | .answer j name data => { s with answered := s.answered ++ [(j, name, data)] }
  | .replyArrives c message =>
    match P.replyIn c message with
    | some data => { s with got := s.got ++ [(c, data)] }
    | none => s

def machine : Interleave.Machine (State C J N PK) (Act C J N PK) where
  init := ⟨fun _ => .empty, [], [], [], []⟩
  step := fun s a => some (P.step s a)

omit [DecidableEq J]

/-- This client or server has signed these data. -/
def HasSigned (s : State C J N PK) : C ⊕ J → Bytes → Prop
  | .inl c, x => (c, x) ∈ s.asked
  | .inr j, x => ∃ name data, (j, name, data) ∈ s.answered ∧ x = P.replySigned data

/-- Whatever is signed in the message has been signed by whoever has the key. -/
def Genuine (s : State C J N PK) (message : Bytes) : Prop :=
  ∀ h data, SignedUnder P.S (P.publicKey h) message data → P.HasSigned s h data

/-- **No signature is forged.** The messages may be anything else. -/
def Unforged (s : State C J N PK) : Act C J N PK → Prop
  | .requestArrives j message => ∀ b, P.requestIn j message = some b → P.Genuine s b
  | .replyArrives _ message =>
    ∀ b, incoming P.replyHooks.lower.wireToUser message = some b → P.Genuine s b
  | _ => True

end Parties

/-- Everything that was accepted can be traced to somebody who sent it. -/
structure Traced (P : Parties T C J N SK PK) (s : State C J N PK) : Prop where
  /-- A request that was accepted under the name of a client's key is that client's. -/
  requests : ∀ j name data, (j, name, data) ∈ s.handled → ∃ key, (s.keys j).find name = some key ∧
    ∀ c, P.publicKey (.inl c) = key → (c, data) ∈ s.asked
  /-- A reply that was accepted is a server's. -/
  replies : ∀ c data, (c, data) ∈ s.got → ∃ j name, (j, name, data) ∈ s.answered

/-- What clients and servers can rely on. -/
structure Authentic [DecidableEq J] (P : Parties T C J N SK PK) (s : State C J N PK) : Prop
    extends Traced P s where
  /-- A name has the same key from then on. -/
  kept : ∀ s', (P.machine.startingAt s).Reach P.Unforged s' → ∀ j name key,
    (s.keys j).find name = some key → (s'.keys j).find name = some key
  /-- A request that arrives as it was sent is accepted, under a name of that client's key. -/
  request : ∀ c j name data, (s.keys j).find name = some (P.publicKey (.inl c)) →
    ∃ name', (s.keys j).find name' = some (P.publicKey (.inl c)) ∧
      P.step s (.requestArrives j (P.requestMessage c data)) =
        { s with handled := s.handled ++ [(j, name', data)] }
  reply : ∀ c j name data, firstKey (P.verifyKeys c) name = some (P.publicKey (.inr j)) →
    P.step s (.replyArrives c (P.replyMessage j data)) = { s with got := s.got ++ [(c, data)] }
  /-- What nobody has signed whose key is accepted has no effect. -/
  rejected : ∀ j message, (∀ b, P.requestIn j message = some b → ∀ key data,
    SignedUnder P.S key b data → ∀ name, (s.keys j).find name ≠ some key) →
      P.step s (.requestArrives j message) = s

section Proofs

variable {P : Parties T C J N SK PK} {s s' : State C J N PK}

/-! ## The way through the hooks -/

theorem replyMessage_eq (hp : P.Proper) (j : J) (data : Bytes) :
    P.replyMessage j data = outgoing P.replyHooks.lower.userToWire
      (sign P.S (some (P.serverKey j)) (P.replySigned data)) := by
  rw [Parties.replyMessage, hp.signs]
  show outgoing (composeUserToWireHook _ (composeUserToWireHook _ _)) data = _
  rw [outgoing_compose, outgoing_compose]
  rfl

theorem replyIn_eq (hp : P.Proper) (c : C) (message : Bytes) :
    P.replyIn c message = ((incoming P.replyHooks.lower.wireToUser message).bind
      (verifyHook P.S (P.verifyKeys c))).bind (incoming P.replyHooks.upper.wireToUser) := by
  rw [Parties.replyIn, hp.verifies]
  show incoming (composeWireToUserHook (composeWireToUserHook _ _) _) message = _
  rw [incoming_compose, incoming_compose]
  rfl

theorem requestIn_requestMessage (hp : P.Proper) (c : C) (j : J) (data : Bytes) :
    P.requestIn j (P.requestMessage c data) = some (sign P.S (some (P.clientKey c)) data) :=
  hp.requests c j _

/-- An accepted reply was made by the server whose key it is signed under. -/
theorem replyIn_genuine (hp : P.Proper) {c : C} {message data : Bytes}
    (hgenuine : ∀ b, incoming P.replyHooks.lower.wireToUser message = some b → P.Genuine s b)
    (h : P.replyIn c message = some data) : ∃ j name, (j, name, data) ∈ s.answered := by
  rw [replyIn_eq hp] at h
  obtain ⟨x, hx, hupper⟩ := Option.bind_eq_some_iff.mp h
  obtain ⟨b, hlower, hverify⟩ := Option.bind_eq_some_iff.mp hx
  obtain ⟨name, key, hmem, hsigned⟩ := signedUnder_of_verifyHook hverify
  obtain ⟨j, hj⟩ := hp.trusted c _ hmem
  have hkey : key = P.publicKey (.inr j) := hj
  rw [hkey] at hsigned
  obtain ⟨name', data', hanswered, hsame⟩ := hgenuine b hlower (.inr j) x hsigned
  -- what the server had signed comes through the upper hook as the reply it was
  have hdata : incoming P.replyHooks.upper.wireToUser x = some data' := by
    rw [hsame]
    exact hp.upper data'
  rw [hupper] at hdata
  obtain rfl := Option.some.inj hdata
  exact ⟨j, name', hanswered⟩

theorem replyIn_replyMessage (hp : P.Proper) {c : C} {j : J} {name : N} {data : Bytes}
    (h : firstKey (P.verifyKeys c) name = some (P.publicKey (.inr j))) :
    P.replyIn c (P.replyMessage j data) = some data := by
  rw [replyIn_eq hp, replyMessage_eq hp, hp.lower]
  show (verifyHook P.S (P.verifyKeys c) _).bind _ = _
  rw [verifyHook_sign h]
  exact hp.upper data

/-! ## Networks that make nothing up -/

/-- A network that gives a server what a client has sent, however often, is within the limits. -/
theorem unforged_request (hp : P.Proper) {c : C} {j : J} {data : Bytes} (h : (c, data) ∈ s.asked) :
    P.Unforged s (.requestArrives j (P.requestMessage c data)) := by
  intro b hb holder x hsigned
  rw [requestIn_requestMessage hp] at hb
  obtain rfl := Option.some.inj hb
  obtain ⟨hkey, rfl⟩ := eq_of_signedUnder_sign hsigned
  obtain rfl := hp.apart holder (.inl c) hkey
  exact h

theorem unforged_reply (hp : P.Proper) {c : C} {j : J} {name : N} {data : Bytes}
    (h : (j, name, data) ∈ s.answered) :
    P.Unforged s (.replyArrives c (P.replyMessage j data)) := by
  intro b hb holder x hsigned
  rw [replyMessage_eq hp, hp.lower] at hb
  obtain rfl := Option.some.inj hb
  obtain ⟨hkey, rfl⟩ := eq_of_signedUnder_sign hsigned
  obtain rfl := hp.apart holder (.inr j) hkey
  exact ⟨name, data, h, rfl⟩

/-! ## Each step -/

variable [DecidableEq J]

/-- A name that has a key keeps it. -/
theorem find_step (a : Act C J N PK) {j : J} {name : N} {key : PK}
    (h : (s.keys j).find name = some key) : ((P.step s a).keys j).find name = some key := by
  cases a with
  | addKey j' name' publicKey =>
    show (if j = j' then _ else _ : PublicKeys N PK).find name = _
    by_cases hj : j = j'
    · subst hj
      rw [if_pos rfl, PublicKeys.find_insert, h]
      rfl
    · rw [if_neg hj, h]
  | ask c data => exact h
  | requestArrives j' message =>
    unfold Parties.step
    dsimp only
    split <;> exact h
  | answer j' name' data => exact h
  | replyArrives c message =>
    unfold Parties.step
    dsimp only
    split <;> exact h

theorem asked_step {x : C × Bytes} (a : Act C J N PK) (h : x ∈ s.asked) :
    x ∈ (P.step s a).asked := by
  cases a with
  | addKey j name publicKey => exact h
  | ask c data => exact List.mem_append_left _ h
  | requestArrives j message =>
    unfold Parties.step
    dsimp only
    split <;> exact h
  | answer j name data => exact h
  | replyArrives c message =>
    unfold Parties.step
    dsimp only
    split <;> exact h

/-- A request arrives twice, and something else in between. -/
theorem within_asked (hp : P.Proper) (s : State C J N PK) (c : C) (j : J) (data : Bytes)
    {message : Bytes} (hmessage : ∀ s, P.Unforged s (.requestArrives j message)) :
    P.machine.Within P.Unforged s [.ask c data, .requestArrives j (P.requestMessage c data),
      .requestArrives j message, .requestArrives j (P.requestMessage c data)] := by
  have hasked : (c, data) ∈ (P.step s (.ask c data)).asked :=
    List.mem_append_right _ (List.mem_singleton_self _)
  exact ⟨trivial, unforged_request hp hasked, hmessage _,
    unforged_request hp (asked_step (.requestArrives j message)
      (asked_step (.requestArrives j (P.requestMessage c data)) hasked)), trivial⟩

/-- A reply arrives as it was sent. -/
theorem within_answered (hp : P.Proper) (s : State C J N PK) (c : C) (j : J) (name : N)
    (data : Bytes) : P.machine.Within P.Unforged s
      [.answer j name data, .replyArrives c (P.replyMessage j data)] :=
  ⟨trivial, unforged_reply hp (List.mem_append_right _ (List.mem_singleton_self (j, name, data))),
    trivial⟩

theorem traced_step (hp : P.Proper) {a : Act C J N PK} (h : Traced P s) (hu : P.Unforged s a) :
    Traced P (P.step s a) := by
  cases a with
  | addKey j' name' publicKey =>
    refine ⟨fun j name data hmem => ?_, h.replies⟩
    obtain ⟨key, hkey, hasked⟩ := h.requests j name data hmem
    exact ⟨key, find_step (.addKey j' name' publicKey) hkey, hasked⟩
  | ask c data =>
    refine ⟨fun j name data' hmem => ?_, h.replies⟩
    obtain ⟨key, hkey, hasked⟩ := h.requests j name data' hmem
    exact ⟨key, hkey, fun c' hc => List.mem_append_left _ (hasked c' hc)⟩
  | requestArrives j' message =>
    unfold Parties.step
    dsimp only
    split
    · next name' data' haccepted =>
      refine ⟨fun j name data hmem => ?_, h.replies⟩
      rcases List.mem_append.mp hmem with hmem | hmem
      · exact h.requests j name data hmem
      · obtain ⟨rfl, hrest⟩ := Prod.mk.inj (List.mem_singleton.mp hmem)
        obtain ⟨rfl, rfl⟩ := Prod.mk.inj hrest
        obtain ⟨b, hb, hverify⟩ := Option.bind_eq_some_iff.mp haccepted
        obtain ⟨key, hkey, hsigned⟩ := signedUnder_of_verify hverify
        refine ⟨key, hkey, fun c hc => ?_⟩
        rw [← hc] at hsigned
        exact hu b hb (.inl c) data hsigned
    · exact h
  | answer j' name' data' =>
    refine ⟨h.requests, fun c data hmem => ?_⟩
    obtain ⟨j, name, hanswered⟩ := h.replies c data hmem
    exact ⟨j, name, List.mem_append_left _ hanswered⟩
  | replyArrives c' message =>
    unfold Parties.step
    dsimp only
    split
    · next data' haccepted =>
      refine ⟨h.requests, fun c data hmem => ?_⟩
      rcases List.mem_append.mp hmem with hmem | hmem
      · exact h.replies c data hmem
      · obtain ⟨rfl, rfl⟩ := Prod.mk.inj (List.mem_singleton.mp hmem)
        exact replyIn_genuine hp hu haccepted
    · exact h

theorem traced_of_unforged (hp : P.Proper) (h : P.machine.Reach P.Unforged s) : Traced P s :=
  h.invariant ⟨fun _ _ _ hmem => (by cases hmem), fun _ _ hmem => (by cases hmem)⟩
    fun _ _ _ htraced hu hs => Option.some.inj hs ▸ traced_step hp htraced hu

/-! ## Whole runs -/

/--
**Clients and servers get from each other what they have sent**, whatever the network does, as long
as it forges no signature. Names keep their keys, and what arrives as it was sent is accepted.
-/
theorem authentic_of_unforged (hp : P.Proper) (h : P.machine.Reach P.Unforged s) :
    Authentic P s := by
  refine ⟨traced_of_unforged hp h, ?kept, ?request, ?reply, ?rejected⟩
  case kept =>
    intro s' hs' j name key hkey
    exact hs'.invariant (I := fun s' => (s'.keys j).find name = some key) hkey
      fun _ a _ hfound _ hstep => Option.some.inj hstep ▸ find_step a hfound
  case request =>
    intro c j name data hkey
    obtain ⟨name', hkey', hverify⟩ := @verify_sign N SK PK _ P.S _ (P.clientKey c) data name hkey
    refine ⟨name', hkey', ?_⟩
    show (match (P.requestIn j (P.requestMessage c data)).bind (verify P.S (s.keys j)) with
      | some (name, data) => { s with handled := s.handled ++ [(j, name, data)] }
      | none => s) = _
    rw [requestIn_requestMessage hp, Option.bind_some, hverify]
  case reply =>
    intro c j name data hkey
    show (match P.replyIn c (P.replyMessage j data) with
      | some data => { s with got := s.got ++ [(c, data)] }
      | none => s) = _
    rw [replyIn_replyMessage hp hkey]
  case rejected =>
    intro j message hunsigned
    unfold Parties.step
    dsimp only
    split
    · next name data haccepted =>
      obtain ⟨b, hb, hverify⟩ := Option.bind_eq_some_iff.mp haccepted
      obtain ⟨key, hkey, hsigned⟩ := signedUnder_of_verify hverify
      exact absurd hkey (hunsigned b hb key data hsigned name)
    · rfl

/-! ## Where the hooks come from -/

omit [DecidableEq J] in
/-- The parties are set up as they should be, if the hooks for requests are given on both sides or
on neither, and those for replies come from the environments. -/
theorem proper_of_defaults (hapart : ∀ h h', P.publicKey h = P.publicKey h' → h = h')
    (hgiven : ∀ c j, ((P.clientGiven c).bind (·.userToWire)).isSome =
      ((P.serverGiven j).bind (·.wireToUser)).isSome)
    (hfit : ∀ c j, ((P.clientGiven c).bind (·.userToWire)).isSome →
      Carries ((P.clientGiven c).bind (·.userToWire)) ((P.serverGiven j).bind (·.wireToUser)))
    (hdefault : ∀ c j, Carries (outgoingHook (P.clientEnv c) P.requestType)
      (incomingHook (P.serverEnv j) P.requestType))
    (hupper : Carries P.replyHooks.upper.userToWire P.replyHooks.upper.wireToUser)
    (hlower : Carries P.replyHooks.lower.userToWire P.replyHooks.lower.wireToUser)
    (hserver : ∀ j, (P.serverGiven j).bind (·.userToWire) = none ∧
      outgoingHook (P.serverEnv j) P.replyType =
        (composeByteDataHookPair P.replyHooks.upper (composeByteDataHookPair
          ⟨some (signatureHook P.S (P.serverKey j)), none⟩ P.replyHooks.lower)).userToWire)
    (hclient : ∀ c, (P.clientGiven c).bind (·.wireToUser) = none ∧
      incomingHook (P.clientEnv c) P.replyType =
        (composeByteDataHookPair P.replyHooks.upper (composeByteDataHookPair
          ⟨none, some (verifyHook P.S (P.verifyKeys c))⟩ P.replyHooks.lower)).wireToUser)
    (htrusted : ∀ c, ∀ item ∈ P.verifyKeys c, ∃ j, item.2 = P.publicKey (.inr j)) : P.Proper where
  apart := hapart
  requests := by
    intro c j
    rw [Parties.clientHooks, supplyFacilityHookPair_ClientSide, fields_supply.1,
      Parties.serverHooks, supplyFacilityHookPair_ServerSide, fields_supply.2]
    exact carries_or (hgiven c j) (hfit c j) (hdefault c j)
  upper := hupper
  lower := hlower
  signs := by
    intro j
    rw [Parties.serverHooks, supplyFacilityHookPair_ServerSide, fields_supply.1, (hserver j).1,
      Option.none_or]
    exact (hserver j).2
  verifies := by
    intro c
    rw [Parties.clientHooks, supplyFacilityHookPair_ClientSide, fields_supply.2, (hclient c).1,
      Option.none_or]
    exact (hclient c).2
  trusted := htrusted

end Proofs

/-! ## A message that comes twice -/

/-- Put a 9 in front, and take it away. -/
def nine : ByteDataHookPair where
  userToWire := some fun data => 9 :: data
  wireToUser := some fun data => if data.head? = some 9 then some data.tail else none

/-- One client with the key `false`, one server with the key `true`. The hooks of requests are
given, those of replies are the default. -/
def oneEach : Parties Bool Unit Unit Bool Bool Bool where
  S := twoKeySetting
  clientKey := fun _ => false
  serverKey := fun _ => true
  verifyKeys := fun _ => [(true, true)]
  requestType := false
  replyType := true
  clientEnv := fun _ =>
    { outgoingComponent := fun _ => none
      incomingComponent := fun t =>
        if t then some (some (verifyHook twoKeySetting [(true, true)])) else none
      unwrapped := id }
  serverEnv := fun _ =>
    { outgoingComponent := fun t =>
        if t then some (some (signatureHook twoKeySetting true)) else none
      incomingComponent := fun _ => none
      unwrapped := id }
  clientGiven := fun _ => some { nine with wireToUser := none }
  serverGiven := fun _ => some { nine with userToWire := none }
  replyHooks := ⟨⟨none, none⟩, ⟨none, none⟩⟩

theorem oneEach_proper : oneEach.Proper := by
  refine proper_of_defaults ?_ (fun _ _ => rfl) ?_ (fun _ _ _ => rfl) (fun _ => rfl)
    (fun _ => rfl) (fun _ => ⟨rfl, rfl⟩) (fun _ => ⟨rfl, rfl⟩) ?_
  · intro h h' hkey
    rcases h with ⟨⟩ | ⟨⟩ <;> rcases h' with ⟨⟩ | ⟨⟩
    · rfl
    · cases hkey
    · cases hkey
    · rfl
  · intro _ _ _ data
    show (if (9 :: data).head? = some 9 then some (9 :: data).tail else none) = some data
    exact if_pos rfl
  · intro _ item hitem
    rw [List.mem_singleton.mp hitem]
    exact ⟨(), rfl⟩

/-- A request comes twice, and between the two something else. Then there is a reply. -/
def repeated : List (Act Unit Unit Bool Bool) :=
  [.addKey () true false, .ask () [7], .requestArrives () (oneEach.requestMessage () [7]),
    .requestArrives () [1, 2], .requestArrives () (oneEach.requestMessage () [7]),
    .answer () true [8], .replyArrives () (oneEach.replyMessage () [8])]

theorem authentic_repeated : Authentic oneEach
    (oneEach.machine.exec oneEach.machine.init repeated) := by
  refine authentic_of_unforged oneEach_proper (Interleave.Machine.Reach.exec .init ?_)
  refine ⟨trivial, (within_asked oneEach_proper _ () () [7] fun s b hb => ?_).append
    (within_answered oneEach_proper _ () () true [8])⟩
  -- what does not start with a 9 has nothing in it
  cases hb

end SignedTraffic
