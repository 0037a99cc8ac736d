import TMTransport.Locator.ConnectionLocator

/-!
# The channels of a facility

A channel says by which transport, and where, a facility can be reached. Two functions
read its text, one for the heartbeats and one for the facility: the first compares with
the beginnings one by one, and the second goes through the names of the transports. The
first does not know of WebSockets.
-/

namespace Facility

open ConnectionLocator

/-- `MultiTransportRemoteFacilityActionType` -/
inductive ActionType where
  | register
  | deregister
  deriving DecidableEq

/-- `MultiTransportRemoteFacilityConnectionType` -/
inductive ConnectionType where
  | rabbitMQ
  | redis
  | socketRPC
  | grpcInterop
  | jsonREST
  | webSocket
  deriving DecidableEq

/-- `std::tuple<MultiTransportRemoteFacilityConnectionType, ConnectionLocator>` -/
abbrev Channel := ConnectionType × Locator

/-- What the tuple is before it has been assigned. -/
def Channel.unset : Channel := (.rabbitMQ, default)

/-- `MultiTransportRemoteFacilityAction` -/
structure Action where
  actionType : ActionType
  connectionType : ConnectionType
  connectionLocator : Locator
  description : Text
  deriving DecidableEq

/-- The beginnings that `parseServerSpec` compares with, in this order. -/
def serverSchemes : List (Text × ConnectionType) :=
  [("rabbitmq://".toList, .rabbitMQ), ("redis://".toList, .redis),
    ("socket_rpc://".toList, .socketRPC), ("grpc_interop://".toList, .grpcInterop),
    ("json_rest://".toList, .jsonREST)]

def parseServerSpec (s : Text) : Option Channel :=
  match serverSchemes.find? fun scheme => scheme.1.isPrefixOf s with
  | none => none
  | some scheme =>
    match parse (s.drop scheme.1.length) with
    | .error _ => none
    | .ok locator => some (scheme.2, locator)

example : parseServerSpec "rabbitmq://".toList = some .unset := by decide +kernel

/-- `static_cast<MultiTransportRemoteFacilityConnectionType>` -/
def ConnectionType.ofIndex : Nat → ConnectionType
  | 0 => .rabbitMQ
  | 1 => .redis
  | 2 => .socketRPC
  | 3 => .grpcInterop
  | 4 => .jsonREST
  | _ => .webSocket

/-- `MULTI_TRANSPORT_REMOTE_FACILITY_CONNECTION_TYPE_STR` -/
def connectionTypeStr : List Text :=
  ["rabbitmq".toList, "redis".toList, "socket_rpc".toList, "grpc_interop".toList,
    "json_rest".toList, "websocket".toList]

/-- The loop of `parseMultiTransportRemoteFacilityChannel`. -/
def parseChannelFrom (s : Text) (ii : Nat) : List Text → Option Channel
  | [] => none
  | item :: items =>
    if (item ++ "://".toList).isPrefixOf s then
      match parse (s.drop (item.length + 3)) with
      | .error _ => none
      | .ok locator => some (.ofIndex ii, locator)
    else parseChannelFrom s (ii + 1) items

/-- `parseMultiTransportRemoteFacilityChannel` -/
def parseMultiTransportRemoteFacilityChannel (s : Text) : Option Channel :=
  parseChannelFrom s 0 connectionTypeStr

/-! ## Where they agree -/

/-- What the rest of the text says, after a beginning. -/
def channelAfter (s : Text) (scheme : Text × ConnectionType) : Option Channel :=
  match parse (s.drop scheme.1.length) with
  | .error _ => none
  | .ok locator => some (scheme.2, locator)

/-- The first beginning that the text has decides. -/
def parseWith (schemes : List (Text × ConnectionType)) (s : Text) : Option Channel :=
  (schemes.find? fun scheme => scheme.1.isPrefixOf s).bind (channelAfter s)

/-- What the heartbeats do not know of. -/
def webSocketScheme : Text × ConnectionType := ("websocket://".toList, .webSocket)

variable {s : Text}

theorem parseWith_cons (scheme : Text × ConnectionType) (schemes : List (Text × ConnectionType)) :
    parseWith (scheme :: schemes) s =
      if scheme.1.isPrefixOf s then channelAfter s scheme else parseWith schemes s := by
  rw [parseWith, List.find?_cons]
  cases scheme.1.isPrefixOf s <;> rfl

theorem parseServerSpec_eq (s : Text) : parseServerSpec s = parseWith serverSchemes s := by
  rw [parseServerSpec, parseWith]
  cases serverSchemes.find? fun scheme => scheme.1.isPrefixOf s <;> rfl

/-- The names with `://` are the beginnings, in the order of the enumerators. -/
theorem parseChannelFrom_eq {ii : Nat} {items : List Text}
    {schemes : List (Text × ConnectionType)}
    (h : (items.zipIdx ii).map (fun x => (x.1 ++ "://".toList, ConnectionType.ofIndex x.2)) =
      schemes) : parseChannelFrom s ii items = parseWith schemes s := by
  subst h
  induction items generalizing ii with
  | nil => rfl
  | cons item items ih =>
      have hlength : (item ++ "://".toList).length = item.length + 3 := List.length_append
      rw [List.zipIdx_cons, List.map_cons, parseWith_cons, parseChannelFrom, ih, channelAfter,
        hlength]

theorem parseMultiTransportRemoteFacilityChannel_eq (s : Text) :
    parseMultiTransportRemoteFacilityChannel s =
      parseWith (serverSchemes ++ [webSocketScheme]) s :=
  parseChannelFrom_eq (by decide +kernel)

/-- No text has two of the beginnings. -/
theorem not_webSocket_of_server {scheme : Text × ConnectionType} (hmem : scheme ∈ serverSchemes)
    (h : scheme.1.isPrefixOf s = true) : webSocketScheme.1.isPrefixOf s = false := by
  rw [← Bool.not_eq_true]
  intro hw
  rw [List.isPrefixOf_iff_prefix] at h hw
  have hapart : ∀ scheme ∈ serverSchemes,
      scheme.1.isPrefixOf webSocketScheme.1 = false ∧
        webSocketScheme.1.isPrefixOf scheme.1 = false := by
    decide +kernel
  rcases List.prefix_or_prefix_of_prefix h hw with hp | hp
  · rw [← List.isPrefixOf_iff_prefix, (hapart scheme hmem).1] at hp
    cases hp
  · rw [← List.isPrefixOf_iff_prefix, (hapart scheme hmem).2] at hp
    cases hp

/-- The text is the channel of a WebSocket. -/
def IsWebSocket (s : Text) : Prop :=
  webSocketScheme.1.isPrefixOf s = true ∧ (channelAfter s webSocketScheme).isSome = true

instance (s : Text) : Decidable (IsWebSocket s) := inferInstanceAs (Decidable (_ ∧ _))

/--
**The two agree on a text** if and only if it is not the channel of a WebSocket, which the heartbeat
converter does not accept.
-/
theorem parseServerSpec_agrees_iff (s : Text) :
    parseServerSpec s = parseMultiTransportRemoteFacilityChannel s ↔ ¬ IsWebSocket s := by
  rw [parseServerSpec_eq, parseMultiTransportRemoteFacilityChannel_eq, parseWith, parseWith,
    List.find?_append]
  cases hfind : serverSchemes.find? fun scheme => scheme.1.isPrefixOf s with
  | some scheme =>
      have hs := List.find?_some (p := fun x : Text × ConnectionType => x.1.isPrefixOf s) hfind
      have hno := not_webSocket_of_server (List.mem_of_find?_eq_some hfind) hs
      refine iff_of_true rfl fun h => ?_
      rw [IsWebSocket, hno] at h
      cases h.1
  | none =>
      show none = ([webSocketScheme].find? fun scheme => scheme.1.isPrefixOf s).bind _ ↔ _
      rw [List.find?_singleton, IsWebSocket]
      by_cases hw : webSocketScheme.1.isPrefixOf s = true
      · rw [if_pos hw, and_iff_right hw, Option.bind_some]
        cases channelAfter s webSocketScheme <;> simp
      · rw [if_neg hw]
        exact iff_of_true rfl fun h => hw h.1

theorem not_parseServerSpec_agrees :
    ¬ ∀ s, parseServerSpec s = parseMultiTransportRemoteFacilityChannel s := by
  intro h
  have := h "websocket://localhost:5000".toList
  revert this
  decide +kernel

end Facility
