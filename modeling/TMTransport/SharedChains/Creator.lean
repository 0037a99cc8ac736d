import Mathlib.Algebra.Ring.Nat
import TMTransport.Library.Memo
import TMTransport.Locator.Serialization

/-!
# The creator of shared chains

All entry points come down to `dispatch`, which takes the kind of chain from the
protocol, the configuration from the locator, and the data type and the hooks from the
caller. The chains are kept under the text of protocol and locator alone, as bare
pointers, and a pointer that is found is cast to whatever type the caller has in mind.

So a caller gets what it asks for exactly if all that ask under the same text ask for
the same (`neverConfused_iff`).
-/

namespace SharedChains

open ConnectionLocator

/-! ## Locators of chains -/

inductive SharedChainProtocol where
  | etcd
  | redis
  | inMemoryWithLock
  | inMemoryLockFree
  | inSharedMemoryWithLock
  | inSharedMemoryLockFree
  | empty
  deriving DecidableEq

namespace SharedChainProtocol

/-- `SHARED_CHAIN_PROTOCOL_STR` -/
def str : SharedChainProtocol → Text
  | etcd => "etcd".toList
  | redis => "redis".toList
  | inMemoryWithLock => "in_memory_with_lock".toList
  | inMemoryLockFree => "in_memory_lock_free".toList
  | inSharedMemoryWithLock => "in_shared_memory_with_lock".toList
  | inSharedMemoryLockFree => "in_shared_memory_lock_free".toList
  | empty => "empty".toList

def all : List SharedChainProtocol :=
  [etcd, redis, inMemoryWithLock, inMemoryLockFree, inSharedMemoryWithLock,
    inSharedMemoryLockFree, empty]

/-- The chains of these kinds are made with hooks. -/
def takesHooks : SharedChainProtocol → Bool
  | etcd | redis | inSharedMemoryWithLock | inSharedMemoryLockFree => true
  | inMemoryWithLock | inMemoryLockFree | empty => false

end SharedChainProtocol

/-- What follows a text, if it is at the beginning of the other one. -/
def afterPrefix? (start s : Text) : Option Text :=
  if start.isPrefixOf s then some (s.drop start.length) else none

def parseSharedChainLocator (s : Text) : Option (SharedChainProtocol × Locator) :=
  match SharedChainProtocol.all.find? fun p => (p.str ++ "://".toList).isPrefixOf s with
  | some p => (parse (s.drop (p.str.length + 3))).toOption.map (p, ·)
  | none =>
      match afterPrefix? "in_shared_memory://".toList s with
      | some rest => (parse rest).toOption.map (.inSharedMemoryLockFree, ·)
      | none =>
          match afterPrefix? "/dev/shm/".toList s with
          | some rest => (parse ("::::".toList ++ rest)).toOption.map (.inSharedMemoryLockFree, ·)
          | none => none

def makeSharedChainLocator (protocol : SharedChainProtocol) (locator : Locator) : Text :=
  protocol.str ++ "://".toList ++ toSerializationFormat locator

/-- `ConnectionLocator::query` -/
def query (l : Locator) (field defaultValue : Text) : Text :=
  match l.properties.find field with
  | some value => value
  | none =>
      if field = "HOST".toList then l.host
      else if field = "PORT".toList then intText l.port
      else if field = "USERNAME".toList ∨ field = "USER".toList then l.userName
      else if field = "PASSWORD".toList ∨ field = "PASSWD".toList then l.password
      else if field = "IDENTIFIER".toList then l.identifier
      else defaultValue

/-- `std::stoul` and `std::stoull`. What follows the digits is left alone. -/
def stoul (s : Text) : Except Text Nat :=
  let t := s.dropWhile isSpace
  let digits := match t with
    | '-' :: ds => ds.takeWhile Char.isDigit
    | '+' :: ds => ds.takeWhile Char.isDigit
    | ds => ds.takeWhile Char.isDigit
  match digitsToNat digits with
  | some n =>
      if n < 2 ^ 64 then .ok (if t.head? = some '-' then (2 ^ 64 - n) % 2 ^ 64 else n)
      else .error "stoul".toList
  | none => .error "stoul".toList

/-! ## Configurations -/

structure EtcdChainConfiguration where
  insecureEtcdServerAddr : Text
  headKey : Text
  saveDataOnSeparateStorage : Bool
  useWatchThread : Bool
  chainPrefix : Text
  dataPrefix : Text
  extraDataPrefix : Text
  redisServerAddr : Text
  duplicateFromRedis : Bool
  redisTTLSeconds : Nat
  automaticallyDuplicateToRedis : Bool
  deriving DecidableEq

/-- What `ForceSeparateDataStorageIfPossible` does. -/
def EtcdChainConfiguration.force (conf : EtcdChainConfiguration) (forceSeparate : Bool) :
    EtcdChainConfiguration :=
  { conf with saveDataOnSeparateStorage := forceSeparate || conf.saveDataOnSeparateStorage }

structure RedisChainConfiguration where
  redisServerAddr : Text
  headKey : Text
  chainPrefix : Text
  dataPrefix : Text
  extraDataPrefix : Text
  deriving DecidableEq

def etcdChainConfigurationFromConnectionLocator (l : Locator) :
    Except Text EtcdChainConfiguration := do
  let ttl ← stoul (query l "redisTTLSeconds".toList "0".toList)
  return {
    insecureEtcdServerAddr := l.host ++ ":".toList ++ intText l.port
    headKey := query l "headKey".toList "head".toList
    saveDataOnSeparateStorage :=
      query l "saveDataOnSeparateStorage".toList "true".toList = "true".toList
    useWatchThread := query l "useWatchThread".toList "false".toList = "true".toList
    chainPrefix := l.identifier
    dataPrefix := query l "dataPrefix".toList (l.identifier ++ "_data".toList)
    extraDataPrefix := query l "extraDataPrefix".toList (l.identifier ++ "_extra_data".toList)
    redisServerAddr := query l "redisServerAddr".toList []
    duplicateFromRedis := query l "redisServerAddr".toList [] ≠ []
    redisTTLSeconds := ttl % 2 ^ 16
    automaticallyDuplicateToRedis :=
      query l "automaticallyDuplicateToRedis".toList "false".toList = "true".toList }

def redisChainConfigurationFromConnectionLocator (l : Locator) : RedisChainConfiguration where
  redisServerAddr := l.host ++ ":".toList ++ intText l.port
  headKey := query l "headKey".toList "head".toList
  chainPrefix := l.identifier
  dataPrefix := query l "dataPrefix".toList (l.identifier ++ "_data".toList)
  extraDataPrefix := query l "extraDataPrefix".toList (l.identifier ++ "_extra_data".toList)

inductive FastRecoverSupport where
  | byName
  | byOffset
  deriving DecidableEq

/-- `BoostSharedMemoryChainExtraDataProtectionStrategy` -/
inductive ExtraDataProtectionStrategy where
  | dontSupportExtraData
  | lockFreeAndWasteMemory
  | mutexProtected
  | spinLockProtected
  | unsafelyShared
  deriving DecidableEq

inductive DataLockStrategy where
  | none
  | namedMutex
  | spinLock
  deriving DecidableEq

/-- What a locator says about a chain in shared memory, as far as `dispatch` asks. -/
structure SharedMemorySettings where
  memoryName : Text
  memorySize : Nat
  fastRecover : FastRecoverSupport
  /-- The locks that a program with several threads uses. -/
  extraDataLock : ExtraDataProtectionStrategy
  dataLock : DataLockStrategy
  useNotification : Bool
  deriving DecidableEq

/-- `size`, or 4 GiB. -/
def memorySize (l : Locator) : Except Text Nat :=
  if query l "size".toList [] ≠ [] then stoul (query l "size".toList []) else .ok (4 * 2 ^ 30)

def sharedMemoryWithLockSettings (l : Locator) : Except Text SharedMemorySettings := do
  let size ← memorySize l
  let extraDataLockType := query l "extraDataLock".toList "named".toList
  return {
    memoryName := l.identifier
    memorySize := size
    fastRecover :=
      if query l "useName".toList "false".toList = "true".toList then .byName else .byOffset
    extraDataLock :=
      if extraDataLockType = "spin".toList then .spinLockProtected
      else if extraDataLockType = "none".toList then .lockFreeAndWasteMemory
      else .mutexProtected
    dataLock :=
      if query l "dataLock".toList "named".toList = "named".toList then .namedMutex else .spinLock
    useNotification := query l "useNotification".toList "false".toList = "true".toList }

def sharedMemoryLockFreeSettings (l : Locator) : Except Text SharedMemorySettings := do
  let size ← memorySize l
  return {
    memoryName := l.identifier
    memorySize := size
    fastRecover :=
      if query l "useName".toList "false".toList = "true".toList then .byName else .byOffset
    extraDataLock := .lockFreeAndWasteMemory
    dataLock := .none
    useNotification := query l "useNotification".toList "false".toList = "true".toList }

/-- The property that is asked for is misspelled. -/
def emptySupportsExtraData (l : Locator) : Bool :=
  query l "supprtsExtraData".toList "false".toList = "true".toList

/-! ## Hooks -/

structure ByteDataHookPair (U W : Type) where
  userToWire : Option U
  wireToUser : Option W
  deriving DecidableEq

/-- What the hook factories of an environment have for each data type. -/
structure Environment (D U W : Type) where
  outgoingHook : D → Option U
  incomingHook : D → Option W

/-- `supplyFacilityHookPair_SingleType`. What the caller gives comes before what the
factories have. -/
def supplyFacilityHookPair {D U W : Type} (env : Environment D U W) (data : D)
    (hooks : Option (ByteDataHookPair U W)) : Option (ByteDataHookPair U W) :=
  let userToWire := (hooks.bind (·.userToWire)).or (env.outgoingHook data)
  let wireToUser := (hooks.bind (·.wireToUser)).or (env.incomingHook data)
  if userToWire.isSome ∨ wireToUser.isSome then some ⟨userToWire, wireToUser⟩ else none

/-! ## Chains -/

/-- What is known when the program is compiled. -/
structure App (D : Type) where
  possiblyMultiThreaded : Bool
  hasEtcd : Bool
  hasRedis : Bool
  hasSharedMemory : Bool
  hasOutgoingHookFactory : D → Bool
  hasIncomingHookFactory : D → Bool

/-- The class that a chain is an object of. -/
inductive ChainType (D : Type) where
  | etcdChain (data : D)
  | redisChain (data : D)
  | inMemoryWithLockChain (data : D)
  | inMemoryLockFreeChain (data : D)
  | lockFreeInBoostSharedMemoryChain (data : D) (fastRecover : FastRecoverSupport)
      (extraData : ExtraDataProtectionStrategy) (forceSeparate : Bool) (dataLock : DataLockStrategy)
  | emptyChain (data : D) (supportsExtraData : Bool)
  deriving DecidableEq

/-- What else a chain is constructed with, apart from hooks. -/
inductive ChainConfiguration where
  | etcd (configuration : EtcdChainConfiguration)
  | redis (configuration : RedisChainConfiguration)
  | inSharedMemory (memoryName : Text) (memorySize : Nat) (useNotification : Bool)
  | nothing
  deriving DecidableEq

/-- A chain, as it is constructed. -/
structure Chain (D U W : Type) where
  type : ChainType D
  configuration : ChainConfiguration
  hooks : Option (ByteDataHookPair U W)
  deriving DecidableEq

/-! ## Calls -/

/-- The entry points. The factories call `reader` and `writer` later on. -/
inductive EntryPoint where
  | reader
  | writer
  | oneShotWrite
  | tryOneShotWriteConstValue
  | blockingOneShotWriteConstValue
  | writeExtraData
  | readExtraData
  deriving DecidableEq

/-- The name that is in the message. One entry point has another one's. -/
def EntryPoint.nameInMessage : EntryPoint → Text
  | reader => "reader".toList
  | writer => "writer".toList
  | oneShotWrite => "oneShotWrite".toList
  | tryOneShotWriteConstValue => "tryOneShotWriteConstValue".toList
  | blockingOneShotWriteConstValue => "tryOneShotWriteConstValue".toList
  | writeExtraData => "writeExtraData".toList
  | readExtraData => "readExtraData".toList

/-- How the caller says which chain it means. -/
inductive Target where
  | parsed (protocol : SharedChainProtocol) (locator : Locator)
  | text (locatorStr : Text)

structure Call (D U W : Type) where
  entryPoint : EntryPoint
  env : Environment D U W
  target : Target
  dataType : D
  hookPair : Option (ByteDataHookPair U W)
  forceSeparateDataStorage : Bool
  /-- The constructor would not throw, if it were called. -/
  constructs : Bool

section Dispatch

variable {D U W : Type}

def Call.resolve (c : Call D U W) : Except Text (SharedChainProtocol × Locator) :=
  match c.target with
  | .parsed protocol locator => .ok (protocol, locator)
  | .text locatorStr =>
      match parseSharedChainLocator locatorStr with
      | some parsed => .ok parsed
      | none => .error ("sharedChainCreator::".toList ++ c.entryPoint.nameInMessage ++
          ": malformed connection locator string '".toList ++ locatorStr ++ "'".toList)

/-- The hooks that a chain is constructed with. -/
def Call.suppliedHooks (c : Call D U W) : Option (ByteDataHookPair U W) :=
  supplyFacilityHookPair c.env c.dataType c.hookPair

/-- The data are kept apart from the nodes if there are default hooks for them, too. -/
def Call.separates (app : App D) (c : Call D U W) : Bool :=
  c.forceSeparateDataStorage ||
    (app.hasOutgoingHookFactory c.dataType && app.hasIncomingHookFactory c.dataType)

def unsupported (kind : String) : Text :=
  "sharedChainCreator::dispatch: ".toList ++ kind.toList ++
    " chain is not supported by the environment".toList

def sharedMemoryChain (app : App D) (c : Call D U W) (x : SharedMemorySettings) :
    Chain D U W where
  type := .lockFreeInBoostSharedMemoryChain c.dataType x.fastRecover
    (if app.possiblyMultiThreaded then x.extraDataLock else .unsafelyShared) (c.separates app)
    (if app.possiblyMultiThreaded then x.dataLock else .none)
  configuration := .inSharedMemory x.memoryName x.memorySize x.useNotification
  hooks := c.suppliedHooks

/-- `dispatch`: the chain that would be constructed, and that the action is compiled for. -/
def dispatch (app : App D) (c : Call D U W) (protocol : SharedChainProtocol) (locator : Locator) :
    Except Text (Chain D U W) :=
  match protocol with
  | .etcd =>
      if app.hasEtcd then do
        let conf ← etcdChainConfigurationFromConnectionLocator locator
        return ⟨.etcdChain c.dataType, .etcd (conf.force c.forceSeparateDataStorage),
          c.suppliedHooks⟩
      else .error (unsupported "Etcd")
  | .redis =>
      if app.hasRedis then
        .ok ⟨.redisChain c.dataType,
          .redis (redisChainConfigurationFromConnectionLocator locator), c.suppliedHooks⟩
      else .error (unsupported "Redis")
  | .inMemoryWithLock => .ok ⟨.inMemoryWithLockChain c.dataType, .nothing, none⟩
  | .inMemoryLockFree => .ok ⟨.inMemoryLockFreeChain c.dataType, .nothing, none⟩
  | .inSharedMemoryWithLock =>
      if app.hasSharedMemory then
        (sharedMemoryWithLockSettings locator).map (sharedMemoryChain app c)
      else .error (unsupported "Shared memory")
  | .inSharedMemoryLockFree =>
      if app.hasSharedMemory then
        (sharedMemoryLockFreeSettings locator).map (sharedMemoryChain app c)
      else .error (unsupported "Shared memory")
  | .empty => .ok ⟨.emptyChain c.dataType (emptySupportsExtraData locator), .nothing, none⟩

/-- `chains_`. There is no type in it. -/
abbrev Chains (D U W : Type) := Memo.Store Text (Chain D U W)

/-- An action is run on a chain, as if it were the one that was asked for. -/
structure Use (D U W : Type) where
  wanted : Chain D U W
  chain : Chain D U W
  deriving DecidableEq

/-- `getChain` -/
def getChain (chains : Chains D U W) (name : Text) (wanted : Chain D U W) (constructs : Bool) :
    Chains D U W × Option (Chain D U W) :=
  chains.get ⟨name, wanted, constructs⟩

/-- A call, up to where the action is invoked. Nothing is used if an exception is thrown. -/
def Call.perform (app : App D) (chains : Chains D U W) (c : Call D U W) :
    Chains D U W × Option (Use D U W) :=
  match c.resolve with
  | .error _ => (chains, none)
  | .ok (protocol, locator) =>
      match dispatch app c protocol locator with
      | .error _ => (chains, none)
      | .ok wanted =>
          let got := getChain chains (makeSharedChainLocator protocol locator) wanted c.constructs
          (got.1, got.2.map (Use.mk wanted))

/-- What is used in the course of some calls. -/
def uses (app : App D) : Chains D U W → List (Call D U W) → List (Use D U W)
  | _, [] => []
  | chains, c :: cs =>
      (c.perform app chains).2.toList ++ uses app (c.perform app chains).1 cs

/-- Every chain is used as what it was constructed as. -/
def NeverConfused (app : App D) (calls : List (Call D U W)) : Prop :=
  ∀ u ∈ uses app [] calls, u.chain = u.wanted

/-! ## What two calls have in common -/

/-- What a chain depends on, apart from the data type and the hooks. -/
inductive Settings where
  | etcd (configuration : EtcdChainConfiguration)
  | redis (configuration : RedisChainConfiguration)
  | inSharedMemory (x : SharedMemorySettings) (separate : Bool)
  | inMemory
  | empty (supportsExtraData : Bool)
  deriving DecidableEq

/-- A program with one thread uses no locks, whatever the locator says. -/
def sharedMemorySettings (app : App D) (c : Call D U W) (x : SharedMemorySettings) : Settings :=
  .inSharedMemory
    { x with
      extraDataLock := if app.possiblyMultiThreaded then x.extraDataLock else .unsafelyShared
      dataLock := if app.possiblyMultiThreaded then x.dataLock else .none }
    (c.separates app)

/-- What the locator says, and whether the data are kept apart. There is nothing if the
protocol is not supported or a number cannot be read. -/
def settings (app : App D) (c : Call D U W) (locator : Locator) :
    SharedChainProtocol → Option Settings
  | .etcd =>
      if app.hasEtcd then
        (etcdChainConfigurationFromConnectionLocator locator).toOption.map fun conf =>
          .etcd (conf.force c.forceSeparateDataStorage)
      else none
  | .redis =>
      if app.hasRedis then some (.redis (redisChainConfigurationFromConnectionLocator locator))
      else none
  | .inMemoryWithLock | .inMemoryLockFree => some .inMemory
  | .inSharedMemoryWithLock =>
      if app.hasSharedMemory then
        (sharedMemoryWithLockSettings locator).toOption.map (sharedMemorySettings app c)
      else none
  | .inSharedMemoryLockFree =>
      if app.hasSharedMemory then
        (sharedMemoryLockFreeSettings locator).toOption.map (sharedMemorySettings app c)
      else none
  | .empty => some (.empty (emptySupportsExtraData locator))

/-- Two calls that mean the same text ask for the same, if both can be served at all. -/
structure Alike (app : App D) (c c' : Call D U W) (protocol : SharedChainProtocol)
    (locator locator' : Locator) : Prop where
  dataType : c.dataType = c'.dataType
  hooks : protocol.takesHooks = true → c.suppliedHooks = c'.suppliedHooks
  settings : settings app c locator protocol = settings app c' locator' protocol

/-- The same for calls, which may mean different texts or none. -/
def AlikeIfNamedAlike (app : App D) (c c' : Call D U W) : Prop :=
  ∀ protocol locator locator', c.resolve = .ok (protocol, locator) →
    c'.resolve = .ok (protocol, locator') →
    toSerializationFormat locator = toSerializationFormat locator' →
    (settings app c locator protocol).isSome → (settings app c' locator' protocol).isSome →
    Alike app c c' protocol locator locator'

end Dispatch

/-! ## Names -/

theorem str_injective : Function.Injective SharedChainProtocol.str := by
  intro p p' h
  cases p <;> cases p' <;> first | rfl | (revert h; decide)

theorem colon_str (p : SharedChainProtocol) : ∀ c ∈ p.str, c ≠ ':' := by
  have hall : p.str.all (· != ':') = true := by cases p <;> decide
  intro c hc
  simpa using List.all_eq_true.mp hall c hc

/-- The text says which protocol it is, and what comes after. -/
theorem makeSharedChainLocator_eq_iff {p p' : SharedChainProtocol} {l l' : Locator} :
    makeSharedChainLocator p l = makeSharedChainLocator p' l' ↔
      p = p' ∧ toSerializationFormat l = toSerializationFormat l' := by
  constructor
  · intro h
    have before (q : SharedChainProtocol) (m : Locator) :
        (makeSharedChainLocator q m).takeWhile (· ≠ ':') = q.str := by
      unfold makeSharedChainLocator
      rw [List.append_assoc, List.takeWhile_append_of_pos (by simpa using colon_str q)]
      simp
    have hp : p = p' := str_injective (by rw [← before p l, h, before p' l'])
    subst hp
    exact ⟨rfl, List.append_cancel_left h⟩
  · intro ⟨hp, hl⟩
    rw [makeSharedChainLocator, makeSharedChainLocator, hp, hl]

/-! ## What is asked for -/

section Wanted

variable {D U W : Type} {app : App D} {c c' : Call D U W} {p : SharedChainProtocol} {l l' : Locator}

/-- The chain that goes with some settings. -/
def Call.construct (c : Call D U W) : SharedChainProtocol → Settings → Chain D U W
  | _, .etcd conf => ⟨.etcdChain c.dataType, .etcd conf, c.suppliedHooks⟩
  | _, .redis conf => ⟨.redisChain c.dataType, .redis conf, c.suppliedHooks⟩
  | _, .inSharedMemory x separate =>
      { type := .lockFreeInBoostSharedMemoryChain c.dataType x.fastRecover x.extraDataLock
          separate x.dataLock
        configuration := .inSharedMemory x.memoryName x.memorySize x.useNotification
        hooks := c.suppliedHooks }
  | .inMemoryLockFree, .inMemory => ⟨.inMemoryLockFreeChain c.dataType, .nothing, none⟩
  | _, .inMemory => ⟨.inMemoryWithLockChain c.dataType, .nothing, none⟩
  | _, .empty b => ⟨.emptyChain c.dataType b, .nothing, none⟩

/-- `dispatch` reads the settings, and nothing else of the locator. -/
theorem toOption_dispatch :
    (dispatch app c p l).toOption = (settings app c l p).map (c.construct p) := by
  cases p with
  | etcd =>
      by_cases h : app.hasEtcd = true
      · simp only [dispatch, settings, if_pos h]
        cases etcdChainConfigurationFromConnectionLocator l <;> rfl
      · simp only [dispatch, settings, if_neg h]
        rfl
  | redis =>
      by_cases h : app.hasRedis = true
      · simp only [dispatch, settings, if_pos h]
        rfl
      · simp only [dispatch, settings, if_neg h]
        rfl
  | inMemoryWithLock => rfl
  | inMemoryLockFree => rfl
  | inSharedMemoryWithLock =>
      by_cases h : app.hasSharedMemory = true
      · simp only [dispatch, settings, if_pos h]
        cases sharedMemoryWithLockSettings l <;> rfl
      · simp only [dispatch, settings, if_neg h]
        rfl
  | inSharedMemoryLockFree =>
      by_cases h : app.hasSharedMemory = true
      · simp only [dispatch, settings, if_pos h]
        cases sharedMemoryLockFreeSettings l <;> rfl
      · simp only [dispatch, settings, if_neg h]
        rfl
  | empty => rfl

/-- The kind of settings that a protocol has. -/
def Settings.Of : SharedChainProtocol → Settings → Prop
  | .etcd, .etcd _ => True
  | .redis, .redis _ => True
  | .inMemoryWithLock, .inMemory => True
  | .inMemoryLockFree, .inMemory => True
  | .inSharedMemoryWithLock, .inSharedMemory _ _ => True
  | .inSharedMemoryLockFree, .inSharedMemory _ _ => True
  | .empty, .empty _ => True
  | _, _ => False

theorem of_settings {x : Settings} (h : settings app c l p = some x) : x.Of p := by
  cases p <;> simp only [settings, Option.ite_none_right_eq_some, Option.map_eq_some_iff,
    Option.some.injEq] at h
  case etcd => obtain ⟨-, conf, -, rfl⟩ := h; trivial
  case redis => obtain ⟨-, rfl⟩ := h; trivial
  case inSharedMemoryWithLock => obtain ⟨-, y, -, rfl⟩ := h; trivial
  case inSharedMemoryLockFree => obtain ⟨-, y, -, rfl⟩ := h; trivial
  all_goals subst h; trivial

/-- The data type, the hooks and the settings can be told from the chain. -/
theorem construct_eq_iff {x x' : Settings} (hx : x.Of p) (hx' : x'.Of p) :
    c.construct p x = c'.construct p x' ↔
      c.dataType = c'.dataType ∧
        (p.takesHooks = true → c.suppliedHooks = c'.suppliedHooks) ∧ x = x' := by
  cases p <;> cases x <;> cases x' <;> first | exact hx.elim | exact hx'.elim | skip
  case etcd =>
    simp [Call.construct, SharedChainProtocol.takesHooks, and_comm]
  case redis =>
    simp [Call.construct, SharedChainProtocol.takesHooks, and_comm]
  case inMemoryWithLock => simp [Call.construct, SharedChainProtocol.takesHooks]
  case inMemoryLockFree => simp [Call.construct, SharedChainProtocol.takesHooks]
  case empty => simp [Call.construct, SharedChainProtocol.takesHooks]
  case inSharedMemoryWithLock x separate x' separate' =>
    cases x; cases x'
    simp only [Call.construct, SharedChainProtocol.takesHooks]
    grind
  case inSharedMemoryLockFree x separate x' separate' =>
    cases x; cases x'
    simp only [Call.construct, SharedChainProtocol.takesHooks]
    grind

/-- What a call asks the map of chains for, if it gets that far. -/
def Call.request (app : App D) (c : Call D U W) : Option (Memo.Request Text (Chain D U W)) :=
  match c.resolve with
  | .error _ => none
  | .ok (protocol, locator) => (dispatch app c protocol locator).toOption.map fun wanted =>
      ⟨makeSharedChainLocator protocol locator, wanted, c.constructs⟩

theorem request_eq_some_iff {r : Memo.Request Text (Chain D U W)} :
    c.request app = some r ↔ ∃ p l x, c.resolve = .ok (p, l) ∧ settings app c l p = some x ∧
      r = ⟨makeSharedChainLocator p l, c.construct p x, c.constructs⟩ := by
  unfold Call.request
  cases hc : c.resolve with
  | error e => simp
  | ok target =>
      obtain ⟨p, l⟩ := target
      simp only [toOption_dispatch, Option.map_map, Option.map_eq_some_iff, Function.comp_apply,
        Except.ok.injEq, Prod.mk.injEq]
      constructor
      · intro ⟨x, hx, hr⟩
        exact ⟨p, l, x, ⟨rfl, rfl⟩, hx, hr.symm⟩
      · intro ⟨p', l', x, ⟨hp, hl⟩, hx, hr⟩
        subst hp hl
        exact ⟨x, hx, hr.symm⟩

theorem perform_of_request {chains : Chains D U W} {r : Memo.Request Text (Chain D U W)}
    (h : c.request app = some r) :
    c.perform app chains = ((chains.get r).1, (chains.get r).2.map (Use.mk r.wanted)) := by
  unfold Call.request at h
  unfold Call.perform
  cases hc : c.resolve with
  | error e =>
      rw [hc] at h
      cases h
  | ok target =>
      rw [hc] at h
      cases hd : dispatch app c target.1 target.2 with
      | error e =>
          simp only [hd] at h
          cases h
      | ok wanted =>
          simp only [hd] at h
          cases h
          simp only [hd, getChain]

theorem perform_of_no_request {chains : Chains D U W} (h : c.request app = none) :
    c.perform app chains = (chains, none) := by
  unfold Call.request at h
  unfold Call.perform
  cases hc : c.resolve with
  | error e => rfl
  | ok target =>
      rw [hc] at h
      cases hd : dispatch app c target.1 target.2 with
      | error e => simp only [hd]
      | ok wanted =>
          simp only [hd] at h
          cases h

/-- The chains that are used are the objects that the map hands out. -/
theorem mem_uses_iff {u : Use D U W} {calls : List (Call D U W)} {chains : Chains D U W} :
    u ∈ uses app chains calls ↔
      ∃ a ∈ chains.serve (calls.filterMap (Call.request app)),
        a.got = some u.chain ∧ a.request.wanted = u.wanted := by
  induction calls generalizing chains with
  | nil => simp [uses, Memo.Store.serve]
  | cons c cs ih =>
      rw [uses, List.mem_append, ih]
      cases h : c.request app with
      | none =>
          rw [perform_of_no_request h, List.filterMap_cons_none h]
          simp
      | some r =>
          rw [perform_of_request h, List.filterMap_cons_some h, Memo.Store.serve,
            List.exists_mem_cons_iff]
          refine or_congr ?_ Iff.rfl
          obtain ⟨wanted, chain⟩ := u
          cases (chains.get r).2 with
          | none => simp
          | some b => simp [and_comm, eq_comm]

theorem alike_iff {x x' : Settings} (hx : settings app c l p = some x)
    (hx' : settings app c' l' p = some x') :
    c.construct p x = c'.construct p x' ↔ Alike app c c' p l l' := by
  rw [construct_eq_iff (of_settings hx) (of_settings hx')]
  constructor
  · intro ⟨h1, h2, h3⟩
    exact ⟨h1, h2, by rw [hx, hx', h3]⟩
  · intro h
    refine ⟨h.dataType, h.hooks, ?_⟩
    have h1 := h.settings
    rw [hx, hx'] at h1
    exact Option.some.inj h1

/-- Calls with the same name ask for the same. -/
theorem alikeIfNamedAlike_iff : AlikeIfNamedAlike app c c' ↔
    ∀ r, c.request app = some r → ∀ r', c'.request app = some r' →
      r.key = r'.key → r.wanted = r'.wanted := by
  constructor
  · intro h r hr r' hr' hk
    obtain ⟨p, l, x, hc, hx, rfl⟩ := request_eq_some_iff.mp hr
    obtain ⟨p', l', x', hc', hx', rfl⟩ := request_eq_some_iff.mp hr'
    obtain ⟨hp, hl⟩ := makeSharedChainLocator_eq_iff.mp hk
    subst hp
    refine (alike_iff hx hx').mpr (h p l l' hc hc' hl ?_ ?_)
    · rw [hx]; rfl
    · rw [hx']; rfl
  · intro h p l l' hc hc' hl hx hx'
    obtain ⟨x, hx⟩ := Option.isSome_iff_exists.mp hx
    obtain ⟨x', hx'⟩ := Option.isSome_iff_exists.mp hx'
    refine (alike_iff hx hx').mp ?_
    exact h _ (request_eq_some_iff.mpr ⟨p, l, x, hc, hx, rfl⟩) _
      (request_eq_some_iff.mpr ⟨p, l', x', hc', hx', rfl⟩)
      (makeSharedChainLocator_eq_iff.mpr ⟨rfl, hl⟩)

end Wanted

/-- **Every chain is used as what it was constructed as**, in a sequence of calls, exactly
if the calls that mean the same text ask for the same: for the same data type, with the
same hooks and the same settings. A call whose constructor would throw does not count as
the earlier one. -/
theorem neverConfused_iff {D U W : Type} (app : App D) (calls : List (Call D U W)) :
    NeverConfused app calls ↔
      calls.Pairwise fun c c' => c.constructs = true → AlikeIfNamedAlike app c c' := by
  have h1 : NeverConfused app calls ↔
      ∀ a ∈ Memo.Store.serve [] (calls.filterMap (Call.request app)), a.Suited := by
    constructor
    · intro h a ha b hb
      exact h ⟨a.request.wanted, b⟩ (mem_uses_iff.mpr ⟨a, ha, hb, rfl⟩)
    · intro h u hu
      obtain ⟨a, ha, hg, hw⟩ := mem_uses_iff.mp hu
      rw [h a ha _ hg, hw]
  rw [h1, Memo.all_suited_iff, List.pairwise_filterMap]
  refine iff_of_eq (congrArg (List.Pairwise · calls) ?_)
  funext c c'
  rw [alikeIfNamedAlike_iff, eq_iff_iff]
  constructor
  · intro h hm r hr r' hr'
    refine h r hr r' hr' ?_
    obtain ⟨p, l, x, -, -, rfl⟩ := request_eq_some_iff.mp hr
    exact hm
  · intro h r hr r' hr' hm
    refine h ?_ r hr r' hr'
    obtain ⟨p, l, x, -, -, rfl⟩ := request_eq_some_iff.mp hr
    exact hm

/-! ## Calls that are not confused, and calls that are -/

/-- A locator that reads back can be told from its text. -/
theorem eq_of_sameText {l l' : Locator} (h : RoundTrips l) (h' : RoundTrips l')
    (ht : toSerializationFormat l = toSerializationFormat l') : l = l' := by
  have h1 := h.format
  rw [ht, h'.format] at h1
  exact (Except.ok.inj h1).symm

/-- With locators that read back, it is enough that the callers agree. -/
theorem neverConfused_of_agree {D U W : Type} {app : App D} {calls : List (Call D U W)}
    (hl : ∀ c ∈ calls, ∀ p l, c.resolve = .ok (p, l) → RoundTrips l)
    (h : ∀ c ∈ calls, ∀ c' ∈ calls, c.resolve = c'.resolve → c.dataType = c'.dataType ∧
      c.suppliedHooks = c'.suppliedHooks ∧
      c.forceSeparateDataStorage = c'.forceSeparateDataStorage) :
    NeverConfused app calls := by
  rw [neverConfused_iff]
  refine List.pairwise_of_forall_mem_list fun c hc c' hc' _ p l l' hr hr' ht _ _ => ?_
  have hll : l = l' := eq_of_sameText (hl c hc p l hr) (hl c' hc' p l' hr') ht
  subst hll
  obtain ⟨h1, h2, h3⟩ := h c hc c' hc' (hr.trans hr'.symm)
  refine ⟨h1, fun _ => h2, ?_⟩
  -- The data type and the flag are all that the settings take from the caller.
  have hs : sharedMemorySettings app c = sharedMemorySettings app c' := by
    funext x
    simp only [sharedMemorySettings, Call.separates, h1, h3]
  cases p <;> simp only [settings, h3, hs]

/-- A program that has everything, and no hook factories. -/
def exampleApp : App Nat := ⟨true, true, true, true, fun _ => false, fun _ => false⟩

/-- A reader is made. Data types and hooks are numbers here. -/
def readerCall (locatorStr : String) (dataType : Nat)
    (hookPair : Option (ByteDataHookPair Nat Nat)) : Call Nat Nat Nat where
  entryPoint := .reader
  env := ⟨fun _ => none, fun _ => none⟩
  target := .text locatorStr.toList
  dataType := dataType
  hookPair := hookPair
  forceSeparateDataStorage := false
  constructs := true

/-- The second reader gets the chain of the first one, with another data type in the one
case and without its hooks in the other. -/
theorem not_neverConfused_sameText :
    ¬ NeverConfused exampleApp [readerCall "in_memory_with_lock://::::x" 0 none,
        readerCall "in_memory_with_lock://::::x" 1 none] ∧
      ¬ NeverConfused exampleApp [readerCall "redis://h:6379:::x" 0 none,
        readerCall "redis://h:6379:::x" 0 (some ⟨some 1, some 1⟩)] := by
  unfold NeverConfused
  decide +kernel

/-- The two locators are written down in the same way, but only one has a head key. -/
theorem not_neverConfused_brackets :
    ¬ NeverConfused exampleApp [readerCall "redis://h:6379:::x[headKey=k]" 0 none,
      readerCall "redis://h:6379:::x[headKey=k][]" 0 none] := by
  unfold NeverConfused
  decide +kernel

end SharedChains
