import TMTransport.RedisChain.Model

/-!
# Clients of one redis chain

Any number of calls, by clients in any of the languages, against one redis. The
ghost history remembers the appends whose script has written, in the order in which
redis ran them, which calls have changed the store, and how many appends there had
been when a call sent its first command.
-/

namespace RedisChain

open Interleave Redis

inductive Lang where
  | typeScript
  | python
  deriving DecidableEq

/-- The calls that clients make. -/
inductive Req (T : Type) where
  | head
  | fetchNext (current : ChainItem T)
  | appendAfter (current : ChainItem T) (itemID : String) (itemData : T)
  | appendAfterBatch (current : ChainItem T) (itemDatas : List (String × T))
  | dotNetHead (defaultData : T)
  | dotNetFetchNext (current : ChainItem T)
  | dotNetAppendAfter (current : ChainItem T) (itemID : String) (itemData : T)
  | start (lang : Lang) (defaultData : T)
  | next (lang : Lang) (current : ChainItem T)
  | tryAppend (lang : Lang) (current : ChainItem T) (newID : String) (newData : T)

/-- What they return. `appended` carries the new `current` of a client that keeps one. -/
inductive Reply (T : Type) where
  | item (it : Option (ChainItem T))
  | next (it : Option (ChainItem T))
  | appended (ok : Bool) (current : Option (ChainItem T))

/-- What a call is for, whichever client makes it. -/
inductive Kind (T : Type) where
  | head
  | next (current : ChainItem T)
  | append (current : ChainItem T) (items : List (String × T))

variable {T : Type}

def Req.kind : Req T → Kind T
  | .head => .head
  | .fetchNext cur => .next cur
  | .appendAfter cur id d => .append cur [(id, d)]
  | .appendAfterBatch cur l => .append cur l
  | .dotNetHead _ => .head
  | .dotNetFetchNext cur => .next cur
  | .dotNetAppendAfter cur id d => .append cur [(id, d)]
  | .start _ _ => .head
  | .next _ cur => .next cur
  | .tryAppend _ cur id d => .append cur [(id, d)]

/-- Does the C++ client make the call? -/
def Req.isCpp : Req T → Bool
  | .head => true
  | .fetchNext _ => true
  | .appendAfter _ _ _ => true
  | .appendAfterBatch _ _ => true
  | _ => false

/-- The item that a call is handed. -/
def Req.current (c : Req T) : Option (ChainItem T) :=
  match c.kind with
  | .head => none
  | .next cur => some cur
  | .append cur _ => some cur

/-- What an append appends, and after which item. -/
def Req.appends (c : Req T) : Option (ChainItem T × List (String × T)) :=
  match c.kind with
  | .append cur items => some (cur, items)
  | _ => none

/-- The item that a call came back with. -/
def Reply.current : Reply T → Option (ChainItem T)
  | .item it => it
  | .next it => it
  | .appended _ it => it

/-- The results of the calls that ended. -/
abbrev History (T : Type) := List (Nat × Req T × Except String (Reply T))

/-- The call has appended the item `it`, as its caller formed it. -/
def Wrote (e : Nat × Req T × Except String (Reply T)) (it : ChainItem T) : Prop :=
  ∃ o cur items, e.2.2 = .ok (.appended true o) ∧ e.2.1.kind = .append cur items ∧
    ∃ x ∈ items, it = formChainItem x.1 x.2

/-- Some client has the item `it`: a call returned it, had come as far as it, or wrote it. -/
def Held (h : History T) (it : ChainItem T) : Prop :=
  ∃ e ∈ h, e.2.1.current = some it ∨ (∃ r, e.2.2 = .ok r ∧ r.current = some it) ∨ Wrote e it

/-- An append whose script has written. -/
structure Commit (T : Type) where
  call : Nat
  tail : String
  items : List (String × T)

structure Ghost (T : Type) where
  /-- The appends that went through, oldest first. -/
  log : List (Commit T) := []
  /-- The calls that changed the store. -/
  touched : Nat → Prop := fun _ => False
  /-- The length of the log at the first command of a call. -/
  first : Nat → Option Nat := fun _ => none

/-- The list that the appends add up to. -/
def appended (log : List (Commit T)) : List (String × T) := log.flatMap Commit.items

/-- The ids on the chain, the head's first. -/
def ids (cfg : Config) (log : List (Commit T)) : List String :=
  cfg.headKey :: (appended log).map Prod.fst

/-- What a command adds to the log. -/
def logOf (n : Nat) (c : Req T) : (o : Op) → o.Res → List (Commit T)
  | .eval _ _ _, r =>
    match (r : Redis.Reply), c.appends with
    | .integer m, some (cur, items) => if m ≠ 0 then [⟨n, cur.id, items⟩] else []
    | _, _ => []
  | _, _ => []

def note (n : Nat) (c : Req T) (o : Op) (r : o.Res) (s s' : Store) (g : Ghost T) : Ghost T where
  log := g.log ++ logOf n c o r
  touched := fun m => g.touched m ∨ (m = n ∧ s' ≠ s)
  first := fun m => if m = n ∧ g.first m = none then some g.log.length else g.first m

variable [Inhabited T]

def body (cfg : Config) (cd : DataCodec T) : Req T → Call (Req T ⊕ Reply T)
  | .head => do
    let it ← head cfg
    return .inr (.item (some it))
  | .fetchNext cur => do
    let it ← fetchNext cfg cd cur
    return .inr (.next it)
  | .appendAfter cur id d => do
    let ok ← appendAfter cfg cd cur (formChainItem id d)
    return .inr (.appended ok none)
  | .appendAfterBatch cur l => do
    let ok ← appendAfterBatch cfg cd cur (formChainItems l)
    return .inr (.appended ok none)
  | .dotNetHead d => do
    let it ← DotNet.head cfg d
    return .inr (.item it)
  | .dotNetFetchNext cur => do
    let it ← DotNet.fetchNext cfg cd cur
    return .inr (.next it)
  | .dotNetAppendAfter cur id d => do
    let ok ← DotNet.appendAfter cfg cd cur ⟨id, some d, ""⟩
    return .inr (.appended ok none)
  | .start _ d => do
    let it ← Script.start cfg d
    return .inr (.item it)
  | .next _ cur => do
    let it ← Script.next cfg cd cur
    return .inr (.next it)
  | .tryAppend lang cur id d => do
    match ← Script.tryAppend cfg cd cur id d with
    | .inl it => return .inl (.tryAppend lang it id d)
    | .inr (ok, it) => return .inr (.appended ok (some it))

/-- The system in which clients make the calls that `may` lets them make. -/
def system (cfg : Config) (cd : DataCodec T) (may : History T → Req T → Prop) :
    System Op Op.Res Store (Ghost T) (Req T) String (Reply T) where
  step := step
  note := note
  body := body cfg cd
  env := fun _ _ => False
  may := may

/-- The worlds that the calls can lead to, within the guard `G`. -/
abbrev Runs (cfg : Config) (cd : DataCodec T) (may : History T → Req T → Prop)
    (G : Guard Op Store (Ghost T) (Req T)) :=
  Reachable (system cfg cd may) G (fun _ => none, {})

end RedisChain
