import TMTransport.EtcdChain.Script
import TMTransport.EtcdChain.DotNet

/-!
# Clients of one etcd chain

Any number of calls, by clients in any of the languages, against one etcd and one
redis. A call that takes an item takes one that some earlier call came by.

The ghost history remembers the appends whose transaction went through, in the
order in which etcd committed them, and which calls changed a key of etcd.
-/

namespace EtcdChain

open Etcd Interleave

/-- The calls that clients make. `chain` is the client object. -/
inductive Req (T : Type) where
  | head (chain : Nat)
  | loadUntil (chain : Nat) (id : String)
  | fetchNext (chain : Nat) (current : ChainItem T)
  | appendAfter (chain : Nat) (current : ChainItem T) (itemID : String) (itemData : T)
  | appendAfterBatch (chain : Nat) (current : ChainItem T) (itemDatas : List (String × T))
  | start (lang : Lang) (chain : Nat) (defaultData : T)
  | tryLoadUntil (lang : Lang) (chain : Nat) (id : String)
  | next (lang : Lang) (chain : Nat) (current : ChainItem T)
  | tryAppend (lang : Lang) (chain : Nat) (current : ChainItem T) (newID : String) (newData : T)
  | dotNetHead (chain : Nat) (defaultData : T)
  | dotNetLoadUntil (chain : Nat) (id : String) (defaultData : T)
  | dotNetFetchNext (chain : Nat) (current : ChainItem T)
  | dotNetAppendAfter (chain : Nat) (current : ChainItem T) (itemID : String) (itemData : T)

/-- What they return. `appended` carries the new `current` of a client that keeps one. -/
inductive Reply (T : Type) where
  | item (it : ChainItem T)
  | loaded (it : Option (ChainItem T))
  | next (it : Option (ChainItem T))
  | appended (ok : Bool) (current : Option (ChainItem T))

/-- What a call is for, whichever client makes it. -/
inductive Kind (T : Type) where
  | head
  | load (id : String)
  | next (current : ChainItem T)
  | append (current : ChainItem T) (items : List (String × T))

variable {T : Type}

/-- The client object a call is made on. -/
def Req.chain : Req T → Nat
  | .head c => c
  | .loadUntil c _ => c
  | .fetchNext c _ => c
  | .appendAfter c _ _ _ => c
  | .appendAfterBatch c _ _ => c
  | .start _ c _ => c
  | .tryLoadUntil _ c _ => c
  | .next _ c _ => c
  | .tryAppend _ c _ _ _ => c
  | .dotNetHead c _ => c
  | .dotNetLoadUntil c _ _ => c
  | .dotNetFetchNext c _ => c
  | .dotNetAppendAfter c _ _ _ => c

def Req.kind : Req T → Kind T
  | .head _ => .head
  | .loadUntil _ id => if id = "" then .head else .load id
  | .fetchNext _ cur => .next cur
  | .appendAfter _ cur id d => .append cur [(id, d)]
  | .appendAfterBatch _ cur l => .append cur l
  | .start _ _ _ => .head
  | .tryLoadUntil _ _ id => .load id
  | .next _ _ cur => .next cur
  | .tryAppend _ _ cur id d => .append cur [(id, d)]
  | .dotNetHead _ _ => .head
  | .dotNetLoadUntil _ id _ => if id = "" then .head else .load id
  | .dotNetFetchNext _ cur => .next cur
  | .dotNetAppendAfter _ cur id d => .append cur [(id, d)]

/-- Does the C++ client make the call? -/
def Req.isCpp : Req T → Bool
  | .head _ => true
  | .loadUntil _ _ => true
  | .fetchNext _ _ => true
  | .appendAfter _ _ _ _ => true
  | .appendAfterBatch _ _ _ => true
  | _ => false

/-- The item that a call of some kind is handed. -/
def Kind.current : Kind T → Option (ChainItem T)
  | .head => none
  | .load _ => none
  | .next cur => some cur
  | .append cur _ => some cur

/-- The item that a call is handed. -/
abbrev Req.current (c : Req T) : Option (ChainItem T) := c.kind.current

/-- What an append appends, and after which item. -/
def Req.appends (c : Req T) : Option (ChainItem T × List (String × T)) :=
  match c.kind with
  | .append cur items => some (cur, items)
  | _ => none

/-- The item that a call came back with. -/
def Reply.current : Reply T → Option (ChainItem T)
  | .item it => some it
  | .loaded it => it
  | .next it => it
  | .appended _ it => it

/-- The results of the calls that ended. -/
abbrev History (T : Type) := List (Nat × Req T × Except String (Reply T))

/-- Some client has the item `it`: a call returned it, or had come as far as it. -/
def Held (h : History T) (it : ChainItem T) : Prop :=
  ∃ e ∈ h, e.2.1.current = some it ∨ ∃ r, e.2.2 = .ok r ∧ r.current = some it

/-- An append whose transaction etcd committed. -/
structure Commit (T : Type) where
  call : Nat
  chain : Nat
  tail : String
  items : List (String × T)
  revision : Nat

structure Ghost (T : Type) where
  /-- The committed appends, oldest first. -/
  log : List (Commit T) := []
  /-- The calls that changed a key of etcd. -/
  touched : Nat → Prop := fun _ => False

/-- The list that the committed appends add up to. -/
def appended (log : List (Commit T)) : List (String × T) := log.flatMap Commit.items

/-- What an operation adds to the log. Transactions that put nothing only read. -/
def logOf (n : Nat) (c : Req T) : (o : Op) → o.Res → State → List (Commit T)
  | .txn t, r, s' =>
    match (r : Option TxnResponse), c.appends with
    | some resp, some (cur, items) =>
      if resp.succeeded && !(putKeys t.success).isEmpty then
        [⟨n, c.chain, cur.id, items, s'.etcd.revision⟩]
      else []
    | _, _ => []
  | _, _, _ => []

def note (n : Nat) (c : Req T) (o : Op) (r : o.Res) (s s' : State) (g : Ghost T) : Ghost T where
  log := g.log ++ logOf n c o r s'
  touched := fun m => g.touched m ∨ (m = n ∧ s'.etcd.kvs ≠ s.etcd.kvs)

variable [Inhabited T]

def body (cfg : Config) (opts : Nat → Options) (cd : Codecs T) :
    Req T → Call (Req T ⊕ Reply T)
  | .head c => do
    let it ← head cfg (opts c) cd
    return .inr (.item it)
  | .loadUntil c id => do
    let it ← loadUntil cfg (opts c) cd id
    return .inr (.item it)
  | .fetchNext c cur => do
    let it ← fetchNext cfg (opts c) cd c cur
    return .inr (.next it)
  | .appendAfter c cur id d => do
    let ok ← appendAfter cfg (opts c) cd c cur (formChainItem id d)
    return .inr (.appended ok none)
  | .appendAfterBatch c cur l => do
    let ok ← appendAfterBatch cfg (opts c) cd c cur (formChainItems l)
    return .inr (.appended ok none)
  | .start lang c d => do
    let it ← Script.start lang cfg (opts c) cd d
    return .inr (.item it)
  | .tryLoadUntil lang c id => do
    let it ← Script.tryLoadUntil lang cfg (opts c) cd id
    return .inr (.loaded it)
  | .next lang c cur => do
    let it ← Script.next lang cfg (opts c) cd cur
    return .inr (.next it)
  | .tryAppend lang c cur id d => do
    match ← Script.tryAppend lang cfg (opts c) cd cur id d with
    | .inl it => return .inl (.tryAppend lang c it id d)
    | .inr (ok, it) => return .inr (.appended ok (some it))
  | .dotNetHead c d => do
    let it ← DotNet.head cfg (opts c) cd d
    return .inr (.item it)
  | .dotNetLoadUntil c id d => do
    let it ← DotNet.loadUntil cfg (opts c) cd id d
    return .inr (.item it)
  | .dotNetFetchNext c cur => do
    let it ← DotNet.fetchNext cfg (opts c) cd cur
    return .inr (.next it)
  | .dotNetAppendAfter c cur id d => do
    let ok ← DotNet.appendAfter cfg (opts c) cd cur ⟨0, id, some d, ""⟩
    return .inr (.appended ok none)

/-- The system in which clients make the calls in `calls`. -/
def system (cfg : Config) (opts : Nat → Options) (cd : Codecs T) (calls : Req T → Prop) :
    System Op Op.Res State (Ghost T) (Req T) String (Reply T) where
  step := State.step cfg
  note := note
  body := body cfg opts cd
  env := Env opts
  may := fun h c => calls c ∧ ∀ cur, c.current = some cur → Held h cur

/-- The worlds that the calls in `calls` can lead to, within the guard `G`. -/
abbrev Runs (cfg : Config) (opts : Nat → Options) (cd : Codecs T) (calls : Req T → Prop)
    (G : Guard Op State (Ghost T) (Req T)) :=
  Reachable (system cfg opts cd calls) G (State.init, {})

end EtcdChain
