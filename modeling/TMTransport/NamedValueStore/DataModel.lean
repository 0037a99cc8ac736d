import TMTransport.Library.ChangeLog

/-!
# Named value stores

The updates of the transaction data model, for a store of named values. An item says
what the whole collection is, or what has changed.
-/

namespace NamedValueStore

open ChangeLog

variable {κ α : Type}

/-- `Collection`. What it iterates over: no key is there twice. -/
structure Collection (κ α : Type) where
  entries : List (κ × α)
  nodup : (entries.map Prod.fst).Nodup

/-- `CollectionDelta` -/
structure CollectionDelta (κ α : Type) where
  deletes : List κ := []
  insertsUpdates : List (κ × α) := []

/-- `OneUpdateItem`. A full item without data is about the empty collection. -/
inductive OneUpdateItem (κ α : Type) where
  | full (version : Nat) (data : Option (Collection κ α))
  | delta (version : Nat) (delta : CollectionDelta κ α)

/-- `Update` -/
structure Update (κ α : Type) where
  version : Nat
  data : List (OneUpdateItem κ α)

def Collection.empty : Collection κ α := ⟨[], List.nodup_nil⟩

/-- The deletions come first. -/
def CollectionDelta.entries (d : CollectionDelta κ α) : List (Entry κ α) :=
  d.deletes.map (fun key => ⟨key, none⟩) ++ puts d.insertsUpdates

variable [DecidableEq κ]

/-- What a key is mapped to. -/
def Collection.get (c : Collection κ α) : κ → Option α := replay (fun _ => none) (puts c.entries)

/-- The collection that an item leaves. -/
def OneUpdateItem.apply (m : κ → Option α) : OneUpdateItem κ α → κ → Option α
  | .full _ data => (data.getD .empty).get
  | .delta _ d => replay m d.entries

def Update.apply (m : κ → Option α) (u : Update κ α) : κ → Option α :=
  u.data.foldl OneUpdateItem.apply m

/-- The collection that updates describe, the first of which comes first. -/
def described (us : List (Update κ α)) : κ → Option α := us.foldl Update.apply fun _ => none

end NamedValueStore
