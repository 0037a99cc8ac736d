import TMTransport.NamedValueStore.DataStream

/-!
# `THComponent`, the updates

An update of a named value store goes to etcd as one transaction, with the deletions
before the puts. Etcd carries out a transaction as a whole, or rejects it as a whole if
a key is put twice in it, or deleted and put. The component does not look at the
answer: it says that the update has succeeded in either case.
-/

namespace NamedValueStore

open ChangeLog EtcdEvents

inductive RequestDecision where
  | success
  | failureConsistency
  deriving DecidableEq

/-- `TI::TransactionResponse` -/
structure TransactionResponse where
  globalVersion : Nat
  requestDecision : RequestDecision

variable {α : Type}

section HandleUpdate

-- Which transactions etcd accepts, and how data is written.
variable (accepts : List (Change Text Text) → Bool) (serialize : α → Text) (cfg : Config α)

/-- The operations of the transaction. -/
def requestOps (dataDelta : CollectionDelta Text α) : List (Change Text Text) :=
  dataDelta.deletes.map (fun delKey => .delete (cfg.keyOf delKey)) ++
    dataDelta.insertsUpdates.map fun insUpd => .put (cfg.keyOf insUpd.1) (serialize insUpd.2)

/-- The `Txn` call. A transaction that is rejected leaves the response as it was made. -/
def txn (s : Store Text Text) (cs : List (Change Text Text)) : Nat × Store Text Text :=
  if accepts cs then
    let s' := s.extend (eventsOf (s.revision + 1) s.kvs cs)
    (s'.revision, s')
  else (0, s)

def handleUpdate (s : Store Text Text) (dataDelta : CollectionDelta Text α) :
    TransactionResponse × Store Text Text :=
  let r := txn accepts s (requestOps serialize cfg dataDelta)
  (⟨r.1, .success⟩, r.2)

/-- The deletions, and then the inserts and updates in their order. -/
def entriesOf (dataDelta : CollectionDelta Text α) : List (Entry Text Text) :=
  dataDelta.entries.map fun e => ⟨cfg.keyOf e.key, e.value.map serialize⟩

structure Truthful (s : Store Text Text) (dataDelta : CollectionDelta Text α) : Prop where
  success : (handleUpdate accepts serialize cfg s dataDelta).1.requestDecision = .success ↔
    valuesOf (handleUpdate accepts serialize cfg s dataDelta).2.kvs =
      replay (valuesOf s.kvs) (entriesOf serialize cfg dataDelta)
  failure : (handleUpdate accepts serialize cfg s dataDelta).1.requestDecision ≠ .success →
    (handleUpdate accepts serialize cfg s dataDelta).2 = s

end HandleUpdate

variable {accepts : List (Change Text Text) → Bool} {serialize : α → Text} {cfg : Config α}
  {s : Store Text Text} {dataDelta : CollectionDelta Text α}

theorem entriesOf_eq : entriesOf serialize cfg dataDelta =
    (requestOps serialize cfg dataDelta).map Change.entry := by
  simp only [entriesOf, CollectionDelta.entries, requestOps, puts, List.map_append, List.map_map]
  rfl

theorem acceptable_puts (serialize : α → Text) (cfg : Config α) (l : List (Text × α)) :
    Acceptable (l.map fun x => Change.put (cfg.keyOf x.1) (serialize x.2)) ↔
      (l.map Prod.fst).Nodup := by
  induction l with
  | nil => exact iff_of_true trivial List.nodup_nil
  | cons x l ih =>
      have hkeys : (l.map fun x => Change.put (cfg.keyOf x.1) (serialize x.2)).map Change.key =
          (l.map Prod.fst).map cfg.keyOf := by
        rw [List.map_map, List.map_map]
        rfl
      rw [List.map_cons, Acceptable, ih, hkeys, List.mem_map_of_injective (keyOf_injective cfg),
        List.map_cons, List.nodup_cons]

theorem putKeys_puts (l : List (Text × α)) :
    putKeys (l.map fun x => Change.put (cfg.keyOf x.1) (serialize x.2)) =
      (l.map Prod.fst).map cfg.keyOf := by
  induction l with
  | nil => rfl
  | cons x l ih => exact congrArg (List.cons _) ih

theorem putKeys_deletes_append (l : List Text) (cs : List (Change Text Text)) :
    putKeys (l.map (fun key => .delete (cfg.keyOf key)) ++ cs) = putKeys cs := by
  induction l with
  | nil => rfl
  | cons key l ih => exact ih

/-- What etcd's own rule says of an update. -/
theorem acceptable_requestOps : Acceptable (requestOps serialize cfg dataDelta) ↔
    (dataDelta.insertsUpdates.map Prod.fst).Nodup ∧
      ∀ key ∈ dataDelta.deletes, key ∉ dataDelta.insertsUpdates.map Prod.fst := by
  rw [requestOps, ← acceptable_puts serialize cfg]
  induction dataDelta.deletes with
  | nil => exact (and_iff_left fun _ h => nomatch h).symm
  | cons key l ih =>
      rw [List.map_cons, List.cons_append, Acceptable, putKeys_deletes_append, putKeys_puts,
        List.mem_map_of_injective (keyOf_injective cfg), ih, List.forall_mem_cons]
      exact and_left_comm

/--
**What an update says of itself.** Whatever transactions etcd accepts: the answer is right if and
only if etcd accepts this one, or the update would make no difference.
-/
theorem truthful_iff (accepts : List (Change Text Text) → Bool) (serialize : α → Text)
    (cfg : Config α) (s : Store Text Text) (dataDelta : CollectionDelta Text α) :
    Truthful accepts serialize cfg s dataDelta ↔
      accepts (requestOps serialize cfg dataDelta) = true ∨
        replay (valuesOf s.kvs) (entriesOf serialize cfg dataDelta) = valuesOf s.kvs := by
  have hsuccess :
      (handleUpdate accepts serialize cfg s dataDelta).1.requestDecision = .success := rfl
  have hiff : Truthful accepts serialize cfg s dataDelta ↔
      valuesOf (handleUpdate accepts serialize cfg s dataDelta).2.kvs =
        replay (valuesOf s.kvs) (entriesOf serialize cfg dataDelta) := by
    refine ⟨fun h => h.success.mp hsuccess, fun h => ⟨iff_of_true hsuccess h, fun hn => ?_⟩⟩
    exact absurd hsuccess hn
  rw [hiff, handleUpdate, txn]
  by_cases h : accepts (requestOps serialize cfg dataDelta) = true
  · rw [if_pos h, entriesOf_eq]
    exact iff_of_true (valuesOf_eventsOf _ _ _) (.inl h)
  · rw [if_neg h, eq_comm]
    exact (or_iff_right h).symm

/-- A store where data is text, and is written as it is. -/
def textStore : Config Text where
  storagePrefix := ['s']
  parse := some

/-- Two updates of one name, in one request. -/
theorem not_truthful_twice : ¬ ∀ s dataDelta,
    Truthful (fun cs => decide (Acceptable cs)) id textStore s dataDelta := by
  intro h
  have hs := (h .empty ⟨[], [(['n'], ['1']), (['n'], ['2'])]⟩).success.mp rfl
  have := congrFun hs (textStore.keyOf ['n'])
  revert this
  decide

end NamedValueStore
