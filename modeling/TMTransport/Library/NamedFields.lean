import Mathlib.Data.List.AList

/-!
# Values with named fields

What implementations of a format such as CBOR or JSON agree on: numbers, texts, arrays, and maps
from names, in which the order does not matter. A reader looks a field up by its name.
-/

namespace NamedFields

inductive Item where
  | int (n : Int)
  | text (s : String)
  | array (items : List Item)
  | map (fields : List (String × Item))

/-- A map from names. -/
abbrev StringMap (α : Type) := AList fun _ : String => α

variable {α β : Type}

/-- The field of the name. -/
def field (name : String) (read : Item → Option α) : Item → Option α
  | .map fields => (fields.lookup name).bind read
  | _ => none

def readInt : Item → Option Int
  | .int n => some n
  | _ => none

def readText : Item → Option String
  | .text s => some s
  | _ => none

def readArray (read : Item → Option α) : Item → Option (List α)
  | .array items => items.mapM read
  | _ => none

def readEntries (read : Item → Option α) : List (String × Item) → Option (StringMap α)
  | [] => some ∅
  | (name, x) :: rest =>
    (readEntries read rest).bind fun m => (read x).map fun a => m.insert name a

def readMap (read : Item → Option α) : Item → Option (StringMap α)
  | .map fields => readEntries read fields
  | _ => none

/-- A map, its entries written one by one. -/
def ofMap (write : α → Item) (m : StringMap α) : Item :=
  .map (m.entries.map fun e => (e.1, write e.2))

theorem readArray_text (ss : List String) :
    readArray readText (.array (ss.map .text)) = some ss := by
  induction ss with
  | nil => rfl
  | cons s ss ih =>
      have hrest : (ss.map Item.text).mapM readText = some ss := ih
      show ((s :: ss).map Item.text).mapM readText = _
      rw [List.map_cons, List.mapM_cons, hrest]
      rfl

section Maps

variable {read : Item → Option β} {write : α → Item}

/-- What is read from entries, by name. -/
theorem lookup_readEntries {l : List (Sigma fun _ : String => α)} {m : StringMap β}
    (h : readEntries read (l.map fun e => (e.1, write e.2)) = some m) (name : String) :
    m.lookup name = (l.dlookup name).bind fun a => read (write a) := by
  induction l generalizing m with
  | nil =>
      obtain rfl := Option.some.inj h
      rfl
  | cons e l ih =>
      obtain ⟨rest, hrest, h⟩ := Option.bind_eq_some_iff.mp h
      obtain ⟨a, ha, rfl⟩ := Option.map_eq_some_iff.mp h
      by_cases heq : name = e.1
      · subst heq
        rw [AList.lookup_insert, List.dlookup_cons_eq]
        exact ha.symm
      · rw [AList.lookup_insert_ne heq, ih hrest, List.dlookup_cons_ne _ _ heq]

theorem isSome_readEntries_iff (l : List (Sigma fun _ : String => α)) :
    (readEntries read (l.map fun e => (e.1, write e.2))).isSome ↔
      ∀ e ∈ l, (read (write e.2)).isSome := by
  induction l with
  | nil => exact iff_of_true rfl fun _ h => (List.not_mem_nil h).elim
  | cons e l ih =>
      rw [List.forall_mem_cons, ← ih, List.map_cons, readEntries]
      cases readEntries read (l.map fun e => (e.1, write e.2)) with
      | none => exact iff_of_false Bool.false_ne_true fun h => Bool.false_ne_true h.2
      | some m =>
          rw [Option.bind_some, Option.isSome_map]
          exact (and_iff_left rfl).symm

/-- A map is read if all that it holds is. -/
theorem isSome_readMap_iff (read : Item → Option β) (write : α → Item) (m : StringMap α) :
    (readMap read (ofMap write m)).isSome ↔
      ∀ name a, m.lookup name = some a → (read (write a)).isSome := by
  refine (isSome_readEntries_iff m.entries).trans ⟨fun h name a ha => ?_, fun h e he => ?_⟩
  · exact h ⟨name, a⟩ (AList.mem_lookup_iff.mp ha)
  · exact h e.1 e.2 (AList.mem_lookup_iff.mpr he)

theorem lookup_readMap {m : StringMap α} {m' : StringMap β}
    (h : readMap read (ofMap write m) = some m') (name : String) :
    m'.lookup name = (m.lookup name).bind fun a => read (write a) :=
  lookup_readEntries h name

/-- A map of which each value reads back as what a function makes of it. -/
theorem exists_readMap (read : Item → Option β) (write : α → Item) {g : α → β}
    (h : ∀ a, read (write a) = some (g a)) (m : StringMap α) :
    ∃ m', readMap read (ofMap write m) = some m' ∧
      ∀ name, m'.lookup name = (m.lookup name).map g := by
  have hsome : (readMap read (ofMap write m)).isSome := by
    refine (isSome_readMap_iff read write m).mpr fun name a _ => ?_
    rw [h a]
    rfl
  obtain ⟨m', hm'⟩ := Option.isSome_iff_exists.mp hsome
  refine ⟨m', hm', fun name => ?_⟩
  rw [lookup_readMap hm']
  cases m.lookup name with
  | none => rfl
  | some a => exact h a

/-- A map of which each value reads back as it is. -/
theorem exists_readMap_self (read : Item → Option α) (write : α → Item)
    (h : ∀ a, read (write a) = some a) (m : StringMap α) :
    ∃ m', readMap read (ofMap write m) = some m' ∧ ∀ name, m'.lookup name = m.lookup name := by
  obtain ⟨m', hm', hlookup⟩ := exists_readMap read write (g := id) h m
  exact ⟨m', hm', fun name => (hlookup name).trans (congrFun Option.map_id_fun _)⟩

end Maps

end NamedFields
