import TMTransport.Library.Framing

/-!
# The clients of a subscription

The subscriptions that select topics on this side keep their clients in three
collections, by the kind of the selection.
-/

namespace Subscription

open Framing

/-- `basic::ByteDataWithTopic` -/
structure ByteDataWithTopic where
  topic : Bytes
  content : Bytes
  deriving DecidableEq

inductive TopicSelection where
  | noTopicSelection
  | exact (topic : Bytes)
  /-- A regular expression is known by what it matches. -/
  | regex (matchesWhole : Bytes → Bool)

def TopicSelection.accepts (topic : Bytes) : TopicSelection → Bool
  | .noTopicSelection => true
  | .exact t => topic = t
  | .regex r => r topic

structure ClientCB where
  id : Nat
  /-- What the callback leaves of a message that it is given by reference. -/
  leaves : ByteDataWithTopic → ByteDataWithTopic
  hook : Option (Bytes → Option Bytes)

structure Clients where
  noFilterClients : List ClientCB
  stringMatchClients : List (Bytes × ClientCB)
  regexMatchClients : List ((Bytes → Bool) × ClientCB)

namespace Clients

def empty : Clients := ⟨[], [], []⟩

def addClient (c : Clients) (f : ClientCB) : TopicSelection → Clients
  | .noTopicSelection => { c with noFilterClients := c.noFilterClients ++ [f] }
  | .exact t => { c with stringMatchClients := c.stringMatchClients ++ [(t, f)] }
  | .regex r => { c with regexMatchClients := c.regexMatchClients ++ [(r, f)] }

def removeClient (c : Clients) (id : Nat) : Clients where
  noFilterClients := c.noFilterClients.filter fun x => x.id ≠ id
  stringMatchClients := c.stringMatchClients.filter fun x => x.2.id ≠ id
  regexMatchClients := c.regexMatchClients.filter fun x => x.2.id ≠ id

def isEmpty (c : Clients) : Bool :=
  c.noFilterClients.isEmpty && c.stringMatchClients.isEmpty && c.regexMatchClients.isEmpty

/-- The clients with their selections, in the order in which the collections are gone through. -/
def registered (c : Clients) : List (TopicSelection × ClientCB) :=
  c.noFilterClients.map (.noTopicSelection, ·) ++
    (c.stringMatchClients.map fun x => (.exact x.1, x.2)) ++
    c.regexMatchClients.map fun x => (.regex x.1, x.2)

variable {c : Clients} {f : ClientCB} {id : Nat} {t : TopicSelection}

@[simp]
theorem registered_empty : empty.registered = [] := rfl

theorem registered_addClient : (c.addClient f t).registered.Perm ((t, f) :: c.registered) := by
  cases t with
  | noTopicSelection =>
      simp only [addClient, registered, List.map_append, List.map_cons, List.map_nil,
        List.append_assoc, List.singleton_append]
      exact List.perm_middle
  | exact t =>
      simp only [addClient, registered, List.map_append, List.map_cons, List.map_nil,
        List.append_assoc, List.singleton_append]
      rw [← List.append_assoc, ← List.append_assoc (c.noFilterClients.map _)]
      exact List.perm_middle
  | regex r =>
      simp only [addClient, registered, List.map_append, List.map_cons, List.map_nil]
      rw [← List.append_assoc]
      exact List.perm_append_singleton _ _

theorem registered_removeClient :
    (c.removeClient id).registered = c.registered.filter fun x => x.2.id ≠ id := by
  simp only [removeClient, registered, List.filter_append, List.filter_map]
  rfl

theorem isEmpty_iff : c.isEmpty = true ↔ c.registered = [] := by
  simp [isEmpty, registered, and_assoc]

end Clients

end Subscription
