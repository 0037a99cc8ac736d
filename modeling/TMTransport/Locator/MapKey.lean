import Mathlib.Data.Int.Order.Basic
import TMTransport.Broadcast.Listener
import TMTransport.Library.FieldOrder

/-!
# Locators as keys

Locators are the keys of ordered and of hashed maps. What such maps ask of them is that
the order is a strict weak order, that it tells two locators apart just if they differ,
and that equal locators have equal hashes. All of it is so, but for locators that differ
in nothing but their identifiers: `operator<` leaves the identifier out.
-/

namespace LocatorKey

open BroadcastListener (entriesLt locatorLt pairLt)
open ConnectionLocator (Locator Properties Text)
open FieldOrder

/-- `ConnectionLocator::operator==` -/
def locatorEq (a b : Locator) : Bool :=
  a.host = b.host ∧ a.port = b.port ∧ a.userName = b.userName ∧ a.password = b.password ∧
    a.identifier = b.identifier ∧ a.properties = b.properties

/-- `std::hash<ConnectionLocator>`, over those of texts and of integers. -/
def hash (hashText : Text → UInt64) (hashInt : Int → UInt64) (d : Locator) : UInt64 :=
  hashText d.host ^^^ hashInt d.port ^^^ hashText d.userName ^^^ hashText d.password ^^^
    hashText d.identifier

/-- What maps ask of two keys. -/
structure LawfulAt (hashText : Text → UInt64) (hashInt : Int → UInt64) (a b : Locator) : Prop where
  apart : locatorEq a b = true ↔ ¬ locatorLt a b = true ∧ ¬ locatorLt b a = true
  hash : locatorEq a b = true → hash hashText hashInt a = hash hashText hashInt b

variable {a b : Locator}

theorem locatorEq_iff : locatorEq a b = true ↔ a = b := by
  rw [locatorEq, decide_eq_true_iff]
  cases a
  cases b
  simp

/-! ## The order, field by field -/

theorem pairLt_eq : pairLt = thenLt (fieldLt Prod.fst) (fieldLt Prod.snd) := by
  funext a b
  rw [pairLt, thenLt]
  by_cases hab : a.1 < b.1
  · simp [FieldOrder.fieldLt, hab]
  · by_cases hba : b.1 < a.1
    · simp [FieldOrder.fieldLt, hab, hba]
    · simp [FieldOrder.fieldLt, hab, hba]

theorem entriesLt_eq : entriesLt = listLt pairLt := by
  funext as bs
  induction as generalizing bs with
  | nil => cases bs <;> rfl
  | cons a as ih =>
      cases bs with
      | nil => rfl
      | cons b bs => rw [entriesLt, listLt, ih]

/-- The order of the properties, of two locators. -/
def propertiesLt (a b : Locator) : Bool := entriesLt a.properties.entries b.properties.entries

theorem locatorLt_eq : locatorLt =
    thenLt (fieldLt Locator.host) (thenLt (fieldLt Locator.port)
      (thenLt (fieldLt Locator.userName)
        (thenLt (fieldLt Locator.password) propertiesLt))) := by
  funext a b
  simp only [locatorLt, thenLt, FieldOrder.fieldLt, decide_eq_true_eq]
  rfl

theorem ordered_pairLt : Ordered pairLt := by
  rw [pairLt_eq]
  exact (ordered_fieldLt Prod.fst).thenLt (ordered_fieldLt Prod.snd)

theorem ordered_propertiesLt : Ordered propertiesLt := by
  have h : Ordered entriesLt := by
    rw [entriesLt_eq]
    exact ordered_pairLt.listLt
  exact ⟨h.asymm, fun b => h.between b.properties.entries⟩

theorem ordered_locatorLt : Ordered locatorLt := by
  rw [locatorLt_eq]
  exact (ordered_fieldLt _).thenLt ((ordered_fieldLt _).thenLt
    ((ordered_fieldLt _).thenLt ((ordered_fieldLt _).thenLt ordered_propertiesLt)))

theorem same_pairLt {x y : Text × Text} : Same pairLt x y ↔ x = y := by
  rw [pairLt_eq, same_thenLt, same_fieldLt, same_fieldLt, Prod.ext_iff]

theorem same_propertiesLt : Same propertiesLt a b ↔ a.properties = b.properties := by
  have h : Same entriesLt a.properties.entries b.properties.entries ↔
      a.properties.entries = b.properties.entries := by
    have heq : Same pairLt = Eq := by
      funext x y
      exact propext same_pairLt
    rw [entriesLt_eq, same_listLt, heq, List.forall₂_eq_eq_eq]
  exact h.trans ⟨Properties.ext, congrArg Properties.entries⟩

/-- The order tells nothing of two locators that differ in their identifiers only. -/
theorem same_locatorLt : Same locatorLt a b ↔ { a with identifier := b.identifier } = b := by
  rw [locatorLt_eq, same_thenLt, same_thenLt, same_thenLt, same_thenLt, same_fieldLt, same_fieldLt,
    same_fieldLt, same_fieldLt, same_propertiesLt]
  cases a
  cases b
  simp

/--
**When locators are lawful keys.** The order is a strict weak order; and two locators are told apart
by it as they should be unless they differ in their identifiers, and in nothing else.
-/
theorem lawfulAt_iff (hashText : Text → UInt64) (hashInt : Int → UInt64) :
    IsStrictWeakOrder Locator (fun a b => locatorLt a b = true) ∧
      ∀ a b, LawfulAt hashText hashInt a b ↔
        ({ a with identifier := b.identifier } = b → a.identifier = b.identifier) := by
  refine ⟨ordered_locatorLt.isStrictWeakOrder, fun a b => ?_⟩
  have hsame : Same locatorLt a b ↔ { a with identifier := b.identifier } = b := same_locatorLt
  constructor
  · intro h heq
    rw [locatorEq_iff.mp (h.apart.mpr (hsame.mpr heq))]
  · intro h
    refine ⟨locatorEq_iff.trans ⟨fun heq => hsame.mpr ?_, fun hs => ?_⟩, fun heq => ?_⟩
    · rw [heq]
    · have hb := hsame.mp hs
      rw [← hb, ← h hb]
    · rw [locatorEq_iff.mp heq]

/-- Two queues of one broker. -/
theorem not_lawfulAt_identifiers : ¬ ∀ hashText hashInt a b, LawfulAt hashText hashInt a b := by
  intro h
  have hab := h (fun _ => 0) (fun _ => 0) { (default : Locator) with identifier := ['p'] }
    { (default : Locator) with identifier := ['q'] }
  have := hab.apart.mpr
  revert this
  decide

end LocatorKey
