import TMTransport.SharedMemory.ExtraDataLockFree
import TMTransport.SharedMemory.ExtraDataMutex

/-!
# Extra data is not torn as long as nobody interferes
-/

namespace ExtraData

open Interleave

variable {ι : Type} [DecidableEq ι] {s : State ι}

/--
**Without interference.** Under either strategy, in every run in which no load looks at a slot
before it has been stored to, and none still has to copy data that is being overwritten or
destroyed, a load returns all of what one save was given, and it returns something if a save
had returned when it began.
-/
theorem neverTorn_of_orderly (c : Config) (hr : (machine ι c).Reach Orderly s) :
    NeverTorn s.history := by
  cases hc : c.strategy with
  | lockFreeAndWasteMemory =>
      have hinv : LockFreeInv c s := hr.invariant lockFreeInv_init
        fun _ _ _ hi hg hs => lockFreeInv_step hi hc hg hs
      exact hinv.calls.neverTorn
  | mutexProtected =>
      have hinv : MutexInv c s := hr.invariant mutexInv_init
        fun _ _ _ hi hg hs => mutexInv_step hi hc hg hs
      exact hinv.calls.neverTorn

/-- What a load returns is what a save was given, at any time before or after. -/
theorem sound_of_mem {history : List Event} (h : NeverTorn history) {key : String} {due : Bool}
    {result : Option Bytes} (hload : .loaded key due result ∈ history) :
    (∀ data, result = some data → .save key data ∈ history) ∧ (due = true → result ≠ none) := by
  induction history with
  | nil => cases hload
  | cons e before ih =>
      rcases List.mem_cons.mp hload with heq | hold
      · subst heq
        exact ⟨fun data hdata => List.mem_cons_of_mem _ (h.1.1 data hdata), h.1.2⟩
      · obtain ⟨hsome, hdue⟩ := ih h.2 hold
        exact ⟨fun data hdata => List.mem_cons_of_mem _ (hsome data hdata), hdue⟩

/-! ## Two processes -/

instance (s : State Bool) : (pc : Pc) → Decidable (pc.Undisturbed s)
  | .loadOffset _ _ loc => inferInstanceAs (Decidable (s.object loc ≠ some (.slot 0)))
  | .fill _ data dataPtr i =>
      inferInstanceAs (Decidable (i < data.length → ∀ u, (s.pc u).source ≠ some dataPtr))
  | .destroy _ _ oldDataPtr => inferInstanceAs (Decidable (∀ u, (s.pc u).source ≠ some oldDataPtr))
  | .idle | .construct _ _ | .findOrConstruct _ _ _ | .store _ _ _ _ | .lockToSave _ _
  | .findToSave _ _ | .constructNamed _ _ | .unlockSaved _ _ | .findSlot _ _ | .readSize _ _ _
  | .copy _ _ _ _ _ | .lockToLoad _ _ | .findToLoad _ _ | .unlockLoaded _ _ _
  | .unlockView _ _ _ _ => isTrue trivial

instance (s : State Bool) : (a : Act Bool) → Decidable (Orderly s a)
  | .save _ key _ | .load _ key =>
      inferInstanceAs (Decidable (∀ e ∈ s.history, cStr e.key = cStr key → e.key = key))
  | .go t _ _ => inferInstanceAs (Decidable ((s.pc t).Undisturbed s))

/-- Under the name `number` there are two bytes of a plain type. -/
def numbered (strategy : Strategy) : Config where
  strategy := strategy
  plain name := if name = "number" then some 2 else none

/-- The process takes `n` steps. -/
def goOn (t : Bool) (place : Int) (n : Nat) : List (Act Bool) :=
  (List.range n).map fun i : Nat => .go t (place + (i : Int)) 0

/-- The second process loads what the first has saved, of either kind. -/
def inTurn : List (Act Bool) :=
  .save false "number" [1, 2] :: goOn false 100 9 ++
    .save false "text" [3] :: goOn false 200 9 ++
    .load true "number" :: goOn true 300 9 ++ .load true "text" :: goOn true 400 9

/-- The loads have come back with what had been saved. -/
def Loaded (history : List Event) : Prop :=
  .loaded "number" true (some [1, 2]) ∈ history ∧ .loaded "text" true (some [3]) ∈ history

theorem loaded_inTurn (strategy : Strategy) :
    ∃ s, (machine Bool (numbered strategy)).Reach Orderly s ∧ Loaded s.history := by
  have hw : (machine Bool (numbered strategy)).Within Orderly
    (machine Bool (numbered strategy)).init
      inTurn := by
    refine .of_all (g := fun s a => decide (Orderly s a)) (fun _ _ => of_decide_eq_true) ?_
    cases strategy <;> decide +kernel
  obtain ⟨s, hr, hs⟩ : ∃ s, (machine Bool (numbered strategy)).Reach Orderly s ∧
      (machine Bool (numbered strategy)).exec (machine Bool (numbered strategy)).init inTurn = s :=
    ⟨_, Machine.Reach.init.exec hw, rfl⟩
  refine ⟨s, hr, ?_, ?_⟩
  · rw [← hs]
    cases strategy <;> decide +kernel
  · rw [← hs]
    cases strategy <;> decide +kernel

theorem neverTorn_inTurn :
    (∃ s, (machine Bool (numbered .lockFreeAndWasteMemory)).Reach Orderly s ∧
      NeverTorn s.history ∧ Loaded s.history) ∧
    ∃ s, (machine Bool (numbered .mutexProtected)).Reach Orderly s ∧
      NeverTorn s.history ∧ Loaded s.history := by
  obtain ⟨s, hr, hs⟩ := loaded_inTurn .lockFreeAndWasteMemory
  obtain ⟨t, hr', ht⟩ := loaded_inTurn .mutexProtected
  exact ⟨⟨s, hr, neverTorn_of_orderly _ hr, hs⟩, t, hr', neverTorn_of_orderly _ hr', ht⟩

/-- The first save under `text` has constructed the slot, and the load goes on from there. -/
def early : List Event :=
  ((machine Bool (numbered .lockFreeAndWasteMemory)).exec
    (machine Bool (numbered .lockFreeAndWasteMemory)).init
    (.save false "text" [3] :: goOn false 100 2 ++ .load true "text" :: goOn true 200 4)).history

/-- The load has copied one byte, when the next save begins. -/
def overwritten : List Event :=
  ((machine Bool (numbered .mutexProtected)).exec (machine Bool (numbered .mutexProtected)).init
    (.save false "text" [1, 1] :: goOn false 100 7 ++ .load true "text" :: goOn true 200 4 ++
      .save false "text" [2, 2] :: goOn false 300 6 ++ goOn true 400 2)).history

/--
Under `lockFreeAndWasteMemory` a load that finds the slot before the first save has stored to it
takes the slot for the data: it returns no bytes, although one byte was saved. Under
`mutexProtected` a load that has given the mutex up returns the first byte of one value and
the second of the next.
-/
theorem not_neverTorn_meanwhile : ¬ NeverTorn early ∧ ¬ NeverTorn overwritten := by
  constructor
  · intro h
    have hload : .loaded "text" false (some []) ∈ early := by decide +kernel
    have := (sound_of_mem h hload).1 [] rfl
    revert this
    decide +kernel
  · intro h
    have hload : .loaded "text" true (some [1, 2]) ∈ overwritten := by decide +kernel
    have := (sound_of_mem h hload).1 [1, 2] rfl
    revert this
    decide +kernel

end ExtraData
