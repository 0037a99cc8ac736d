import Mathlib.Algebra.Ring.Nat
import TMTransport.Library.Machine

/-!
# `BoostSharedMemoryChain_SpinLock`

A ticket lock in shared memory: `numberDispenser_`, `serviceRegistrar_` and
`ownerRegistrar_`. A waiter that has looked at the same owner twice, and finds its
process gone, moves `serviceRegistrar_` to its own number.

Each load, store, fetch-add and compare-exchange is one step. A thread may stop
for good at any point, when its process dies.

The lock excludes as long as nobody takes over from a thread that is alive and
whose turn it is. The code does not see to that: an owner of 0, which is what
`ownerRegistrar_` holds until the thread whose turn it is has registered, counts
as gone.
-/

namespace SpinLock

open Interleave

/-- The local variables of `lock`. -/
structure Locals where
  myNumber : Nat
  count : Nat
  lastOwner : Nat
  deriving DecidableEq

/-- Where a thread is: before which atomic operation. -/
inductive Pc where
  | idle
  /-- `numberDispenser_->fetch_add(1)` -/
  | draw
  /-- `serviceRegistrar_->load()` -/
  | load (l : Locals)
  /-- Our turn: the compare-exchange of `serviceRegistrar_`. -/
  | casTurn (l : Locals)
  /-- `ownerRegistrar_->load()` -/
  | loadOwner (l : Locals)
  | casOwner (l : Locals) (currentOwner : Nat)
  /-- The count has run out: `ownerRegistrar_->load()`. -/
  | sampleOwner (l : Locals) (currentlyServing : Nat)
  /-- `pidIsRunning` -/
  | checkPid (l : Locals) (currentlyServing currentOwner : Nat)
  /-- The compare-exchange that moves `serviceRegistrar_` to `myNumber`. -/
  | casSkip (l : Locals) (currentlyServing currentOwner : Nat)
  | casTakeover (l : Locals) (currentOwner : Nat)
  /-- `lock` has returned. -/
  | held (myNumber : Nat)
  /-- In `unlock`, before `serviceRegistrar_->fetch_add(1)`. -/
  | unlocking (myNumber : Nat)
  deriving DecidableEq

/-- The threads, the processes they belong to, and their numbers. -/
structure Threads (ι π : Type) where
  proc : ι → π
  pid : π → Nat
  threadHash : ι → Nat

structure State (ι π : Type) where
  numberDispenser : Nat
  serviceRegistrar : Nat
  ownerRegistrar : Nat
  pc : ι → Pc
  alive : π → Bool

/-- What can happen. `answer` is the answer of `pidIsRunning`. -/
inductive Act (ι π : Type) where
  | lock (t : ι)
  | go (t : ι)
  | answer (t : ι) (running : Bool)
  | unlock (t : ι)
  | die (p : π)

variable {ι π : Type}

/-- `myPidAndThread` -/
def Threads.pidAndThread (T : Threads ι π) (t : ι) : Nat :=
  T.pid (T.proc t) % 2 ^ 32 * 2 ^ 32 + T.threadHash t % 2 ^ 32

/-- The pid in the upper half of an owner. -/
def ownerPid (owner : Nat) : Nat := owner / 2 ^ 32

/-- `fetch_add(1)` on a `std::atomic<uint64_t>`. -/
def fetchAdd (x : Nat) : Nat := (x + 1) % 2 ^ 64

/-- The wait before a waiter looks at the owner. -/
def patience : Nat := 10000

section Step

variable [DecidableEq ι]

def State.goto (s : State ι π) (t : ι) (pc : Pc) : State ι π :=
  { s with pc := Function.update s.pc t pc }

/-- One atomic operation of a thread in `lock`, or the last one of `unlock`. -/
def advance (T : Threads ι π) (s : State ι π) (t : ι) : Option (State ι π) :=
  match s.pc t with
  | .idle => none
  | .draw => some { s.goto t (.load ⟨s.numberDispenser, 0, 0⟩) with
      numberDispenser := fetchAdd s.numberDispenser }
  | .load l =>
    if l.myNumber < s.serviceRegistrar then some (s.goto t .draw)
    else if s.serviceRegistrar = l.myNumber then some (s.goto t (.casTurn l))
    else if patience ≤ l.count + 1 then
      some (s.goto t (.sampleOwner { l with count := l.count + 1 } s.serviceRegistrar))
    else some (s.goto t (.load { l with count := l.count + 1 }))
  | .casTurn l =>
    if s.serviceRegistrar = l.myNumber then some (s.goto t (.loadOwner l))
    else some (s.goto t (.load l))
  | .loadOwner l => some (s.goto t (.casOwner l s.ownerRegistrar))
  | .casOwner l currentOwner =>
    if s.ownerRegistrar = currentOwner then
      some { s.goto t (.held l.myNumber) with ownerRegistrar := T.pidAndThread t }
    else some (s.goto t (.load { l with count := 0 }))
  | .sampleOwner l currentlyServing =>
    if l.lastOwner ≠ s.ownerRegistrar then
      some (s.goto t (.load { l with lastOwner := s.ownerRegistrar, count := 0 }))
    else if ownerPid s.ownerRegistrar ≠ 0 then
      some (s.goto t (.checkPid l currentlyServing s.ownerRegistrar))
    else some (s.goto t (.casSkip l currentlyServing s.ownerRegistrar))
  | .checkPid _ _ _ => none
  | .casSkip l currentlyServing currentOwner =>
    if s.serviceRegistrar = currentlyServing then
      some { s.goto t (.casTakeover l currentOwner) with serviceRegistrar := l.myNumber }
    else some (s.goto t (.load { l with count := 0 }))
  | .casTakeover l currentOwner =>
    if s.ownerRegistrar = currentOwner then
      some { s.goto t (.held l.myNumber) with ownerRegistrar := T.pidAndThread t }
    else some (s.goto t (.load { l with count := 0 }))
  | .held _ => none
  | .unlocking _ =>
    some { s.goto t .idle with serviceRegistrar := fetchAdd s.serviceRegistrar }

variable [DecidableEq π]

def step (T : Threads ι π) (s : State ι π) : Act ι π → Option (State ι π)
  | .lock t =>
    match s.alive (T.proc t), s.pc t with
    | true, .idle => some (s.goto t .draw)
    | _, _ => none
  | .go t => if s.alive (T.proc t) then advance T s t else none
  | .answer t running =>
    match s.alive (T.proc t), s.pc t with
    | true, .checkPid l currentlyServing currentOwner =>
      if running then some (s.goto t (.load { l with count := 0 }))
      else some (s.goto t (.casSkip l currentlyServing currentOwner))
    | _, _ => none
  | .unlock t =>
    match s.alive (T.proc t), s.pc t with
    | true, .held n => some { s.goto t (.unlocking n) with ownerRegistrar := 0 }
    | _, _ => none
  | .die p => some { s with alive := Function.update s.alive p false }

/-- The lock as it is constructed, all processes running. -/
def machine (T : Threads ι π) : Machine (State ι π) (Act ι π) where
  init := ⟨0, 0, 0, fun _ => .idle, fun _ => true⟩
  step := step T

end Step

/-! ## The invariant -/

/-- The number that a thread has drawn and still goes by. -/
def Pc.number : Pc → Option Nat
  | .idle => none
  | .draw => none
  | .load l => some l.myNumber
  | .casTurn l => some l.myNumber
  | .loadOwner l => some l.myNumber
  | .casOwner l _ => some l.myNumber
  | .sampleOwner l _ => some l.myNumber
  | .checkPid l _ _ => some l.myNumber
  | .casSkip l _ _ => some l.myNumber
  | .casTakeover l _ => some l.myNumber
  | .held n => some n
  | .unlocking n => some n

/-- Is the thread past the compare-exchange that made it its turn, and not yet done? -/
def Pc.inService : Pc → Bool
  | .loadOwner _ => true
  | .casOwner _ _ => true
  | .casTakeover _ _ => true
  | .held _ => true
  | .unlocking _ => true
  | _ => false

variable {T : Threads ι π} {s s' : State ι π}

/-- The process of the thread is running. -/
def State.live (T : Threads ι π) (s : State ι π) (t : ι) : Prop := s.alive (T.proc t) = true

/-- `pidIsRunning` says no only of a pid that no running process has. -/
def Honest (T : Threads ι π) (s : State ι π) (a : Act ι π) : Prop :=
  ∀ t l serving owner, a = .answer t false → s.pc t = .checkPid l serving owner →
    ∀ p, T.pid p % 2 ^ 32 = ownerPid owner → s.alive p = false

/--
A waiter moves `serviceRegistrar_` only when no thread that is alive is in
service; and a number that is drawn is not one that a living thread still goes by.
-/
structure Orderly (T : Threads ι π) (s : State ι π) (a : Act ι π) : Prop where
  skips : ∀ t l serving owner, a = .go t → s.pc t = .casSkip l serving owner →
    s.serviceRegistrar = serving → ∀ t', s.live T t' → (s.pc t').inService = false
  draws : ∀ t, a = .go t → s.pc t = .draw →
    ∀ t', s.live T t' → (s.pc t').number ≠ some s.numberDispenser

/-- The thread neither draws a number nor moves `serviceRegistrar_` next. -/
def Pc.calm : Pc → Bool
  | .draw => false
  | .casSkip _ _ _ => false
  | _ => true

theorem orderly_of_calm {t : ι} (h : (s.pc t).calm = true) : Orderly T s (.go t) := by
  refine ⟨?_, ?_⟩
  · rintro t' l serving owner ⟨⟩ hpc
    rw [hpc] at h
    cases h
  · rintro t' ⟨⟩ hpc
    rw [hpc] at h
    cases h

theorem orderly_draw {t : ι} (h : s.pc t = .draw)
    (hfresh : ∀ t', (s.pc t').number ≠ some s.numberDispenser) : Orderly T s (.go t) := by
  refine ⟨?_, fun _ _ _ t' _ => hfresh t'⟩
  rintro t' l serving owner ⟨⟩ hpc
  rw [h] at hpc
  cases hpc

theorem orderly_lock (t : ι) : Orderly T s (.lock t) :=
  ⟨by rintro _ _ _ _ ⟨⟩, by rintro _ ⟨⟩⟩

theorem honest_go (t : ι) : Honest T s (.go t) := by rintro _ _ _ _ ⟨⟩

theorem honest_lock (t : ι) : Honest T s (.lock t) := by rintro _ _ _ _ ⟨⟩

/-- No two threads that are alive hold the lock. -/
def Exclusive (T : Threads ι π) (s : State ι π) : Prop :=
  ∀ t t' n n', s.live T t → s.live T t' → s.pc t = .held n → s.pc t' = .held n' → t = t'

structure Inv (T : Threads ι π) (s : State ι π) : Prop where
  /-- Numbers are not shared. -/
  numbers : ∀ t t' n, s.live T t → s.live T t' → (s.pc t).number = some n →
    (s.pc t').number = some n → t = t'
  /-- Who is in service is the one being served. -/
  serving : ∀ t, s.live T t → (s.pc t).inService = true →
    (s.pc t).number = some s.serviceRegistrar

theorem Inv.exclusive (h : Inv T s) : Exclusive T s := by
  intro t t' n n' ht ht' hpc hpc'
  have h1 := h.serving t ht (by rw [hpc]; rfl)
  have h2 := h.serving t' ht' (by rw [hpc']; rfl)
  exact h.numbers t t' _ ht ht' h1 h2

/-- At most one living thread is in service. -/
theorem Inv.alone (h : Inv T s) {t t' : ι} (ht : s.live T t) (ht' : s.live T t')
    (hs : (s.pc t).inService = true) (hs' : (s.pc t').inService = true) : t = t' :=
  h.numbers t t' _ ht ht' (h.serving t ht hs) (h.serving t' ht' hs')

variable [DecidableEq ι]

/-- One thread moves, and with it perhaps the registrars. -/
theorem Inv.goto (h : Inv T s) {t : ι} {pc : Pc} {dispenser service owner : Nat}
    (ht : s.live T t)
    (hnum : ∀ n, pc.number = some n → (s.pc t).number = some n ∨
      ∀ t', s.live T t' → (s.pc t').number ≠ some n)
    (hserv : pc.inService = true → pc.number = some service)
    (hothers : service = s.serviceRegistrar ∨
      ∀ t', t' ≠ t → s.live T t' → (s.pc t').inService = false) :
    Inv T ⟨dispenser, service, owner, Function.update s.pc t pc, s.alive⟩ := by
  have hfresh : ∀ t' n, t' ≠ t → s.live T t' → pc.number = some n →
      (s.pc t').number ≠ some n := by
    intro t' n hne ht' hn hn'
    rcases hnum n hn with h1 | h1
    · exact hne (h.numbers t' t n ht' ht hn' h1)
    · exact h1 t' ht' hn'
  refine ⟨fun t₁ t₂ n h₁ h₂ hn₁ hn₂ => ?_, fun t' ht' hs => ?_⟩
  · by_cases e₁ : t₁ = t <;> by_cases e₂ : t₂ = t
    · rw [e₁, e₂]
    · subst e₁
      simp only [Function.update_self, Function.update_of_ne e₂] at hn₁ hn₂
      exact absurd hn₂ (hfresh t₂ n e₂ h₂ hn₁)
    · subst e₂
      simp only [Function.update_self, Function.update_of_ne e₁] at hn₁ hn₂
      exact absurd hn₁ (hfresh t₁ n e₁ h₁ hn₂)
    · simp only [Function.update_of_ne e₁, Function.update_of_ne e₂] at hn₁ hn₂
      exact h.numbers t₁ t₂ n h₁ h₂ hn₁ hn₂
  · by_cases e : t' = t
    · subst e
      simp only [Function.update_self] at hs ⊢
      exact hserv hs
    · simp only [Function.update_of_ne e] at hs ⊢
      rcases hothers with rfl | h1
      · exact h.serving t' ht' hs
      · rw [h1 t' e ht'] at hs
        cases hs

/-- A thread goes on under the number it has, without coming into service. -/
theorem Inv.wait (h : Inv T s) {t : ι} {pc : Pc} (ht : s.live T t)
    (hnum : pc.number = (s.pc t).number) (hserv : pc.inService = false) : Inv T (s.goto t pc) :=
  h.goto ht (fun n hn => Or.inl (hnum ▸ hn)) (fun hs => by rw [hserv] at hs; cases hs) (Or.inl rfl)

/-- A thread stays in service, or comes into service when it is served. -/
theorem Inv.serve (h : Inv T s) {t : ι} {pc : Pc} {owner : Nat} (ht : s.live T t)
    (hnum : pc.number = (s.pc t).number) (hserv : (s.pc t).number = some s.serviceRegistrar) :
    Inv T { s.goto t pc with ownerRegistrar := owner } :=
  h.goto ht (fun _ hn => Or.inl (hnum ▸ hn)) (fun _ => hnum.trans hserv) (Or.inl rfl)

theorem inv_advance {t : ι} (h : Inv T s) (ht : s.live T t) (hg : Orderly T s (.go t))
    (hs : advance T s t = some s') : Inv T s' := by
  have hserved : (s.pc t).inService = true → (s.pc t).number = some s.serviceRegistrar :=
    h.serving t ht
  cases hpc : s.pc t with
  | idle => simp [advance, hpc] at hs
  | checkPid l serving owner => simp [advance, hpc] at hs
  | held n => simp [advance, hpc] at hs
  | draw =>
      simp only [advance, hpc, Option.some.injEq] at hs
      subst hs
      refine h.goto ht (fun n hn => Or.inr ?_) (by rintro ⟨⟩) (Or.inl rfl)
      obtain rfl : s.numberDispenser = n := by simpa [Pc.number] using hn
      exact hg.draws t rfl hpc
  | load l =>
      simp only [advance, hpc] at hs
      split at hs
      · obtain rfl := Option.some.inj hs
        exact h.goto ht (by rintro n ⟨⟩) (by rintro ⟨⟩) (Or.inl rfl)
      · split at hs
        · obtain rfl := Option.some.inj hs
          exact h.wait ht (by rw [hpc]; rfl) rfl
        · split at hs
          · obtain rfl := Option.some.inj hs
            exact h.wait ht (by rw [hpc]; rfl) rfl
          · obtain rfl := Option.some.inj hs
            exact h.wait ht (by rw [hpc]; rfl) rfl
  | casTurn l =>
      simp only [advance, hpc] at hs
      split at hs
      · rename_i hturn
        obtain rfl := Option.some.inj hs
        exact h.serve ht (by rw [hpc]; rfl) (by rw [hpc, hturn]; rfl)
      · obtain rfl := Option.some.inj hs
        exact h.wait ht (by rw [hpc]; rfl) rfl
  | loadOwner l =>
      simp only [advance, hpc, Option.some.injEq] at hs
      subst hs
      exact h.serve ht (by rw [hpc]; rfl) (hserved (by rw [hpc]; rfl))
  | casOwner l owner =>
      simp only [advance, hpc] at hs
      split at hs
      · obtain rfl := Option.some.inj hs
        exact h.serve ht (by rw [hpc]; rfl) (hserved (by rw [hpc]; rfl))
      · obtain rfl := Option.some.inj hs
        exact h.wait ht (by rw [hpc]; rfl) rfl
  | sampleOwner l serving =>
      simp only [advance, hpc] at hs
      split at hs
      · obtain rfl := Option.some.inj hs
        exact h.wait ht (by rw [hpc]; rfl) rfl
      · split at hs
        · obtain rfl := Option.some.inj hs
          exact h.wait ht (by rw [hpc]; rfl) rfl
        · obtain rfl := Option.some.inj hs
          exact h.wait ht (by rw [hpc]; rfl) rfl
  | casSkip l serving owner =>
      simp only [advance, hpc] at hs
      split at hs
      · rename_i hskip
        obtain rfl := Option.some.inj hs
        refine h.goto ht (fun n hn => Or.inl (by rw [hpc]; exact hn)) (fun _ => rfl) (Or.inr ?_)
        exact fun t' _ ht' => hg.skips t l serving owner rfl hpc hskip t' ht'
      · obtain rfl := Option.some.inj hs
        exact h.wait ht (by rw [hpc]; rfl) rfl
  | casTakeover l owner =>
      simp only [advance, hpc] at hs
      split at hs
      · obtain rfl := Option.some.inj hs
        exact h.serve ht (by rw [hpc]; rfl) (hserved (by rw [hpc]; rfl))
      · obtain rfl := Option.some.inj hs
        exact h.wait ht (by rw [hpc]; rfl) rfl
  | unlocking _ =>
      simp only [advance, hpc, Option.some.injEq] at hs
      subst hs
      refine h.goto ht (by rintro n ⟨⟩) (by rintro ⟨⟩) (Or.inr fun t' hne ht' => ?_)
      by_contra hs
      exact hne (h.alone ht' ht (by simpa using hs) (by rw [hpc]; rfl))

variable [DecidableEq π]

theorem inv_step {a : Act ι π} (h : Inv T s) (hg : Orderly T s a) (hs : step T s a = some s') :
    Inv T s' := by
  cases a with
  | lock t =>
      simp only [step] at hs
      split at hs
      · rename_i ht hpc
        obtain rfl := Option.some.inj hs
        exact h.goto ht (by rintro n ⟨⟩) (by rintro ⟨⟩) (Or.inl rfl)
      · cases hs
  | go t =>
      simp only [step] at hs
      split at hs
      · rename_i ht
        exact inv_advance h ht hg hs
      · cases hs
  | answer t running =>
      simp only [step] at hs
      split at hs
      · rename_i ht hpc
        split at hs
        · obtain rfl := Option.some.inj hs
          exact h.wait ht (by rw [hpc]; rfl) rfl
        · obtain rfl := Option.some.inj hs
          exact h.wait ht (by rw [hpc]; rfl) rfl
      · cases hs
  | unlock t =>
      simp only [step] at hs
      split at hs
      · rename_i n ht hpc
        obtain rfl := Option.some.inj hs
        exact h.serve ht (by rw [hpc]; rfl) (h.serving t ht (by rw [hpc]; rfl))
      · cases hs
  | die p =>
      simp only [step, Option.some.injEq] at hs
      subst hs
      have hlive : ∀ t, State.live T { s with alive := Function.update s.alive p false } t →
          s.live T t := by
        intro t ht
        by_cases hp : T.proc t = p
        · simp [State.live, hp] at ht
        · simpa [State.live, Function.update_of_ne hp] using ht
      exact ⟨fun t t' n ht ht' => h.numbers t t' n (hlive t ht) (hlive t' ht'),
        fun t ht => h.serving t (hlive t ht)⟩

theorem inv_init : Inv T (machine T).init := by
  refine ⟨fun _ _ n _ _ hn => ?_, fun _ _ hs => ?_⟩
  · cases hn
  · cases hs

/-- **Mutual exclusion**, in every run in which nobody takes over from a living thread. -/
theorem exclusive_of_orderly (T : Threads ι π) {s : State ι π}
    (hr : (machine T).Reach (Orderly T) s) : Exclusive T s :=
  (hr.invariant inv_init (fun _ _ _ => inv_step)).exclusive

/-! ## Two runs -/

/-- Two processes of one thread each. -/
def twoThreads : Threads Bool Bool where
  proc := id
  pid := fun p => if p then 2 else 1
  threadHash := fun _ => 7

/-- The first thread takes the lock up to its compare-exchange of the owner; the second waits. -/
def bothCall : List (Act Bool Bool) :=
  [.lock false, .go false, .go false, .go false, .go false, .lock true, .go true]

/-- The second thread has waited `k` times. -/
def stalled (k : Nat) : State Bool Bool where
  numberDispenser := 2
  serviceRegistrar := 0
  ownerRegistrar := 0
  pc := fun t => if t then .load ⟨1, k, 0⟩ else .casOwner ⟨0, 0, 0⟩ 0
  alive := fun _ => true

theorem exec_bothCall : (machine twoThreads).exec (machine twoThreads).init bothCall =
    stalled 0 := by
  have hpc : ((machine twoThreads).exec (machine twoThreads).init bothCall).pc =
    (stalled 0).pc := by
    funext t; cases t <;> rfl
  exact congrArg (fun pc => (⟨2, 0, 0, pc, fun _ => true⟩ : State Bool Bool)) hpc

theorem bothCall_orderly :
    (machine twoThreads).Within (Orderly twoThreads) (machine twoThreads).init bothCall := by
  refine ⟨orderly_lock _, orderly_draw rfl ?_, orderly_of_calm rfl, orderly_of_calm rfl,
    orderly_of_calm rfl, orderly_lock _, orderly_draw rfl ?_, trivial⟩
  · intro t; cases t <;> decide
  · intro t; cases t <;> decide

/-- The first thread goes on and holds the lock, the second waits. -/
theorem exclusive_single :
    ∃ s, (machine twoThreads).Reach (Orderly twoThreads) s ∧ s.pc false = .held 0 ∧
      s.pc true = .load ⟨1, 0, 0⟩ ∧ Exclusive twoThreads s := by
  have hr : (machine twoThreads).Reach (Orderly twoThreads) (stalled 0) := by
    rw [← exec_bothCall]
    exact Machine.Reach.init.exec bothCall_orderly
  have hr' := hr.exec (l := [.go false]) ⟨orderly_of_calm rfl, trivial⟩
  exact ⟨_, hr', rfl, rfl, exclusive_of_orderly twoThreads hr'⟩

/-- The second thread can wait until its patience has run out. -/
theorem stalled_reach (k : Nat) (hk : k < patience) :
    (machine twoThreads).Reach (Honest twoThreads) (stalled k) := by
  induction k with
  | zero =>
      rw [← exec_bothCall]
      exact Machine.Reach.init.exec ⟨honest_lock _, honest_go _, honest_go _, honest_go _,
        honest_go _, honest_lock _, honest_go _, trivial⟩
  | succ k ih =>
      refine (ih (by omega)).step (honest_go true) ?_
      have hpc : Function.update (stalled k).pc true (.load ⟨1, k + 1, 0⟩) =
        (stalled (k + 1)).pc := by
        funext t; cases t <;> rfl
      show advance twoThreads (stalled k) true = some (stalled (k + 1))
      unfold advance
      simp [stalled, State.goto, Nat.not_le.mpr hk] at hpc ⊢
      exact hpc

/--
A thread whose turn it is, but who has not yet registered as the owner, is taken
for gone: both threads hold the lock, and both are alive.
-/
theorem not_exclusive_unregistered :
    ∃ s, (machine twoThreads).Reach (Honest twoThreads) s ∧ ¬ Exclusive twoThreads s := by
  have hr := (stalled_reach 9999 (by decide)).exec (l := [.go true, .go true, .go true, .go false,
    .go true, .go true, .go true, .go true, .go true]) ⟨honest_go _, honest_go _, honest_go _,
      honest_go _, honest_go _, honest_go _, honest_go _, honest_go _, honest_go _, trivial⟩
  refine ⟨_, hr, fun h => ?_⟩
  cases h false true 0 1 rfl rfl rfl rfl

end SpinLock
