import TMTransport.Broadcast.SubscriptionRegistry

/-!
# The first update, and no more

To fetch the first update, a subscription is added whose callback, when it takes a message, starts
a thread. The thread sleeps, removes the subscription, and sets the value of the future. It learns
the id to remove from a number that the caller shares with it, and that the caller writes when the
component has returned the id. The number is zero until then.

Other clients add and remove their subscriptions meanwhile.
-/

namespace FetchFirst

open ConnectionLocator Framing Interleave Subscription

/-- A thread that the caller's callback has started is known by its place among them. -/
inductive Thread (ω : Type) where
  | other (t : ω)
  | caller
  | spawned (n : Nat)
  deriving DecidableEq

/-- A call, and its callback. -/
structure Fetch (μ ρ : Type) where
  locator : Locator
  topic : TopicSelection
  client : ClientCB
  /-- The value that the callback would give the future. Some messages it passes over. -/
  accept : μ → Option ρ

structure TypedDataWithTopic (T : Type) where
  topic : Bytes
  content : T
  deriving DecidableEq

def fetchFirstUpdateAndDisconnect (locator : Locator) (topic : TopicSelection)
    (client : ClientCB) : Fetch ByteDataWithTopic ByteDataWithTopic where
  locator := locator
  topic := topic
  client := client
  accept := some

def fetchTypedFirstUpdateAndDisconnect {T : Type} (applyInPlace : Bytes → Option T)
    (locator : Locator) (topic : TopicSelection) (predicate : Option (T → Bool))
    (client : ClientCB) : Fetch ByteDataWithTopic (TypedDataWithTopic T) where
  locator := locator
  topic := topic
  client := client
  accept d := do
    let t ← applyInPlace d.content
    if predicate.elim true fun p => p t then some ⟨d.topic, t⟩ else none

inductive Stage where
  | sleeping
  /-- In `multicast_removeSubscriptionClient`, or back from it. -/
  | removing
  | exited
  deriving DecidableEq

structure Spawned (ρ : Type) where
  res : ρ
  stage : Stage

structure State (ω μ ρ : Type) where
  registry : SubscriptionRegistry.State (Thread ω)
  /-- What `multicast_addSubscriptionClient` has returned to the caller. -/
  returned : Option Nat
  /-- Has the caller written it to `*id`? -/
  stored : Bool
  /-- `*id` -/
  id : Nat
  /-- In the closure. The only copy that is called is that of the subscription. -/
  done : Bool
  threads : List (Spawned ρ)
  /-- What the threads have set, one after the other. The future has the first. -/
  values : List ρ
  /-- The messages that the callback has been called with. -/
  delivered : List μ
  /-- What other clients have added and not removed, with the keys of the locators. -/
  others : List (Nat × Locator)

inductive Act (ω μ : Type) where
  | other (a : SubscriptionRegistry.Act ω)
  /-- The caller's call begins. -/
  | addSubscriptionClient (opens : Bool)
  /-- The call adds the client, and returns. -/
  | returns
  /-- The caller writes `*id`. -/
  | store
  /-- A subscription has received a message, and calls the callback with it. -/
  | deliver (p : Nat) (m : μ)
  /-- A spawned thread has slept. It reads `*id`, and calls the component with it. -/
  | wake (n : Nat)
  /-- It goes on in its call. -/
  | goOn (n : Nat)
  /-- The call has returned. The future is ready when the thread exits. -/
  | setValueAtThreadExit (n : Nat)

section Step

variable {ω μ ρ : Type} [DecidableEq ω]

/-- An action of the component by a thread of another client. -/
def byOther : SubscriptionRegistry.Act ω → SubscriptionRegistry.Act (Thread ω)
  | .addSubscriptionClient t locator topic client opens =>
    .addSubscriptionClient (.other t) locator topic client opens
  | .removeSubscriptionClient t id => .removeSubscriptionClient (.other t) id
  | .goOn t => .goOn (.other t)

def State.othersAfter (s : State ω μ ρ) (a : SubscriptionRegistry.Act (Thread ω)) :
    List (Nat × Locator) :=
  (a.joins s.registry).toList ++ s.others.filter fun e => a.removes ≠ some e.1

def callback (c : Fetch μ ρ) (s : State ω μ ρ) (m : μ) : State ω μ ρ :=
  if s.done then { s with delivered := s.delivered ++ [m] }
  else
    match c.accept m with
    | none => { s with delivered := s.delivered ++ [m] }
    | some res =>
      { s with
        delivered := s.delivered ++ [m]
        done := true
        threads := s.threads ++ [⟨res, .sleeping⟩] }

/-- The caller's id is with a subscription that receives messages. -/
def State.listens (s : State ω μ ρ) (p : Nat) : Bool :=
  (s.registry.object p).running && s.returned.any (s.registry.ids p).contains

def State.setStage (s : State ω μ ρ) (n : Nat) (x : Spawned ρ) : State ω μ ρ :=
  { s with threads := s.threads.set n x }

def act (s : State ω μ ρ) (a : SubscriptionRegistry.Act (Thread ω)) : Option (State ω μ ρ) :=
  (SubscriptionRegistry.step .multicast s.registry a).map fun r => { s with registry := r }

def step (c : Fetch μ ρ) (s : State ω μ ρ) : Act ω μ → Option (State ω μ ρ)
  | .other a =>
    -- only the caller and its threads have its id
    if a.removes.isSome && a.removes = s.returned then none
    else (act s (byOther a)).map fun s' => { s' with others := s.othersAfter (byOther a) }
  | .addSubscriptionClient opens =>
    if s.returned = none then
      act s (.addSubscriptionClient .caller c.locator c.topic c.client opens)
    else none
  | .returns =>
    match s.returned, s.registry.phase .caller with
    | none, .adding _ _ _ =>
      (act s (.goOn .caller)).map fun s' => { s' with returned := some s'.registry.counter }
    | _, _ => none
  | .store =>
    match s.returned, s.stored with
    | some id, false => some { s with id := id, stored := true }
    | _, _ => none
  | .deliver p m => if s.listens p then some (callback c s m) else none
  | .wake n =>
    match s.threads[n]? with
    | some ⟨res, .sleeping⟩ =>
      (act s (.removeSubscriptionClient (.spawned n) s.id)).map fun s' =>
        s'.setStage n ⟨res, .removing⟩
    | _ => none
  | .goOn n => act s (.goOn (.spawned n))
  | .setValueAtThreadExit n =>
    match s.threads[n]?, s.registry.phase (.spawned n) with
    | some ⟨res, .removing⟩, .idle =>
      some { s.setStage n ⟨res, .exited⟩ with values := s.values ++ [res] }
    | _, _ => none

def machine (ω : Type) [DecidableEq ω] (c : Fetch μ ρ) : Machine (State ω μ ρ) (Act ω μ) where
  init :=
    { registry := (SubscriptionRegistry.machine (Thread ω) .multicast).init
      returned := none
      stored := false
      id := 0
      done := false
      threads := []
      values := []
      delivered := []
      others := [] }
  step := step c

/-- What the future has. -/
def State.future (s : State ω μ ρ) : Option ρ := s.values.head?

/-- The message that counts. -/
def State.first (c : Fetch μ ρ) (s : State ω μ ρ) : Option ρ := s.delivered.findSome? c.accept

/-- How far the first spawned thread is from its exit. -/
def State.distance (s : State ω μ ρ) : Nat :=
  match s.threads[0]? with
  | none => 5
  | some x =>
    match x.stage with
    | .sleeping => 4
    | .removing =>
      match s.registry.phase (.spawned 0) with
      | .removing _ _ => 3
      | .stopping _ => 2
      | .adding _ _ _ => 2
      | .idle => 1
    | .exited => 0

/-- The steps that are left to the caller and to that thread. -/
def State.remaining (s : State ω μ ρ) : Nat := (if s.stored then 0 else 1) + s.distance

end Step

variable {ω μ ρ : Type}

/-- The client is with a running subscription, which is in the map. -/
def State.kept (s : State ω μ ρ) (id : Nat) (k : Locator) : Prop :=
  ∃ p, s.registry.subscriptions k = some p ∧ (s.registry.object p).locator = k ∧
    (s.registry.object p).running = true ∧ id ∈ s.registry.ids p

structure Fetched [DecidableEq ω] (c : Fetch μ ρ) (s : State ω μ ρ) : Prop where
  /-- Nothing is set but the first message, and that once. -/
  once : s.values = [] ∨ ∃ r, s.first c = some r ∧ s.values = [r]
  /-- A first message is set, or the caller or its thread can take a step towards that. -/
  progress : ∀ r, s.first c = some r → s.values = [r] ∨
    ∃ a ∈ ([.store, .wake 0, .goOn 0, .setValueAtThreadExit 0] : List (Act ω μ)),
      ∃ s', step c s a = some s' ∧ s'.remaining < s.remaining
  /-- No step whatever takes them further away. -/
  steady : ∀ a s', step c s a = some s' → s'.remaining ≤ s.remaining
  /-- No message is missed before that. -/
  listening : s.first c = none → ∀ id, s.returned = some id → ∃ k, s.kept id k
  /-- When the future has a value, the subscription is gone. -/
  removed : s.future ≠ none → ∃ id, s.returned = some id ∧ (∀ k, (id, k) ∉ s.registry.live) ∧
    ∀ k p, s.registry.subscriptions k = some p → id ∉ s.registry.ids p
  /-- No other client is removed. -/
  others : ∀ e ∈ s.others, s.kept e.1 e.2

/-- The component is used as its own results have it. -/
def Orderly (s : State ω μ ρ) : Act ω μ → Prop
  | .other a => SubscriptionRegistry.Orderly s.registry (byOther a)
  | .returns => SubscriptionRegistry.Orderly s.registry (.goOn .caller)
  | .goOn n => SubscriptionRegistry.Orderly s.registry (.goOn (.spawned n))
  | _ => True

/-- And no thread wakes before the caller has written `*id`. -/
def Stored (s : State ω μ ρ) (a : Act ω μ) : Prop :=
  Orderly s a ∧ ∀ n, a = .wake n → s.stored = true

/-! ## The invariant -/

/-- What holds while the guard is kept. -/
structure Linked (c : Fetch μ ρ) (s : State ω μ ρ) : Prop where
  inv : SubscriptionRegistry.Inv s.registry
  othersLive : ∀ e ∈ s.others, e ∈ s.registry.live ∧ s.returned ≠ some e.1
  /-- What is live otherwise is the caller's, until its thread removes it. -/
  live : ∀ e ∈ s.registry.live, e ∈ s.others ∨
    s.returned = some e.1 ∧ ∀ x ∈ s.threads, x.stage = .sleeping
  listening : ∀ id, s.returned = some id → (∀ x ∈ s.threads, x.stage = .sleeping) →
    ∃ k, (id, k) ∈ s.registry.live
  old : ∀ id, s.returned = some id → id ≤ s.registry.counter
  stored : s.stored = true → s.returned = some s.id
  /-- Only a spawned thread removes the caller's client. -/
  removing : ∀ t p id, s.registry.phase t = .removing p id → s.returned = some id →
    ∃ n, t = .spawned n
  adding : ∀ n p topic client, s.registry.phase (.spawned n) ≠ .adding p topic client
  idle : ∀ n, (∀ x, s.threads[n]? = some x → x.stage ≠ .removing) →
    s.registry.phase (.spawned n) = .idle
  delivered : s.returned = none → s.delivered = []
  done : s.done = (s.first c).isSome
  threads : s.threads.map Spawned.res = (s.first c).toList
  values : s.values = (s.threads.filter fun x => x.stage = .exited).map Spawned.res

section Invariant

variable [DecidableEq ω] {c : Fetch μ ρ} {s s' : State ω μ ρ}

theorem Linked.init : Linked c (machine ω c).init where
  inv := SubscriptionRegistry.Inv.init (c := .multicast)
  othersLive := fun _ h => (nomatch h)
  live := fun _ h => (nomatch h)
  listening := fun _ h => (nomatch h)
  old := fun _ h => (nomatch h)
  stored := fun h => (nomatch h)
  removing := fun _ _ _ h => (nomatch h)
  adding := fun _ _ _ _ h => (nomatch h)
  idle := fun _ _ => rfl
  delivered := fun _ => rfl
  done := rfl
  threads := rfl
  values := rfl

omit [DecidableEq ω] in
/-- There is one thread at most. -/
theorem Linked.only (hi : Linked c s) {n : Nat} {x : Spawned ρ} (h : s.threads[n]? = some x) :
    n = 0 ∧ s.threads = [x] ∧ s.first c = some x.res := by
  have hmap := hi.threads
  cases hf : s.first c with
  | none =>
      rw [hf] at hmap
      rw [List.map_eq_nil_iff.mp hmap] at h
      cases h
  | some r =>
      rw [hf] at hmap
      obtain ⟨y, hy, hr⟩ := List.map_eq_singleton_iff.mp hmap
      rw [hy] at h ⊢
      cases n with
      | zero =>
          obtain rfl : y = x := Option.some.inj h
          exact ⟨rfl, rfl, congrArg some hr.symm⟩
      | succ n => cases h

theorem act_eq_some {a : SubscriptionRegistry.Act (Thread ω)} (h : act s a = some s') :
    ∃ r, SubscriptionRegistry.step .multicast s.registry a = some r ∧
      s' = { s with registry := r } := by
  obtain ⟨r, hr, he⟩ := Option.map_eq_some_iff.mp h
  exact ⟨r, hr, he.symm⟩

omit [DecidableEq ω] in
theorem byOther_thread (a : SubscriptionRegistry.Act ω) : ∃ t, (byOther a).thread = .other t := by
  cases a with
  | addSubscriptionClient t | removeSubscriptionClient t | goOn t => exact ⟨t, rfl⟩

omit [DecidableEq ω] in
theorem byOther_removes (a : SubscriptionRegistry.Act ω) : (byOther a).removes = a.removes := by
  cases a with
  | addSubscriptionClient | removeSubscriptionClient | goOn => rfl

/-- An action by which no client comes or goes. -/
theorem Linked.act (hi : Linked c s) {a : SubscriptionRegistry.Act (Thread ω)}
    {r : SubscriptionRegistry.State (Thread ω)}
    (h : SubscriptionRegistry.Effect .multicast s.registry a r) (hinv : SubscriptionRegistry.Inv r)
    (hg : SubscriptionRegistry.Orderly s.registry a)
    (hjoins : a.joins s.registry = none) (hremoves : a.removes = none)
    (hadding : ∀ n p topic client, r.phase (.spawned n) ≠ .adding p topic client)
    (hidle : ∀ n, (∀ x, s.threads[n]? = some x → x.stage ≠ .removing) →
      r.phase (.spawned n) = .idle) : Linked c { s with registry := r } := by
  have hlive : ∀ e, e ∈ r.live ↔ e ∈ s.registry.live := by
    intro e
    rw [h.mem_live_iff hi.inv, hjoins, hremoves]
    simp
  have hcounter : r.counter = s.registry.counter := by
    rcases h.counter hg with ⟨-, h1⟩ | ⟨l, h1, -⟩
    · exact h1
    · rw [hjoins] at h1
      cases h1
  exact {
    inv := hinv
    othersLive := fun e he => ⟨(hlive e).mpr (hi.othersLive e he).1, (hi.othersLive e he).2⟩
    live := fun e he => hi.live e ((hlive e).mp he)
    listening := fun id hid hall => by
      obtain ⟨k, hk⟩ := hi.listening id hid hall
      exact ⟨k, (hlive _).mpr hk⟩
    old := fun id hid => (hi.old id hid).trans hcounter.ge
    stored := hi.stored
    removing := fun t p id ht hid => by
      rcases h.removing ht with h1 | rfl
      · exact hi.removing t p id h1 hid
      · cases hremoves
    adding := hadding
    idle := hidle
    delivered := hi.delivered
    done := hi.done
    threads := hi.threads
    values := hi.values }

/-- Another client knows only ids of its own. -/
theorem Linked.other (hi : Linked c s) {a : SubscriptionRegistry.Act ω}
    {r : SubscriptionRegistry.State (Thread ω)}
    (h : SubscriptionRegistry.Effect .multicast s.registry (byOther a) r)
    (hinv : SubscriptionRegistry.Inv r)
    (hg : SubscriptionRegistry.Orderly s.registry (byOther a))
    (hown : ∀ id, s.returned = some id → a.removes ≠ some id) :
    Linked c { s with registry := r, others := s.othersAfter (byOther a) } := by
  have hlive : ∀ {e}, e ∈ r.live ↔ (byOther a).joins s.registry = some e ∨
      e ∈ s.registry.live ∧ a.removes ≠ some e.1 := by
    intro e
    rw [h.mem_live_iff hi.inv, byOther_removes]
  have hothers : ∀ {e}, e ∈ s.othersAfter (byOther a) ↔ (byOther a).joins s.registry = some e ∨
      e ∈ s.others ∧ a.removes ≠ some e.1 := by
    intro e
    simp [State.othersAfter, byOther_removes]
  have hphase : ∀ n, r.phase (.spawned n) = s.registry.phase (.spawned n) := by
    intro n
    obtain ⟨t', ht'⟩ := byOther_thread a
    refine h.phase_of_ne ?_
    rw [ht']
    intro he
    cases he
  exact {
    inv := hinv
    othersLive := fun e he => by
      rcases hothers.mp he with h1 | ⟨h1, h2⟩
      · refine ⟨hlive.mpr (.inl h1), fun hid => ?_⟩
        -- the new id is greater than the caller's
        rcases h.counter hg with ⟨h2, -⟩ | ⟨l, h2, -⟩
        · rw [h2] at h1
          cases h1
        · rw [h2] at h1
          cases h1
          have := hi.old _ hid
          simp only at this
          omega
      · exact ⟨hlive.mpr (.inr ⟨(hi.othersLive e h1).1, h2⟩), (hi.othersLive e h1).2⟩
    live := fun e he => by
      rcases hlive.mp he with h1 | ⟨h1, h2⟩
      · exact .inl (hothers.mpr (.inl h1))
      · exact (hi.live e h1).imp_left fun h3 => hothers.mpr (.inr ⟨h3, h2⟩)
    listening := fun id hid hall => by
      obtain ⟨k, hk⟩ := hi.listening id hid hall
      exact ⟨k, hlive.mpr (.inr ⟨hk, hown id hid⟩)⟩
    old := fun id hid => by
      have := hi.old id hid
      rcases h.counter hg with ⟨-, h1⟩ | ⟨l, -, h1⟩
      · rwa [h1]
      · rw [h1]
        omega
    stored := hi.stored
    removing := fun t p id ht hid => by
      rcases h.removing ht with h1 | h1
      · exact hi.removing t p id h1 hid
      · refine absurd ?_ (hown id hid)
        rw [← byOther_removes, h1]
        rfl
    adding := fun n p topic client hn =>
      hi.adding n p topic client ((hphase n).symm.trans hn)
    idle := fun n hn => (hphase n).trans (hi.idle n hn)
    delivered := hi.delivered
    done := hi.done
    threads := hi.threads
    values := hi.values }

/-- The caller's client comes to its subscription. -/
theorem Linked.returns (hi : Linked c s) {r : SubscriptionRegistry.State (Thread ω)} {p : Nat}
    {topic : TopicSelection} {client : ClientCB}
    (h : SubscriptionRegistry.Effect .multicast s.registry (.goOn .caller) r)
    (hinv : SubscriptionRegistry.Inv r)
    (hg : SubscriptionRegistry.Orderly s.registry (.goOn .caller)) (hnone : s.returned = none)
    (ht : s.registry.phase .caller = .adding p topic client) :
    Linked c { s with registry := r, returned := some r.counter } := by
  have hfirst : s.first c = none := by rw [State.first, hi.delivered hnone, List.findSome?_nil]
  have hthreads : s.threads = [] := by
    have := hi.threads
    rw [hfirst] at this
    exact List.map_eq_nil_iff.mp this
  obtain ⟨l, hjoins, hcounter⟩ : ∃ l, SubscriptionRegistry.Act.joins s.registry (.goOn .caller) =
      some (s.registry.counter + 1, l) ∧ r.counter = s.registry.counter + 1 := by
    rcases h.counter hg with ⟨h1, -⟩ | h1
    · simp [SubscriptionRegistry.Act.joins, ht] at h1
    · exact h1
  have hlive : ∀ {e}, e ∈ r.live ↔ (s.registry.counter + 1, l) = e ∨ e ∈ s.registry.live := by
    intro e
    rw [h.mem_live_iff hi.inv, hjoins]
    simp [SubscriptionRegistry.Act.removes]
  have hphase : ∀ n, r.phase (.spawned n) = s.registry.phase (.spawned n) := by
    intro n
    refine h.phase_of_ne fun he => ?_
    cases he
  exact {
    inv := hinv
    othersLive := fun e he => by
      obtain ⟨h1, -⟩ := hi.othersLive e he
      refine ⟨hlive.mpr (.inr h1), fun hid => ?_⟩
      have hle := hi.inv.old e h1
      have := Option.some.inj hid
      omega
    live := fun e he => by
      rcases hlive.mp he with rfl | h1
      · refine .inr ⟨congrArg some hcounter, fun x hx => ?_⟩
        rw [hthreads] at hx
        cases hx
      · rcases hi.live e h1 with h2 | ⟨h2, -⟩
        · exact .inl h2
        · rw [hnone] at h2
          cases h2
    listening := fun id hid _ => ⟨l, hlive.mpr (.inl (by
      rw [← Option.some.inj hid, hcounter]))⟩
    old := fun id hid => (Option.some.inj hid).ge
    stored := fun hs => by
      have := hi.stored hs
      rw [hnone] at this
      cases this
    removing := fun t p id hp hid => by
      rcases h.removing hp with h1 | h1
      · -- what is being removed is older
        have hle := (hi.inv.forgotten t p id h1).1
        have := Option.some.inj hid
        omega
      · cases h1
    adding := fun n p topic client hn =>
      hi.adding n p topic client ((hphase n).symm.trans hn)
    idle := fun n hn => (hphase n).trans (hi.idle n hn)
    delivered := fun h => by cases h
    done := hi.done
    threads := hi.threads
    values := hi.values }

omit [DecidableEq ω] in
theorem Linked.store (hi : Linked c s) {id : Nat} (hid : s.returned = some id) :
    Linked c { s with id := id, stored := true } :=
  { hi with stored := fun _ => hid }

omit [DecidableEq ω] in
/-- The callback starts a thread at the first message that it does not pass over. -/
theorem Linked.callback (hi : Linked c s) (hid : s.returned ≠ none) (m : μ) :
    Linked c (callback c s m) := by
  have hdelivered : s.returned = none → s.delivered ++ [m] = [] := fun h => absurd h hid
  rw [FetchFirst.callback]
  split
  · next hdone =>
    obtain ⟨r, hr⟩ := Option.isSome_iff_exists.mp (hi.done ▸ hdone)
    have hfirst : (s.delivered ++ [m]).findSome? c.accept = s.first c := by
      rw [List.findSome?_append, show s.delivered.findSome? c.accept = some r from hr, hr]
      rfl
    exact { hi with
      delivered := hdelivered
      done := hi.done.trans (congrArg _ hfirst.symm)
      threads := hi.threads.trans (congrArg _ hfirst.symm) }
  · next hdone =>
    have hnone : s.first c = none := by
      rw [hi.done] at hdone
      simpa using hdone
    have hfirst : (s.delivered ++ [m]).findSome? c.accept = c.accept m := by
      rw [List.findSome?_append, show s.delivered.findSome? c.accept = none from hnone]
      simp
    have hthreads : s.threads = [] := by
      have := hi.threads
      rw [hnone] at this
      exact List.map_eq_nil_iff.mp this
    split
    · next hm =>
      have he : (s.delivered ++ [m]).findSome? c.accept = s.first c := by rw [hfirst, hm, hnone]
      exact { hi with
        delivered := hdelivered
        done := hi.done.trans (congrArg _ he.symm)
        threads := hi.threads.trans (congrArg _ he.symm) }
    · next res hm =>
      exact { hi with
        live := fun e he => (hi.live e he).imp_right fun h => ⟨h.1, by simp [hthreads]⟩
        listening := fun id h _ => hi.listening id h (by simp [hthreads])
        idle := fun n _ => hi.idle n (by simp [hthreads])
        delivered := hdelivered
        done := (congrArg Option.isSome (hfirst.trans hm)).symm
        threads := by
          rw [hthreads, State.first, hfirst, hm]
          rfl
        values := by
          rw [hi.values, hthreads]
          rfl }

/-- The thread forgets the caller's client, and nothing else. -/
theorem Linked.wake (hi : Linked c s) {n : Nat} {res : ρ}
    {r : SubscriptionRegistry.State (Thread ω)}
    (h : SubscriptionRegistry.Effect .multicast s.registry
      (.removeSubscriptionClient (.spawned n) s.id) r)
    (hinv : SubscriptionRegistry.Inv r)
    (hg : SubscriptionRegistry.Orderly s.registry (.removeSubscriptionClient (.spawned n) s.id))
    (hx : s.threads[n]? = some ⟨res, .sleeping⟩) (hstored : s.stored = true) :
    Linked c ({ s with registry := r }.setStage n ⟨res, .removing⟩) := by
  have hid := hi.stored hstored
  obtain ⟨rfl, hthreads, -⟩ := hi.only hx
  have hthreads' : s.threads.set 0 ⟨res, .removing⟩ = [⟨res, .removing⟩] := by
    rw [hthreads]
    rfl
  have hlive : ∀ {e}, e ∈ r.live ↔ e ∈ s.registry.live ∧ s.id ≠ e.1 := by
    intro e
    rw [h.mem_live_iff hi.inv]
    simp [SubscriptionRegistry.Act.joins, SubscriptionRegistry.Act.removes]
  exact {
    inv := hinv
    othersLive := fun e he => by
      obtain ⟨h1, h2⟩ := hi.othersLive e he
      exact ⟨hlive.mpr ⟨h1, fun h3 => h2 (h3 ▸ hid)⟩, h2⟩
    live := fun e he => by
      obtain ⟨h1, h2⟩ := hlive.mp he
      rcases hi.live e h1 with h3 | ⟨h3, -⟩
      · exact .inl h3
      · exact absurd (Option.some.inj (hid.symm.trans h3)) h2
    listening := fun id _ hall => by
      rw [State.setStage, hthreads'] at hall
      cases hall _ (List.mem_singleton_self _)
    old := fun id hid => by
      rcases h.counter hg with ⟨-, h1⟩ | ⟨l, h1, -⟩
      · exact (hi.old id hid).trans h1.ge
      · cases h1
    stored := hi.stored
    removing := fun t p id ht hid => by
      rcases h.removing ht with h1 | h1
      · exact hi.removing t p id h1 hid
      · cases h1
        exact ⟨0, rfl⟩
    adding := fun n p topic client hn => by
      rcases h.adding hn with h1 | ⟨_, _, _, _, h1⟩
      · exact hi.adding n p topic client h1
      · cases h1
    idle := fun n hn => by
      have hne : n ≠ 0 := by
        intro he
        refine hn ⟨res, .removing⟩ ?_ rfl
        rw [he, State.setStage, hthreads']
        rfl
      refine (h.phase_of_ne fun he => hne ?_).trans (hi.idle n fun x hx => ?_)
      · cases he
        rfl
      · rw [hthreads] at hx
        exact absurd (List.getElem?_eq_some_iff.mp hx).1 (by simpa using hne)
    delivered := hi.delivered
    done := hi.done
    threads := by
      have := hi.threads
      rw [hthreads] at this
      rw [State.setStage, hthreads']
      exact this
    values := by
      have := hi.values
      rw [hthreads] at this
      rw [State.setStage, hthreads']
      exact this }

omit [DecidableEq ω] in
theorem Linked.setValueAtThreadExit (hi : Linked c s) {n : Nat} {res : ρ}
    (hx : s.threads[n]? = some ⟨res, .removing⟩) (hidle : s.registry.phase (.spawned n) = .idle) :
    Linked c { s.setStage n ⟨res, .exited⟩ with values := s.values ++ [res] } := by
  obtain ⟨rfl, hthreads, -⟩ := hi.only hx
  have hthreads' : s.threads.set 0 ⟨res, .exited⟩ = [⟨res, .exited⟩] := by
    rw [hthreads]
    rfl
  have hall : ¬ ∀ x ∈ s.threads, x.stage = .sleeping := by
    intro h
    cases h _ (List.mem_of_getElem? hx)
  have hall' : ¬ ∀ x ∈ s.threads.set 0 ⟨res, .exited⟩, x.stage = .sleeping := by
    intro h
    rw [hthreads'] at h
    cases h _ (List.mem_singleton_self _)
  exact { hi with
    live := fun e he => (hi.live e he).imp_right fun h => absurd h.2 hall
    listening := fun id _ h => absurd h hall'
    idle := fun n hn => by
      by_cases hne : n = 0
      · rw [hne]
        exact hidle
      · refine hi.idle n fun x hx => ?_
        rw [hthreads] at hx
        exact absurd (List.getElem?_eq_some_iff.mp hx).1 (by simpa using hne)
    threads := by
      have := hi.threads
      rw [hthreads] at this
      rw [State.setStage, hthreads']
      exact this
    values := by
      have := hi.values
      rw [hthreads] at this
      rw [State.setStage, hthreads', this]
      rfl }

theorem linked_step {a : Act ω μ} (hi : Linked c s) (hg : Stored s a)
    (h : step c s a = some s') : Linked c s' := by
  obtain ⟨hg, hstored⟩ := hg
  -- an action of the component keeps the invariant of the component
  have hact : ∀ {b s₁}, FetchFirst.act s b = some s₁ → SubscriptionRegistry.Orderly s.registry b →
      ∃ r, SubscriptionRegistry.Effect .multicast s.registry b r ∧ SubscriptionRegistry.Inv r ∧
        s₁ = { s with registry := r } := by
    intro b s₁ hs hb
    obtain ⟨r, hr, he⟩ := act_eq_some hs
    exact ⟨r, SubscriptionRegistry.effect_of_step hr,
      SubscriptionRegistry.inv_step hi.inv hb hr, he⟩
  cases a with
  | other a =>
      simp only [step] at h
      split at h
      · cases h
      · next hown =>
        obtain ⟨s₁, hs₁, rfl⟩ := Option.map_eq_some_iff.mp h
        obtain ⟨r, hr, hinv, rfl⟩ := hact hs₁ hg
        refine hi.other hr hinv hg fun id hid hrm => hown ?_
        rw [hrm, hid]
        simp
  | addSubscriptionClient opens =>
      simp only [step] at h
      split at h
      · next hnone =>
        obtain ⟨r, hr, hinv, rfl⟩ := hact h trivial
        refine hi.act hr hinv trivial rfl rfl ?_ ?_
        · intro n p topic client hn
          rcases hr.adding hn with h1 | ⟨_, _, _, _, h1⟩
          · exact hi.adding n p topic client h1
          · cases h1
        · intro n hn
          refine (hr.phase_of_ne fun he => ?_).trans (hi.idle n hn)
          cases he
      · cases h
  | returns =>
      simp only [step] at h
      split at h
      · next hnone ht =>
        obtain ⟨s₁, hs₁, rfl⟩ := Option.map_eq_some_iff.mp h
        obtain ⟨r, hr, hinv, rfl⟩ := hact hs₁ hg
        exact hi.returns hr hinv hg hnone ht
      · cases h
  | store =>
      simp only [step] at h
      split at h
      · next hid _ =>
        obtain rfl := Option.some.inj h
        exact hi.store hid
      · cases h
  | deliver p m =>
      obtain ⟨hp, rfl⟩ := of_guarded h
      refine hi.callback (fun hnone => ?_) m
      rw [State.listens, hnone] at hp
      simp at hp
  | wake n =>
      simp only [step] at h
      split at h
      · next hx =>
        obtain ⟨s₁, hs₁, rfl⟩ := Option.map_eq_some_iff.mp h
        obtain ⟨r, hr, hinv, rfl⟩ := hact hs₁ trivial
        exact hi.wake hr hinv trivial hx (hstored n rfl)
      · cases h
  | goOn n =>
      obtain ⟨r, hr, hinv, rfl⟩ := hact h hg
      have hjoins : SubscriptionRegistry.Act.joins s.registry (.goOn (.spawned n)) = none := by
        simp only [SubscriptionRegistry.Act.joins]
        split
        · next ht => exact absurd ht (hi.adding _ _ _ _)
        · rfl
      refine hi.act hr hinv hg hjoins rfl ?_ ?_
      · intro n' p topic client hn
        rcases hr.adding hn with h1 | ⟨_, _, _, _, h1⟩
        · exact hi.adding n' p topic client h1
        · cases h1
      · intro n' hn
        have hidle := hi.idle n' hn
        by_cases he : n' = n
        · -- a thread that is not in its call cannot go on
          subst he
          simp [step, FetchFirst.act, SubscriptionRegistry.step, hidle] at h
        · refine (hr.phase_of_ne fun h1 => he ?_).trans hidle
          cases h1
          rfl
  | setValueAtThreadExit n =>
      simp only [step] at h
      split at h
      · next hx hidle =>
        obtain rfl := Option.some.inj h
        exact hi.setValueAtThreadExit hx hidle
      · cases h

/-! ## The steps that are left -/

omit [DecidableEq ω] in
theorem distance_le (hthreads : s'.threads[0]? = s.threads[0]?)
    (hphase : s'.registry.phase (.spawned 0) = s.registry.phase (.spawned 0)) :
    s'.distance ≤ s.distance := by
  rw [State.distance, State.distance, hthreads, hphase]

omit [DecidableEq ω] in
theorem distance_of_sleeping {res : ρ} (h : s.threads[0]? = some ⟨res, .sleeping⟩) :
    s.distance = 4 := by
  rw [State.distance, h]

omit [DecidableEq ω] in
theorem distance_of_exited {res : ρ} (h : s.threads[0]? = some ⟨res, .exited⟩) :
    s.distance = 0 := by
  rw [State.distance, h]

omit [DecidableEq ω] in
theorem distance_of_removing {res : ρ} (h : s.threads[0]? = some ⟨res, .removing⟩) :
    1 ≤ s.distance ∧ s.distance ≤ 3 := by
  rw [State.distance, h]
  simp only
  split
  · omega
  · omega
  · omega
  · omega

/-- A thread that goes on in its call comes nearer to its end. -/
theorem distance_goOn {r : SubscriptionRegistry.State (Thread ω)}
    (h : SubscriptionRegistry.Effect .multicast s.registry (.goOn (.spawned 0)) r) :
    ({ s with registry := r } : State ω μ ρ).distance ≤ s.distance ∧
      ∀ res, s.threads[0]? = some ⟨res, .removing⟩ →
        ({ s with registry := r } : State ω μ ρ).distance < s.distance := by
  have hlt : ∀ res, s.threads[0]? = some ⟨res, .removing⟩ →
      ({ s with registry := r } : State ω μ ρ).distance < s.distance := by
    intro res hx
    rw [State.distance, State.distance, hx]
    cases h with
    | added ht => simp [ht, SubscriptionRegistry.addSubscription]
    | removed ht => simp [ht, SubscriptionRegistry.removeSubscription]
    | stopped ht | kept ht => simp [ht]
  refine ⟨?_, hlt⟩
  cases hx : s.threads[0]? with
  | none =>
      rw [State.distance, State.distance, hx]
  | some x =>
      obtain ⟨res, stage⟩ := x
      cases stage with
      | sleeping | exited => rw [State.distance, State.distance, hx]
      | removing => exact (hlt res hx).le

omit [DecidableEq ω] in
theorem distance_callback_le (m : μ) : (callback c s m).distance ≤ s.distance := by
  rw [callback]
  split
  · exact Nat.le_refl _
  · split
    · exact Nat.le_refl _
    · next res hm =>
      cases hx : s.threads with
      | nil => simp [State.distance, hx]
      | cons x l =>
          refine distance_le ?_ rfl
          rw [hx]
          rfl

theorem remaining_step_le {a : Act ω μ} (h : step c s a = some s') :
    s'.remaining ≤ s.remaining := by
  -- an action by another thread than the first that was spawned
  have hact : ∀ {b s₁}, FetchFirst.act s b = some s₁ → b.thread ≠ .spawned 0 →
      s₁.stored = s.stored ∧ s₁.threads = s.threads ∧
        s₁.registry.phase (.spawned 0) = s.registry.phase (.spawned 0) := by
    intro b s₁ hs hb
    obtain ⟨r, hr, rfl⟩ := act_eq_some hs
    exact ⟨rfl, rfl, (SubscriptionRegistry.effect_of_step hr).phase_of_ne hb.symm⟩
  have hsame : ∀ {s₁ : State ω μ ρ}, s₁.stored = s.stored → s₁.distance ≤ s.distance →
      s₁.remaining ≤ s.remaining := by
    intro s₁ h1 h2
    rw [State.remaining, State.remaining, h1]
    omega
  cases a with
  | other a =>
      simp only [step] at h
      split at h
      · cases h
      · obtain ⟨s₁, hs₁, rfl⟩ := Option.map_eq_some_iff.mp h
        obtain ⟨t, ht⟩ := byOther_thread a
        obtain ⟨h1, h2, h3⟩ := hact hs₁ fun he => by
          rw [ht] at he
          cases he
        exact hsame h1 (distance_le (congrArg (·[0]?) h2) h3)
  | addSubscriptionClient opens =>
      simp only [step] at h
      split at h
      · obtain ⟨h1, h2, h3⟩ := hact h fun he => by cases he
        exact hsame h1 (distance_le (congrArg (·[0]?) h2) h3)
      · cases h
  | returns =>
      simp only [step] at h
      split at h
      · obtain ⟨s₁, hs₁, rfl⟩ := Option.map_eq_some_iff.mp h
        obtain ⟨h1, h2, h3⟩ := hact hs₁ fun he => by cases he
        exact hsame h1 (distance_le (congrArg (·[0]?) h2) h3)
      · cases h
  | store =>
      simp only [step] at h
      split at h
      · next hs =>
        obtain rfl := Option.some.inj h
        rw [State.remaining, State.remaining, hs]
        exact Nat.add_le_add (Nat.zero_le _) (distance_le rfl rfl)
      · cases h
  | deliver p m =>
      obtain ⟨-, rfl⟩ := of_guarded h
      refine hsame ?_ (distance_callback_le m)
      rw [callback]
      split
      · rfl
      · split
        · rfl
        · rfl
  | wake n =>
      simp only [step] at h
      split at h
      · next res hx =>
        obtain ⟨s₁, hs₁, rfl⟩ := Option.map_eq_some_iff.mp h
        cases n with
        | zero =>
            obtain ⟨r, -, rfl⟩ := act_eq_some hs₁
            refine hsame rfl ?_
            rw [distance_of_sleeping hx]
            have hlt := (List.getElem?_eq_some_iff.mp hx).1
            have hx' : (({ s with registry := r } : State ω μ ρ).setStage 0
                ⟨res, .removing⟩).threads[0]? = some ⟨res, .removing⟩ := by
              simp [State.setStage, hlt]
            have := (distance_of_removing hx').2
            omega
        | succ n =>
            obtain ⟨h1, h2, h3⟩ := hact hs₁ fun he => by cases he
            refine hsame h1 (distance_le ?_ h3)
            rw [State.setStage, h2, List.getElem?_set_ne (Nat.succ_ne_zero n)]
      · cases h
  | goOn n =>
      cases n with
      | zero =>
          obtain ⟨r, hr, rfl⟩ := act_eq_some h
          exact hsame rfl (distance_goOn (SubscriptionRegistry.effect_of_step hr)).1
      | succ n =>
          obtain ⟨h1, h2, h3⟩ := hact h fun he => by cases he
          exact hsame h1 (distance_le (congrArg (·[0]?) h2) h3)
  | setValueAtThreadExit n =>
      simp only [step] at h
      split at h
      · next res hx _ =>
        obtain rfl := Option.some.inj h
        refine hsame rfl ?_
        cases n with
        | zero =>
            have hlt := (List.getElem?_eq_some_iff.mp hx).1
            have hx' : (s.setStage 0 ⟨res, .exited⟩).threads[0]? = some ⟨res, .exited⟩ := by
              simp [State.setStage, hlt]
            exact (distance_le rfl rfl).trans
              ((distance_of_exited hx').le.trans (Nat.zero_le _))
        | succ n =>
            refine distance_le ?_ rfl
            exact List.getElem?_set_ne (Nat.succ_ne_zero n)
      · cases h

theorem Linked.progress (hi : Linked c s) {r : ρ} (hr : s.first c = some r) :
    s.values = [r] ∨ ∃ a ∈ ([.store, .wake 0, .goOn 0, .setValueAtThreadExit 0] : List (Act ω μ)),
      ∃ s', step c s a = some s' ∧ s'.remaining < s.remaining := by
  have hmap := hi.threads
  rw [hr] at hmap
  obtain ⟨⟨res, stage⟩, hthreads, rfl⟩ := List.map_eq_singleton_iff.mp hmap
  have hx : s.threads[0]? = some ⟨res, stage⟩ := by
    rw [hthreads]
    rfl
  have hreturned : ∃ id, s.returned = some id := by
    cases hid : s.returned with
    | some id => exact ⟨id, rfl⟩
    | none =>
        rw [State.first, hi.delivered hid] at hr
        cases hr
  cases stage with
  | exited =>
      refine .inl ?_
      rw [hi.values, hthreads]
      rfl
  | sleeping =>
      refine .inr ?_
      cases hs : s.stored with
      | false =>
          obtain ⟨id, hid⟩ := hreturned
          refine ⟨.store, by simp, { s with id := id, stored := true }, ?_, ?_⟩
          · simp only [step, hid, hs]
          · rw [State.remaining, State.remaining, hs]
            exact Nat.add_lt_add_of_lt_of_le Nat.zero_lt_one (distance_le rfl rfl)
      | true =>
          have hidle := hi.idle 0 fun x hx' => by
            obtain rfl := Option.some.inj (hx.symm.trans hx')
            exact Stage.noConfusion
          let r := SubscriptionRegistry.removeSubscriptionClient s.registry (.spawned 0) s.id
          let s₁ : State ω μ ρ := { s with registry := r }
          refine ⟨.wake 0, by simp, s₁.setStage 0 ⟨res, .removing⟩, ?_, ?_⟩
          · simp only [step, hx, FetchFirst.act, SubscriptionRegistry.step, hidle]
            rfl
          · have hx' : (s₁.setStage 0 ⟨res, .removing⟩).threads[0]? = some ⟨res, .removing⟩ := by
              simp [s₁, State.setStage, hthreads]
            have h1 := (distance_of_removing hx').2
            have h2 := distance_of_sleeping hx
            have h3 : (s₁.setStage 0 ⟨res, .removing⟩).stored = s.stored := rfl
            rw [State.remaining, State.remaining, h3]
            omega
  | removing =>
      refine .inr ?_
      by_cases hidle : s.registry.phase (.spawned 0) = .idle
      · let s₁ : State ω μ ρ := { s.setStage 0 ⟨res, .exited⟩ with values := s.values ++ [res] }
        refine ⟨.setValueAtThreadExit 0, by simp, s₁, by simp only [step, hx, hidle, s₁], ?_⟩
        have hx' : s₁.threads[0]? = some ⟨res, .exited⟩ := by
          simp [s₁, State.setStage, hthreads]
        have h1 := (distance_of_removing hx).1
        have h2 := distance_of_exited hx'
        have h3 : s₁.stored = s.stored := rfl
        rw [State.remaining, State.remaining, h3]
        omega
      · obtain ⟨r, hstep⟩ :
            ∃ r, SubscriptionRegistry.step .multicast s.registry (.goOn (.spawned 0)) = some r := by
          cases ht : s.registry.phase (.spawned 0) with
          | idle => exact absurd ht hidle
          | adding | removing | stopping =>
              rw [SubscriptionRegistry.step, ht]
              exact ⟨_, rfl⟩
        refine ⟨.goOn 0, by simp, { s with registry := r }, ?_, ?_⟩
        · simp only [step, FetchFirst.act, hstep, Option.map_some]
        · exact Nat.add_lt_add_left
            ((distance_goOn (SubscriptionRegistry.effect_of_step hstep)).2 res hx) _

theorem Linked.fetched (hi : Linked c s) : Fetched c s where
  once := by
    cases hf : s.first c with
    | none =>
        have hmap := hi.threads
        rw [hf] at hmap
        refine .inl ?_
        rw [hi.values, List.map_eq_nil_iff.mp hmap]
        rfl
    | some r =>
        have hmap := hi.threads
        rw [hf] at hmap
        obtain ⟨x, hx, rfl⟩ := List.map_eq_singleton_iff.mp hmap
        rw [hi.values, hx]
        by_cases he : x.stage = .exited
        · exact .inr ⟨x.res, rfl, by simp [he]⟩
        · exact .inl (by simp [he])
  progress := fun r hr => hi.progress hr
  steady := fun a s' h => remaining_step_le h
  listening := fun hf id hid => by
    have hmap := hi.threads
    rw [hf] at hmap
    obtain ⟨k, hk⟩ := hi.listening id hid fun x hx => by
      rw [List.map_eq_nil_iff.mp hmap] at hx
      cases hx
    exact ⟨k, hi.inv.kept_of_live hk⟩
  removed := fun hfuture => by
    -- there is a thread, and it has exited
    obtain ⟨x, hx, hexited⟩ : ∃ x, s.threads[0]? = some x ∧ x.stage = .exited := by
      cases hv : s.threads.filter fun x => x.stage = .exited with
      | nil =>
          rw [State.future, hi.values, hv] at hfuture
          exact absurd rfl hfuture
      | cons x l =>
          have hx : x ∈ s.threads.filter fun x => x.stage = .exited := by
            rw [hv]
            exact List.mem_cons_self
          obtain ⟨hmem, hstage⟩ := List.mem_filter.mp hx
          obtain ⟨n, hn⟩ := List.getElem?_of_mem hmem
          obtain ⟨rfl, -, -⟩ := hi.only hn
          exact ⟨x, hn, of_decide_eq_true hstage⟩
    obtain ⟨-, hthreads, hfirst⟩ := hi.only hx
    obtain ⟨id, hid⟩ : ∃ id, s.returned = some id := by
      cases hid : s.returned with
      | some id => exact ⟨id, rfl⟩
      | none =>
          rw [State.first, hi.delivered hid] at hfirst
          cases hfirst
    have hlive : ∀ k, (id, k) ∉ s.registry.live := by
      intro k hk
      rcases hi.live _ hk with h1 | ⟨-, h1⟩
      · exact (hi.othersLive _ h1).2 hid
      · have := h1 x (List.mem_of_getElem? hx)
        rw [hexited] at this
        cases this
    refine ⟨id, hid, hlive, fun k p hp hmem => ?_⟩
    rcases (hi.inv.clients k p hp id).mp hmem with h1 | ⟨t, ht⟩
    · exact hlive k h1
    · -- only the thread removes the client, and it is not in its call any more
      obtain ⟨n, rfl⟩ := hi.removing t p id ht hid
      rw [hi.idle n] at ht
      · cases ht
      · intro y hy
        obtain ⟨rfl, hthreads', -⟩ := hi.only hy
        rw [hthreads] at hthreads'
        obtain rfl := List.singleton_inj.mp hthreads'
        rw [hexited]
        exact Stage.noConfusion
  others := fun e he => hi.inv.kept_of_live (hi.othersLive e he).1

end Invariant

def somewhere : Locator := ⟨['2', '2', '4'], 5000, [], [], [], .empty⟩

def someClient : ClientCB := ⟨0, id, none⟩

/-- The first message that is not empty, and that does not start with a zero. -/
def firstByte : Fetch ByteDataWithTopic (TypedDataWithTopic UInt8) :=
  fetchTypedFirstUpdateAndDisconnect List.head? somewhere .noTopicSelection
    (some fun b => b ≠ 0) someClient

/-- Messages come before the id is stored, and while the thread sleeps. -/
def fetchOne : List (Act Bool ByteDataWithTopic) :=
  [.other (.addSubscriptionClient true somewhere .noTopicSelection someClient true),
   .addSubscriptionClient true, .returns, .other (.goOn true), .deliver 0 ⟨[], []⟩,
   .deliver 0 ⟨[], [0]⟩, .deliver 0 ⟨[1], [7]⟩, .store, .deliver 0 ⟨[], [8]⟩, .wake 0, .goOn 0,
   .goOn 0, .setValueAtThreadExit 0]

def anyMessage : Fetch ByteDataWithTopic ByteDataWithTopic :=
  fetchFirstUpdateAndDisconnect somewhere .noTopicSelection someClient

/-- A message comes when the caller has not stored the id, and the thread wakes before that. -/
def slowCaller : List (Act Bool ByteDataWithTopic) :=
  [.addSubscriptionClient true, .returns, .deliver 0 ⟨[1], [7]⟩, .wake 0,
   .setValueAtThreadExit 0, .store]

end FetchFirst
