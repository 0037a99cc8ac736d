import Mathlib.Logic.Relation
import TMTransport.Library.Machine

/-!
# Threads with mutexes

A thread carries out calls, one after the other. A call is a program of locking and
unlocking, of loops over collections and of changes to them; which way the call goes
is settled by what it is called with.

A call is in order (`Ok`) if it locks mutexes by increasing rank, unlocks them in the
reverse order, and goes through a collection, or changes it, with the collection's
guard locked. As long as all calls are, no threads wait for each other in a circle and
no collection changes under a loop (`disciplined_of_inOrder`). A collection without a
guard needs more: no call that changes it may overlap with one that goes through it.
-/

namespace Locks

open Interleave

inductive Op (μ γ : Type) where
  | acquire (m : μ)
  | release (m : μ)
  | beginLoop (c : γ)
  | endLoop (c : γ)
  | change (c : γ)
  deriving DecidableEq

abbrev Program (μ γ : Type) := List (Op μ γ)

variable {τ μ γ κ : Type}

/-- What is done while a lock guard is in scope. -/
def locked (m : μ) (p : Program μ γ) : Program μ γ := .acquire m :: (p ++ [.release m])

/-- What is done in a loop, all its turns. -/
def loop (c : γ) (p : Program μ γ) : Program μ γ := .beginLoop c :: (p ++ [.endLoop c])

structure Thread (μ γ κ : Type) where
  /-- The latest call. -/
  call : Option κ
  /-- What is left of it. -/
  todo : Program μ γ
  /-- The loops that it is in. -/
  loops : List γ

structure State (τ μ γ κ : Type) where
  threads : τ → Thread μ γ κ
  owner : μ → Option τ

inductive Act (τ κ : Type) where
  | start (t : τ) (k : κ)
  | run (t : τ)

section Step

variable [DecidableEq τ] [DecidableEq μ] [DecidableEq γ]

/-- A thread goes on. It cannot, where it waits for a mutex. -/
def run (s : State τ μ γ κ) (t : τ) : Option (State τ μ γ κ) :=
  let x := s.threads t
  match x.todo with
  | [] => none
  | .acquire m :: p =>
    if s.owner m = none then
      some ⟨Function.update s.threads t { x with todo := p }, Function.update s.owner m (some t)⟩
    else none
  | .release m :: p =>
    some ⟨Function.update s.threads t { x with todo := p }, Function.update s.owner m none⟩
  | .beginLoop c :: p =>
    some { s with
      threads := Function.update s.threads t { x with todo := p, loops := c :: x.loops } }
  | .endLoop c :: p =>
    some { s with
      threads := Function.update s.threads t { x with todo := p, loops := x.loops.erase c } }
  | .change _ :: p => some { s with threads := Function.update s.threads t { x with todo := p } }

def step (program : κ → Program μ γ) (s : State τ μ γ κ) : Act τ κ → Option (State τ μ γ κ)
  | .start t k =>
    if (s.threads t).todo = [] then
      some { s with
        threads := Function.update s.threads t
          { s.threads t with call := some k, todo := program k } }
    else none
  | .run t => run s t

def machine (program : κ → Program μ γ) : Machine (State τ μ γ κ) (Act τ κ) where
  init := ⟨fun _ => ⟨none, [], []⟩, fun _ => none⟩
  step := step program

end Step

/-- One thread waits for a mutex of another, or of its own. -/
def State.WaitsFor (s : State τ μ γ κ) (t t' : τ) : Prop :=
  ∃ m p, (s.threads t).todo = .acquire m :: p ∧ s.owner m = some t'

structure Disciplined (s : State τ μ γ κ) : Prop where
  /-- No thread tries to lock a mutex that it already holds. -/
  noSelf : ∀ t m p, (s.threads t).todo = .acquire m :: p → s.owner m ≠ some t
  /-- No threads wait for each other's mutexes, two or more of them. -/
  noCycle : ∀ t, ¬ Relation.TransGen s.WaitsFor t t
  /-- No collection is changed while a loop over it is running. -/
  noChange : ∀ t c p, (s.threads t).todo = .change c :: p → ∀ t', c ∉ (s.threads t').loops

/-! ## Programs in order -/

section Order

variable (rank : μ → Nat) (guard : γ → Option μ)

/-- Is the rest of a program in order, with these mutexes locked and these loops running? -/
def Ok : List μ → List γ → Program μ γ → Prop
  | held, loops, [] => held = [] ∧ loops = []
  | held, loops, .acquire m :: p => (∀ x ∈ held, rank x < rank m) ∧ Ok (m :: held) loops p
  | held, loops, .release m :: p =>
      ∃ rest, held = m :: rest ∧ (∀ c ∈ loops, guard c ≠ some m) ∧ Ok rest loops p
  | held, loops, .beginLoop c :: p =>
      (∀ m, guard c = some m → m ∈ held) ∧ Ok held (c :: loops) p
  | held, loops, .endLoop c :: p => ∃ rest, loops = c :: rest ∧ Ok held rest p
  | held, loops, .change c :: p =>
      (∀ m, guard c = some m → m ∈ held) ∧ c ∉ loops ∧ Ok held loops p

/-- Is a part of a program in order, wherever it stands with these mutexes and loops? -/
def Fits (held : List μ) (loops : List γ) (p : Program μ γ) : Prop :=
  ∀ q, Ok rank guard held loops q → Ok rank guard held loops (p ++ q)

variable {rank guard} {held : List μ} {loops : List γ} {p q : Program μ γ} {m : μ} {c : γ}

theorem Fits.ok (h : Fits rank guard [] [] p) : Ok rank guard [] [] p := by
  have h1 := h [] ⟨rfl, rfl⟩
  rwa [List.append_nil] at h1

theorem fits_nil : Fits rank guard held loops ([] : Program μ γ) := fun _ h => h

theorem Fits.append (hp : Fits rank guard held loops p) (hq : Fits rank guard held loops q) :
    Fits rank guard held loops (p ++ q) := by
  intro r hr
  rw [List.append_assoc]
  exact hp _ (hq _ hr)

theorem fits_flatMap {α : Type} {l : List α} {f : α → Program μ γ}
    (h : ∀ x ∈ l, Fits rank guard held loops (f x)) :
    Fits rank guard held loops (l.flatMap f) := by
  induction l with
  | nil => exact fits_nil
  | cons x l ih =>
      rw [List.flatMap_cons]
      exact (h x List.mem_cons_self).append (ih fun y hy => h y (List.mem_cons_of_mem _ hy))

/-- Nothing that is gone through at this time is guarded by the mutex. -/
theorem fits_locked (hrank : ∀ x ∈ held, rank x < rank m) (hloops : ∀ c ∈ loops, guard c ≠ some m)
    (hp : Fits rank guard (m :: held) loops p) : Fits rank guard held loops (locked m p) := by
  intro q hq
  rw [locked, List.cons_append, List.append_assoc]
  exact ⟨hrank, hp _ ⟨held, rfl, hloops, hq⟩⟩

theorem fits_loop (hguard : ∀ m, guard c = some m → m ∈ held)
    (hp : Fits rank guard held (c :: loops) p) : Fits rank guard held loops (loop c p) := by
  intro q hq
  rw [loop, List.cons_append, List.append_assoc]
  exact ⟨hguard, hp _ ⟨loops, rfl, hq⟩⟩

theorem fits_change (hguard : ∀ m, guard c = some m → m ∈ held) (hloops : c ∉ loops) :
    Fits rank guard held loops ([.change c] : Program μ γ) :=
  fun _ hq => ⟨hguard, hloops, hq⟩

end Order

/-! ## Runs whose calls are in order -/

section Runs

variable (rank : μ → Nat) (guard : γ → Option μ) (program : κ → Program μ γ)

def State.InProgress (s : State τ μ γ κ) (t : τ) (k : κ) : Prop :=
  (s.threads t).call = some k ∧ (s.threads t).todo ≠ []

/-- One call goes through a collection without a guard that the other changes. -/
def Clash (k k' : κ) : Prop :=
  ∃ c, guard c = none ∧ .beginLoop c ∈ program k ∧ .change c ∈ program k'

/-- A call that starts is in order, and it overlaps with no call that it could disturb. -/
def InOrder (s : State τ μ γ κ) : Act τ κ → Prop
  | .start t k => Ok rank guard [] [] (program k) ∧
      ∀ t' k', t' ≠ t → s.InProgress t' k' → ¬ Clash guard program k k' ∧ ¬ Clash guard program k' k
  | .run _ => True

/-- A thread, with the mutexes that it holds, is at a place where what is left is in order. -/
structure Placed (s : State τ μ γ κ) (t : τ) (held : List μ) : Prop where
  owner : ∀ m, s.owner m = some t ↔ m ∈ held
  nodup : held.Nodup
  guarded : ∀ c ∈ (s.threads t).loops, ∀ m, guard c = some m → m ∈ held
  ok : Ok rank guard held (s.threads t).loops (s.threads t).todo
  part : (s.threads t).todo ≠ [] → ∃ k, (s.threads t).call = some k ∧
    (s.threads t).todo <:+ program k ∧ ∀ c ∈ (s.threads t).loops, .beginLoop c ∈ program k

structure Inv (s : State τ μ γ κ) : Prop where
  placed : ∀ t, ∃ held, Placed rank guard program s t held
  apart : ∀ t t' k k', t ≠ t' → s.InProgress t k → s.InProgress t' k' → ¬ Clash guard program k k'

variable {rank guard program} {s s' : State τ μ γ κ} {t t' : τ} {held : List μ} {m m' : μ} {c : γ}
  {p : Program μ γ}

/-! ### What the invariant says -/

theorem rank_lt_of_waitsFor (hi : Inv rank guard program s)
    (hw : (s.threads t).todo = .acquire m :: p) (ho : s.owner m' = some t) : rank m' < rank m := by
  obtain ⟨held, hp⟩ := hi.placed t
  have hok := hp.ok
  rw [hw] at hok
  exact hok.1 m' ((hp.owner m').mp ho)

/-- Along threads that wait for each other, the mutexes that they wait for increase. -/
theorem rank_lt_of_transGen (hi : Inv rank guard program s)
    (h : Relation.TransGen s.WaitsFor t t') (hw : (s.threads t').todo = .acquire m' :: p) :
    ∃ m q, (s.threads t).todo = .acquire m :: q ∧ rank m < rank m' := by
  induction h using Relation.TransGen.head_induction_on with
  | single h =>
      obtain ⟨m, q, hq, ho⟩ := h
      exact ⟨m, q, hq, rank_lt_of_waitsFor hi hw ho⟩
  | head h _ ih =>
      obtain ⟨m, q, hq, ho⟩ := h
      obtain ⟨m₁, q₁, hq₁, hlt⟩ := ih
      exact ⟨m, q, hq, Nat.lt_trans (rank_lt_of_waitsFor hi hq₁ ho) hlt⟩

theorem Placed.beginLoop_mem (hp : Placed rank guard program s t held)
    (hc : c ∈ (s.threads t).loops) : ∃ k, s.InProgress t k ∧ .beginLoop c ∈ program k := by
  have hne : (s.threads t).todo ≠ [] := by
    intro h
    have hok := hp.ok
    rw [h] at hok
    rw [hok.2] at hc
    cases hc
  obtain ⟨k, hk, -, hl⟩ := hp.part hne
  exact ⟨k, ⟨hk, hne⟩, hl c hc⟩

theorem Placed.change_mem (hp : Placed rank guard program s t held)
    (hc : (s.threads t).todo = .change c :: p) : ∃ k, s.InProgress t k ∧ .change c ∈ program k := by
  have hne : (s.threads t).todo ≠ [] := by simp [hc]
  obtain ⟨k, hk, hs, -⟩ := hp.part hne
  exact ⟨k, ⟨hk, hne⟩, hs.subset (by simp [hc])⟩

theorem Inv.disciplined (hi : Inv rank guard program s) : Disciplined s where
  noSelf := fun t m p hw ho => Nat.lt_irrefl _ (rank_lt_of_waitsFor hi hw ho)
  noCycle := fun t h => by
    obtain ⟨_, ⟨m, p, hw, -⟩, -⟩ := Relation.TransGen.head'_iff.mp h
    obtain ⟨m', q, hw', hlt⟩ := rank_lt_of_transGen hi h hw
    rw [hw] at hw'
    obtain ⟨rfl, -⟩ : m = m' ∧ p = q := by simpa using hw'
    exact Nat.lt_irrefl _ hlt
  noChange := fun t c p hw t' hc => by
    obtain ⟨held, hp⟩ := hi.placed t
    obtain ⟨held', hp'⟩ := hi.placed t'
    have hok := hp.ok
    rw [hw] at hok
    obtain ⟨hg, hc', -⟩ := hok
    have hne : t' ≠ t := by
      intro e
      rw [e] at hc
      exact hc' hc
    cases hcg : guard c with
    | some m =>
        -- the mutex of the collection is with both of them
        have h1 := (hp.owner m).mpr (hg m hcg)
        have h2 := (hp'.owner m).mpr (hp'.guarded c hc m hcg)
        rw [h1] at h2
        exact hne (Option.some.inj h2).symm
    | none =>
        obtain ⟨k, hk, hk1⟩ := hp.change_mem hw
        obtain ⟨k', hk', hk1'⟩ := hp'.beginLoop_mem hc
        exact hi.apart t' t k' k hne hk' hk ⟨c, hcg, hk1', hk1⟩

/-! ### The steps -/

theorem Placed.of_eq (hp : Placed rank guard program s t held) (hx : s'.threads t = s.threads t)
    (ho : ∀ m, s'.owner m = some t ↔ s.owner m = some t) :
    Placed rank guard program s' t held where
  owner := fun m => (ho m).trans (hp.owner m)
  nodup := hp.nodup
  guarded := by rw [hx]; exact hp.guarded
  ok := by rw [hx]; exact hp.ok
  part := by rw [hx]; exact hp.part

theorem inv_init [DecidableEq τ] [DecidableEq μ] [DecidableEq γ] :
    Inv rank guard program (machine (τ := τ) program).init where
  placed := fun t => ⟨[], ⟨fun m => by simp [machine], List.nodup_nil, fun c hc => (nomatch hc),
    ⟨rfl, rfl⟩, fun h => absurd rfl h⟩⟩
  apart := fun t t' k k' _ h => absurd rfl h.2

variable [DecidableEq τ]

/-- One thread goes on with its call, and the others stay where they are. -/
theorem Inv.moved (hi : Inv rank guard program s) (held' : List μ)
    (hx : ∀ t', t' ≠ t → s'.threads t' = s.threads t')
    (ho : ∀ t', t' ≠ t → ∀ m, s'.owner m = some t' ↔ s.owner m = some t')
    (hp : Placed rank guard program s' t held')
    (hcall : ∀ k, s'.InProgress t k → s.InProgress t k) : Inv rank guard program s' where
  placed := fun t' => by
    by_cases he : t' = t
    · exact ⟨held', he ▸ hp⟩
    · obtain ⟨held, hp'⟩ := hi.placed t'
      exact ⟨held, hp'.of_eq (hx t' he) (ho t' he)⟩
  apart := fun t₁ t₂ k k' hne h h' => by
    have hold : ∀ t₀ k₀, s'.InProgress t₀ k₀ → s.InProgress t₀ k₀ := by
      intro t₀ k₀ h₀
      by_cases he : t₀ = t
      · subst he
        exact hcall k₀ h₀
      · unfold State.InProgress at h₀ ⊢
        rwa [hx t₀ he] at h₀
    exact hi.apart t₁ t₂ k k' hne (hold t₁ k h) (hold t₂ k' h')

theorem Inv.start (hi : Inv rank guard program s) {k : κ}
    (hidle : (s.threads t).todo = []) (hg : InOrder rank guard program s (.start t k)) :
    Inv rank guard program { s with
      threads := Function.update s.threads t
        { s.threads t with call := some k, todo := program k } } := by
  obtain ⟨held, hp⟩ := hi.placed t
  have hok := hp.ok
  rw [hidle] at hok
  obtain ⟨hheld, hloops⟩ := hok
  subst hheld
  refine ⟨fun t' => ?_, fun t₁ t₂ k₁ k₂ hne h₁ h₂ => ?_⟩
  · by_cases he : t' = t
    · subst he
      refine ⟨[], hp.owner, List.nodup_nil, ?_, ?_, ?_⟩
      · simp [hloops]
      · simp only [Function.update_self, hloops]
        exact hg.1
      · simp [hloops]
    · obtain ⟨held', hp'⟩ := hi.placed t'
      exact ⟨held', hp'.of_eq (Function.update_of_ne he _ _) fun _ => .rfl⟩
  · have hnew : ∀ k', State.InProgress { s with
        threads := Function.update s.threads t
          { s.threads t with call := some k, todo := program k } } t k' → k' = k := by
      intro k' h
      have h1 := h.1
      simp only [Function.update_self] at h1
      exact (Option.some.inj h1).symm
    have hold : ∀ t' k', t' ≠ t → State.InProgress { s with
        threads := Function.update s.threads t
          { s.threads t with call := some k, todo := program k } } t' k' → s.InProgress t' k' := by
      intro t' k' he h
      simpa only [State.InProgress, Function.update_of_ne he] using h
    by_cases he₁ : t₁ = t
    · subst he₁
      obtain rfl := hnew k₁ h₁
      exact (hg.2 t₂ k₂ (Ne.symm hne) (hold t₂ k₂ (Ne.symm hne) h₂)).1
    · by_cases he₂ : t₂ = t
      · subst he₂
        obtain rfl := hnew k₂ h₂
        exact (hg.2 t₁ k₁ hne (hold t₁ k₁ hne h₁)).2
      · exact hi.apart t₁ t₂ k₁ k₂ hne (hold t₁ k₁ he₁ h₁) (hold t₂ k₂ he₂ h₂)

variable [DecidableEq μ] [DecidableEq γ]

theorem Inv.run (hi : Inv rank guard program s) (hs : run s t = some s') :
    Inv rank guard program s' := by
  obtain ⟨held, hp⟩ := hi.placed t
  have hok := hp.ok
  -- what is left of the call, after the first operation
  have hpart : ∀ (o : Op μ γ) (p : Program μ γ) (loops : List γ), (s.threads t).todo = o :: p →
      (∀ c ∈ loops, c ∈ (s.threads t).loops ∨ o = .beginLoop c) →
      p ≠ [] → ∃ k, (s.threads t).call = some k ∧ p <:+ program k ∧
        ∀ c ∈ loops, .beginLoop c ∈ program k := by
    intro o p loops h hl _
    obtain ⟨k, hk, hsub, hin⟩ := hp.part (by simp [h])
    rw [h] at hsub
    refine ⟨k, hk, (List.suffix_cons o p).trans hsub, fun c hc => ?_⟩
    rcases hl c hc with h1 | rfl
    · exact hin c h1
    · exact hsub.subset List.mem_cons_self
  have hcall : ∀ (o : Op μ γ) (p : Program μ γ) (s' : State τ μ γ κ),
      (s.threads t).todo = o :: p → (s'.threads t).call = (s.threads t).call →
      ∀ k, s'.InProgress t k → s.InProgress t k := by
    intro o p s' h hc k hk
    exact ⟨hc ▸ hk.1, by simp [h]⟩
  unfold Locks.run at hs
  simp only at hs
  split at hs
  · cases hs
  · next m p hw =>
    obtain ⟨hm, rfl⟩ := of_guarded hs
    rw [hw] at hok
    have hnot : m ∉ held := fun h => Nat.lt_irrefl _ (hok.1 m h)
    refine hi.moved (m :: held) (fun t' he => Function.update_of_ne he _ _)
      (fun t' he m' => ?_) ⟨fun m' => ?_, List.nodup_cons.mpr ⟨hnot, hp.nodup⟩, ?_, ?_, ?_⟩
      (hcall _ _ _ hw (by simp))
    · simp only [Function.update_apply]
      split
      · next hm' =>
        subst hm'
        simp [hm, Ne.symm he]
      · rfl
    · show Function.update s.owner m (some t) m' = some t ↔ _
      rw [Function.update_apply, List.mem_cons]
      split
      · next hm' => simp [hm']
      · next hm' => simp [hm', hp.owner m']
    · simp only [Function.update_self]
      exact fun c hc m' h => List.mem_cons_of_mem _ (hp.guarded c hc m' h)
    · simp only [Function.update_self]
      exact hok.2
    · simp only [Function.update_self]
      exact hpart _ _ _ hw fun c hc => .inl hc
  · next m p hw =>
    obtain rfl := Option.some.inj hs
    rw [hw] at hok
    obtain ⟨rest, rfl, hg, hok⟩ := hok
    have hmt : s.owner m = some t := (hp.owner m).mpr List.mem_cons_self
    obtain ⟨hnot, hnd⟩ := List.nodup_cons.mp hp.nodup
    refine hi.moved rest (fun t' he => Function.update_of_ne he _ _)
      (fun t' he m' => ?_) ⟨fun m' => ?_, hnd, ?_, ?_, ?_⟩ (hcall _ _ _ hw (by simp))
    · simp only [Function.update_apply]
      split
      · next hm' =>
        subst hm'
        simp [hmt, Ne.symm he]
      · rfl
    · show Function.update s.owner m none m' = some t ↔ _
      rw [Function.update_apply]
      split
      · next hm' =>
        subst hm'
        simp [hnot]
      · next hm' => simp [hp.owner m', hm']
    · simp only [Function.update_self]
      intro c hc m' h
      rcases List.mem_cons.mp (hp.guarded c hc m' h) with rfl | h1
      · exact absurd h (hg c hc)
      · exact h1
    · simp only [Function.update_self]
      exact hok
    · simp only [Function.update_self]
      exact hpart _ _ _ hw fun c hc => .inl hc
  · next c p hw =>
    obtain rfl := Option.some.inj hs
    rw [hw] at hok
    refine hi.moved held (fun t' he => Function.update_of_ne he _ _)
      (fun _ _ _ => .rfl) ⟨hp.owner, hp.nodup, ?_, ?_, ?_⟩ (hcall _ _ _ hw (by simp))
    · simp only [Function.update_self]
      intro c' hc m h
      rcases List.mem_cons.mp hc with rfl | hc
      · exact hok.1 m h
      · exact hp.guarded c' hc m h
    · simp only [Function.update_self]
      exact hok.2
    · simp only [Function.update_self]
      refine hpart _ _ _ hw fun c' hc => ?_
      rcases List.mem_cons.mp hc with rfl | hc
      · exact .inr rfl
      · exact .inl hc
  · next c p hw =>
    obtain rfl := Option.some.inj hs
    rw [hw] at hok
    obtain ⟨rest, hrest, hok⟩ := hok
    have herase : (s.threads t).loops.erase c = rest := by rw [hrest, List.erase_cons_head]
    have hsub : ∀ c' ∈ rest, c' ∈ (s.threads t).loops := fun c' h => by
      rw [hrest]
      exact List.mem_cons_of_mem _ h
    refine hi.moved held (fun t' he => Function.update_of_ne he _ _)
      (fun _ _ _ => .rfl) ⟨hp.owner, hp.nodup, ?_, ?_, ?_⟩ (hcall _ _ _ hw (by simp))
    · simp only [Function.update_self, herase]
      exact fun c' hc => hp.guarded c' (hsub c' hc)
    · simp only [Function.update_self, herase]
      exact hok
    · simp only [Function.update_self, herase]
      exact hpart _ _ _ hw fun c' hc => .inl (hsub c' hc)
  · next c p hw =>
    obtain rfl := Option.some.inj hs
    rw [hw] at hok
    refine hi.moved held (fun t' he => Function.update_of_ne he _ _)
      (fun _ _ _ => .rfl) ⟨hp.owner, hp.nodup, ?_, ?_, ?_⟩ (hcall _ _ _ hw (by simp))
    · simp only [Function.update_self]
      exact hp.guarded
    · simp only [Function.update_self]
      exact hok.2.2
    · simp only [Function.update_self]
      exact hpart _ _ _ hw fun c' hc => .inl hc

/-- **Calls in order keep the discipline**, however they are interleaved. -/
theorem disciplined_of_inOrder (rank : μ → Nat) (guard : γ → Option μ)
    (hr : (machine program).Reach (InOrder rank guard program) s) : Disciplined s := by
  refine (hr.invariant (I := Inv rank guard program) inv_init ?_).disciplined
  intro s a s' hi hg hs
  cases a with
  | start t k =>
      obtain ⟨hidle, rfl⟩ := of_guarded hs
      exact hi.start hidle hg
  | run t => exact hi.run hs

end Runs

end Locks
