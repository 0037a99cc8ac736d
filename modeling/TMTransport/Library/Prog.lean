import Mathlib.Logic.Function.Basic

/-!
# Calls that race on a shared state

A call is a tree of atomic operations: it either returns, fails, or performs one
operation and goes on with the answer. Any number of calls run against the same
shared state, and between any two operations of one call every other call and
the environment may act. `Reachable` is the set of worlds such a system can get
into.

The proof rule is rely/guarantee. `Safe` says that a call, whatever the others
do within its rely relation, keeps the invariant at each operation, disturbs
nobody else's rely relation, and ends in a state where its postcondition holds.
`safe_reachable` turns that, proved once for each call, into a fact about every
reachable world.

A `Guard` restricts which operations may be performed in which state. The
unrestricted system is the one with `Guard.any`; a theorem under a stronger guard
speaks about the runs whose every step satisfies it.
-/

namespace Interleave

/-- A call in progress: operations from `Op`, answered in `Res`, failing with `ε`. -/
inductive Prog (Op : Type) (Res : Op → Type) (ε α : Type) : Type where
  | ret (a : α)
  | fail (e : ε)
  | act (o : Op) (k : Res o → Prog Op Res ε α)

namespace Prog

variable {Op : Type} {Res : Op → Type} {ε α β : Type}

/-- Run one call and continue with what it returned. -/
def bind : Prog Op Res ε α → (α → Prog Op Res ε β) → Prog Op Res ε β
  | .ret a, f => f a
  | .fail e, _ => .fail e
  | .act o k, f => .act o (fun r => (k r).bind f)

instance : Monad (Prog Op Res ε) where
  pure := .ret
  bind := bind

@[simp] theorem pure_eq (a : α) : (pure a : Prog Op Res ε α) = .ret a := rfl

@[simp] theorem bind_eq (p : Prog Op Res ε α) (f : α → Prog Op Res ε β) :
    (p >>= f) = p.bind f := rfl

@[simp] theorem ret_bind (a : α) (f : α → Prog Op Res ε β) :
    (Prog.ret a : Prog Op Res ε α).bind f = f a := rfl

@[simp] theorem fail_bind (e : ε) (f : α → Prog Op Res ε β) :
    (Prog.fail e : Prog Op Res ε α).bind f = .fail e := rfl

@[simp] theorem act_bind (o : Op) (k : Res o → Prog Op Res ε α) (f : α → Prog Op Res ε β) :
    (Prog.act o k).bind f = .act o (fun r => (k r).bind f) := rfl

/-- Every operation the call may perform satisfies `P`. -/
def Only (P : Op → Prop) : Prog Op Res ε α → Prop
  | .ret _ => True
  | .fail _ => True
  | .act o k => P o ∧ ∀ r, (k r).Only P

theorem Only.bind {P : Op → Prop} {p : Prog Op Res ε α} {f : α → Prog Op Res ε β}
    (h : p.Only P) (hf : ∀ a, (f a).Only P) : (p.bind f).Only P := by
  induction p with
  | ret a => exact hf a
  | fail e => trivial
  | act o k ih => exact ⟨h.1, fun r => ih r (h.2 r)⟩

theorem Only.mono {P P' : Op → Prop} {p : Prog Op Res ε α} (h : p.Only P)
    (hP : ∀ o, P o → P' o) : p.Only P' := by
  induction p with
  | ret a => trivial
  | fail e => trivial
  | act o k ih => exact ⟨hP o h.1, fun r => ih r (h.2 r)⟩

/-- Run a call to its end with nobody else acting. -/
def run {σ : Type} (step : (o : Op) → σ → Res o × σ) : Prog Op Res ε α → σ → Except ε α × σ
  | .ret a, s => (.ok a, s)
  | .fail e, s => (.error e, s)
  | .act o k, s => (k (step o s).1).run step (step o s).2

/-- Every operation that the call performs when nobody else acts satisfies `P`. -/
def Along {σ : Type} (step : (o : Op) → σ → Res o × σ) (P : Op → σ → Prop) :
    Prog Op Res ε α → σ → Prop
  | .ret _, _ => True
  | .fail _, _ => True
  | .act o k, s => P o s ∧ (k (step o s).1).Along step P (step o s).2

section Run

variable {σ : Type} (step : (o : Op) → σ → Res o × σ)

theorem Along.of_forall {P : Op → σ → Prop} (h : ∀ o s, P o s) (p : Prog Op Res ε α) (s : σ) :
    p.Along step P s := by
  induction p generalizing s with
  | ret a => trivial
  | fail e => trivial
  | act o k ih => exact ⟨h o s, ih _ _⟩

@[simp] theorem run_ret (a : α) (s : σ) :
    (Prog.ret a : Prog Op Res ε α).run step s = (.ok a, s) := rfl

@[simp] theorem run_fail (e : ε) (s : σ) :
    (Prog.fail e : Prog Op Res ε α).run step s = (.error e, s) := rfl

@[simp] theorem run_act (o : Op) (k : Res o → Prog Op Res ε α) (s : σ) :
    (Prog.act o k).run step s = (k (step o s).1).run step (step o s).2 := rfl

theorem run_bind (p : Prog Op Res ε α) (f : α → Prog Op Res ε β) (s : σ) :
    (p.bind f).run step s = match p.run step s with
      | (.ok a, s') => (f a).run step s'
      | (.error e, s') => (.error e, s') := by
  induction p generalizing s with
  | ret a => rfl
  | fail e => rfl
  | act o k ih => simp only [act_bind, run_act, ih]

end Run

end Prog

/--
A system of calls. `C` names the calls in their loop states, `α` what they
return, `ε` what they fail with, `σ` the shared state and `γ` the ghost history.
-/
structure System (Op : Type) (Res : Op → Type) (σ γ C ε α : Type) where
  /-- What an operation does to the shared state. -/
  step : (o : Op) → σ → Res o × σ
  /-- What the ghost history records of it: by call number, call, operation, answer. -/
  note : Nat → C → (o : Op) → Res o → σ → σ → γ → γ
  /-- What a call does. `inl c` sends it round its loop again, as the call `c`. -/
  body : C → Prog Op Res ε (C ⊕ α)
  /-- Steps of the surroundings. -/
  env : σ → σ → Prop
  /-- Which calls may be made, given the calls that have returned. -/
  may : List (Nat × C × Except ε α) → C → Prop

variable {Op : Type} {Res : Op → Type} {σ γ C ε α β : Type}

/-- One operation of call number `n` on the shared state and the ghost history. -/
def System.exec (S : System Op Res σ γ C ε α) (n : Nat) (c : C) (o : Op) (s : σ × γ) :
    Res o × (σ × γ) :=
  let r := S.step o s.1
  (r.1, (r.2, S.note n c o r.1 s.1 r.2 s.2))

/-- The calls in flight, the calls that returned, and the state they share. -/
structure World (Op : Type) (Res : Op → Type) (σ γ C ε α : Type) where
  /-- The shared state with its ghost history. -/
  st : σ × γ
  /-- How many calls have been made. -/
  issued : Nat
  /-- The calls in flight, by call number. -/
  running : Nat → Option (C × Prog Op Res ε (C ⊕ α))
  /-- The calls that ended, newest first. -/
  returned : List (Nat × C × Except ε α)

/-- A restriction on the steps of a run. -/
structure Guard (Op σ γ C : Type) where
  /-- Which operations a call may perform in a state. -/
  op : C → Op → σ × γ → Prop
  /-- Which steps the surroundings may take. -/
  env : σ × γ → σ → Prop

/-- No restriction. -/
def Guard.any : Guard Op σ γ C := ⟨fun _ _ _ => True, fun _ _ => True⟩

/-- Make a call. -/
def World.issue (w : World Op Res σ γ C ε α) (c : C) (p : Prog Op Res ε (C ⊕ α)) :
    World Op Res σ γ C ε α :=
  { w with issued := w.issued + 1, running := Function.update w.running w.issued (some (c, p)) }

/-- Replace what is left of call number `n`. -/
def World.resume (w : World Op Res σ γ C ε α) (n : Nat) (c : C) (p : Prog Op Res ε (C ⊕ α)) :
    World Op Res σ γ C ε α :=
  { w with running := Function.update w.running n (some (c, p)) }

/-- End call number `n`. -/
def World.finish (w : World Op Res σ γ C ε α) (n : Nat) (c : C) (r : Except ε α) :
    World Op Res σ γ C ε α :=
  { w with running := Function.update w.running n none, returned := (n, c, r) :: w.returned }

/-- The worlds that a system started in `s₀` can get into by steps within the guard. -/
inductive Reachable (S : System Op Res σ γ C ε α) (G : Guard Op σ γ C) (s₀ : σ × γ) :
    World Op Res σ γ C ε α → Prop where
  | init : Reachable S G s₀ ⟨s₀, 0, fun _ => none, []⟩
  | call {w : World Op Res σ γ C ε α} {c : C} :
      Reachable S G s₀ w → S.may w.returned c → Reachable S G s₀ (w.issue c (S.body c))
  | act {w : World Op Res σ γ C ε α} {n : Nat} {c : C} {o : Op}
      {k : Res o → Prog Op Res ε (C ⊕ α)} :
      Reachable S G s₀ w → w.running n = some (c, .act o k) → G.op c o w.st →
      Reachable S G s₀
        { w.resume n c (k (S.exec n c o w.st).1) with st := (S.exec n c o w.st).2 }
  | again {w : World Op Res σ γ C ε α} {n : Nat} {c c' : C} :
      Reachable S G s₀ w → w.running n = some (c, .ret (.inl c')) →
      Reachable S G s₀ (w.resume n c' (S.body c'))
  | done {w : World Op Res σ γ C ε α} {n : Nat} {c : C} {a : α} :
      Reachable S G s₀ w → w.running n = some (c, .ret (.inr a)) →
      Reachable S G s₀ (w.finish n c (.ok a))
  | failed {w : World Op Res σ γ C ε α} {n : Nat} {c : C} {e : ε} :
      Reachable S G s₀ w → w.running n = some (c, .fail e) →
      Reachable S G s₀ (w.finish n c (.error e))
  | env {w : World Op Res σ γ C ε α} {s : σ} :
      Reachable S G s₀ w → S.env w.st.1 s → G.env w.st s →
      Reachable S G s₀ { w with st := (s, w.st.2) }

/-- A weaker guard lets through all that a stronger one does. -/
theorem Reachable.mono {S : System Op Res σ γ C ε α} {G G' : Guard Op σ γ C} {s₀ : σ × γ}
    {w : World Op Res σ γ C ε α} (hr : Reachable S G s₀ w)
    (hop : ∀ c o s, G.op c o s → G'.op c o s) (henv : ∀ s t, G.env s t → G'.env s t) :
    Reachable S G' s₀ w := by
  induction hr with
  | init => exact .init
  | call _ hm ih => exact .call ih hm
  | act _ hrun hg ih => exact .act ih hrun (hop _ _ _ hg)
  | again _ hrun ih => exact .again ih hrun
  | done _ hrun ih => exact .done ih hrun
  | failed _ hrun ih => exact .failed ih hrun
  | env _ he hg ih => exact .env ih he (henv _ _ hg)

/-- What holds of the shared state, and what each call may rely on. -/
structure Contract (σ γ : Type) where
  /-- Holds of every state. -/
  inv : σ × γ → Prop
  /-- How the state may move between two operations of call number `n`. -/
  rely : Nat → σ × γ → σ × γ → Prop
  rely_refl : ∀ n s, rely n s s
  rely_trans : ∀ n s s' s'', rely n s s' → rely n s' s'' → rely n s s''

/--
Call number `n`, with `p` still to run, meets its obligations from state `s` on:
it ends with `Q` or fails with `E`, wherever the others have moved the state to.
-/
def Safe (S : System Op Res σ γ C ε α) (G : Guard Op σ γ C) (K : Contract σ γ) (n : Nat) (c : C)
    (Q : β → σ × γ → Prop) (E : ε → σ × γ → Prop) : Prog Op Res ε β → σ × γ → Prop
  | .ret a, s => ∀ s', K.rely n s s' → K.inv s' → Q a s'
  | .fail e, s => ∀ s', K.rely n s s' → K.inv s' → E e s'
  | .act o k, s => ∀ s', K.rely n s s' → K.inv s' → G.op c o s' →
      K.inv (S.exec n c o s').2 ∧ (∀ m, m ≠ n → K.rely m s' (S.exec n c o s').2) ∧
        Safe S G K n c Q E (k (S.exec n c o s').1) (S.exec n c o s').2

section Rules

variable {S : System Op Res σ γ C ε α} {G : Guard Op σ γ C} {K : Contract σ γ} {n : Nat} {c : C}

/-- What the others do within the rely relation does not spoil a call. -/
theorem Safe.stable {Q : β → σ × γ → Prop} {E : ε → σ × γ → Prop} {p : Prog Op Res ε β}
    {s s' : σ × γ} (h : Safe S G K n c Q E p s) (hr : K.rely n s s') :
    Safe S G K n c Q E p s' := by
  cases p with
  | ret a => exact fun t ht hi => h t (K.rely_trans _ _ _ _ hr ht) hi
  | fail e => exact fun t ht hi => h t (K.rely_trans _ _ _ _ hr ht) hi
  | act o k => exact fun t ht hi hg => h t (K.rely_trans _ _ _ _ hr ht) hi hg

/-- Sequencing: what follows starts where the first part ended. -/
theorem Safe.bind {δ : Type} {Q : β → σ × γ → Prop} {R : δ → σ × γ → Prop}
    {E : ε → σ × γ → Prop} {p : Prog Op Res ε δ} {f : δ → Prog Op Res ε β} {s : σ × γ}
    (h : Safe S G K n c R E p s)
    (hf : ∀ a s', K.inv s' → R a s' → Safe S G K n c Q E (f a) s') (hi : K.inv s) :
    Safe S G K n c Q E (p.bind f) s := by
  induction p generalizing s with
  | ret a => exact hf a s hi (h s (K.rely_refl _ _) hi)
  | fail e => exact h
  | act o k ih =>
      intro s' hr hi' hg
      obtain ⟨h1, h2, h3⟩ := h s' hr hi' hg
      exact ⟨h1, h2, ih _ h3 h1⟩

/-- Weakening of both postconditions. -/
theorem Safe.mono {Q Q' : β → σ × γ → Prop} {E E' : ε → σ × γ → Prop} {p : Prog Op Res ε β}
    {s : σ × γ} (h : Safe S G K n c Q E p s)
    (hq : ∀ a s', K.inv s' → Q a s' → Q' a s') (he : ∀ e s', K.inv s' → E e s' → E' e s') :
    Safe S G K n c Q' E' p s := by
  induction p generalizing s with
  | ret a => exact fun t ht hi => hq a t hi (h t ht hi)
  | fail e => exact fun t ht hi => he e t hi (h t ht hi)
  | act o k ih =>
      intro s' hr hi hg
      obtain ⟨h1, h2, h3⟩ := h s' hr hi hg
      exact ⟨h1, h2, ih _ h3⟩

/-- What nobody can spoil still holds at the end. -/
theorem Safe.frame {Q : β → σ × γ → Prop} {E : ε → σ × γ → Prop} {F : σ × γ → Prop}
    {p : Prog Op Res ε β} {s : σ × γ} (h : Safe S G K n c Q E p s) (hs : F s)
    (hF : ∀ m s s', K.rely m s s' → F s → F s') :
    Safe S G K n c (fun a s => Q a s ∧ F s) (fun e s => E e s ∧ F s) p s := by
  induction p generalizing s with
  | ret a => exact fun t ht hi => ⟨h t ht hi, hF n _ _ ht hs⟩
  | fail e => exact fun t ht hi => ⟨h t ht hi, hF n _ _ ht hs⟩
  | act o k ih =>
      intro s' hr hi hg
      obtain ⟨h1, h2, h3⟩ := h s' hr hi hg
      exact ⟨h1, h2, ih _ h3 (hF (n + 1) _ _ (h2 (n + 1) (by omega)) (hF n _ _ hr hs))⟩

/-- What the operations of the call itself do not spoil, and the others may not, holds at the
end. -/
theorem Safe.frame_own {Q : β → σ × γ → Prop} {E : ε → σ × γ → Prop} {F : σ × γ → Prop}
    {P : Op → Prop} {p : Prog Op Res ε β} {s : σ × γ} (h : Safe S G K n c Q E p s)
    (hp : p.Only P) (hs : F s) (hP : ∀ o s, P o → F s → F (S.exec n c o s).2)
    (hF : ∀ s s', K.rely n s s' → F s → F s') :
    Safe S G K n c (fun a s => Q a s ∧ F s) (fun e s => E e s ∧ F s) p s := by
  induction p generalizing s with
  | ret a => exact fun t ht hi => ⟨h t ht hi, hF _ _ ht hs⟩
  | fail e => exact fun t ht hi => ⟨h t ht hi, hF _ _ ht hs⟩
  | act o k ih =>
      intro s' hr hi hg
      obtain ⟨h1, h2, h3⟩ := h s' hr hi hg
      exact ⟨h1, h2, ih _ h3 (hp.2 _) (hP o s' hp.1 (hF _ _ hr hs))⟩

/-- A call that has ended with a postcondition the others cannot spoil. -/
theorem Safe.ret {Q : β → σ × γ → Prop} {E : ε → σ × γ → Prop} {a : β} {s : σ × γ}
    (h : Q a s) (hst : ∀ s s', K.rely n s s' → K.inv s' → Q a s → Q a s') :
    Safe S G K n c Q E (.ret a) s :=
  fun _ hr hi => hst _ _ hr hi h

/-- An operation that leaves the state alone only contributes its answer. -/
theorem Safe.read {Q : β → σ × γ → Prop} {E : ε → σ × γ → Prop} {o : Op}
    {k : Res o → Prog Op Res ε β} {s : σ × γ}
    (hs : ∀ s', K.rely n s s' → K.inv s' → (S.exec n c o s').2 = s')
    (hk : ∀ s', K.rely n s s' → K.inv s' → G.op c o s' →
      Safe S G K n c Q E (k (S.exec n c o s').1) s') :
    Safe S G K n c Q E (.act o k) s := by
  intro s' hr hi hg
  rw [hs s' hr hi]
  exact ⟨hi, fun m _ => K.rely_refl m s', hk s' hr hi hg⟩

/-- What a call that meets its obligations does when nobody else acts. -/
theorem Safe.run {Q : β → σ × γ → Prop} {E : ε → σ × γ → Prop} {p : Prog Op Res ε β}
    {s : σ × γ} (h : Safe S G K n c Q E p s) (hi : K.inv s)
    (hg : ∀ o s', K.inv s' → (∀ m, m ≠ n → K.rely m s s') → G.op c o s') :
    K.inv (p.run (S.exec n c) s).2 ∧ (∀ m, m ≠ n → K.rely m s (p.run (S.exec n c) s).2) ∧
      (∀ a, (p.run (S.exec n c) s).1 = .ok a → Q a (p.run (S.exec n c) s).2) ∧
      (∀ e, (p.run (S.exec n c) s).1 = .error e → E e (p.run (S.exec n c) s).2) := by
  induction p generalizing s with
  | ret a =>
      refine ⟨hi, fun m _ => K.rely_refl m s, ?_, by simp⟩
      intro b hb
      obtain rfl : a = b := by simpa using hb
      exact h s (K.rely_refl n s) hi
  | fail e =>
      refine ⟨hi, fun m _ => K.rely_refl m s, by simp, ?_⟩
      intro b hb
      obtain rfl : e = b := by simpa using hb
      exact h s (K.rely_refl n s) hi
  | act o k ih =>
      obtain ⟨h1, h2, h3⟩ := h s (K.rely_refl n s) hi (hg o s hi (fun m _ => K.rely_refl m s))
      obtain ⟨h4, h5, h6⟩ := ih _ h3 h1
        (fun o' s' hi' hr => hg o' s' hi' (fun m hm => K.rely_trans _ _ _ _ (h2 m hm) (hr m hm)))
      exact ⟨h4, fun m hm => K.rely_trans _ _ _ _ (h2 m hm) (h5 m hm), h6⟩

/-- The ghost history does not change what a call does. -/
theorem run_exec (p : Prog Op Res ε β) (s : σ × γ) :
    (p.run (S.exec n c) s).1 = (p.run S.step s.1).1 ∧
      (p.run (S.exec n c) s).2.1 = (p.run S.step s.1).2 := by
  induction p generalizing s with
  | ret a => exact ⟨rfl, rfl⟩
  | fail e => exact ⟨rfl, rfl⟩
  | act o k ih => exact ih (S.step o s.1).1 (S.exec n c o s).2

end Rules

/-- What has to be shown of a system for `safe_reachable`. -/
structure Obligations (S : System Op Res σ γ C ε α) (G : Guard Op σ γ C) (K : Contract σ γ)
    (s₀ : σ × γ) (fresh : Nat → σ × γ → Prop) (pre : Nat → C → σ × γ → Prop)
    (post : Nat → C → Except ε α → σ × γ → Prop) : Prop where
  init : K.inv s₀
  fresh_init : ∀ n, fresh n s₀
  fresh_stable : ∀ n s s', fresh n s → K.rely n s s' → fresh n s'
  env : ∀ s t, K.inv s → S.env s.1 t → G.env s t → K.inv (t, s.2) ∧ ∀ n, K.rely n s (t, s.2)
  post_stable : ∀ n c r s s', post n c r s → K.rely n s s' → K.inv s' → post n c r s'
  call : ∀ n c s h, K.inv s → fresh n s → (∀ e ∈ h, post e.1 e.2.1 e.2.2 s) → S.may h c →
    pre n c s
  body : ∀ n c s, K.inv s → pre n c s →
    Safe S G K n c (fun r s => match r with
      | .inl c' => pre n c' s
      | .inr a => post n c (.ok a) s) (fun e => post n c (.error e)) (S.body c) s

/-- Everything `safe_reachable` says of a world. -/
structure Settled (S : System Op Res σ γ C ε α) (G : Guard Op σ γ C) (K : Contract σ γ)
    (fresh : Nat → σ × γ → Prop) (pre : Nat → C → σ × γ → Prop)
    (post : Nat → C → Except ε α → σ × γ → Prop) (w : World Op Res σ γ C ε α) : Prop where
  inv : K.inv w.st
  fresh : ∀ n, w.issued ≤ n → fresh n w.st
  idle : ∀ n, w.issued ≤ n → w.running n = none
  ended : ∀ e ∈ w.returned, e.1 < w.issued ∧ w.running e.1 = none
  distinct : (w.returned.map (fun e => e.1)).Nodup
  running : ∀ n c p, w.running n = some (c, p) →
    Safe S G K n c (fun r s => match r with
      | .inl c' => pre n c' s
      | .inr a => post n c (.ok a) s) (fun e => post n c (.error e)) p w.st
  post : ∀ e ∈ w.returned, post e.1 e.2.1 e.2.2 w.st

section Reachable

variable {S : System Op Res σ γ C ε α} {G : Guard Op σ γ C} {K : Contract σ γ} {s₀ : σ × γ}
  {fresh : Nat → σ × γ → Prop} {pre : Nat → C → σ × γ → Prop}
  {post : Nat → C → Except ε α → σ × γ → Prop}

theorem settled_finish {w : World Op Res σ γ C ε α} {n : Nat} {c : C} {r : Except ε α}
    {p : Prog Op Res ε (C ⊕ α)} (h : Settled S G K fresh pre post w)
    (hrun : w.running n = some (c, p)) (hp : post n c r w.st) :
    Settled S G K fresh pre post (w.finish n c r) := by
  have hn : n < w.issued := by
    rcases Nat.lt_or_ge n w.issued with hlt | hge
    · exact hlt
    · rw [h.idle n hge] at hrun; exact absurd hrun (by simp)
  have hnew : n ∉ w.returned.map (fun e => e.1) := by
    intro hm
    obtain ⟨e, he, rfl⟩ := List.mem_map.mp hm
    rw [(h.ended e he).2] at hrun
    exact absurd hrun (by simp)
  refine ⟨h.inv, h.fresh, ?_, ?_, ?_, ?_, ?_⟩
  · intro m hm
    have hm' : w.issued ≤ m := hm
    simp only [World.finish]
    rw [Function.update_of_ne (by omega)]
    exact h.idle m hm
  · intro e he
    rcases List.mem_cons.mp he with rfl | he
    · exact ⟨hn, by simp [World.finish]⟩
    · refine ⟨(h.ended e he).1, ?_⟩
      simp only [World.finish]
      by_cases hen : e.1 = n
      · rw [hen]; simp
      · rw [Function.update_of_ne hen]; exact (h.ended e he).2
  · simpa [World.finish] using ⟨by simpa using hnew, h.distinct⟩
  · intro m d q hq
    simp only [World.finish] at hq
    by_cases hmn : m = n
    · subst hmn; simp at hq
    · rw [Function.update_of_ne hmn] at hq
      exact h.running m d q hq
  · intro e he
    rcases List.mem_cons.mp he with rfl | he
    · exact hp
    · exact h.post e he

/-- **The rule.** Obligations met by each call hold of every reachable world. -/
theorem safe_reachable (ob : Obligations S G K s₀ fresh pre post)
    {w : World Op Res σ γ C ε α} (hr : Reachable S G s₀ w) :
    Settled S G K fresh pre post w := by
  induction hr with
  | init =>
      exact ⟨ob.init, fun n _ => ob.fresh_init n, fun _ _ => rfl, by simp, by simp, by simp,
        by simp⟩
  | @call w c hr hm ih =>
      refine ⟨ih.inv, fun n hn => ih.fresh n (Nat.le_of_succ_le hn), ?_, ?_, ih.distinct, ?_,
        ih.post⟩
      · intro n hn
        have hn' : w.issued + 1 ≤ n := hn
        simp only [World.issue]
        rw [Function.update_of_ne (by omega)]
        exact ih.idle n (by omega)
      · intro e he
        obtain ⟨h1, h2⟩ := ih.ended e he
        refine ⟨Nat.lt_succ_of_lt h1, ?_⟩
        simp only [World.issue]
        rw [Function.update_of_ne (by omega)]
        exact h2
      · intro n d p hp
        simp only [World.issue] at hp
        by_cases hn : n = w.issued
        · subst hn
          simp only [Function.update_self, Option.some.injEq, Prod.mk.injEq] at hp
          obtain ⟨rfl, rfl⟩ := hp
          exact ob.body _ _ _ ih.inv
            (ob.call _ _ _ _ ih.inv (ih.fresh _ (Nat.le_refl _)) ih.post hm)
        · rw [Function.update_of_ne hn] at hp
          exact ih.running n d p hp
  | @act w n c o k hr hrun hg ih =>
      obtain ⟨h1, h2, h3⟩ := ih.running n c _ hrun w.st (K.rely_refl _ _) ih.inv hg
      have hn : n < w.issued := by
        rcases Nat.lt_or_ge n w.issued with hlt | hge
        · exact hlt
        · rw [ih.idle n hge] at hrun; exact absurd hrun (by simp)
      have hret : ∀ e ∈ w.returned, e.1 ≠ n := by
        intro e he hen
        have := (ih.ended e he).2
        rw [hen, hrun] at this
        exact absurd this (by simp)
      refine ⟨h1, ?_, ?_, ?_, ih.distinct, ?_, ?_⟩
      · intro m hm
        have hm' : w.issued ≤ m := hm
        exact ob.fresh_stable m _ _ (ih.fresh m hm) (h2 m (by omega))
      · intro m hm
        have hm' : w.issued ≤ m := hm
        simp only [World.resume]
        rw [Function.update_of_ne (by omega)]
        exact ih.idle m hm
      · intro e he
        refine ⟨(ih.ended e he).1, ?_⟩
        simp only [World.resume]
        rw [Function.update_of_ne (hret e he)]
        exact (ih.ended e he).2
      · intro m d p hp
        simp only [World.resume] at hp
        by_cases hmn : m = n
        · subst hmn
          simp only [Function.update_self, Option.some.injEq, Prod.mk.injEq] at hp
          obtain ⟨rfl, rfl⟩ := hp
          exact h3
        · rw [Function.update_of_ne hmn] at hp
          exact (ih.running m d p hp).stable (h2 m hmn)
      · intro e he
        exact ob.post_stable _ _ _ _ _ (ih.post e he) (h2 _ (hret e he)) h1
  | @again w n c c' hr hrun ih =>
      have hpre : pre n c' w.st := ih.running n c _ hrun w.st (K.rely_refl _ _) ih.inv
      have hn : n < w.issued := by
        rcases Nat.lt_or_ge n w.issued with hlt | hge
        · exact hlt
        · rw [ih.idle n hge] at hrun; exact absurd hrun (by simp)
      refine ⟨ih.inv, ih.fresh, ?_, ?_, ih.distinct, ?_, ih.post⟩
      · intro m hm
        have hm' : w.issued ≤ m := hm
        simp only [World.resume]
        rw [Function.update_of_ne (by omega)]
        exact ih.idle m hm
      · intro e he
        refine ⟨(ih.ended e he).1, ?_⟩
        have hen : e.1 ≠ n := by
          intro hen
          have := (ih.ended e he).2
          rw [hen, hrun] at this
          exact absurd this (by simp)
        simp only [World.resume]
        rw [Function.update_of_ne hen]
        exact (ih.ended e he).2
      · intro m d p hp
        simp only [World.resume] at hp
        by_cases hmn : m = n
        · subst hmn
          simp only [Function.update_self, Option.some.injEq, Prod.mk.injEq] at hp
          obtain ⟨rfl, rfl⟩ := hp
          exact ob.body _ _ _ ih.inv hpre
        · rw [Function.update_of_ne hmn] at hp
          exact ih.running m d p hp
  | @done w n c a hr hrun ih =>
      exact settled_finish ih hrun (ih.running n c _ hrun w.st (K.rely_refl _ _) ih.inv)
  | @failed w n c e hr hrun ih =>
      exact settled_finish ih hrun (ih.running n c _ hrun w.st (K.rely_refl _ _) ih.inv)
  | @env w s hr he hg ih =>
      obtain ⟨h1, h2⟩ := ob.env _ _ ih.inv he hg
      exact ⟨h1, fun n hn => ob.fresh_stable n _ _ (ih.fresh n hn) (h2 n), ih.idle, ih.ended,
        ih.distinct, fun n c p hp => (ih.running n c p hp).stable (h2 n),
        fun e he => ob.post_stable _ _ _ _ _ (ih.post e he) (h2 _) h1⟩

/-- Make a call and run it to its end, or to the end of its first turn, by itself. -/
def World.solo (S : System Op Res σ γ C ε α) (w : World Op Res σ γ C ε α) (c : C) :
    World Op Res σ γ C ε α :=
  let r := (S.body c).run (S.exec w.issued c) w.st
  match r.1 with
  | .ok (.inr a) =>
    ⟨r.2, w.issued + 1, Function.update w.running w.issued none,
      (w.issued, c, .ok a) :: w.returned⟩
  | .ok (.inl c') =>
    ⟨r.2, w.issued + 1, Function.update w.running w.issued (some (c', S.body c')), w.returned⟩
  | .error e =>
    ⟨r.2, w.issued + 1, Function.update w.running w.issued none,
      (w.issued, c, .error e) :: w.returned⟩

theorem reachable_run {G : Guard Op σ γ C} {n : Nat} {c : C} {p : Prog Op Res ε (C ⊕ α)}
    {w : World Op Res σ γ C ε α} (hr : Reachable S G s₀ w) (hp : w.running n = some (c, p))
    (hg : p.Along (S.exec n c) (G.op c) w.st) :
    Reachable S G s₀ { w.resume n c (match (p.run (S.exec n c) w.st).1 with
      | .ok x => .ret x
      | .error e => .fail e) with st := (p.run (S.exec n c) w.st).2 } := by
  induction p generalizing w with
  | ret x =>
      have : w.resume n c (.ret x) = w := by
        simp only [World.resume]
        rw [← hp, Function.update_eq_self]
      simpa [this] using hr
  | fail e =>
      have : w.resume n c (.fail e) = w := by
        simp only [World.resume]
        rw [← hp, Function.update_eq_self]
      simpa [this] using hr
  | act o k ih =>
      have h := ih _ (Reachable.act hr hp hg.1) (by simp [World.resume]) hg.2
      simpa [World.resume] using h

/-- A call that nobody disturbs is a run. -/
theorem reachable_solo {G : Guard Op σ γ C} {c : C} {w : World Op Res σ γ C ε α}
    (hr : Reachable S G s₀ w) (hm : S.may w.returned c)
    (hg : (S.body c).Along (S.exec w.issued c) (G.op c) w.st) :
    Reachable S G s₀ (w.solo S c) := by
  have h := reachable_run (Reachable.call hr hm) (n := w.issued) (c := c) (p := S.body c)
    (by simp [World.issue]) hg
  unfold World.solo
  simp only [World.issue, World.resume, Function.update_idem] at h
  dsimp only
  cases hres : ((S.body c).run (S.exec w.issued c) w.st).1 with
  | error e =>
      rw [hres] at h
      simpa [World.finish] using Reachable.failed h (n := w.issued) (by simp)
  | ok x =>
      rw [hres] at h
      cases x with
      | inl c' => simpa [World.resume] using Reachable.again h (n := w.issued) (c := c) (by simp)
      | inr a => simpa [World.finish] using Reachable.done h (n := w.issued) (by simp)

/-- Make the calls one after the other, each by itself. -/
def World.solos (S : System Op Res σ γ C ε α) :
    World Op Res σ γ C ε α → List C → World Op Res σ γ C ε α
  | w, [] => w
  | w, c :: cs => (w.solo S c).solos S cs

/-- The calls may be made in this order, and all they do is within the guard. -/
def World.Allowed (S : System Op Res σ γ C ε α) (G : Guard Op σ γ C) :
    World Op Res σ γ C ε α → List C → Prop
  | _, [] => True
  | w, c :: cs => S.may w.returned c ∧ (S.body c).Along (S.exec w.issued c) (G.op c) w.st ∧
      (w.solo S c).Allowed S G cs

theorem reachable_solos {G : Guard Op σ γ C} {cs : List C} {w : World Op Res σ γ C ε α}
    (hr : Reachable S G s₀ w) (h : w.Allowed S G cs) : Reachable S G s₀ (w.solos S cs) := by
  induction cs generalizing w with
  | nil => exact hr
  | cons c cs ih => exact ih (reachable_solo hr h.1 h.2.1) h.2.2

end Reachable

end Interleave
