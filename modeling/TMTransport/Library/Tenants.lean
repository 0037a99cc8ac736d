import Mathlib.Data.Nat.Count
import TMTransport.Library.Machine
import TMTransport.Library.Prog

/-!
# Tenants of one process

Several objects of one class make calls, one after the other, against services that
they share. What an object does should be what it would do alone.

`Mirror.Copies` relates a call in the run that they share to the same call in the run
in which the object is alone. `Machine.unwind` puts the calls together: if each
object's calls keep its view, and those of the others do not touch it, then each
object sees the run in which it is alone.

A clock that all of them drive, such as the revision of a store, does not say the
same in both runs. A `Renaming` says what its readings are called when only the
ticks of one object count.

A function-level `static` belongs to the class, not to the object: it keeps what it
was first initialised with.
-/

namespace Interleave

variable {Op : Type} {Res : Op → Type} {ε α β γ δ σ : Type}

/-! ## Statics -/

/-- An operation on what the process shares with others, or the initialisation of a static. -/
inductive StaticOp (Op V : Type) where
  | shared (o : Op)
  | static (x : V) (init : String)

@[reducible] def StaticOp.Answer {V : Type} (Res : Op → Type) : StaticOp Op V → Type
  | .shared o => Res o
  | .static _ _ => String

/-- A static that has a value keeps it, and otherwise takes the one that it is offered. -/
def StaticOp.step {V : Type} [DecidableEq V] (step : (o : Op) → σ → Res o × σ) :
    (o : StaticOp Op V) → σ × (V → Option String) → o.Answer Res × (σ × (V → Option String))
  | .shared o, s => ((step o s.1).1, ((step o s.1).2, s.2))
  | .static x init, s =>
    match s.2 x with
    | some v => (v, s)
    | none => (init, (s.1, Function.update s.2 x (some init)))

/-- A call that uses no statics. -/
def Prog.shared {V : Type} : Prog Op Res ε α → Prog (StaticOp Op V) (StaticOp.Answer Res) ε α
  | .ret a => .ret a
  | .fail e => .fail e
  | .act o k => .act (.shared o) fun r => (k r).shared

/-- The value of a static. -/
def static {V : Type} (x : V) (init : String) :
    Prog (StaticOp Op V) (StaticOp.Answer Res) ε String :=
  .act (.static x init) .ret

section Statics

variable {V : Type} [DecidableEq V] {step : (o : Op) → σ → Res o × σ}

theorem Prog.run_shared (p : Prog Op Res ε α) (s : σ) (vars : V → Option String) :
    p.shared.run (StaticOp.step step) (s, vars) =
      ((p.run step s).1, ((p.run step s).2, vars)) := by
  induction p generalizing s with
  | ret a => rfl
  | fail e => rfl
  | act o k ih => exact ih _ _

theorem Prog.along_shared {P : StaticOp Op V → σ × (V → Option String) → Prop}
    (p : Prog Op Res ε α) (s : σ) (vars : V → Option String) :
    p.shared.Along (StaticOp.step step) P (s, vars) ↔
      p.Along step (fun o s => P (.shared o) (s, vars)) s := by
  induction p generalizing s with
  | ret a => rfl
  | fail e => rfl
  | act o k ih => exact and_congr Iff.rfl (ih _ _)

end Statics

/-! ## What holds along a call -/

namespace Prog

variable {step : (o : Op) → σ → Res o × σ} {P P' : Op → σ → Prop}

instance Along.decidable [∀ o s, Decidable (P o s)] :
    ∀ (p : Prog Op Res ε α) (s : σ), Decidable (p.Along step P s)
  | .ret _, _ => .isTrue trivial
  | .fail _, _ => .isTrue trivial
  | .act o k, s =>
    have := Along.decidable (k (step o s).1) (step o s).2
    inferInstanceAs (Decidable (P o s ∧ _))

theorem Along.mono {p : Prog Op Res ε α} {s : σ} (h : p.Along step P s)
    (hP : ∀ o s, P o s → P' o s) : p.Along step P' s := by
  induction p generalizing s with
  | ret a => trivial
  | fail e => trivial
  | act o k ih => exact ⟨hP o s h.1, ih _ h.2⟩

theorem Along.and {p : Prog Op Res ε α} {s : σ} (h : p.Along step P s) (h' : p.Along step P' s) :
    p.Along step (fun o s => P o s ∧ P' o s) s := by
  induction p generalizing s with
  | ret a => trivial
  | fail e => trivial
  | act o k ih => exact ⟨⟨h.1, h'.1⟩, ih _ h.2 h'.2⟩

/-- A call all of whose operations leave the state alone leaves it alone. -/
theorem Only.run_snd {P : Op → Prop} {p : Prog Op Res ε α} (h : p.Only P)
    (hP : ∀ o s, P o → (step o s).2 = s) (s : σ) : (p.run step s).2 = s := by
  induction p generalizing s with
  | ret a => rfl
  | fail e => rfl
  | act o k ih =>
      rw [run_act, hP o s h.1]
      exact ih _ (h.2 _) s

/-- What every operation keeps, the call keeps. -/
theorem Along.keeps {I : σ → Prop} {p : Prog Op Res ε α} {s : σ} (h : p.Along step P s)
    (hstep : ∀ o s, P o s → I s → I (step o s).2) (hs : I s) : I (p.run step s).2 := by
  induction p generalizing s with
  | ret a => exact hs
  | fail e => exact hs
  | act o k ih => exact ih _ h.2 (hstep o s h.1 hs)

theorem along_bind (p : Prog Op Res ε α) (k : α → Prog Op Res ε β) (s : σ) :
    (p.bind k).Along step P s ↔ p.Along step P s ∧
      ∀ a, (p.run step s).1 = .ok a → (k a).Along step P (p.run step s).2 := by
  induction p generalizing s with
  | ret a =>
      refine ⟨fun h => ⟨trivial, fun b hb => ?_⟩, fun h => h.2 a rfl⟩
      cases hb
      exact h
  | fail e => exact ⟨fun _ => ⟨trivial, fun b hb => by cases hb⟩, fun _ => trivial⟩
  | act o r ih =>
      rw [act_bind, Along, ih, ← and_assoc]
      rfl

theorem run_bind_ret (p : Prog Op Res ε α) (g : α → β) (s : σ) :
    (p.bind fun a => .ret (g a)).run step s = ((p.run step s).1.map g, (p.run step s).2) := by
  rw [run_bind]
  rcases p.run step s with ⟨r, s'⟩
  cases r <;> rfl

theorem along_bind_ret (p : Prog Op Res ε α) (g : α → β) (s : σ) :
    (p.bind fun a => .ret (g a)).Along step P s ↔ p.Along step P s := by
  rw [along_bind]
  exact ⟨fun h => h.1, fun h => ⟨h, fun _ _ => trivial⟩⟩

/-- A clock that no operation turns back lies between its readings before and after the call. -/
theorem along_clock {clock : σ → Nat} (hclock : ∀ o s, clock s ≤ clock (step o s).2)
    (p : Prog Op Res ε α) (s : σ) :
    p.Along step (fun o s' => clock s ≤ clock s' ∧
      clock (step o s').2 ≤ clock (p.run step s).2) s := by
  have hmono : ∀ (p : Prog Op Res ε α) (s : σ), clock s ≤ clock (p.run step s).2 := by
    intro p s
    induction p generalizing s with
    | ret a => exact Nat.le_refl _
    | fail e => exact Nat.le_refl _
    | act o k ih => exact (hclock o s).trans (ih _ _)
  induction p generalizing s with
  | ret a => trivial
  | fail e => trivial
  | act o k ih =>
      refine ⟨⟨Nat.le_refl _, hmono _ _⟩, (ih _ _).mono fun o' s' h => ⟨?_, h.2⟩⟩
      exact (hclock o s).trans h.1

end Prog

/-! ## The same call in another run -/

/-- How the run that all share and the run of one object are looked at together. -/
structure Mirror (Op : Type) (Res : Op → Type) (σ : Type) where
  step : (o : Op) → σ → Res o × σ
  /-- The operations that the shared run is restricted to. -/
  allowed : Op → σ → Prop
  /-- The operations that stay with what the object owns. -/
  own : Op → σ → Prop
  /-- The object sees the same in both. -/
  view : σ → σ → Prop

namespace Mirror

variable {M : Mirror Op Res σ} {f : α → γ} {Q : α → Prop} {p : Prog Op Res ε α}
  {p' : Prog Op Res ε γ}

/-- `p'` has done in `t` what `p` has done in `s`, up to the renaming `f` of what it returns. -/
structure Copied (M : Mirror Op Res σ) (f : α → γ) (Q : α → Prop) (p : Prog Op Res ε α)
    (p' : Prog Op Res ε γ) (s t : σ) : Prop where
  along : p.Along M.step M.own s
  view : M.view (p.run M.step s).2 (p'.run M.step t).2
  answer : (p'.run M.step t).1 = (p.run M.step s).1.map f
  post : ∀ a, (p.run M.step s).1 = .ok a → Q a

/-- `p'` does what `p` does, wherever the object sees the same. -/
def Copies (M : Mirror Op Res σ) (f : α → γ) (Q : α → Prop) (p : Prog Op Res ε α)
    (p' : Prog Op Res ε γ) : Prop :=
  ∀ s t, M.view s t → p.Along M.step M.allowed s → M.Copied f Q p p' s t

theorem Copies.ret {a : α} {c : γ} (hc : c = f a) (ha : Q a) :
    M.Copies f Q (.ret a : Prog Op Res ε α) (.ret c) := by
  intro s t hv _
  refine ⟨trivial, hv, by rw [hc]; rfl, fun b hb => ?_⟩
  cases hb
  exact ha

theorem Copies.fail (e : ε) : M.Copies f Q (.fail e : Prog Op Res ε α) (.fail e) :=
  fun _ _ hv _ => ⟨trivial, hv, rfl, fun a ha => by cases ha⟩

theorem Copies.mono {Q' : α → Prop} (h : M.Copies f Q p p') (hQ : ∀ a, Q a → Q' a) :
    M.Copies f Q' p p' :=
  fun s t hv hg => ⟨(h s t hv hg).along, (h s t hv hg).view, (h s t hv hg).answer,
    fun a ha => hQ a ((h s t hv hg).post a ha)⟩

theorem Copies.bind {g : β → δ} {R : β → Prop} {k : α → Prog Op Res ε β}
    {k' : γ → Prog Op Res ε δ} (h : M.Copies f Q p p')
    (hk : ∀ a, Q a → M.Copies g R (k a) (k' (f a))) : M.Copies g R (p.bind k) (p'.bind k') := by
  intro s t hv hg
  obtain ⟨hgp, hgk⟩ := (Prog.along_bind p k s).mp hg
  obtain ⟨halong, hview, hanswer, hpost⟩ := h s t hv hgp
  have hrun := Prog.run_bind M.step p k s
  have hrun' := Prog.run_bind M.step p' k' t
  cases hp : p.run M.step s with
  | mk r s₁ =>
      cases hp' : p'.run M.step t with
      | mk r' t₁ =>
          rw [hp] at hrun hview hanswer hpost hgk
          rw [hp'] at hrun' hview hanswer
          cases r with
          | error e =>
              obtain rfl : r' = .error e := hanswer
              refine ⟨(Prog.along_bind p k s).mpr ⟨halong, fun a ha => ?_⟩, ?_, ?_, fun b hb => ?_⟩
              · rw [hp] at ha
                cases ha
              · rw [hrun, hrun']
                exact hview
              · rw [hrun, hrun']
                rfl
              · rw [hrun] at hb
                cases hb
          | ok a =>
              obtain rfl : r' = .ok (f a) := hanswer
              have hkc := hk a (hpost a rfl) s₁ t₁ hview (hgk a rfl)
              refine ⟨(Prog.along_bind p k s).mpr ⟨halong, fun b hb => ?_⟩, ?_, ?_, fun b hb => ?_⟩
              · rw [hp] at hb ⊢
                cases hb
                exact hkc.along
              · rw [hrun, hrun']
                exact hkc.view
              · rw [hrun, hrun']
                exact hkc.answer
              · rw [hrun] at hb
                exact hkc.post b hb

/-- Both go the same way. -/
theorem Copies.ite {c c' : Prop} [Decidable c] [Decidable c'] {q : Prog Op Res ε α}
    {q' : Prog Op Res ε γ} (hc : c' ↔ c) (h : c → M.Copies f Q p p')
    (h' : ¬ c → M.Copies f Q q q') :
    M.Copies f Q (if c then p else q) (if c' then p' else q') := by
  by_cases hyes : c
  · rw [if_pos hyes, if_pos (hc.mpr hyes)]
    exact h hyes
  · rw [if_neg hyes, if_neg (mt hc.mp hyes)]
    exact h' hyes

/-- One operation, and what both runs make of its answer. -/
theorem Copies.act {o o' : Op} {k : Res o → Prog Op Res ε α} {k' : Res o' → Prog Op Res ε γ}
    (h : ∀ s t, M.view s t → M.allowed o s → M.own o s ∧ M.view (M.step o s).2 (M.step o' t).2 ∧
      M.Copies f Q (k (M.step o s).1) (k' (M.step o' t).1)) :
    M.Copies f Q (.act o k) (.act o' k') := by
  intro s t hv hg
  obtain ⟨hown, hview, hcopies⟩ := h s t hv hg.1
  have hdone := hcopies _ _ hview hg.2
  exact ⟨⟨hown, hdone.along⟩, hdone.view, hdone.answer, hdone.post⟩

/-! ### With statics -/

variable {V : Type} [DecidableEq V]

/-- The object initialises its statics with `init`; alone, it is the first to do so. -/
def withStatics (M : Mirror Op Res σ) (init : V → String) :
    Mirror (StaticOp Op V) (StaticOp.Answer Res) (σ × (V → Option String)) where
  step := StaticOp.step M.step
  allowed := fun o s => match o with
    | .shared o => M.allowed o s.1
    | .static x v => s.2 x = none ∨ s.2 x = some v
  own := fun o s => match o with
    | .shared o => M.own o s.1
    | .static _ _ => True
  view := fun s t => M.view s.1 t.1 ∧ ∀ x, t.2 x = none ∨ t.2 x = some (init x)

theorem Copies.shared {init : V → String} (h : M.Copies f Q p p') :
    (M.withStatics init).Copies f Q p.shared p'.shared := by
  intro s t hv hg
  obtain ⟨s, vars⟩ := s
  obtain ⟨t, vars'⟩ := t
  have hdone := h s t hv.1 ((Prog.along_shared p s vars).mp hg)
  have hrun : p.shared.run (M.withStatics init).step (s, vars) = _ := Prog.run_shared p s vars
  have hrun' : p'.shared.run (M.withStatics init).step (t, vars') = _ :=
    Prog.run_shared p' t vars'
  refine ⟨(Prog.along_shared p s vars).mpr hdone.along, ?_, ?_, ?_⟩
  · rw [hrun, hrun']
    exact ⟨hdone.view, hv.2⟩
  · rw [hrun, hrun']
    exact hdone.answer
  · rw [hrun]
    exact hdone.post

/-- A static that had no value, or the object's own, has the object's own. -/
theorem Copies.static {init : V → String} (x : V) :
    (M.withStatics init).Copies id (· = init x)
      (static x (init x) : Prog (StaticOp Op V) (StaticOp.Answer Res) ε String)
      (Interleave.static x (init x)) := by
  have hstep : ∀ s : σ × (V → Option String), s.2 x = none ∨ s.2 x = some (init x) →
      ∃ vars, (M.withStatics init).step (.static x (init x)) s = (init x, (s.1, vars)) ∧
        ∀ y, vars y = s.2 y ∨ vars y = some (init y) := by
    intro s hs
    rcases hs with hs | hs
    · refine ⟨Function.update s.2 x (some (init x)), ?_, fun y => ?_⟩
      · simp [withStatics, StaticOp.step, hs]
      · by_cases heq : y = x
        · rw [heq, Function.update_self]
          exact .inr rfl
        · rw [Function.update_of_ne heq]
          exact .inl rfl
    · exact ⟨s.2, by simp [withStatics, StaticOp.step, hs], fun y => .inl rfl⟩
  refine Copies.act fun s t hv hg => ⟨trivial, ?_⟩
  obtain ⟨vars, hs, -⟩ := hstep s hg
  obtain ⟨vars', ht, hvars⟩ := hstep t (hv.2 x)
  rw [hs, ht]
  refine ⟨⟨hv.1, fun y => ?_⟩, Copies.ret rfl rfl⟩
  rcases hvars y with h | h
  · exact (hv.2 y).imp h.trans h.trans
  · exact .inr h

end Mirror

/-! ## Runs -/

namespace Machine

variable {A ι : Type} {M : Machine σ A} {G G' : σ → A → Prop} {s : σ} {as : List A}

instance Within.decidable [∀ s a, Decidable (G s a)] :
    ∀ (s : σ) (as : List A), Decidable (M.Within G s as)
  | _, [] => .isTrue trivial
  | s, a :: as =>
    have := Within.decidable ((M.step s a).getD s) as
    inferInstanceAs (Decidable (G s a ∧ _))

theorem Within.mono (h : M.Within G s as) (hG : ∀ s a, G s a → G' s a) : M.Within G' s as := by
  induction as generalizing s with
  | nil => trivial
  | cons a as ih => exact ⟨hG s a h.1, ih h.2⟩

theorem Within.and (h : M.Within G s as) (h' : M.Within G' s as) :
    M.Within (fun s a => G s a ∧ G' s a) s as := by
  induction as generalizing s with
  | nil => trivial
  | cons a as ih => exact ⟨⟨h.1, h'.1⟩, ih h.2 h'.2⟩

theorem Within.of_mem {P : A → Prop} (h : ∀ a ∈ as, P a) : M.Within (fun _ a => P a) s as := by
  induction as generalizing s with
  | nil => trivial
  | cons a as ih =>
      exact ⟨h a List.mem_cons_self, ih fun b hb => h b (List.mem_cons_of_mem _ hb)⟩

/-- The actions of a run that are left when object `i` is alone. -/
def alone (mine : ι → A → Bool) (f : ι → A → A) (i : ι) (as : List A) : List A :=
  (as.filter (mine i)).map (f i)

/--
**Unwinding.** If an action of an object does in the run in which it is alone what it does in the
shared one, and the actions of the others do not touch its view, then each object sees the run
in which it is alone.
-/
theorem unwind {V : ι → σ → σ → Prop} {mine : ι → A → Bool} {f : ι → A → A} {t : ι → σ}
    (hown : ∀ s (t : ι → σ) a i, G s a → (∀ i, V i s (t i)) → mine i a = true →
      V i ((M.step s a).getD s) ((M.step (t i) (f i a)).getD (t i)))
    (hother : ∀ s (t : ι → σ) a i, G s a → (∀ i, V i s (t i)) → mine i a = false →
      V i ((M.step s a).getD s) (t i))
    (hw : M.Within G s as) (hv : ∀ i, V i s (t i)) :
    M.Within (fun s _ => ∃ t : ι → σ, ∀ i, V i s (t i)) s as ∧
      ∀ i, V i (M.exec s as) (M.exec (t i) (alone mine f i as)) := by
  induction as generalizing s t with
  | nil => exact ⟨trivial, hv⟩
  | cons a as ih =>
      have hstep : ∀ i, V i ((M.step s a).getD s)
          (if mine i a = true then (M.step (t i) (f i a)).getD (t i) else t i) := by
        intro i
        split
        · next hmine => exact hown s t a i hw.1 hv hmine
        · next hmine => exact hother s t a i hw.1 hv (eq_false_of_ne_true hmine)
      obtain ⟨hrest, hend⟩ := ih hw.2 hstep
      refine ⟨⟨⟨t, hv⟩, hrest⟩, fun i => ?_⟩
      have := hend i
      by_cases hmine : mine i a = true
      · rw [if_pos hmine] at this
        rw [alone, List.filter_cons_of_pos hmine]
        exact this
      · rw [if_neg hmine] at this
        rw [alone, List.filter_cons_of_neg hmine]
        exact this

section Clock

variable {clock : σ → Nat}

theorem clock_le_exec (hclock : ∀ s a, clock s ≤ clock ((M.step s a).getD s)) (s : σ)
    (as : List A) : clock s ≤ clock (M.exec s as) := by
  induction as generalizing s with
  | nil => exact Nat.le_refl _
  | cons a as ih => exact (hclock s a).trans (ih _)

theorem within_clock (hclock : ∀ s a, clock s ≤ clock ((M.step s a).getD s)) {n : Nat}
    (hn : n ≤ clock s) (as : List A) : M.Within (fun s' _ => n ≤ clock s') s as := by
  induction as generalizing s with
  | nil => trivial
  | cons a as ih => exact ⟨hn, ih (hn.trans (hclock s a))⟩

/-- Each tick of a clock in a run is an action's, and so an object's or not. -/
theorem exists_ticks (hclock : ∀ s a, clock s ≤ clock ((M.step s a).getD s))
    (mine : ι → A → Bool) (s : σ) (as : List A) :
    ∃ ticks : ι → Nat → Prop, (∀ i r, ticks i r → clock s < r ∧ r ≤ clock (M.exec s as)) ∧
      M.Within (fun s a => ∀ i r, clock s < r → r ≤ clock ((M.step s a).getD s) →
        (ticks i r ↔ mine i a = true)) s as := by
  induction as generalizing s with
  | nil => exact ⟨fun _ _ => False, fun _ _ h => h.elim, trivial⟩
  | cons a as ih =>
      obtain ⟨ticks, hrange, hticks⟩ := ih ((M.step s a).getD s)
      have hle := hclock s a
      have hle' : clock ((M.step s a).getD s) ≤ clock (M.exec s (a :: as)) :=
        clock_le_exec hclock _ as
      refine ⟨fun i r => (clock s < r ∧ r ≤ clock ((M.step s a).getD s) ∧ mine i a = true) ∨
        ticks i r, ?_, ?_, ?_⟩
      · intro i r h
        rcases h with ⟨hlt, hr, -⟩ | h
        · exact ⟨hlt, hr.trans hle'⟩
        · exact ⟨hle.trans_lt (hrange i r h).1, (hrange i r h).2⟩
      · intro i r hlt hr
        refine ⟨fun h => ?_, fun h => .inl ⟨hlt, hr, h⟩⟩
        rcases h with ⟨-, -, h⟩ | h
        · exact h
        · have := (hrange i r h).1
          omega
      · refine (hticks.and (within_clock hclock (Nat.le_refl _) as)).mono ?_
        intro s' a' h i r hlt hr
        rw [← h.1 i r hlt hr]
        refine or_iff_right fun ⟨_, hle, _⟩ => ?_
        have := h.2
        omega

end Clock

end Machine

/-! ## Names for the readings of a clock -/

/--
The readings of a clock that several objects drive, and what one of them would read if only its
own ticks counted.
-/
structure Renaming where
  /-- The readings that the object itself has brought about. -/
  mine : Nat → Prop
  /-- What the object's own clock says when the shared one says `r`. -/
  clock : Nat → Nat
  /-- What `r` is called in the run of the object. -/
  name : Nat → Nat
  name_injective : Function.Injective name
  name_zero : name 0 = 0
  name_succ : ∀ r, mine (r + 1) → name (r + 1) = clock r + 1
  clock_mine : ∀ r, mine (r + 1) → clock (r + 1) = clock r + 1
  clock_other : ∀ r, ¬ mine (r + 1) → clock (r + 1) = clock r

/-- There are such names, and they are new only for readings after `first`. -/
theorem exists_renaming {mine : Nat → Prop} {first last : Nat}
    (h : ∀ r, mine r → first < r ∧ r ≤ last) :
    ∃ R : Renaming, R.mine = mine ∧ R.clock first = first ∧ ∀ r ≤ first, R.name r = r := by
  classical
  have hzero : Nat.count mine (first + 1) = 0 := by
    rw [Nat.count_iff_forall_not]
    intro m hm hmine
    have := (h m hmine).1
    omega
  have hcount : ∀ r, first < r → first + Nat.count mine (r + 1) ≤ r := by
    intro r hr
    induction r, hr using Nat.le_induction with
    | base =>
        rw [Nat.count_succ, hzero]
        split <;> omega
    | succ r hr ih =>
        rw [Nat.count_succ]
        split <;> omega
  have hpos : ∀ r, mine r → 0 < Nat.count mine (r + 1) := by
    intro r hr
    rw [Nat.count_succ, if_pos hr]
    omega
  -- the object's own readings follow one another, and the others are out of the way
  let name := fun r => if r ≤ first then r else
    if mine r then first + Nat.count mine (r + 1) else last + r
  have hname_le : ∀ r, r ≤ first → name r = r := fun r hr => if_pos hr
  have hname_mine : ∀ r, mine r → name r = first + Nat.count mine (r + 1) := fun r hr =>
    (if_neg (by have := (h r hr).1; omega)).trans (if_pos hr)
  have hname_other : ∀ r, first < r → ¬ mine r → name r = last + r := fun r hr hmine =>
    (if_neg (by omega)).trans (if_neg hmine)
  have hkind : ∀ r, r ≤ first ∧ name r = r ∨
      mine r ∧ first < name r ∧ name r ≤ last ∧ name r = first + Nat.count mine (r + 1) ∨
      first < r ∧ name r = last + r := by
    intro r
    by_cases hr : r ≤ first
    · exact .inl ⟨hr, hname_le r hr⟩
    · by_cases hmine : mine r
      · have h1 := hcount r (by omega)
        have h2 := hpos r hmine
        have h3 := (h r hmine).2
        refine .inr (.inl ⟨hmine, ?_, ?_, hname_mine r hmine⟩)
        · rw [hname_mine r hmine]
          omega
        · rw [hname_mine r hmine]
          omega
      · exact .inr (.inr ⟨by omega, hname_other r (by omega) hmine⟩)
  refine ⟨⟨mine, fun r => first + Nat.count mine (r + 1), name, ?_, hname_le 0 (Nat.zero_le _),
    ?_, ?_, ?_⟩, rfl, congrArg (first + ·) hzero, hname_le⟩
  · intro r r' heq
    rcases hkind r with ⟨h1, h2⟩ | ⟨h1, h2, h3, h4⟩ | ⟨h1, h2⟩ <;>
      rcases hkind r' with ⟨h1', h2'⟩ | ⟨h1', h2', h3', h4'⟩ | ⟨h1', h2'⟩
    · omega
    · omega
    · omega
    · omega
    · have hcounts : Nat.count mine r + 1 = Nat.count mine r' + 1 := by
        rw [Nat.count_succ, if_pos h1] at h4
        rw [Nat.count_succ, if_pos h1'] at h4'
        omega
      exact Nat.count_injective h1 h1' (by omega)
    · omega
    · omega
    · omega
    · omega
  · intro r hr
    rw [hname_mine _ hr, Nat.count_succ, if_pos hr]
    rfl
  · intro r hr
    rw [Nat.count_succ, if_pos hr]
    rfl
  · intro r hr
    rw [Nat.count_succ, if_neg hr]
    rfl

end Interleave
