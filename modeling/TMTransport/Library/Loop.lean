import TMTransport.Library.Prog

/-!
# A call that is left alone, and its loop

`Ends` is the weakest precondition of a call that nobody disturbs. A loop goes round as long
as its body comes back with `inl`, and ends if some number of turns is enough for it. Each of
its turns either moves the question on to where the turn left off, or answers it; and a loop
whose turns all leave it where it can be again never ends.
-/

namespace Interleave

variable {Op : Type} {Res : Op → Type} {ε α β C σ : Type}

namespace Prog

variable (step : (o : Op) → σ → Res o × σ)

/-- Left alone from `s` on, the call returns with `Q` or fails with `E`. -/
def Ends (p : Prog Op Res ε α) (s : σ) (Q : α → σ → Prop) (E : ε → σ → Prop) : Prop :=
  match p.run step s with
  | (.ok a, s') => Q a s'
  | (.error e, s') => E e s'

/-- The loop whose turns are the calls of `body`, for a number of turns at most. -/
def loop (body : C → Prog Op Res ε (C ⊕ α)) : Nat → C → Prog Op Res ε (Option α)
  | 0, _ => .ret none
  | fuel + 1, c => (body c).bind fun r => match r with
    | .inl c' => loop body fuel c'
    | .inr a => .ret (some a)

/-- Left alone, the loop ends, and returns with `Q` or fails with `E`. -/
def LoopEnds (body : C → Prog Op Res ε (C ⊕ α)) (c : C) (s : σ) (Q : α → σ → Prop)
    (E : ε → σ → Prop) : Prop :=
  ∃ fuel, (loop body fuel c).Ends step s (fun r s' => ∃ a, r = some a ∧ Q a s') E

variable {step} {s s' : σ} {Q Q' : α → σ → Prop} {E : ε → σ → Prop}

/-! ## Calls -/

theorem ends_ret {a : α} (h : Q a s) : (Prog.ret a : Prog Op Res ε α).Ends step s Q E := h

theorem ends_act {o : Op} {k : Res o → Prog Op Res ε α}
    (h : (k (step o s).1).Ends step (step o s).2 Q E) : (Prog.act o k).Ends step s Q E := h

theorem ends_bind {p : Prog Op Res ε β} {f : β → Prog Op Res ε α} {R : β → σ → Prop}
    (hp : p.Ends step s R E) (hf : ∀ b s', R b s' → (f b).Ends step s' Q E) :
    (p.bind f).Ends step s Q E := by
  unfold Ends at hp ⊢
  rw [run_bind]
  cases hrun : p.run step s with
  | mk r s' =>
      rw [hrun] at hp
      cases r with
      | ok b => exact hf b s' hp
      | error e => exact hp

theorem Ends.mono {p : Prog Op Res ε α} (h : p.Ends step s Q E) (hQ : ∀ a s', Q a s' → Q' a s') :
    p.Ends step s Q' E := by
  unfold Ends at h ⊢
  cases hrun : p.run step s with
  | mk r s' =>
      rw [hrun] at h
      cases r with
      | ok a => exact hQ a s' h
      | error e => exact h

/-- A call that does not fail returns. -/
theorem Ends.returns {p : Prog Op Res ε α} (h : p.Ends step s Q fun _ _ => False) :
    ∃ a s', p.run step s = (.ok a, s') ∧ Q a s' := by
  unfold Ends at h
  cases hrun : p.run step s with
  | mk r s' =>
      rw [hrun] at h
      cases r with
      | ok a => exact ⟨a, s', rfl, h⟩
      | error e => exact h.elim

/-! ## Loops -/

variable {body : C → Prog Op Res ε (C ⊕ α)} {c c' : C}

theorem ends_loop_turn (h : (body c).run step s = (.ok (.inl c'), s')) (fuel : Nat)
    {R : Option α → σ → Prop} :
    (loop body (fuel + 1) c).Ends step s R E ↔ (loop body fuel c').Ends step s' R E := by
  unfold Ends
  rw [loop, run_bind, h]

/-- A turn that does not end the loop moves the question on. -/
theorem loopEnds_turn (h : (body c).run step s = (.ok (.inl c'), s')) :
    LoopEnds step body c s Q E ↔ LoopEnds step body c' s' Q E := by
  constructor
  · rintro ⟨fuel, hfuel⟩
    cases fuel with
    | zero =>
        obtain ⟨a, ha, -⟩ := hfuel
        cases ha
    | succ fuel => exact ⟨fuel, (ends_loop_turn h fuel).mp hfuel⟩
  · rintro ⟨fuel, hfuel⟩
    exact ⟨fuel + 1, (ends_loop_turn h fuel).mpr hfuel⟩

theorem loopEnds_done {a : α} (h : (body c).run step s = (.ok (.inr a), s')) :
    LoopEnds step body c s Q E ↔ Q a s' := by
  have hrun : ∀ fuel, (loop body (fuel + 1) c).run step s = (.ok (some a), s') := by
    intro fuel
    rw [loop, run_bind, h]
    rfl
  constructor
  · rintro ⟨fuel, hfuel⟩
    unfold Ends at hfuel
    cases fuel with
    | zero =>
        obtain ⟨a, ha, -⟩ := hfuel
        cases ha
    | succ fuel =>
        rw [hrun] at hfuel
        obtain ⟨a', ha, hq⟩ := hfuel
        cases ha
        exact hq
  · intro hq
    refine ⟨1, ?_⟩
    unfold Ends
    rw [hrun 0]
    exact ⟨a, rfl, hq⟩

theorem loopEnds_failed {e : ε} (h : (body c).run step s = (.error e, s')) :
    LoopEnds step body c s Q E ↔ E e s' := by
  have hrun : ∀ fuel, (loop body (fuel + 1) c).run step s = (.error e, s') := by
    intro fuel
    rw [loop, run_bind, h]
  constructor
  · rintro ⟨fuel, hfuel⟩
    unfold Ends at hfuel
    cases fuel with
    | zero =>
        obtain ⟨a, ha, -⟩ := hfuel
        cases ha
    | succ fuel => rwa [hrun] at hfuel
  · intro he
    refine ⟨1, ?_⟩
    unfold Ends
    rw [hrun 0]
    exact he

/-- **A loop that can only go on** never ends. -/
theorem not_loopEnds {P : C → σ → Prop}
    (hturn : ∀ c s, P c s → ∃ c' s', (body c).run step s = (.ok (.inl c'), s') ∧ P c' s')
    (h : P c s) : ¬ LoopEnds step body c s Q E := by
  rintro ⟨fuel, hfuel⟩
  induction fuel generalizing c s with
  | zero =>
      obtain ⟨a, ha, -⟩ := hfuel
      cases ha
  | succ fuel ih =>
      obtain ⟨c', s', hrun, hP⟩ := hturn c s h
      exact ih hP ((ends_loop_turn hrun fuel).mp hfuel)

end Prog

end Interleave
