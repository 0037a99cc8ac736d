import TMTransport.RedisChain.Appends

/-!
# Every run keeps the list

The specifications of the calls, put together: in every reachable world redis holds
the list that the appends add up to, and every call that returned has kept its word.
-/

namespace RedisChain

open Interleave Redis LinkedStore

variable {T : Type}

/-- The guard of a setting keeps its calls out of harm's way. -/
structure Setting.Guarded (Γ : Setting T) : Prop where
  calls : ∀ h c, Γ.may h c → Γ.calls c
  held : Γ.reads → ∀ h c cur, Γ.may h c → c.current = some cur → Held h cur
  nonempty : ∀ c cur items, Γ.calls c → c.appends = some (cur, items) → items ≠ []
  /-- The loop of `tryAppend` is made of calls of the same kind. -/
  loops : ∀ lang cur cur' id d, Γ.calls (.tryAppend lang cur id d) →
    Γ.calls (.tryAppend lang cur' id d)
  appends : ∀ c o st, Γ.guard.op c o st → AppendsWell Γ.cfg c o st
  heads : ∀ c o st, Γ.guard.op c o st → HeadWell Γ.cfg c
  next : Γ.reads → ∀ c o st, Γ.guard.op c o st → ReadsWell Γ.cfg c st

/-- What an append has done when it ends with `r`. -/
def AppendEnded (n : Nat) (cur : ChainItem T) (items : List (String × T))
    (r : Except String (Reply T)) (st : Store × Ghost T) : Prop :=
  match r with
  | .ok (.appended ok _) => AppendDone n cur items ok st
  | .ok _ => False
  | .error _ => Idle n st

/-- A call that ended with `r` has kept its word. -/
structure Setting.Answered (Γ : Setting T) (n : Nat) (c : Req T) (r : Except String (Reply T))
    (st : Store × Ghost T) : Prop where
  handed : Γ.reads → ∀ cur, c.current = some cur → Known Γ.cfg cur st
  known : Γ.reads → ∀ rep it, r = .ok rep → rep.current = some it → Known Γ.cfg it st
  head : c.kind = .head → ∃ it, r = .ok (.item (some it)) ∧ it.id = Γ.cfg.headKey
  next : Γ.reads → ∀ cur, c.kind = .next cur → ∃ o, r = .ok (.next o) ∧
    Followed Γ.cfg n cur True o st
  append : ∀ cur items, c.kind = .append cur items → AppendEnded n cur items r st

/-- What a call may count on when it starts, and whenever it goes round its loop. -/
structure Setting.Ready (Γ : Setting T) (n : Nat) (c : Req T) (st : Store × Ghost T) : Prop where
  calls : Γ.calls c
  handed : Γ.reads → ∀ cur, c.current = some cur → Known Γ.cfg cur st
  idle : Idle n st
  first : ∀ cur, c.kind = .next cur → st.2.first n = none

/-- One turn of a call ends with its answer, or with the next turn to take. -/
def Setting.Turned (Γ : Setting T) (n : Nat) (c : Req T) (r : Req T ⊕ Reply T)
    (st : Store × Ghost T) : Prop :=
  match r with
  | .inl c' => Γ.Ready n c' st
  | .inr a => Γ.Answered n c (.ok a) st

variable {Γ : Setting T} {n : Nat} {c : Req T} {cur : ChainItem T} {items : List (String × T)}
  {r : Except String (Reply T)} {st st' : Store × Ghost T}

theorem AppendEnded.stable (h : AppendEnded n cur items r st) (hm : Moves n st st') :
    AppendEnded n cur items r st' := by
  cases r with
  | error e => exact Idle.stable h hm
  | ok rep =>
      cases rep with
      | appended ok it => exact AppendDone.stable h hm
      | _ => exact h.elim

theorem Setting.Answered.stable (h : Γ.Answered n c r st) (hm : Moves n st st') :
    Γ.Answered n c r st' where
  handed hr cur hc := (h.handed hr cur hc).later hm.later
  known hr rep it hrep hit := (h.known hr rep it hrep hit).later hm.later
  head := h.head
  next hr cur hc := (h.next hr cur hc).imp fun _ ho => ⟨ho.1, ho.2.stable hm⟩
  append cur items hc := (h.append cur items hc).stable hm

theorem Setting.Ready.stable (h : Γ.Ready n c st) (hm : Moves n st st') : Γ.Ready n c st' where
  calls := h.calls
  handed hr cur hc := (h.handed hr cur hc).later hm.later
  idle := h.idle.stable hm
  first cur hc := hm.first.trans (h.first cur hc)

theorem current_of_append (hk : c.kind = .append cur items) : c.current = some cur := by
  rw [Req.current, hk]

theorem appends_of_append (hk : c.kind = .append cur items) : c.appends = some (cur, items) := by
  rw [Req.appends, hk]

/-- A call for the head. -/
theorem answered_head (hk : c.kind = .head) {it : ChainItem T} (h : HeadFound Γ.cfg it st) :
    Γ.Answered n c (.ok (.item (some it))) st where
  handed _ cur hc := by
    rw [Req.current, hk] at hc
    cases hc
  known _ rep it' hrep hit := by
    cases hrep
    cases hit
    exact h.2
  head _ := ⟨it, rfl, h.1⟩
  next _ cur hc := absurd (hk.symm.trans hc) (by simp)
  append cur items hc := absurd (hk.symm.trans hc) (by simp)

/-- A call for the item after `cur`. -/
theorem answered_next (hk : c.kind = .next cur) {r : Except String (Reply T)}
    (hcur : Γ.reads → Known Γ.cfg cur st)
    (h : Γ.reads → ∃ o, r = .ok (.next o) ∧ Followed Γ.cfg n cur True o st) :
    Γ.Answered n c r st where
  handed hr cur' hc := by
    rw [Req.current, hk] at hc
    cases hc
    exact hcur hr
  known hr rep it hrep hit := by
    obtain ⟨o, rfl, hfollowed⟩ := h hr
    cases hrep
    exact (hfollowed.item it hit).1
  head hc := absurd (hk.symm.trans hc) (by simp)
  next hr cur' hc := by
    cases hk.symm.trans hc
    exact h hr
  append cur' items hc := absurd (hk.symm.trans hc) (by simp)

/-- An append after `cur`. -/
theorem answered_append (hk : c.kind = .append cur items) (hcur : Γ.reads → Known Γ.cfg cur st)
    (hknown : Γ.reads → ∀ rep it, r = .ok rep → rep.current = some it → Known Γ.cfg it st)
    (h : AppendEnded n cur items r st) : Γ.Answered n c r st where
  handed hr cur' hc := by
    cases (current_of_append hk).symm.trans hc
    exact hcur hr
  known := hknown
  head hc := absurd (hk.symm.trans hc) (by simp)
  next _ cur' hc := absurd (hk.symm.trans hc) (by simp)
  append cur' items' hc := by
    cases hk.symm.trans hc
    exact h

section Body

variable [Inhabited T]

theorem head_turned (hk : c.kind = .head) {p : Call (ChainItem T)}
    (hi : ListInv Γ.cfg Γ.cd st.1 st.2.log)
    (hp : Γ.Meets n c (HeadFound Γ.cfg) (fun _ _ => False) p st) :
    Γ.Meets n c (Γ.Turned n c) (fun e => Γ.Answered n c (.error e))
      (p.bind fun it => .ret (.inr (.item (some it)))) st := by
  refine Safe.bind (hp.mono (fun _ _ _ h => h) fun _ _ _ h => h.elim) (fun it st' _ h => ?_) hi
  have hdone : Γ.Turned n c (.inr (.item (some it))) st' := answered_head hk h
  exact Safe.ret hdone fun _ _ hm _ h => Setting.Answered.stable h hm

theorem head_turned_some (hk : c.kind = .head) {p : Call (Option (ChainItem T))}
    (hi : ListInv Γ.cfg Γ.cd st.1 st.2.log)
    (hp : Γ.Meets n c (fun o st' => ∃ it, o = some it ∧ HeadFound Γ.cfg it st')
      (fun _ _ => False) p st) :
    Γ.Meets n c (Γ.Turned n c) (fun e => Γ.Answered n c (.error e))
      (p.bind fun it => .ret (.inr (.item it))) st := by
  refine Safe.bind (hp.mono (fun _ _ _ h => h) fun _ _ _ h => h.elim) (fun o st' _ h => ?_) hi
  obtain ⟨it, rfl, hfound⟩ := h
  have hdone : Γ.Turned n c (.inr (.item (some it))) st' := answered_head hk hfound
  exact Safe.ret hdone fun _ _ hm _ h => Setting.Answered.stable h hm

/-- A call for the next item only reads, and is right about an item that is known. -/
theorem next_turned (hk : c.kind = .next cur) {p : Call (Option (ChainItem T))}
    (hi : ListInv Γ.cfg Γ.cd st.1 st.2.log) (hr : Γ.Ready n c st) (hgets : p.Only Op.Gets)
    (hp : Γ.reads → Known Γ.cfg cur st →
      Γ.Meets n c (Followed Γ.cfg n cur (st.2.first n = none)) (fun _ _ => False) p st) :
    Γ.Meets n c (Γ.Turned n c) (fun e => Γ.Answered n c (.error e))
      (p.bind fun it => .ret (.inr (.next it))) st := by
  have hcurrent : c.current = some cur := by rw [Req.current, hk]
  by_cases hreads : Γ.reads
  · have hcur := hr.handed hreads cur hcurrent
    have hmeets := (hp hreads hcur).frame hcur fun _ _ _ hm h => h.later hm.later
    refine Safe.bind (hmeets.mono (fun _ _ _ h => h) fun _ _ _ h => h.1.elim) ?_ hi
    rintro o st' - ⟨hfollowed, hcur'⟩
    have hdone : Γ.Turned n c (.inr (.next o)) st' := by
      refine answered_next hk (fun _ => hcur') fun _ => ⟨o, rfl, ?_, hfollowed.item⟩
      exact fun hnone _ => hfollowed.last hnone (hr.first cur hk)
    exact Safe.ret hdone fun _ _ hm _ h => Setting.Answered.stable h hm
  · have hno : ∀ r st', Γ.Answered n c r st' := fun r st' =>
      answered_next hk (fun h => absurd h hreads) fun h => absurd h hreads
    refine Safe.bind ((idle_of_gets hgets hr.idle).mono (fun _ _ _ h => h) fun e st' _ _ =>
      hno _ st') ?_ hi
    intro o st' _ _
    exact fun st'' _ _ => hno _ st''

theorem append_turned (hk : c.kind = .append cur items) {p : Call Bool}
    (hi : ListInv Γ.cfg Γ.cd st.1 st.2.log) (hr : Γ.Ready n c st)
    (hp : Γ.Meets n c (AppendDone n cur items) (fun _ st' => Idle n st') p st) :
    Γ.Meets n c (Γ.Turned n c) (fun e => Γ.Answered n c (.error e))
      (p.bind fun ok => .ret (.inr (.appended ok none))) st := by
  have hcur : Γ.reads → Known Γ.cfg cur st := fun hreads =>
    hr.handed hreads cur (current_of_append hk)
  have hmeets := hp.frame (F := fun st' => Γ.reads → Known Γ.cfg cur st') hcur
    fun _ _ _ hm h hreads => (h hreads).later hm.later
  refine Safe.bind (hmeets.mono (fun _ _ _ h => h) fun e st' _ h => ?_) ?_ hi
  · exact answered_append hk h.2 (fun _ rep it hrep => by cases hrep) h.1
  · rintro ok st' - ⟨hdone, hcur'⟩
    have hdone' : Γ.Turned n c (.inr (.appended ok none)) st' := by
      refine answered_append hk hcur' (fun _ rep it hrep hit => ?_) hdone
      cases hrep
      cases hit
    exact Safe.ret hdone' fun _ _ hm _ h => Setting.Answered.stable h hm

theorem body_meets (hΓ : Γ.Guarded) (hi : ListInv Γ.cfg Γ.cd st.1 st.2.log)
    (hr : Γ.Ready n c st) :
    Γ.Meets n c (Γ.Turned n c) (fun e => Γ.Answered n c (.error e)) (body Γ.cfg Γ.cd c) st := by
  have hwell : ∀ o st', Γ.guard.op c o st' → AppendsWell Γ.cfg c o st' := hΓ.appends c
  cases c with
  | head => exact head_turned rfl hi (head_meets rfl fun o st' hg => hΓ.heads _ o st' hg rfl rfl)
  | fetchNext cur =>
      refine next_turned rfl hi hr (fetchNext_gets cur) fun hreads hcur => ?_
      exact fetchNext_meets hcur hi fun o st' hg => hΓ.next hreads _ o st' hg cur rfl rfl
  | appendAfter cur id d =>
      exact append_turned rfl hi hr (appendAfter_meets rfl rfl hr.idle hwell)
  | appendAfterBatch cur l =>
      have hne : l ≠ [] := hΓ.nonempty _ cur l hr.calls rfl
      exact append_turned rfl hi hr
        (appendAfterBatch_meets rfl hne (fun hlen => decide_eq_true hlen) hr.idle hwell)
  | dotNetHead d => exact head_turned_some rfl hi (DotNet.head_meets rfl d)
  | dotNetFetchNext cur =>
      refine next_turned rfl hi hr (DotNet.fetchNext_gets cur) fun _ hcur => ?_
      exact DotNet.fetchNext_meets hcur hi
  | dotNetAppendAfter cur id d =>
      exact append_turned rfl hi hr (DotNet.appendAfter_meets rfl hr.idle hwell)
  | start lang d => exact head_turned_some rfl hi (Script.start_meets rfl d)
  | next lang cur =>
      refine next_turned rfl hi hr (Script.next_gets cur) fun _ hcur => ?_
      exact Script.next_meets hcur hi
  | tryAppend lang cur id d =>
      have hcur : Γ.reads → Known Γ.cfg cur st := fun hreads => hr.handed hreads cur rfl
      have hmeets := (Script.tryAppend_meets (Γ := Γ) rfl hi hr.idle hcur hwell).frame
        (F := fun st' => Γ.reads → Known Γ.cfg cur st') hcur
        fun _ _ _ hm h hreads => (h hreads).later hm.later
      refine Safe.bind (hmeets.mono (fun _ _ _ h => h) fun e st' _ h => ?_) ?_ hi
      · exact answered_append rfl h.2 (fun _ rep it hrep => by cases hrep) h.1
      · rintro r st' - ⟨htried, hcur'⟩
        cases r with
        | inl it =>
            have hturn : Γ.Turned n (.tryAppend lang cur id d)
                (.inl (.tryAppend lang it id d)) st' := by
              refine ⟨hΓ.loops lang cur it id d hr.calls, fun hreads cur'' hc => ?_, htried.1,
                fun cur'' hk => by cases hk⟩
              cases hc
              exact htried.2 hreads
            exact Safe.ret hturn fun _ _ hm _ h => Setting.Ready.stable h hm
        | inr r =>
            have hdone : Γ.Turned n (.tryAppend lang cur id d)
                (.inr (.appended r.1 (some r.2))) st' := by
              refine answered_append rfl hcur' (fun hreads rep it hrep hit => ?_) htried.1
              cases hrep
              cases hit
              exact htried.2 hreads
            exact Safe.ret hdone fun _ _ hm _ h => Setting.Answered.stable h hm

end Body

/-! ## Runs -/

variable [Inhabited T]

/-- An item that some client has is known: the call that it comes from has kept its word. -/
theorem known_of_held {h : History T} {it : ChainItem T} (hreads : Γ.reads)
    (hi : ListInv Γ.cfg Γ.cd st.1 st.2.log)
    (hp : ∀ e ∈ h, Γ.Answered e.1 e.2.1 e.2.2 st) (hh : Held h it) : Known Γ.cfg it st := by
  obtain ⟨e, he, hc | ⟨rep, hr, hit⟩ | ⟨o, cur, items, hr, hk, x, hx, rfl⟩⟩ := hh
  · exact (hp e he).handed hreads it hc
  · exact (hp e he).known hreads rep it hr hit
  · have hended := (hp e he).append cur items hk
    rw [hr] at hended
    have hlog : ⟨e.1, cur.id, items⟩ ∈ st.2.log := hended
    exact known_of_appended hi (List.mem_flatMap.mpr ⟨_, hlog, hx⟩)

theorem obligations (hΓ : Γ.Guarded) :
    Obligations (system Γ.cfg Γ.cd Γ.may) Γ.guard (contract Γ.cfg Γ.cd) (fun _ => none, {})
      (fun n st => Idle n st ∧ st.2.first n = none) Γ.Ready Γ.Answered where
  init := listInv_init
  fresh_init n := ⟨⟨fun e he => (by cases he), fun h => h⟩, rfl⟩
  fresh_stable n s s' h hm := ⟨h.1.stable hm, hm.first.trans h.2⟩
  env s t _ he _ := he.elim
  post_stable n c r s s' h hm _ := h.stable hm
  call n c s h hi hfresh hp hm := by
    refine ⟨hΓ.calls h c hm, fun hreads cur hc => ?_, hfresh.1, fun _ _ => hfresh.2⟩
    exact known_of_held hreads hi hp (hΓ.held hreads h c cur hm hc)
  body n c s hi hr := (body_meets hΓ hi hr).mono (fun r s' _ h => by cases r <;> exact h)
    fun _ _ _ h => h

/-- **Every run keeps the list**, and every call that returned has kept its word. -/
theorem settled (hΓ : Γ.Guarded)
    {w : World Op Op.Res Store (Ghost T) (Req T) String (Reply T)}
    (hr : Runs Γ.cfg Γ.cd Γ.may Γ.guard w) :
    Settled (system Γ.cfg Γ.cd Γ.may) Γ.guard (contract Γ.cfg Γ.cd)
      (fun n st => Idle n st ∧ st.2.first n = none) Γ.Ready Γ.Answered w :=
  safe_reachable (obligations hΓ) hr

end RedisChain
