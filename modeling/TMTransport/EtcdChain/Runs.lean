import TMTransport.EtcdChain.Appends

/-!
# Every run keeps the chain

The specifications of the single calls, put together: in every reachable world
etcd holds what the log says, every call that returned has kept its word, and
every item that some client has is known.

`Guarded` collects what a run must be spared for this. Each clause names one way
in which the clients go wrong.
-/

namespace EtcdChain

open Etcd Interleave LinkedStore

variable {T : Type}

/-- The guard of a setting keeps its calls out of harm's way. -/
structure Setting.Guarded [Inhabited T] (Γ : Setting T) : Prop where
  appends : ∀ c o st, Γ.calls c → Γ.guard.op c o st → AppendsWhole Γ.cfg c o st
  keys : ∀ c o st, Γ.calls c → Γ.guard.op c o st → KeysWhole o
  loads : ∀ c id o st, Γ.calls c → c.kind = .load id → Γ.guard.op c o st →
    LoadsItem Γ.cfg id st.2.log
  exact : ∀ chain id d o st, id ≠ "" → Γ.calls (.dotNetLoadUntil chain id d) →
    Γ.guard.op (.dotNetLoadUntil chain id d) o st → LoadsExact Γ.cfg id st.1.etcd
  /-- `start` makes no head for a chain without separate storage. -/
  starts : ∀ lang chain d st, Γ.calls (.start lang chain d) →
    Γ.guard.op (.start lang chain d) (.txn (headTxn Γ.cfg "")) st →
    Γ.cfg.saveDataOnSeparateStorage = true ∨ st.1.etcd.kvs Γ.cfg.headKeyStr ≠ none
  /-- The head's data is what the C++ client makes it, unless another client is about. -/
  headData : Γ.H default ∧ ∀ c, Γ.calls c → c.isCpp = false → ∀ d, Γ.H d
  /-- The loop of `tryAppend` is made of calls of the same kind. -/
  loops : ∀ lang chain cur cur' id d, Γ.calls (.tryAppend lang chain cur id d) →
    Γ.calls (.tryAppend lang chain cur' id d)

/-- What an append of `l` after `cur` has done when it ends with `r`. -/
def AppendEnded (n : Nat) (c : Req T) (cur : ChainItem T) (l : List (String × T))
    (r : Except String (Reply T)) (st : State × Ghost T) : Prop :=
  match r with
  | .ok (.appended ok _) => AppendDone n c cur l ok st
  | .ok _ => False
  | .error _ => Idle n st

/-- A call that ended with `r` has kept its word. -/
structure Setting.Answered (Γ : Setting T) (n : Nat) (c : Req T) (r : Except String (Reply T))
    (st : State × Ghost T) : Prop where
  made : Γ.calls c
  handed : ∀ cur, c.current = some cur → Γ.KnownAt cur st
  known : ∀ rep it, r = .ok rep → rep.current = some it → Γ.KnownAt it st
  head : c.kind = .head → ∃ it, r = .ok (.item it) ∧ it.id = Γ.cfg.headKey
  load : ∀ id, c.kind = .load id → ∀ rep it, r = .ok rep → rep.current = some it → it.id = id
  next : ∀ cur, c.kind = .next cur → ∃ o, r = .ok (.next o) ∧
    ∀ it, o = some it → [cur.id, it.id] <:+: ids Γ.cfg st.2.log
  append : ∀ cur l, c.kind = .append cur l → l ≠ [] → AppendEnded n c cur l r st

/-- What a call may count on when it starts, and whenever it goes round its loop. -/
structure Setting.Ready (Γ : Setting T) (n : Nat) (c : Req T) (st : State × Ghost T) : Prop where
  calls : Γ.calls c
  handed : ∀ cur, c.current = some cur → Γ.KnownAt cur st
  idle : Idle n st

/-- One turn of a call ends with its answer, or with the next turn to take. -/
def Setting.Turned (Γ : Setting T) (n : Nat) (c : Req T) (r : Req T ⊕ Reply T)
    (st : State × Ghost T) : Prop :=
  match r with
  | .inl c' => Γ.Ready n c' st
  | .inr a => Γ.Answered n c (.ok a) st

theorem AppendEnded.stable {n : Nat} {c : Req T} {cur : ChainItem T} {l : List (String × T)}
    {r : Except String (Reply T)} {st st' : State × Ghost T} (h : AppendEnded n c cur l r st)
    (hm : Moves n st.1.etcd st.2 st'.1.etcd st'.2) : AppendEnded n c cur l r st' := by
  cases r with
  | error e => exact Idle.stable h hm
  | ok rep =>
      cases rep with
      | appended ok it => exact AppendDone.stable h hm
      | _ => exact h.elim

theorem Setting.Answered.stable {Γ : Setting T} {n : Nat} {c : Req T}
    {r : Except String (Reply T)} {st st' : State × Ghost T} (h : Γ.Answered n c r st)
    (hm : Moves n st.1.etcd st.2 st'.1.etcd st'.2) : Γ.Answered n c r st' where
  made := h.made
  handed := fun cur hc => (h.handed cur hc).stable hm
  known := fun rep it hr hit => (h.known rep it hr hit).stable hm
  head := h.head
  load := h.load
  next := fun cur hc => by
    obtain ⟨o, h1, h2⟩ := h.next cur hc
    exact ⟨o, h1, fun it hit => (h2 it hit).trans (ids_extend hm.extends).isInfix⟩
  append := fun cur l hc hl => (h.append cur l hc hl).stable hm

section Body

variable {Γ : Setting T} {n : Nat} {c : Req T} {st : State × Ghost T}

/-- A call of the load kind that fails. -/
theorem answered_load_error {id e : String} (hm : Γ.calls c) (hk : c.kind = .load id)
    (st' : State × Ghost T) :
    Γ.Answered n c (.error e) st' where
  made := hm
  handed := fun cur hc => by
    have : c.current = none := by unfold Req.current; rw [hk]; rfl
    exact absurd (this.symm.trans hc) (by simp)
  known := by rintro _ _ ⟨⟩
  head := fun h => absurd (hk.symm.trans h) (by simp)
  load := by rintro _ _ _ _ ⟨⟩
  next := fun cur h => absurd (hk.symm.trans h) (by simp)
  append := fun cur l h => absurd (hk.symm.trans h) (by simp)

variable (st) in
/-- A call of the load kind that comes back with an item, or with nothing. -/
theorem answered_load {id : String} (hm : Γ.calls c) (hk : c.kind = .load id) {rep : Reply T}
    {st' : State × Ghost T}
    (h : ∀ it, rep.current = some it → it.id = id ∧ Γ.Got st.2.log it st') :
    Γ.Answered n c (.ok rep) st' where
  made := hm
  handed := fun cur hc => by
    have : c.current = none := by unfold Req.current; rw [hk]; rfl
    exact absurd (this.symm.trans hc) (by simp)
  known := by rintro _ it ⟨⟩ hit; exact (h it hit).2.known
  head := fun h => absurd (hk.symm.trans h) (by simp)
  load := by
    rintro id' h' _ it ⟨⟩ hit
    obtain rfl : id = id' := by simpa using hk.symm.trans h'
    exact (h it hit).1
  next := fun cur h => absurd (hk.symm.trans h) (by simp)
  append := fun cur l h => absurd (hk.symm.trans h) (by simp)

/-- A call of the append kind that ends with `r`. -/
theorem answered_append {cur : ChainItem T} {l : List (String × T)} (hm : Γ.calls c)
    (hk : c.kind = .append cur l)
    {r : Except String (Reply T)} {st' : State × Ghost T} (hcur : Γ.KnownAt cur st')
    (hrep : ∀ rep it, r = .ok rep → rep.current = some it → Γ.KnownAt it st')
    (h : l ≠ [] → AppendEnded n c cur l r st') : Γ.Answered n c r st' where
  made := hm
  handed := fun cur' hc' => by
    have hc : c.current = some cur := by unfold Req.current; rw [hk]; rfl
    obtain rfl : cur = cur' := Option.some.inj (hc.symm.trans hc')
    exact hcur
  known := hrep
  head := fun h' => absurd (hk.symm.trans h') (by simp)
  load := fun id h' => absurd (hk.symm.trans h') (by simp)
  next := fun cur' h' => absurd (hk.symm.trans h') (by simp)
  append := fun cur' l' h' => by
    obtain ⟨rfl, rfl⟩ : cur = cur' ∧ l = l' := by simpa using hk.symm.trans h'
    exact h

variable [Inhabited T]

/-- A call of the head kind ends well if it reads the head. -/
theorem answered_head (hm : Γ.calls c) (hk : c.kind = .head) {p : Call (ChainItem T)}
    (hi : Γ.Inv st)
    (hp : Γ.Meets n c (fun it st' => it.id = Γ.cfg.headKey ∧ Γ.Got st.2.log it st')
      (fun _ _ => False) p st) :
    Γ.Meets n c (Γ.Turned n c) (fun e => Γ.Answered n c (.error e))
      (p.bind fun it => .ret (.inr (.item it))) st := by
  have hcur : c.current = none := by unfold Req.current; rw [hk]; rfl
  refine Safe.bind (hp.mono (fun _ _ _ h => h) (fun _ _ _ h => h.elim)) (fun it st' _ h => ?_) hi
  have ha : Γ.Answered n c (.ok (.item it)) st' :=
    { made := hm
      handed := fun cur hc => absurd (hcur.symm.trans hc) (by simp)
      known := by rintro _ _ ⟨⟩ ⟨⟩; exact h.2.known
      head := fun _ => ⟨it, rfl, h.1⟩
      load := fun id h' => absurd (hk.symm.trans h') (by simp)
      next := fun cur h' => absurd (hk.symm.trans h') (by simp)
      append := fun cur l h' => absurd (hk.symm.trans h') (by simp) }
  exact Safe.ret ha (fun _ _ hr _ h => h.stable hr)

/-- A call of the next kind ends well if what it finds is next. -/
theorem answered_next {cur : ChainItem T} (hm : Γ.calls c) (hk : c.kind = .next cur)
    {p : Call (Option (ChainItem T))} (hi : Γ.Inv st) (hcur : Γ.KnownAt cur st)
    (hp : Γ.Meets n c (fun r st' => ∀ it, r = some it →
        Γ.KnownAt it st' ∧ [cur.id, it.id] <:+: ids Γ.cfg st'.2.log) (fun _ _ => False) p st) :
    Γ.Meets n c (Γ.Turned n c) (fun e => Γ.Answered n c (.error e))
      (p.bind fun it => .ret (.inr (.next it))) st := by
  have hc : c.current = some cur := by unfold Req.current; rw [hk]; rfl
  refine Safe.bind ((hp.frame hcur (fun _ _ _ hr h => h.stable hr)).mono (fun _ _ _ h => h)
    (fun _ _ _ h => h.1.elim)) (fun r st' _ h => ?_) hi
  have ha : Γ.Answered n c (.ok (.next r)) st' :=
    { made := hm
      handed := fun cur' hc' => by
        obtain rfl : cur = cur' := Option.some.inj (hc.symm.trans hc')
        exact h.2
      known := by rintro _ it ⟨⟩ hit; exact (h.1 it hit).1
      head := fun h' => absurd (hk.symm.trans h') (by simp)
      load := fun id h' => absurd (hk.symm.trans h') (by simp)
      next := fun cur' h' => by
        obtain rfl : cur = cur' := by simpa using hk.symm.trans h'
        exact ⟨r, rfl, fun it hit => (h.1 it hit).2⟩
      append := fun cur' l h' => absurd (hk.symm.trans h') (by simp) }
  exact Safe.ret ha (fun _ _ hr _ h => h.stable hr)

/-- An append by a client that keeps no current item. -/
theorem answered_appendAfter {cur : ChainItem T} {l : List (String × T)}
    (hm : Γ.calls c) (hk : c.kind = .append cur l) {p : Call Bool} (hi : Γ.Inv st)
    (hcur : Γ.KnownAt cur st)
    (hp : Γ.Meets n c (fun ok st' => AppendDone n c cur l ok st') (fun _ st' => Idle n st') p st) :
    Γ.Meets n c (Γ.Turned n c) (fun e => Γ.Answered n c (.error e))
      (p.bind fun ok => .ret (.inr (.appended ok none))) st := by
  refine Safe.bind ((hp.frame hcur (fun _ _ _ hr h => h.stable hr)).mono (fun _ _ _ h => h)
    (fun e st' _ h => ?_)) (fun ok st' _ h => ?_) hi
  · exact answered_append hm hk h.2 (by rintro _ _ ⟨⟩) (fun _ => h.1)
  · have ha : Γ.Answered n c (.ok (.appended ok none)) st' :=
      answered_append hm hk h.2 (by rintro _ _ ⟨⟩ ⟨⟩) (fun _ => h.1)
    exact Safe.ret ha (fun _ _ hr _ h => h.stable hr)

theorem body_meets (hΓ : Γ.Guarded) (hi : Γ.Inv st) (hr : Γ.Ready n c st) :
    Γ.Meets n c (Γ.Turned n c) (fun e => Γ.Answered n c (.error e))
      (body Γ.cfg Γ.opts Γ.cd c) st := by
  have hw : ∀ o st', Γ.guard.op c o st' → KeysWhole o := fun o st' => hΓ.keys c o st' hr.calls
  have hG : ∀ o st', Γ.guard.op c o st' → AppendsWhole Γ.cfg c o st' :=
    fun o st' => hΓ.appends c o st' hr.calls
  have hp : st.2.log <+: st.2.log := List.prefix_refl _
  cases c with
  | head chain => exact answered_head hr.calls rfl hi (head_meets hΓ.headData.1 (fun _ => hw) hp hi)
  | loadUntil chain id =>
      by_cases hid : id = ""
      · subst hid
        refine answered_head hr.calls (by simp [Req.kind]) hi ?_
        unfold loadUntil
        rw [if_pos rfl]
        exact head_meets hΓ.headData.1 (fun _ => hw) hp hi
      · have hk : (Req.loadUntil chain id : Req T).kind = .load id := if_neg hid
        refine Safe.bind ((loadUntil_meets hid (fun _ => hw)
          (Or.inl (fun o st' => hΓ.loads _ id o st' hr.calls hk)) hp hi).mono (fun _ _ _ h => h)
          (fun e st' _ _ => answered_load_error hr.calls hk st')) (fun it st' _ h => ?_) hi
        have ha : Γ.Answered n (.loadUntil chain id) (.ok (.item it)) st' :=
          answered_load st hr.calls hk (by rintro _ ⟨⟩; exact h)
        exact Safe.ret ha (fun _ _ hr _ h => h.stable hr)
  | fetchNext chain cur =>
      have hcur := hr.handed cur rfl
      refine answered_next hr.calls rfl hi hcur
        ((fetchNext_meets chain (fun _ => hw) hp hi hcur).mono ?_
        (fun _ _ _ h => h))
      rintro r st' _ (⟨-, rfl⟩ | h) it hit
      · exact absurd hit (by simp)
      · exact ⟨(h.item it hit).1.known, (h.item it hit).2⟩
  | appendAfter chain cur id d =>
      have hcur := hr.handed cur rfl
      exact answered_appendAfter hr.calls rfl hi hcur
        (appendAfter_meets (b := (id, d)) chain rfl (fun _ => hw) hG hcur hr.idle)
  | appendAfterBatch chain cur l =>
      have hcur := hr.handed cur rfl
      cases l with
      | nil =>
          have ha : Γ.Answered n (.appendAfterBatch chain cur []) (.ok (.appended true none)) st :=
            answered_append hr.calls rfl hcur (by rintro _ _ ⟨⟩ ⟨⟩) (fun h => absurd rfl h)
          exact Safe.ret ha (fun _ _ hr _ h => h.stable hr)
      | cons b m =>
          exact answered_appendAfter hr.calls rfl hi hcur
            (appendAfterBatch_meets chain rfl (fun _ => hw) hG hcur hr.idle)
  | start lang chain d =>
      exact answered_head hr.calls rfl hi (Script.start_meets lang (hΓ.headData.2 _ hr.calls rfl d)
        (fun _ => hw) (fun st' => hΓ.starts lang chain d st' hr.calls) hp hi)
  | tryLoadUntil lang chain id =>
      refine Safe.bind ((Script.tryLoadUntil_meets lang (fun _ => hw)
        (Or.inl (fun o st' => hΓ.loads _ id o st' hr.calls rfl)) hp hi).mono (fun _ _ _ h => h)
        (fun e st' _ _ => answered_load_error hr.calls rfl st')) (fun it st' _ h => ?_) hi
      have ha : Γ.Answered n (.tryLoadUntil lang chain id) (.ok (.loaded it)) st' :=
        answered_load st hr.calls rfl (fun it' hit => h.found it' hit)
      exact Safe.ret ha (fun _ _ hr _ h => h.stable hr)
  | next lang chain cur =>
      have hcur := hr.handed cur rfl
      refine answered_next hr.calls rfl hi hcur
        ((Script.next_meets lang (fun _ => hw) hp hi hcur).mono ?_
        (fun _ _ _ h => h))
      exact fun r st' _ h it hit => ⟨(h.1.item it hit).1.known, (h.1.item it hit).2⟩
  | tryAppend lang chain cur id d =>
      have hcur := hr.handed cur rfl
      refine Safe.bind (((Script.tryAppend_meets (b := (id, d)) lang rfl (fun _ => hw)
        (fun _ => hw) hG hi hcur hr.idle).frame hcur (fun _ _ _ hr h => h.stable hr)).mono
        (fun _ _ _ h => h) (fun e st' _ h =>
          answered_append hr.calls rfl h.2 (by rintro _ _ ⟨⟩) (fun _ => h.1)))
            (fun r st' _ h => ?_) hi
      cases r with
      | inl it =>
          have ht : Γ.Turned n (.tryAppend lang chain cur id d)
              (.inl (.tryAppend lang chain it id d)) st' :=
            ⟨hΓ.loops lang chain cur it id d hr.calls, by rintro _ ⟨⟩; exact h.1.1, h.1.2⟩
          refine Safe.ret ht (fun s s' hm _ h => ⟨h.calls, fun cur' hc => ?_, h.idle.stable hm⟩)
          exact (h.handed cur' hc).stable hm
      | inr r =>
          have ha : Γ.Answered n (.tryAppend lang chain cur id d)
              (.ok (.appended r.1 (some r.2))) st' :=
            answered_append hr.calls rfl h.2 (by rintro _ it ⟨⟩ ⟨⟩; exact h.1.2) (fun _ => h.1.1)
          exact Safe.ret ha (fun _ _ hr _ h => h.stable hr)
  | dotNetHead chain d =>
      exact answered_head hr.calls rfl hi (DotNet.head_meets (hΓ.headData.2 _ hr.calls rfl)
        (fun _ => hw) hp hi)
  | dotNetLoadUntil chain id d =>
      by_cases hid : id = ""
      · subst hid
        refine answered_head hr.calls (by simp [Req.kind]) hi ?_
        unfold DotNet.loadUntil
        rw [if_pos rfl]
        exact DotNet.head_meets (hΓ.headData.2 _ hr.calls rfl) (fun _ => hw) hp hi
      · have hk : (Req.dotNetLoadUntil chain id d : Req T).kind = .load id := if_neg hid
        refine Safe.bind ((DotNet.loadUntil_meets hid (fun _ => hw)
          (Or.inl (fun o st' hg => ⟨hΓ.loads _ id o st' hr.calls hk hg,
            hΓ.exact chain id d o st' hid hr.calls hg⟩)) hp hi).mono (fun _ _ _ h => h)
          (fun e st' _ _ => answered_load_error hr.calls hk st')) (fun it st' _ h => ?_) hi
        have ha : Γ.Answered n (.dotNetLoadUntil chain id d) (.ok (.item it)) st' :=
          answered_load st hr.calls hk (by rintro _ ⟨⟩; exact h)
        exact Safe.ret ha (fun _ _ hr _ h => h.stable hr)
  | dotNetFetchNext chain cur =>
      have hcur := hr.handed cur rfl
      refine answered_next hr.calls rfl hi hcur
        ((DotNet.fetchNext_meets (fun _ => hw) hp hi hcur).mono ?_
        (fun _ _ _ h => h))
      exact fun r st' _ h it hit => ⟨(h.item it hit).1.known, (h.item it hit).2⟩
  | dotNetAppendAfter chain cur id d =>
      have hcur := hr.handed cur rfl
      exact answered_appendAfter hr.calls rfl hi hcur
        (DotNet.appendAfter_meets (b := (id, d)) rfl (fun _ => hw) hG hcur hr.idle)

end Body

/-! ## Runs -/

section Runs

variable [Inhabited T] {Γ : Setting T}

omit [Inhabited T] in
theorem inv_init : Γ.Inv (State.init, {}) := by
  refine ⟨⟨sound_empty, Or.inl ⟨rfl, rfl⟩, ?_, ?_, ?_, ?_, ?_⟩, ?_⟩
  · intro k hk; exact absurd rfl hk
  · simp
  · simp
  · simp
  · simp
  · intro key v hv; exact absurd hv (by simp [State.init])

omit [Inhabited T] in
/-- Whatever happens on its own touches neither etcd nor the log, and adds nothing to the cache. -/
theorem inv_env {st : State × Ghost T} {t : State} (hi : Γ.Inv st) (he : Env Γ.opts st.1 t) :
    Γ.Inv (t, st.2) ∧ ∀ n, Moves n st.1.etcd st.2 t.etcd st.2 := by
  cases he with
  | expire key =>
      refine ⟨⟨hi.1, ?_⟩, fun n => Moves.refl n _ _⟩
      refine cacheInv_mono hi.2 (List.prefix_refl _) (Nat.le_refl _) (fun _ h => h) ?_
      intro k v hv
      by_cases hk : k = key
      · subst hk; simp at hv
      · simpa [Function.update_of_ne hk] using hv
  | watchCreated _ _ => exact ⟨hi, fun n => Moves.refl n _ _⟩
  | watchDelivered _ _ _ => exact ⟨hi, fun n => Moves.refl n _ _⟩
  | watchEnded _ => exact ⟨hi, fun n => Moves.refl n _ _⟩

omit [Inhabited T] in
/-- An item that some client has was returned by a call that kept its word. -/
theorem known_of_held {h : History T} {st : State × Ghost T} {it : ChainItem T}
    (hp : ∀ e ∈ h, Γ.Answered e.1 e.2.1 e.2.2 st) (hh : Held h it) : Γ.KnownAt it st := by
  obtain ⟨e, he, hc | ⟨rep, hr, hit⟩⟩ := hh
  · exact (hp e he).handed it hc
  · exact (hp e he).known rep it hr hit

theorem obligations (hΓ : Γ.Guarded) :
    Obligations (system Γ.cfg Γ.opts Γ.cd Γ.calls) Γ.guard (contract Γ.cfg Γ.cd Γ.H)
      (State.init, {}) Idle Γ.Ready Γ.Answered where
  init := inv_init
  fresh_init := fun n => ⟨by simp, fun h => h⟩
  fresh_stable := fun n s s' h hr => h.stable hr
  env := fun s t hi he _ => inv_env hi he
  post_stable := fun n c r s s' h hr _ => h.stable hr
  call := fun n c s h _ hid hp hm =>
    ⟨hm.1, fun cur hc => known_of_held hp (hm.2 cur hc), hid⟩
  body := fun n c s hi hr => (body_meets hΓ hi hr).mono
    (fun r s' _ h => by cases r <;> exact h) (fun _ _ _ h => h)

/-- **Every run keeps the chain**, and every call that returned has kept its word. -/
theorem settled (hΓ : Γ.Guarded) {w : World Op Op.Res State (Ghost T) (Req T) String (Reply T)}
    (hr : Runs Γ.cfg Γ.opts Γ.cd Γ.calls Γ.guard w) :
    Settled (system Γ.cfg Γ.opts Γ.cd Γ.calls) Γ.guard (contract Γ.cfg Γ.cd Γ.H) Idle Γ.Ready
      Γ.Answered w :=
  safe_reachable (obligations hΓ) hr

end Runs

/-! ## The list that the appends build -/

/-- The list that the clients have built, and what each append has done to it. -/
structure BuiltList (cfg : Config)
    (w : World Op Op.Res State (Ghost T) (Req T) String (Reply T)) : Prop where
  /-- Each append went right behind the last item of the list before it. -/
  linear : ∀ pre e post, w.st.2.log = pre ++ e :: post → LastId cfg pre e.tail
  /-- No item is there twice. -/
  once : (ids cfg w.st.2.log).Nodup
  /-- An append that returned true is on the list in one piece, right after its tail. -/
  yes : ∀ n c cur l o, (n, c, .ok (.appended true o)) ∈ w.returned → c.kind = .append cur l →
    l <:+: appended w.st.2.log ∧ cur.id :: l.map Prod.fst <:+: ids cfg w.st.2.log
  /-- An append that returned false has changed no key of etcd. -/
  no : ∀ n c cur l o, (n, c, .ok (.appended false o)) ∈ w.returned → c.kind = .append cur l →
    ¬ w.st.2.touched n
  /-- Two appends after the same tail do not both return true. -/
  tails : ∀ n n' c c' cur cur' l l' o o', (n, c, .ok (.appended true o)) ∈ w.returned →
    (n', c', .ok (.appended true o')) ∈ w.returned → c.kind = .append cur l →
    c'.kind = .append cur' l' → cur.id = cur'.id → n = n'

/-- In the order of the log, each append found the list ending in its tail. -/
theorem lastId_of_placed {cfg : Config} {log pre post : List (Commit T)} {e : Commit T}
    (hnd : (ids cfg log).Nodup) (hp : e.tail :: e.items.map Prod.fst <:+: ids cfg log)
    (hne : e.items ≠ []) (hlog : log = pre ++ e :: post) : LastId cfg pre e.tail := by
  obtain ⟨b, m, hbm⟩ := List.exists_cons_of_ne_nil hne
  obtain ⟨x, hx⟩ : ∃ x, x = (ids cfg pre).getLast (by simp [ids]) := ⟨_, rfl⟩
  have hpre : ids cfg pre = (ids cfg pre).dropLast ++ [x] := by
    rw [hx]; exact (List.dropLast_append_getLast _).symm
  have hids : ids cfg log =
      (ids cfg pre).dropLast ++ x :: b.1 :: (m.map Prod.fst ++ (appended post).map Prod.fst) := by
    rw [hlog, ids_append, hpre]
    simp [appended, hbm]
  -- both `x` and the tail come right before the first item of `e`
  have hxb : [x, b.1] <:+: ids cfg log :=
    ⟨(ids cfg pre).dropLast, m.map Prod.fst ++ (appended post).map Prod.fst, by rw [hids]; simp⟩
  have htb : [e.tail, b.1] <:+: ids cfg log := by
    rw [hbm] at hp
    exact List.IsInfix.trans (List.IsPrefix.isInfix ⟨m.map Prod.fst, by simp⟩) hp
  have : e.tail = x := by
    have h1 := adjacent_unique (List.nodup_reverse.mpr hnd) (List.reverse_infix.mpr hxb)
      (List.reverse_infix.mpr htb)
    exact h1.symm
  exact ⟨(ids cfg pre).dropLast, by rw [this]; exact hpre⟩

theorem builtList_of_settled [Inhabited T] {Γ : Setting T}
    {w : World Op Op.Res State (Ghost T) (Req T) String (Reply T)}
    (hs : Settled (system Γ.cfg Γ.opts Γ.cd Γ.calls) Γ.guard (contract Γ.cfg Γ.cd Γ.H) Idle Γ.Ready
      Γ.Answered w)
    (hne : ∀ c cur l, Γ.calls c → c.kind = .append cur l → l ≠ []) : BuiltList Γ.cfg w := by
  have hi : ChainInv Γ.cfg Γ.cd Γ.H w.st.1.etcd w.st.2.log := hs.inv.1
  have hdone : ∀ n c ok o cur l, (n, c, .ok (.appended ok o)) ∈ w.returned →
      c.kind = .append cur l → AppendDone n c cur l ok w.st :=
    fun n c ok o cur l he hk => (hs.post _ he).append cur l hk (hne c cur l (hs.post _ he).made hk)
  refine ⟨?_, hi.ids_nodup, ?_, ?_, ?_⟩
  · intro pre e post hlog
    have he : e ∈ w.st.2.log := by rw [hlog]; simp
    exact lastId_of_placed hi.ids_nodup (hi.placed e he) (hi.nonempty e he) hlog
  · intro n c cur l o he hk
    obtain ⟨e, hmem, -, -, htail, hitems⟩ := (hdone n c true o cur l he hk).yes rfl
    refine ⟨?_, ?_⟩
    · obtain ⟨p, q, hpq⟩ := List.append_of_mem hmem
      refine ⟨appended p, appended q, ?_⟩
      rw [hpq]; simp [appended, hitems]
    · rw [← htail, ← hitems]
      exact hi.placed e hmem
  · exact fun n c cur l o he hk => ((hdone n c false o cur l he hk).no rfl).touched
  · intro n n' c c' cur cur' l l' o o' he he' hk hk' hcur
    obtain ⟨e, hmem, hn, -, htail, -⟩ := (hdone n c true o cur l he hk).yes rfl
    obtain ⟨e', hmem', hn', -, htail', -⟩ := (hdone n' c' true o' cur' l' he' hk').yes rfl
    have := List.inj_on_of_nodup_map hi.tails hmem hmem' (by rw [htail, htail', hcur])
    rw [← hn, ← hn', this]

end EtcdChain
