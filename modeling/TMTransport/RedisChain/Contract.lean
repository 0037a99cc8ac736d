import TMTransport.RedisChain.Invariant

/-!
# The contract between calls

Every call keeps the list and may rely on `Moves`: the list only grows, no key goes
away, and nobody else appends in the name of the call. The rules at the end say,
for each kind of command, what a call may assume of the answer.

An item that a client has is `Known` if it is on the list and what the client
remembers of it is right.
-/

namespace RedisChain

open Interleave Redis LinkedStore

variable {T : Type}

/-! ## The guards -/

/-- Redis sees the whole of the keys and of the id of an item, though it is given C strings. -/
structure Whole (cfg : Config) (id : String) : Prop where
  chainKey : cStr (cfg.chainKey id) = cfg.chainKey id
  dataKey : cStr (cfg.dataKey id) = cfg.dataKey id
  id : cStr id = id

/-- Does the call give redis its keys as C strings? -/
def Req.textual : Req T → Bool
  | .head => true
  | .fetchNext _ => true
  | .appendAfter _ _ _ => true
  -- a batch of one item goes the way of a single one
  | .appendAfterBatch _ l => l.length = 1
  | _ => false

/-- If the script of an append finds its keys free, then the items have ids, their keys
differ, and they are the keys that were meant. -/
def AppendsWell (cfg : Config) (c : Req T) (o : Op) (st : Store × Ghost T) : Prop :=
  ∀ script k ks argv cur items, o = .eval script (k :: ks) argv →
    c.appends = some (cur, items) → Free st.1 k ks →
    Fresh cfg items ∧ (c.textual = true → Whole cfg cur.id ∧ ∀ x ∈ items, Whole cfg x.1)

/-- The head is made under the key that was meant. -/
def HeadWell (cfg : Config) (c : Req T) : Prop :=
  c.kind = .head → c.textual = true → cStr cfg.headKeyStr = cfg.headKeyStr

/-- An item is read under the keys that were meant. -/
def ReadsWell (cfg : Config) (c : Req T) (st : Store × Ghost T) : Prop :=
  ∀ cur, c.kind = .next cur → c.textual = true →
    ∀ id, id = cur.id ∨ [cur.id, id] <:+: ids cfg st.2.log → Whole cfg id

/-! ## What a call may rely on -/

/-- What the others may do to call number `n`. -/
structure Moves (n : Nat) (st st' : Store × Ghost T) : Prop where
  grows : ∃ l, st'.2.log = st.2.log ++ l ∧ ∀ e ∈ l, e.call ≠ n
  bound : ∀ k, st.1 k ≠ none → st'.1 k ≠ none
  touched : st'.2.touched n ↔ st.2.touched n
  first : st'.2.first n = st.2.first n

theorem Moves.refl (n : Nat) (st : Store × Ghost T) : Moves n st st where
  grows := ⟨[], by simp⟩
  bound _ hk := hk
  touched := Iff.rfl
  first := rfl

theorem Moves.trans {n : Nat} {st st' st'' : Store × Ghost T} (h : Moves n st st')
    (h' : Moves n st' st'') : Moves n st st'' where
  grows := by
    obtain ⟨l, hl, hn⟩ := h.grows
    obtain ⟨l', hl', hn'⟩ := h'.grows
    refine ⟨l ++ l', by rw [hl', hl, List.append_assoc], fun e he => ?_⟩
    exact (List.mem_append.mp he).elim (hn e) (hn' e)
  bound k hk := h'.bound k (h.bound k hk)
  touched := h'.touched.trans h.touched
  first := h'.first.trans h.first

/-- The list has grown, and no key has gone. -/
structure Later (st st' : Store × Ghost T) : Prop where
  log : st.2.log <+: st'.2.log
  bound : ∀ k, st.1 k ≠ none → st'.1 k ≠ none

theorem Later.trans {st st' st'' : Store × Ghost T} (h : Later st st') (h' : Later st' st'') :
    Later st st'' :=
  ⟨h.log.trans h'.log, fun k hk => h'.bound k (h.bound k hk)⟩

theorem Moves.later {n : Nat} {st st' : Store × Ghost T} (h : Moves n st st') : Later st st' :=
  ⟨h.grows.imp fun _ hl => hl.1.symm, h.bound⟩

theorem ids_extend {cfg : Config} {log log' : List (Commit T)} (h : log <+: log') :
    ids cfg log <+: ids cfg log' := by
  obtain ⟨l, rfl⟩ := h
  rw [ids_append]
  exact List.prefix_append _ _

theorem appended_extend {log log' : List (Commit T)} (h : log <+: log') :
    appended log <+: appended log' := by
  obtain ⟨l, rfl⟩ := h
  rw [appended_append]
  exact List.prefix_append _ _

/-- What a client remembers of an item is right. -/
structure Known (cfg : Config) (it : ChainItem T) (st : Store × Ghost T) : Prop where
  on : it.id ∈ ids cfg st.2.log
  there : st.1 (cfg.chainKey it.id) ≠ none
  data : it.id ≠ cfg.headKey → ∃ d, it.data = some d ∧ (it.id, d) ∈ appended st.2.log
  next : it.nextID ≠ "" → [it.id, it.nextID] <:+: ids cfg st.2.log

theorem Known.later {cfg : Config} {it : ChainItem T} {st st' : Store × Ghost T}
    (h : Known cfg it st) (hl : Later st st') : Known cfg it st' where
  on := (ids_extend hl.log).subset h.on
  there := hl.bound _ h.there
  data hne := (h.data hne).imp fun _ hd => ⟨hd.1, (appended_extend hl.log).subset hd.2⟩
  next hne := (h.next hne).trans (ids_extend hl.log).isInfix

/-- Call number `n` has changed nothing. -/
structure Idle (n : Nat) (st : Store × Ghost T) : Prop where
  log : ∀ e ∈ st.2.log, e.call ≠ n
  touched : ¬ st.2.touched n

theorem Idle.stable {n : Nat} {st st' : Store × Ghost T} (h : Idle n st) (hm : Moves n st st') :
    Idle n st' where
  log := by
    obtain ⟨l, hl, hn⟩ := hm.grows
    intro e he
    rw [hl] at he
    exact (List.mem_append.mp he).elim (h.log e) (hn e)
  touched ht := h.touched (hm.touched.mp ht)

/-- When call number `n` began, `id` was the last on the list. -/
def BeganAtEnd (cfg : Config) (n : Nat) (id : String) (st : Store × Ghost T) : Prop :=
  ∃ k, st.2.first n = some k ∧ k ≤ st.2.log.length ∧
    (ids cfg (st.2.log.take k)).getLast? = some id

theorem BeganAtEnd.stable {cfg : Config} {n : Nat} {id : String} {st st' : Store × Ghost T}
    (h : BeganAtEnd cfg n id st) (hm : Moves n st st') : BeganAtEnd cfg n id st' := by
  obtain ⟨k, hfirst, hle, hlast⟩ := h
  obtain ⟨l, hl, -⟩ := hm.grows
  refine ⟨k, hm.first.trans hfirst, ?_, ?_⟩
  · rw [hl, List.length_append]
    omega
  · rwa [hl, List.take_append_of_le_length hle]

/-- An append of call number `n` is on the list. -/
def Appended (n : Nat) (cur : ChainItem T) (items : List (String × T)) (st : Store × Ghost T) :
    Prop :=
  ⟨n, cur.id, items⟩ ∈ st.2.log

theorem Appended.later {n : Nat} {cur : ChainItem T} {items : List (String × T)}
    {st st' : Store × Ghost T} (h : Appended n cur items st) (hl : Later st st') :
    Appended n cur items st' :=
  hl.log.subset h

/-! ## The ghost history -/

/-- The ghost history after a command of call number `n` that leaves the store alone. -/
def Ghost.started (g : Ghost T) (n : Nat) : Ghost T where
  log := g.log
  touched := g.touched
  first := fun m => if m = n ∧ g.first m = none then some g.log.length else g.first m

theorem note_started {n : Nat} {c : Req T} {o : Op} {r : o.Res} {s : Store} {g : Ghost T}
    (hlog : logOf n c o r = []) : note n c o r s s g = g.started n := by
  simp [note, Ghost.started, hlog]

theorem later_started (n : Nat) (s : Store) (g : Ghost T) : Later (s, g) (s, g.started n) :=
  ⟨List.prefix_refl _, fun _ hk => hk⟩

theorem Idle.started {n : Nat} {s : Store} {g : Ghost T} (h : Idle n (s, g)) :
    Idle n (s, g.started n) :=
  ⟨h.log, h.touched⟩

/-- The first command of a call finds `id` at the end. -/
theorem beganAtEnd_started {cfg : Config} {n : Nat} {id : String} {s : Store} {g : Ghost T}
    (hfirst : g.first n = none) (hlast : (ids cfg g.log).getLast? = some id) :
    BeganAtEnd cfg n id (s, g.started n) := by
  refine ⟨g.log.length, ?_, Nat.le_refl _, ?_⟩
  · simp [Ghost.started, hfirst]
  · rwa [show (g.started n).log = g.log from rfl, List.take_length]

theorem logOf_call {n : Nat} {c : Req T} {o : Op} {r : o.Res} {e : Commit T}
    (he : e ∈ logOf n c o r) : e.call = n := by
  unfold logOf at he
  split at he
  · split at he
    · split at he
      · rw [List.mem_singleton.mp he]
      · cases he
    · cases he
  · cases he

/-- The others do not mind a command that takes no key away. -/
theorem moves_note {n u : Nat} (hu : u ≠ n) {c : Req T} {o : Op} {r : o.Res} {s s' : Store}
    {g : Ghost T} (hbound : ∀ k, s k ≠ none → s' k ≠ none) :
    Moves u (s, g) (s', note n c o r s s' g) where
  grows := ⟨logOf n c o r, rfl, fun e he => (logOf_call he).trans_ne hu.symm⟩
  bound := hbound
  touched := by simp [note, hu]
  first := by simp [note, hu]

/-! ## The setting -/

variable [Inhabited T]

def contract (cfg : Config) (cd : DataCodec T) : Contract Store (Ghost T) where
  inv := fun st => ListInv cfg cd st.1 st.2.log
  rely := Moves
  rely_refl := Moves.refl
  rely_trans := fun _ _ _ _ h h' => h.trans h'

/-- What the runs under study have in common. -/
structure Setting (T : Type) where
  cfg : Config
  cd : DataCodec T
  calls : Req T → Prop
  may : History T → Req T → Prop
  /-- Clients only hand over items that they have, so that reads are right. -/
  reads : Prop
  guard : Guard Op Store (Ghost T) (Req T)

/-- Call number `n` meets its obligations in the setting. -/
abbrev Setting.Meets (Γ : Setting T) (n : Nat) (c : Req T) {β : Type}
    (Q : β → Store × Ghost T → Prop) (E : String → Store × Ghost T → Prop) (p : Call β)
    (st : Store × Ghost T) : Prop :=
  Safe (system Γ.cfg Γ.cd Γ.may) Γ.guard (contract Γ.cfg Γ.cd) n c Q E p st

/-! ## Commands -/

section Commands

variable {Γ : Setting T} {n : Nat} {c : Req T} {β : Type} {Q : β → Store × Ghost T → Prop}
  {E : String → Store × Ghost T → Prop} {st : Store × Ghost T}

/-- A command. It takes no key away, and redis holds the list afterwards. -/
theorem meets_act {o : Op} {k : o.Res → Call β}
    (hk : ∀ st', Moves n st st' → ListInv Γ.cfg Γ.cd st'.1 st'.2.log → Γ.guard.op c o st' →
      ∃ r s', step o st'.1 = (r, s') ∧ (∀ k, st'.1 k ≠ none → s' k ≠ none) ∧
        ListInv Γ.cfg Γ.cd s' (note n c o r st'.1 s' st'.2).log ∧
        Γ.Meets n c Q E (k r) (s', note n c o r st'.1 s' st'.2)) :
    Γ.Meets n c Q E (.act o k) st := by
  intro st' hr hi hg
  obtain ⟨r, s', hstep, hbound, hinv, hmeets⟩ := hk st' hr hi hg
  have hexec : (system Γ.cfg Γ.cd Γ.may).exec n c o st' =
      (r, s', note n c o r st'.1 s' st'.2) := by
    simp only [System.exec, system, hstep]
  rw [hexec]
  exact ⟨hinv, fun u hu => moves_note hu hbound, hmeets⟩

/-- A command that leaves the store alone, and adds nothing to the list. -/
theorem meets_still {o : Op} {k : o.Res → Call β}
    (hk : ∀ st', Moves n st st' → ListInv Γ.cfg Γ.cd st'.1 st'.2.log → Γ.guard.op c o st' →
      ∃ r, step o st'.1 = (r, st'.1) ∧ logOf n c o r = [] ∧
        Γ.Meets n c Q E (k r) (st'.1, st'.2.started n)) :
    Γ.Meets n c Q E (.act o k) st := by
  refine meets_act fun st' hr hi hg => ?_
  obtain ⟨r, hstep, hlog, hmeets⟩ := hk st' hr hi hg
  refine ⟨r, st'.1, hstep, fun _ hkey => hkey, ?_, ?_⟩
  · rwa [note_started hlog]
  · rwa [note_started hlog]

theorem meets_get {key : String} {k : Option String → Call β}
    (hk : ∀ st', Moves n st st' → ListInv Γ.cfg Γ.cd st'.1 st'.2.log →
      Γ.guard.op c (.get key) st' → Γ.Meets n c Q E (k (st'.1 key)) (st'.1, st'.2.started n)) :
    Γ.Meets n c Q E (.act (.get key) k) st :=
  meets_still fun st' hr hi hg => ⟨st'.1 key, rfl, rfl, hk st' hr hi hg⟩

/-- The script of an append, when it is compiled. -/
theorem meets_append {script : Script Var} {key : String} {keys argv : List String}
    {pairs : List (String × String)} {cur : ChainItem T} {b : String × T} {m : List (String × T)}
    {k : Redis.Reply → Call β} (hc : c.appends = some (cur, b :: m)) (hidle : Idle n st)
    (heval : ∀ s, script.eval (key :: keys) argv s =
      if Free s key keys then (.integer 1, putAll pairs s) else (.integer 0, s))
    (hwell : ∀ st', Γ.guard.op c (.eval script (key :: keys) argv) st' → Free st'.1 key keys →
      key = Γ.cfg.chainKey cur.id ∧ keys = newKeys Γ.cfg (b :: m) ∧
      pairs = (key, b.1) :: newPairs Γ.cfg Γ.cd (b :: m) ∧ Fresh Γ.cfg (b :: m))
    (hno : ∀ st', Later st st' → ListInv Γ.cfg Γ.cd st'.1 st'.2.log → Idle n st' →
      Γ.Meets n c Q E (k (.integer 0)) st')
    (hyes : ∀ st', Later st st' → ListInv Γ.cfg Γ.cd st'.1 st'.2.log →
      Appended n cur (b :: m) st' → Γ.Meets n c Q E (k (.integer 1)) st') :
    Γ.Meets n c Q E (.act (.eval script (key :: keys) argv) k) st := by
  refine meets_act fun st' hr hi hg => ?_
  have hidle' := hidle.stable hr
  by_cases hfree : Free st'.1 key keys
  · obtain ⟨hkey, hkeys, hpairs, hfresh⟩ := hwell st' hg hfree
    have hinv : ListInv Γ.cfg Γ.cd (putAll pairs st'.1) (st'.2.log ++ [⟨n, cur.id, b :: m⟩]) := by
      subst hkey hkeys hpairs
      exact hi.append hidle'.log hfresh hfree
    have hnote : (note n c (.eval script (key :: keys) argv) (.integer 1) st'.1
        (putAll pairs st'.1) st'.2).log = st'.2.log ++ [⟨n, cur.id, b :: m⟩] := by
      simp [note, logOf, hc]
    have hbound : ∀ k, st'.1 k ≠ none → putAll pairs st'.1 k ≠ none := fun k => putAll_ne_none
    have hinv' := hnote.symm ▸ hinv
    refine ⟨.integer 1, putAll pairs st'.1, (heval st'.1).trans (if_pos hfree), hbound, hinv', ?_⟩
    refine hyes _ (hr.later.trans ⟨⟨_, hnote.symm⟩, hbound⟩) hinv' ?_
    rw [Appended, hnote]
    exact List.mem_append_right _ (List.mem_singleton.mpr rfl)
  · have hlog : logOf n c (.eval script (key :: keys) argv) (.integer 0) = [] := by
      simp [logOf, hc]
    refine ⟨.integer 0, st'.1, (heval st'.1).trans (if_neg hfree), fun _ hkey => hkey, ?_, ?_⟩
    · rwa [note_started hlog]
    · rw [note_started hlog]
      exact hno _ (hr.later.trans (later_started n st'.1 st'.2)) hi hidle'.started

/-- The head's script finds the head, or makes it. -/
theorem meets_head {key : String} {k : Redis.Reply → Call β} (hc : c.appends = none)
    (hkey : ∀ st', Γ.guard.op c (.eval headScript [key] []) st' → key = Γ.cfg.headKeyStr)
    (hk : ∀ st' next, Later st st' → ListInv Γ.cfg Γ.cd st'.1 st'.2.log →
      st'.1 Γ.cfg.headKeyStr = some next → Γ.Meets n c Q E (k (.string next)) st') :
    Γ.Meets n c Q E (.act (.eval headScript [key] []) k) st := by
  refine meets_act fun st' hr hi hg => ?_
  obtain rfl := hkey st' hg
  have hlog : ∀ r, logOf n c (.eval headScript [Γ.cfg.headKeyStr] []) r = [] := by
    intro r
    cases r <;> simp [logOf, hc]
  cases hhead : st'.1 Γ.cfg.headKeyStr with
  | some next =>
      refine ⟨.string next, st'.1, by simp [step, eval_headScript, hhead], fun _ hkey => hkey, ?_,
        ?_⟩
      · rwa [note_started (hlog _)]
      · rw [note_started (hlog _)]
        exact hk _ _ (hr.later.trans (later_started n st'.1 st'.2)) hi hhead
  | none =>
      have hnote : (note n c (.eval headScript [Γ.cfg.headKeyStr] []) (.string "") st'.1
          (Function.update st'.1 Γ.cfg.headKeyStr (some "")) st'.2).log = st'.2.log := by
        simp only [note, hlog, List.append_nil]
      have hbound : ∀ k, st'.1 k ≠ none →
          Function.update st'.1 Γ.cfg.headKeyStr (some "") k ≠ none := by
        intro k hkey
        by_cases heq : k = Γ.cfg.headKeyStr
        · rw [heq, Function.update_self]
          exact Option.some_ne_none _
        · rwa [Function.update_of_ne heq]
      have hinv := hnote.symm ▸ hi.head hhead
      refine ⟨.string "", Function.update st'.1 Γ.cfg.headKeyStr (some ""),
        by simp [step, eval_headScript, hhead], hbound, hinv, ?_⟩
      refine hk _ _ (hr.later.trans ⟨?_, hbound⟩) hinv (Function.update_self _ _ _)
      rw [hnote]

end Commands

end RedisChain
