import TMTransport.EtcdChain.Runs

/-!
# Walking the chain

A reader starts at the head and follows the links. `follow_meets` says what it
sees while others append; `walk_run` says that, left alone, it sees exactly what
has been appended.
-/

namespace EtcdChain

open Etcd Interleave LinkedStore

/-- A client's way of reading the chain from the head on. -/
structure Reader (T : Type) where
  head : Call (ChainItem T)
  next : ChainItem T → Call (Option (ChainItem T))

variable {T : Type}

/-- Follow the links from `cur` until nothing comes after, in at most `fuel` steps. -/
def Reader.follow (r : Reader T) : Nat → ChainItem T → Call (Option (List (ChainItem T)))
  | 0, _ => return none
  | fuel + 1, cur => do
    match ← r.next cur with
    | none => return some []
    | some it =>
      let rest ← r.follow fuel it
      return rest.map (it :: ·)

/-- Follow the links from the head. -/
def Reader.walk (r : Reader T) (fuel : Nat) : Call (Option (List (ChainItem T))) := do
  let h ← r.head
  r.follow fuel h

/-- The C++ reader. -/
def cppReader [Inhabited T] (cfg : Config) (opt : Options) (cd : Codecs T) (chain : Nat) :
    Reader T :=
  ⟨head cfg opt cd, fetchNext cfg opt cd chain⟩

/-- The TypeScript and Python readers. -/
def scriptReader (lang : Lang) (cfg : Config) (opt : Options) (cd : Codecs T) (defaultData : T) :
    Reader T :=
  ⟨Script.start lang cfg opt cd defaultData, Script.next lang cfg opt cd⟩

/-- The C# reader. -/
def dotNetReader (cfg : Config) (opt : Options) (cd : Codecs T) (defaultData : T) : Reader T :=
  ⟨DotNet.head cfg opt cd defaultData, DotNet.fetchNext cfg opt cd⟩

variable [Inhabited T]

/-- A reader that starts at the head and never misses or invents an item. -/
structure Reader.Good (r : Reader T) (Γ : Setting T) (n : Nat) (c : Req T) : Prop where
  head : ∀ log₀ st, log₀ <+: st.2.log → Γ.Inv st →
    Γ.Meets n c (fun it st' => it.id = Γ.cfg.headKey ∧ Γ.Got log₀ it st')
      (fun _ _ => False) r.head st
  next : ∀ log₀ cur st, log₀ <+: st.2.log → Γ.Inv st → Γ.KnownAt cur st →
    Γ.Meets n c (fun o st' => Γ.GotItem log₀ cur.id o st') (fun _ _ => False) (r.next cur) st

omit [Inhabited T] in
/-- What a reader has seen after `id`: a stretch of the chain, to its end if it is through. -/
structure Setting.Seen (Γ : Setting T) (log₀ : List (Commit T)) (fuel : Nat) (id : String)
    (o : Option (List (ChainItem T))) (st : State × Ghost T) : Prop where
  since : log₀ <+: st.2.log
  all : ∀ its, o = some its → id :: its.map ChainItem.id <:+: ids Γ.cfg st.2.log ∧
    (∀ it ∈ its, Γ.KnownAt it st) ∧
    LastSince Γ.cfg log₀ st.2.log ((id :: its.map ChainItem.id).getLast (by simp))
  /-- Only a chain longer than `fuel` is not seen through. -/
  more : o = none → ∃ l, l.length = fuel ∧ id :: l <:+: ids Γ.cfg st.2.log

omit [Inhabited T] in
theorem Setting.Seen.stable {Γ : Setting T} {log₀ : List (Commit T)} {fuel n : Nat} {id : String}
    {o : Option (List (ChainItem T))} {st st' : State × Ghost T} (h : Γ.Seen log₀ fuel id o st)
    (hm : Moves n st.1.etcd st.2 st'.1.etcd st'.2) : Γ.Seen log₀ fuel id o st' := by
  have hids := (show ids Γ.cfg _ <+: _ from ids_extend hm.extends).isInfix
  refine ⟨h.since.trans hm.extends, fun its ho => ?_, fun ho => ?_⟩
  · obtain ⟨h1, h2, h3⟩ := h.all its ho
    exact ⟨h1.trans hids, fun it hit => (h2 it hit).stable hm, h3.mono hm.extends⟩
  · obtain ⟨l, h1, h2⟩ := h.more ho
    exact ⟨l, h1, h2.trans hids⟩

/-- **What a reader sees** while others append. -/
theorem follow_meets {Γ : Setting T} {n : Nat} {c : Req T} {r : Reader T} (hr : r.Good Γ n c)
    (fuel : Nat) {log₀ : List (Commit T)} {cur : ChainItem T} {st : State × Ghost T}
    (h₀ : log₀ <+: st.2.log) (hi : Γ.Inv st) (hcur : Γ.KnownAt cur st) :
    Γ.Meets n c (fun o st' => Γ.Seen log₀ fuel cur.id o st') (fun _ _ => False)
      (r.follow fuel cur) st := by
  induction fuel generalizing cur st with
  | zero =>
      have h : Γ.Seen log₀ 0 cur.id none st := by
        refine ⟨h₀, by simp, fun _ => ⟨[], rfl, ?_⟩⟩
        obtain ⟨p, q, hpq⟩ := List.append_of_mem hcur.on
        exact ⟨p, q, by rw [hpq]; simp⟩
      exact Safe.ret h (fun _ _ hr _ h => h.stable hr)
  | succ fuel ih =>
      refine Safe.bind ((hr.next log₀ cur st h₀ hi hcur).frame hcur
        (fun _ _ _ hr h => h.stable hr) |>.mono (fun _ _ _ h => h) (fun _ _ _ h => h.1)) ?_ hi
      rintro o st' hi' ⟨hg, hcur'⟩
      cases o with
      | none =>
          have h : Γ.Seen log₀ (fuel + 1) cur.id (some []) st' := by
            refine ⟨hg.since, ?_, by simp⟩
            rintro _ ⟨⟩
            obtain ⟨p, q, hpq⟩ := List.append_of_mem hcur'.on
            exact ⟨⟨p, q, by rw [hpq]; simp⟩, by simp, hg.last rfl⟩
          exact Safe.ret h (fun _ _ hr _ h => h.stable hr)
      | some it =>
          obtain ⟨hgot, hadj⟩ := hg.item it rfl
          refine Safe.bind ((ih hgot.since hi' hgot.known).frame (F := fun s =>
              Γ.KnownAt it s ∧ [cur.id, it.id] <:+: ids Γ.cfg s.2.log) ⟨hgot.known, hadj⟩
            (fun _ _ _ hr h => ⟨h.1.stable hr, h.2.trans (ids_extend hr.extends).isInfix⟩) |>.mono
            (fun _ _ _ h => h) (fun _ _ _ h => h.1)) ?_ hi'
          rintro rest st'' hi'' ⟨hs, hk, hadj'⟩
          have h : Γ.Seen log₀ (fuel + 1) cur.id (rest.map (it :: ·)) st'' := by
            refine ⟨hs.since, ?_, ?_⟩
            · intro its hits
              obtain ⟨its', rfl, rfl⟩ := Option.map_eq_some_iff.mp hits
              obtain ⟨h1, h2, h3⟩ := hs.all its' rfl
              refine ⟨infix_cons_of_adjacent hi''.1.ids_nodup hadj' h1, ?_, ?_⟩
              · intro x hx
                rcases List.mem_cons.mp hx with rfl | hx
                · exact hk
                · exact h2 x hx
              · simpa using h3
            · intro hnone
              obtain ⟨l, h1, h2⟩ := hs.more (Option.map_eq_none_iff.mp hnone)
              exact ⟨it.id :: l, by simp [h1],
                infix_cons_of_adjacent hi''.1.ids_nodup hadj' h2⟩
          exact Safe.ret h (fun _ _ hr _ h => h.stable hr)

theorem walk_meets {Γ : Setting T} {n : Nat} {c : Req T} {r : Reader T} (hr : r.Good Γ n c)
    (fuel : Nat) {log₀ : List (Commit T)} {st : State × Ghost T} (h₀ : log₀ <+: st.2.log)
    (hi : Γ.Inv st) :
    Γ.Meets n c (fun o st' => Γ.Seen log₀ fuel Γ.cfg.headKey o st') (fun _ _ => False)
      (r.walk fuel) st := by
  refine Safe.bind (hr.head log₀ st h₀ hi) ?_ hi
  rintro it st' hi' ⟨hid, hg⟩
  rw [← hid]
  exact follow_meets hr fuel hg.since hi' hg.known

omit [Inhabited T] in
/-- A stretch of the chain from the head to its end is the whole chain. -/
theorem ids_of_stretch {cfg : Config} {log : List (Commit T)} {l : List String}
    (hnd : (ids cfg log).Nodup) (h : cfg.headKey :: l <:+: ids cfg log)
    (hlast : LastId cfg log ((cfg.headKey :: l).getLast (by simp))) :
    l = (appended log).map Prod.fst := by
  obtain ⟨p, q, hpq⟩ := h
  have hp : p = [] := by
    cases p with
    | nil => rfl
    | cons x xs =>
        unfold ids at hpq hnd
        simp only [List.cons_append, List.cons.injEq] at hpq
        refine absurd ?_ (List.nodup_cons.mp hnd).1
        rw [← hpq.2]; simp
  subst hp
  have hq : q = [] := by
    cases q with
    | nil => rfl
    | cons x xs =>
        obtain ⟨pre, hpre⟩ := hlast
        have h2 : (cfg.headKey :: l).getLast (by simp) ∈ cfg.headKey :: l := List.getLast_mem _
        generalize (cfg.headKey :: l).getLast (by simp) = z at hpre h2
        have h1 : z ∈ x :: xs := by
          have hl := congrArg List.getLast? (hpq.trans hpre)
          rw [List.getLast?_append_of_ne_nil _ (by simp), List.getLast?_concat] at hl
          exact List.mem_of_getLast? hl
        rw [← hpq, List.nil_append, List.nodup_append] at hnd
        exact absurd rfl (hnd.2.2 _ h2 _ h1)
  subst hq
  unfold ids at hpq
  simpa using hpq

omit [Inhabited T] in
/-- Known items with the ids of the chain have the data of the chain. -/
theorem data_of_ids {Γ : Setting T} {st : State × Ghost T} {its : List (ChainItem T)}
    (hnd : (ids Γ.cfg st.2.log).Nodup)
    (hids : its.map ChainItem.id = (appended st.2.log).map Prod.fst)
    (hk : ∀ it ∈ its, Γ.KnownAt it st) :
    its.map (fun it => (it.id, it.data)) = (appended st.2.log).map (fun x => (x.1, some x.2)) := by
  have hlen : its.length = (appended st.2.log).length := by simpa using congrArg List.length hids
  refine List.ext_getElem (by simpa using hlen) (fun i h1 h2 => ?_)
  rw [List.length_map] at h1 h2
  have hid : its[i].id = (appended st.2.log)[i].1 := by
    have := congrArg (·[i]?) hids
    simpa [h1, h2] using this
  have hmem : (its[i].id, (appended st.2.log)[i].2) ∈ appended st.2.log := by
    rw [hid]; exact List.getElem_mem h2
  obtain ⟨d, hd, hdata⟩ := (hk its[i] (List.getElem_mem h1)).data
  have hne : its[i].id ≠ Γ.cfg.headKey := fun h =>
    (List.nodup_cons.mp hnd).1 (h ▸ List.mem_map.mpr ⟨_, hmem, rfl⟩)
  have := appended_unique hnd (hdata.resolve_left (fun h => hne h.1)).2 hmem
  simp [hd, this, hid]

/-- A call that appends nothing leaves the log alone, run by itself. -/
theorem run_log {Γ : Setting T} {n : Nat} {c : Req T} (hc : c.appends = none) {α : Type}
    (p : Call α) (st : State × Ghost T) :
    (p.run ((system Γ.cfg Γ.opts Γ.cd Γ.calls).exec n c) st).2.2.log = st.2.log := by
  induction p generalizing st with
  | ret a => rfl
  | fail e => rfl
  | act o k ih =>
      rw [Prog.run_act, ih]
      show st.2.log ++ logOf n c o _ _ = st.2.log
      have : ∀ r s', logOf n c o r s' = [] := by
        intro r s'
        cases o with
        | txn t =>
            simp only [logOf, hc]
        | _ => rfl
      rw [this, List.append_nil]

/-- What a call that appends nothing comes to when it is left alone. -/
theorem solo_run {Γ : Setting T} {n : Nat} {c : Req T} {α : Type} {p : Call α}
    {Q : α → State × Ghost T → Prop} {E : String → State × Ghost T → Prop}
    {st : State × Ghost T} (hc : c.appends = none) (hi : Γ.Inv st)
    (hg : ∀ o s', Γ.Inv s' → (∀ m, m ≠ n → Moves m st.1.etcd st.2 s'.1.etcd s'.2) →
      Γ.guard.op c o s') (hp : Γ.Meets n c Q E p st) :
    ∃ st', st'.2.log = st.2.log ∧ Γ.Inv st' ∧
      (∀ a, (p.run (State.step Γ.cfg) st.1).1 = .ok a → Q a st') ∧
      (∀ e, (p.run (State.step Γ.cfg) st.1).1 = .error e → E e st') := by
  obtain ⟨hi', -, hok, herr⟩ := hp.run hi hg
  have hrun := (run_exec (S := system Γ.cfg Γ.opts Γ.cd Γ.calls) (n := n) (c := c) p st).1
  have hstep : (system Γ.cfg Γ.opts Γ.cd Γ.calls).step = State.step Γ.cfg := rfl
  rw [hstep] at hrun
  exact ⟨_, run_log hc p st, hi', fun a h => hok a (hrun.trans h), fun e h => herr e (hrun.trans h)⟩

/-- **What a reader sees** when it is left alone: exactly what has been appended. -/
theorem walk_run {Γ : Setting T} {n : Nat} {c : Req T} {r : Reader T} (hr : r.Good Γ n c)
    (hc : c.appends = none) {st : State × Ghost T} (hi : Γ.Inv st)
    (hg : ∀ o s', Γ.Inv s' → (∀ m, m ≠ n → Moves m st.1.etcd st.2 s'.1.etcd s'.2) →
      Γ.guard.op c o s') {fuel : Nat} (hfuel : (appended st.2.log).length < fuel) :
    ∃ its, ((r.walk fuel).run (State.step Γ.cfg) st.1).1 = .ok (some its) ∧
      its.map (fun it => (it.id, it.data)) = (appended st.2.log).map
        (fun x => (x.1, some x.2)) := by
  obtain ⟨st', hlog, hi', hok, herr⟩ :=
    solo_run hc hi hg (walk_meets hr fuel (List.prefix_refl st.2.log) hi)
  cases hres : ((r.walk fuel).run (State.step Γ.cfg) st.1).1 with
  | error e => exact (herr e hres).elim
  | ok o =>
      have hs := hok o hres
      cases o with
      | none =>
          obtain ⟨l, h1, h2⟩ := hs.more rfl
          have := h2.length_le
          rw [hlog] at this
          simp only [ids, List.length_cons, List.length_map] at this
          omega
      | some its =>
          obtain ⟨h1, h2, l, h3, h4, h5⟩ := hs.all its rfl
          have hl : l = st.2.log := by
            rw [hlog] at h4
            exact (h3.eq_of_length_le h4.length_le).symm
          rw [hl] at h5
          rw [← hlog] at h5 ⊢
          exact ⟨its, rfl, data_of_ids hi'.1.ids_nodup
            (ids_of_stretch hi'.1.ids_nodup h1 h5) h2⟩

/-- The C++ reader that has no watch thread and reads no cache. -/
theorem cppReader_good {Γ : Setting T} (hH : Γ.H default) (opt : Options) (chain n : Nat)
    (c : Req T) (hwatch : opt.useWatchThread = false)
    (hw : opt.duplicateFromRedis = true → ∀ o st', Γ.guard.op c o st' → KeysWhole o) :
    (cppReader Γ.cfg opt Γ.cd chain).Good Γ n c where
  head := fun _ _ h₀ hi => head_meets hH hw h₀ hi
  next := fun _ _ _ h₀ hi hcur => fetchNext_meets_unwatched chain hwatch hw h₀ hi hcur

/-- The TypeScript and Python readers, which must not have to make an inline head. -/
theorem scriptReader_good {Γ : Setting T} (hH : ∀ d, Γ.H d) (lang : Lang) (opt : Options)
    (defaultData : T) (n : Nat) (c : Req T)
    (hw : opt.duplicateFromRedis = true → ∀ o st', Γ.guard.op c o st' → KeysWhole o)
    (hv : ∀ st', Γ.guard.op c (.txn (headTxn Γ.cfg "")) st' →
      Γ.cfg.saveDataOnSeparateStorage = true ∨ st'.1.etcd.kvs Γ.cfg.headKeyStr ≠ none) :
    (scriptReader lang Γ.cfg opt Γ.cd defaultData).Good Γ n c where
  head := fun _ _ h₀ hi => Script.start_meets lang (hH defaultData) hw hv h₀ hi
  next := fun _ _ _ h₀ hi hcur => (Script.next_meets lang hw h₀ hi hcur).mono
    (fun _ _ _ h => h.1) (fun _ _ _ h => h)

/-- The C# reader. -/
theorem dotNetReader_good {Γ : Setting T} (hH : ∀ d, Γ.H d) (opt : Options) (defaultData : T)
    (n : Nat) (c : Req T)
    (hw : opt.duplicateFromRedis = true → ∀ o st', Γ.guard.op c o st' → KeysWhole o) :
    (dotNetReader Γ.cfg opt Γ.cd defaultData).Good Γ n c where
  head := fun _ _ h₀ hi => DotNet.head_meets hH hw h₀ hi
  next := fun _ _ _ h₀ hi hcur => DotNet.fetchNext_meets hw h₀ hi hcur

omit [Inhabited T] in
/-- A known item with the id of an appended one has its data. -/
theorem data_of_known {Γ : Setting T} {st : State × Ghost T} {it : ChainItem T} {d : T}
    (hi : Γ.Inv st) (hk : Γ.KnownAt it st) (hx : (it.id, d) ∈ appended st.2.log) :
    it.data = some d := by
  obtain ⟨d', hd', hdata⟩ := hk.data
  have hne : it.id ≠ Γ.cfg.headKey := fun h =>
    (List.nodup_cons.mp hi.1.ids_nodup).1 (h ▸ List.mem_map.mpr ⟨_, hx, rfl⟩)
  rw [hd', appended_unique hi.1.ids_nodup (hdata.resolve_left (fun h => hne h.1)).2 hx]

/-- A call that must return an item, left alone, returns it. -/
theorem load_run {Γ : Setting T} {n : Nat} {c : Req T} {p : Call (ChainItem T)}
    {st : State × Ghost T} {id : String} {d : T} (hc : c.appends = none) (hi : Γ.Inv st)
    (hg : ∀ o s', Γ.guard.op c o s') (hx : (id, d) ∈ appended st.2.log)
    (hp : Γ.Meets n c (fun it st' => it.id = id ∧ Γ.Got st.2.log it st')
      (fun _ _ => id ∉ (appended st.2.log).map Prod.fst) p st) :
    ∃ it, (p.run (State.step Γ.cfg) st.1).1 = .ok it ∧ it.id = id ∧ it.data = some d := by
  obtain ⟨st', hlog, hi', hok, herr⟩ := solo_run hc hi (fun o s' _ _ => hg o s') hp
  cases hres : (p.run (State.step Γ.cfg) st.1).1 with
  | error e => exact absurd (List.mem_map.mpr ⟨_, hx, rfl⟩) (herr e hres)
  | ok it =>
      obtain ⟨rfl, hgot⟩ := hok it hres
      exact ⟨it, rfl, rfl, data_of_known hi' hgot.known (hlog ▸ hx)⟩

/-- The same for a call that may come back with nothing. -/
theorem tryLoad_run {Γ : Setting T} {n : Nat} {c : Req T} {p : Call (Option (ChainItem T))}
    {st : State × Ghost T} {id : String} {d : T} (hc : c.appends = none) (hi : Γ.Inv st)
    (hg : ∀ o s', Γ.guard.op c o s') (hx : (id, d) ∈ appended st.2.log)
    (hp : Γ.Meets n c (fun r st' => Script.Found Γ st.2.log id r st')
      (fun _ _ => id ∉ (appended st.2.log).map Prod.fst) p st) :
    ∃ it, (p.run (State.step Γ.cfg) st.1).1 = .ok (some it) ∧ it.id = id ∧ it.data = some d := by
  obtain ⟨st', hlog, hi', hok, herr⟩ := solo_run hc hi (fun o s' _ _ => hg o s') hp
  have hon : id ∈ (appended st.2.log).map Prod.fst := List.mem_map.mpr ⟨_, hx, rfl⟩
  cases hres : (p.run (State.step Γ.cfg) st.1).1 with
  | error e => exact absurd hon (herr e hres)
  | ok o =>
      cases o with
      | none => exact absurd hon ((hok _ hres).missing rfl)
      | some it =>
          obtain ⟨rfl, hgot⟩ := (hok _ hres).found it rfl
          exact ⟨it, rfl, rfl, data_of_known hi' hgot.known (hlog ▸ hx)⟩

end EtcdChain
