import TMTransport.EtcdChain.KeySets

/-!
# Chain objects that leave each other alone

An object does not see what the others do, as long as `head` looks under the key of
the object that it is called on, and creates it with that object's value.
-/

namespace EtcdChain

open Etcd Interleave

variable {T X ι : Type}

/-! ## Calls in the process -/

/-- What an object initialises its statics with. -/
def Object.initial [Inhabited T] (o : Object T X) : Static → String
  | .headKeyStr => o.cfg.headKeyStr
  | .emptyHeadDataStr => o.cd.mapData.serialize ⟨default, ""⟩

section Runs

variable [Inhabited T] {o : Object T X} {K : KeySet o} {R : Renaming}

theorem headFromEtcd_copies :
    ((K.mirror R).withStatics o.initial).Copies (ChainItem.rename R.name) (fun _ => True)
      (o.headFromEtcd o.cfg.headKeyStr) (o.headFromEtcd o.cfg.headKeyStr) := by
  unfold Object.headFromEtcd
  split
  · next hsep =>
    exact (KeySet.copies_headFromEtcdAt (KeySet.linkOk_link hsep (.inl rfl))).shared
  · next hsep =>
    refine Mirror.Copies.bind (Mirror.Copies.static Static.emptyHeadDataStr) fun empty hempty => ?_
    obtain rfl := hempty
    exact (KeySet.copies_headFromEtcdAt
      (KeySet.linkOk_mapData (by simpa using hsep) (.inl rfl))).shared

theorem head_copies :
    ((K.mirror R).withStatics o.initial).Copies (ChainItem.rename R.name) (fun _ => True)
      o.head o.head := by
  refine Mirror.Copies.bind (Mirror.Copies.static Static.headKeyStr) fun headKeyStr hkey => ?_
  obtain rfl := hkey
  refine Mirror.Copies.ite Iff.rfl (fun hdup => ?_) fun _ => headFromEtcd_copies
  refine Mirror.Copies.bind
    (KeySet.copies_itemFromRedis (K := K) (.inl hdup) K.head).shared fun r _ => ?_
  cases r with
  | none => exact headFromEtcd_copies
  | some it => exact Mirror.Copies.ret rfl trivial

theorem loadUntil_copies {id : String} (hid : id = "" ∨ K.ids id) :
    ((K.mirror R).withStatics o.initial).Copies (ChainItem.rename R.name) (fun _ => True)
      (o.loadUntil id) (o.loadUntil id) := by
  refine Mirror.Copies.ite Iff.rfl (fun _ => head_copies) fun hne => ?_
  exact (KeySet.copies_loadUntil hne (hid.resolve_left hne)).shared

/-- What the object gets to see of one of its calls. -/
structure Performed (o : Object T X) (K : KeySet o) (R : Renaming) (c : Task T X)
    (s t : State × (Static → Option String)) : Prop where
  along : (o.perform c).Along (StaticOp.step (State.step o.cfg))
    ((K.mirror R).withStatics o.initial).own s
  view : ((K.mirror R).withStatics o.initial).view
    ((o.perform c).run (StaticOp.step (State.step o.cfg)) s).2
    ((o.perform (c.rename R.name)).run (StaticOp.step (State.step o.cfg)) t).2
  answer : SameAnswer o R.name c ((o.perform c).run (StaticOp.step (State.step o.cfg)) s).1
    ((o.perform (c.rename R.name)).run (StaticOp.step (State.step o.cfg)) t).1

theorem perform_sees {c : Task T X} (hc : K.Names c) {s t : State × (Static → Option String)}
    (hv : ((K.mirror R).withStatics o.initial).view s t)
    (hg : (o.perform c).Along (StaticOp.step (State.step o.cfg))
      ((K.mirror R).withStatics o.initial).allowed s) : Performed o K R c s t := by
  have hcopied : ((K.mirror R).withStatics o.initial).Copies (Outcome.rename R.name)
      (fun _ => True) (o.perform c) (o.perform (c.rename R.name)) → Performed o K R c s t :=
    fun h => ⟨(h s t hv hg).along, (h s t hv hg).view, .inl (h s t hv hg).answer⟩
  cases c with
  | head => exact hcopied (head_copies.bind fun _ _ => Mirror.Copies.ret rfl trivial)
  | loadUntil id =>
      exact hcopied ((loadUntil_copies hc).bind fun _ _ => Mirror.Copies.ret rfl trivial)
  | fetchNext cur =>
      obtain ⟨s, vars⟩ := s
      obtain ⟨t, vars'⟩ := t
      have hrun : ∀ (cur : ChainItem T) (s : State) (vars : Static → Option String),
          (o.perform (.fetchNext cur)).run (StaticOp.step (State.step o.cfg)) (s, vars) =
            (((fetchNext o.cfg o.opt o.cd o.chain cur).run (State.step o.cfg) s).1.map .next,
              (((fetchNext o.cfg o.opt o.cd o.chain cur).run (State.step o.cfg) s).2, vars)) :=
        fun cur s vars => by
          refine (Prog.run_bind_ret _ _ _).trans ?_
          rw [Prog.run_shared]
      have hg' := (Prog.along_shared _ _ _).mp ((Prog.along_bind_ret _ _ _).mp hg)
      obtain ⟨halong, hview, hanswer⟩ := KeySet.fetchNext_sees hc.1 hc.2 hv.1 hg'
      refine ⟨(Prog.along_bind_ret _ _ _).mpr ((Prog.along_shared _ _ _).mpr halong), ?_, ?_⟩
      · rw [hrun, Task.rename, hrun]
        exact ⟨hview, hv.2⟩
      · rw [hrun, Task.rename, hrun]
        rcases hanswer with heq | ⟨hwatch, hnone⟩
        · refine .inl ?_
          dsimp only
          rw [heq]
          cases ((fetchNext o.cfg o.opt o.cd o.chain cur).run (State.step o.cfg) s).1 <;> rfl
        · refine .inr ⟨hwatch, ⟨cur, rfl⟩, hnone.imp (fun h => ?_) fun h => ?_⟩
          · dsimp only
            rw [h]
            rfl
          · dsimp only
            rw [h]
            rfl
  | appendAfter cur x =>
      exact hcopied ((KeySet.copies_appendAfter hc.1 hc.2).shared.bind fun _ _ =>
        Mirror.Copies.ret rfl trivial)
  | appendAfterBatch cur l =>
      exact hcopied ((KeySet.copies_appendAfterBatch hc.1 hc.2).shared.bind fun _ _ =>
        Mirror.Copies.ret rfl trivial)
  | saveExtraData key data =>
      exact hcopied ((KeySet.copies_saveExtraData hc data).shared.bind fun _ _ =>
        Mirror.Copies.ret rfl trivial)
  | loadExtraData key =>
      exact hcopied ((KeySet.copies_loadExtraData hc).shared.bind fun _ _ =>
        Mirror.Copies.ret rfl trivial)

end Runs

/-! ## Runs -/

theorem revision_le_step (cfg : Config) (op : Op) (s : State) :
    s.etcd.revision ≤ (State.step cfg op s).2.etcd.revision := by
  cases op with
  | txn t => exact revision_le_txn s.etcd t
  | _ => exact Nat.le_refl _

theorem revision_step_le (cfg : Config) (op : Op) (s : State) :
    (State.step cfg op s).2.etcd.revision ≤ s.etcd.revision + 1 := by
  cases op with
  | txn t => exact revision_txn_le s.etcd t
  | _ => exact Nat.le_succ _

/-- An operation on keys of one object changes no others. -/
theorem KeySet.OwnsOp.elsewhere {o : Object T X} {K : KeySet o} {op : Op} (h : K.OwnsOp op)
    (cfg : Config) (s : State) :
    (∀ k, ¬ K.Owns k → (State.step cfg op s).2.etcd.kvs k = s.etcd.kvs k) ∧
      ∀ k, ¬ K.OwnsLink k → (State.step cfg op s).2.redis k = s.redis k := by
  cases op with
  | txn t =>
      refine ⟨fun k hk => ?_, fun _ _ => rfl⟩
      exact txn_kvs_of_notMem fun hput => hk (h k (mem_keys_of_put hput))
  | redisSet arg key value ttl =>
      refine ⟨fun _ _ => rfl, fun k hk => ?_⟩
      refine Function.update_of_ne (fun heq => hk ?_) _ _
      rw [heq]
      exact h
  | _ => exact ⟨fun _ _ => rfl, fun _ _ => rfl⟩

section Apart

variable [Inhabited T] [DecidableEq ι] {objs : ι → Object T X} {K : ∀ i, KeySet (objs i)}

theorem revision_le_call (cfg : Config) (op : StaticOp Op Static)
    (s : State × (Static → Option String)) :
    s.1.etcd.revision ≤ (StaticOp.step (State.step cfg) op s).2.1.etcd.revision := by
  cases op with
  | shared op => exact revision_le_step cfg op s.1
  | static x init =>
      simp only [StaticOp.step]
      split <;> exact Nat.le_refl _

/-- What object `i` sees of the process is what it sees of the one in which it is alone. -/
structure Sees (objs : ι → Object T X) (K : ∀ i, KeySet (objs i)) (i : ι) (R : Renaming)
    (p q : Process T X ι) : Prop where
  shared : (((K i).mirror R).withStatics (objs i).initial).view p.shared q.shared
  answers : List.Forall₂ (fun e e' => e'.1 = i ∧ e'.2.1 = e.2.1.rename R.name ∧
    SameAnswer (objs i) R.name e.2.1 e.2.2 e'.2.2)
      (p.answers.filter fun e => decide (e.1 = i)) q.answers

/-- A revision that the action brings about is the object's own if the action is. -/
def Ticks (objs : ι → Object T X) (s₀ : State) (R : ι → Renaming) (p : Process T X ι)
    (a : Act T X ι) : Prop :=
  ∀ i r, p.shared.1.etcd.revision < r →
    r ≤ (((process objs s₀).step p a).getD p).shared.1.etcd.revision →
    ((R i).mine r ↔ a.concerns i = true)

/-- A call of the object does the same in both. -/
theorem sees_own (s₀ : State) {R : ι → Renaming} {p q : Process T X ι} {i : ι} {c : Task T X}
    (h : Sees objs K i (R i) p q) (hn : (K i).Names c) (hs : OwnStatics objs p (.call i c))
    (ht : Ticks objs s₀ R p (.call i c)) :
    OwnKeys objs K p (.call i c) ∧
      Sees objs K i (R i) (((process objs s₀).step p (.call i c)).getD p)
        (((process objs s₀).step q (.call i (c.rename (R i).name))).getD q) := by
  have hclock := Prog.along_clock (revision_le_call (objs i).cfg) ((objs i).perform c) p.shared
  have hallowed : ((objs i).perform c).Along (StaticOp.step (State.step (objs i).cfg))
      (((K i).mirror (R i)).withStatics (objs i).initial).allowed p.shared := by
    refine (Prog.Along.and hs hclock).mono fun op s ho => ?_
    cases op with
    | static x init => exact ho.1
    | shared op =>
        intro r hlt hle
        exact (ht i r (ho.2.1.trans_lt hlt) (hle.trans ho.2.2)).mpr (decide_eq_true rfl)
  obtain ⟨halong, hview, hanswer⟩ := perform_sees hn h.shared hallowed
  refine ⟨halong.mono fun op s ho => by cases op <;> exact ho, hview, ?_⟩
  show List.Forall₂ _ (((i, c, _) :: p.answers).filter _) ((i, c.rename (R i).name, _) :: q.answers)
  rw [List.filter_cons_of_pos (by simp)]
  exact .cons ⟨rfl, rfl, hanswer⟩ h.answers

/-- A call of another object does not touch what the object sees. -/
theorem sees_other {s₀ : State} {R : ι → Renaming} {p q : Process T X ι} {i j : ι} {c : Task T X}
    (hd : Disjoint objs K) (hne : i ≠ j) (h : Sees objs K j (R j) p q)
    (hk : OwnKeys objs K p (.call i c)) (ht : Ticks objs s₀ R p (.call i c)) :
    Sees objs K j (R j) (((process objs s₀).step p (.call i c)).getD p) q := by
  have hclock := Prog.along_clock (revision_le_call (objs i).cfg) ((objs i).perform c) p.shared
  have hkeeps := (Prog.Along.and hk hclock).keeps
    (I := fun s => (((K j).mirror (R j)).withStatics (objs j).initial).view s q.shared)
    (fun op s ho hs => ?_) h.shared
  · refine ⟨hkeeps, ?_⟩
    show List.Forall₂ _ (((i, c, _) :: p.answers).filter _) q.answers
    rw [List.filter_cons_of_neg (by simpa using hne)]
    exact h.answers
  · cases op with
    | static x init =>
        refine ⟨?_, hs.2⟩
        simp only [StaticOp.step]
        split <;> exact hs.1
    | shared op =>
        obtain ⟨hkvs, hredis⟩ := KeySet.OwnsOp.elsewhere ho.1 (objs i).cfg s.1
        refine ⟨KeySet.view_elsewhere hs.1 (fun k hk => hkvs k fun hi => hne (hd i j k hi hk))
          (fun k hk => hredis k fun hi => hne (hd i j k (.inl hi) (.inl hk))) ?_, hs.2⟩
        -- a revision that the call brings about is none of the object's
        have hle := revision_le_step (objs i).cfg op s.1
        have hle' := revision_step_le (objs i).cfg op s.1
        show (R j).clock (State.step (objs i).cfg op s.1).2.etcd.revision = _
        rcases Nat.eq_or_lt_of_le hle with heq | hlt
        · rw [← heq]
        · have hsucc : (State.step (objs i).cfg op s.1).2.etcd.revision =
              s.1.etcd.revision + 1 := by omega
          rw [hsucc]
          refine (R j).clock_other _ fun hmine => hne ?_
          rw [← hsucc] at hmine
          exact of_decide_eq_true ((ht j _ (ho.2.1.trans_lt hlt) ho.2.2).mp hmine)

/-- The services hold what calls may have left there: only links of each object's chain lead on
from its keys, and revisions are of the past. -/
structure Starts (objs : ι → Object T X) (K : ∀ i, KeySet (objs i)) (s₀ : State) : Prop where
  sound : s₀.etcd.Sound
  closed : ∀ i, (K i).Closed s₀
  cached : ∀ i k x r, (K i).OwnsLink k → s₀.redis k = some x →
    (objs i).cd.redis.parse x = some r → r.revision ≤ s₀.etcd.revision

omit [DecidableEq ι] in
theorem revision_le_process (s₀ : State) (p : Process T X ι) (a : Act T X ι) :
    p.shared.1.etcd.revision ≤
      (((process objs s₀).step p a).getD p).shared.1.etcd.revision := by
  cases a with
  | call i c =>
      have hkeeps := (Prog.Along.of_forall (StaticOp.step (State.step (objs i).cfg))
        (P := fun _ _ => True) (fun _ _ => trivial) ((objs i).perform c) p.shared).keeps
        (I := fun s => p.shared.1.etcd.revision ≤ s.1.etcd.revision)
        (fun op s _ hs => hs.trans (revision_le_call (objs i).cfg op s)) (Nat.le_refl _)
      exact hkeeps
  | heard i rev => exact Nat.le_refl _
  | expire key => exact Nat.le_refl _

/-- At first there is nothing to rename. -/
theorem Starts.sees {s₀ : State} (h : Starts objs K s₀) (i : ι) {R : Renaming}
    (hclock : R.clock s₀.etcd.revision = s₀.etcd.revision)
    (hname : ∀ r ≤ s₀.etcd.revision, R.name r = r) :
    Sees objs K i R (process objs s₀).init (process objs s₀).init := by
  refine ⟨⟨⟨⟨fun k _ => ?_, fun k hk => ?_⟩, hclock.symm, h.closed i⟩, fun x => .inl rfl⟩, .nil⟩
  · show s₀.etcd.kvs k = (s₀.etcd.kvs k).map (KV.rename R.name)
    cases hkv : s₀.etcd.kvs k with
    | none => rfl
    | some kv =>
        have hrev := hname _ (h.sound k kv hkv).2.1
        rw [Option.map_some, KV.rename, hrev]
  · show (s₀.redis k).map _ = (s₀.redis k).map _
    cases hx : s₀.redis k with
    | none => rfl
    | some x =>
        cases hr : (objs i).cd.redis.parse x with
        | none => simp [hr]
        | some r =>
            have hrev := hname _ (h.cached i k x r hk hx hr)
            simp [hr, ChainRedisStorage.rename, hrev]

/--
**The chain objects do not interfere** in calls whose statics are their own.
-/
theorem apart_of_ownStatics (objs : ι → Object T X) (K : ∀ i, KeySet (objs i)) {s₀ : State}
    {as : List (Act T X ι)} (hd : Disjoint objs K) (hstarts : Starts objs K s₀)
    (hnames : ∀ i c, Act.call i c ∈ as → (K i).Names c)
    (hw : (process objs s₀).Within (OwnStatics objs) (process objs s₀).init as) :
    Apart objs K s₀ as := by
  obtain ⟨ticks, hrange, hticks⟩ := Machine.exists_ticks (M := process objs s₀)
    (revision_le_process s₀) Act.concerns (process objs s₀).init as
  choose R hmine hclock hname using fun i => exists_renaming (hrange i)
  have hwithin : (process objs s₀).Within (fun p a => OwnStatics objs p a ∧
      (∀ i c, a = .call i c → (K i).Names c) ∧ Ticks objs s₀ R p a)
      (process objs s₀).init as := by
    have hnamed := Machine.Within.of_mem (M := process objs s₀) (s := (process objs s₀).init)
      (P := fun a => ∀ i c, a = .call i c → (K i).Names c)
      fun a ha i c heq => hnames i c (heq ▸ ha)
    refine (hw.and (hnamed.and hticks)).mono fun p a h => ⟨h.1, h.2.1, fun i r hlt hle => ?_⟩
    rw [hmine i]
    exact h.2.2 i r hlt hle
  have hown : ∀ (p : Process T X ι) (q : ι → Process T X ι) (a : Act T X ι) (i : ι),
      (OwnStatics objs p a ∧ (∀ i c, a = .call i c → (K i).Names c) ∧ Ticks objs s₀ R p a) →
      (∀ i, Sees objs K i (R i) p (q i)) → a.concerns i = true →
      Sees objs K i (R i) (((process objs s₀).step p a).getD p)
        (((process objs s₀).step (q i) (a.rename (R i).name)).getD (q i)) := by
    intro p q a i ⟨hs, hn, ht⟩ hv hconcerns
    cases a with
    | call j c =>
        obtain rfl : j = i := of_decide_eq_true hconcerns
        exact (sees_own s₀ (hv j) (hn j c rfl) hs ht).2
    | heard j rev =>
        exact ⟨⟨KeySet.view_heard (hv i).shared.1 _ _, (hv i).shared.2⟩, (hv i).answers⟩
    | expire key =>
        exact ⟨⟨KeySet.view_expire (hv i).shared.1 key, (hv i).shared.2⟩, (hv i).answers⟩
  have hother : ∀ (p : Process T X ι) (q : ι → Process T X ι) (a : Act T X ι) (i : ι),
      (OwnStatics objs p a ∧ (∀ i c, a = .call i c → (K i).Names c) ∧ Ticks objs s₀ R p a) →
      (∀ i, Sees objs K i (R i) p (q i)) → a.concerns i = false →
      Sees objs K i (R i) (((process objs s₀).step p a).getD p) (q i) := by
    intro p q a i ⟨hs, hn, ht⟩ hv hconcerns
    cases a with
    | call j c =>
        exact sees_other hd (of_decide_eq_false hconcerns) (hv i)
          (sees_own s₀ (hv j) (hn j c rfl) hs ht).1 ht
    | heard j rev =>
        exact ⟨⟨KeySet.view_heard (hv i).shared.1 _ (q i).shared.1.latestModRevision,
          (hv i).shared.2⟩, (hv i).answers⟩
    | expire key => cases hconcerns
  obtain ⟨hsees, hend⟩ := Machine.unwind hown hother hwithin
    fun i => hstarts.sees i (hclock i) (hname i)
  refine ⟨(hwithin.and hsees).mono fun p a h => ?_, fun i =>
    ⟨(R i).name, (R i).name_injective, hname i, (hend i).shared.1.1, (hend i).answers⟩⟩
  obtain ⟨⟨hs, hn, ht⟩, q, hv⟩ := h
  cases a with
  | call i c => exact (sees_own s₀ (hv i) (hn i c rfl) hs ht).1
  | heard i rev => trivial
  | expire key => trivial

end Apart

end EtcdChain
