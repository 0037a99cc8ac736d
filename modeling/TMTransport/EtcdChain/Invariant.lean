import TMTransport.Library.Linked
import TMTransport.EtcdChain.System

/-!
# What etcd holds, and what an item is good for

`ChainInv` says that etcd holds exactly the list the committed appends add up
to. `Known` says what the holder of an item may count on, however long ago it got
the item: that the item is on the list, that the next id it carries is right,
and that its revision betrays any change of its link. `commit_append` is the
step: a transaction that puts the records of a batch behind the last item turns
the invariant for one log into the invariant for the longer one.

The data kept with the head is not part of the list, and what it may be depends
on who writes it; `H` says what it may be.
-/

namespace EtcdChain

open Etcd Interleave LinkedStore

variable {T : Type} (cfg : Config) (cd : Codecs T)

/-- The records of the chain in either storage mode. -/
def layout : Layout String String String T where
  nil := ""
  linkKey := cfg.chainKey
  linkVal := fun d next =>
    if cfg.saveDataOnSeparateStorage then next else cd.mapData.serialize ⟨d, next⟩
  extra := fun id d =>
    if cfg.saveDataOnSeparateStorage then [(cfg.dataKey id, cd.data.serialize d)] else []

/-- The id that a link record names. -/
def nextOf (v : String) : Option String :=
  if cfg.saveDataOnSeparateStorage then some v
  else (cd.mapData.parse v).map ChainStorage.nextID

@[simp] theorem layout_nil : (layout cfg cd).nil = "" := rfl

@[simp] theorem layout_linkKey (id : String) : (layout cfg cd).linkKey id = cfg.chainKey id := rfl

variable {cfg cd} in
theorem linkVal_separate (h : cfg.saveDataOnSeparateStorage = true) (d : T) (next : String) :
    (layout cfg cd).linkVal d next = next := if_pos h

variable {cfg cd} in
theorem linkVal_inline (h : cfg.saveDataOnSeparateStorage = false) (d : T) (next : String) :
    (layout cfg cd).linkVal d next = cd.mapData.serialize ⟨d, next⟩ := by
  simp [layout, h]

theorem nextOf_linkVal (d : T) (next : String) :
    nextOf cfg cd ((layout cfg cd).linkVal d next) = some next := by
  unfold nextOf layout
  by_cases h : cfg.saveDataOnSeparateStorage = true
  · simp [h]
  · simp [h, cd.mapData.parse_serialize]

theorem chainKey_inj {id id' : String} (h : cfg.chainKey id = cfg.chainKey id') : id = id' :=
  (String.append_right_inj _).mp h

theorem dataKey_inj {id id' : String} (h : cfg.dataKey id = cfg.dataKey id') : id = id' :=
  (String.append_right_inj _).mp h

/-- The ids on the chain, the head's first. -/
def ids (log : List (Commit T)) : List String := cfg.headKey :: (appended log).map Prod.fst

theorem appended_append (log log' : List (Commit T)) :
    appended (log ++ log') = appended log ++ appended log' := by
  simp [appended]

theorem ids_append (log log' : List (Commit T)) :
    ids cfg (log ++ log') = ids cfg log ++ (appended log').map Prod.fst := by
  simp [ids, appended_append]

/-- What etcd holds once the appends in `log` have been committed. -/
structure ChainInv (H : T → Prop) (s : Store) (log : List (Commit T)) : Prop where
  sound : s.Sound
  /-- Either nobody has made the head yet, or the list hangs after it. -/
  chain : (s.kvs cfg.headKeyStr = none ∧ log = []) ∨
    ∃ hd, H hd ∧ Holds (layout cfg cd) s.value (cfg.headKey, hd) (appended log)
  /-- There are no other keys. -/
  only : ∀ k, s.kvs k ≠ none → (∃ id ∈ ids cfg log, k = cfg.chainKey id) ∨
    (cfg.saveDataOnSeparateStorage = true ∧ ∃ x ∈ appended log, k = cfg.dataKey x.1)
  /-- Each append put its items right after its tail. -/
  placed : ∀ e ∈ log, e.tail :: e.items.map Prod.fst <:+: ids cfg log
  nonempty : ∀ e ∈ log, e.items ≠ []
  calls : (log.map Commit.call).Nodup
  tails : (log.map Commit.tail).Nodup

/-- What the holder of the item `it` may count on. -/
structure Known (H : T → Prop) (it : ChainItem T) (s : Store) (log : List (Commit T)) :
    Prop where
  on : it.id ∈ ids cfg log
  there : s.kvs (cfg.chainKey it.id) ≠ none
  /-- The data is the item's. The head has no data to get right. -/
  data : ∃ d, it.data = some d ∧
    ((it.id = cfg.headKey ∧ H d) ∨ (it.id ≠ cfg.headKey ∧ (it.id, d) ∈ appended log))
  /-- The next id, if there is one, is right. -/
  next : it.nextID ≠ "" → [it.id, it.nextID] <:+: ids cfg log
  rev_le : it.revision ≤ s.revision
  /-- As long as the revision is the one of the link record, nothing comes after the item. -/
  unchanged : it.nextID = "" → ∀ kv, s.kvs (cfg.chainKey it.id) = some kv →
    kv.modRevision = it.revision → nextOf cfg cd kv.value = some ""

/-- How etcd and the log may change under call number `n` while it is waiting. -/
structure Moves (n : Nat) (s : Store) (g : Ghost T) (s' : Store) (g' : Ghost T) : Prop where
  log : ∃ ext, g'.log = g.log ++ ext ∧ ∀ e ∈ ext, e.call ≠ n
  rev : s.revision ≤ s'.revision
  /-- A key that changed has a newer revision than any that was there. -/
  kept : ∀ k, s'.kvs k = s.kvs k ∨ ∃ kv, s'.kvs k = some kv ∧ s.revision < kv.modRevision
  touched : g'.touched n ↔ g.touched n

variable {cfg cd} {H : T → Prop}

theorem Moves.refl (n : Nat) (s : Store) (g : Ghost T) : Moves n s g s g :=
  ⟨⟨[], by simp, by simp⟩, Nat.le_refl _, fun _ => Or.inl rfl, Iff.rfl⟩

theorem Moves.trans {n : Nat} {s s' s'' : Store} {g g' g'' : Ghost T} (h : Moves n s g s' g')
    (h' : Moves n s' g' s'' g'') : Moves n s g s'' g'' := by
  obtain ⟨ext, h1, h2⟩ := h.log
  obtain ⟨ext', h1', h2'⟩ := h'.log
  refine ⟨⟨ext ++ ext', by rw [h1', h1, List.append_assoc], ?_⟩, Nat.le_trans h.rev h'.rev, ?_,
    h'.touched.trans h.touched⟩
  · intro e he
    rcases List.mem_append.mp he with he | he
    · exact h2 e he
    · exact h2' e he
  · intro k
    have := h.rev
    rcases h'.kept k with hk | ⟨kv, hk, hlt⟩
    · rcases h.kept k with hk' | ⟨kv, hk', hlt⟩
      · exact Or.inl (hk.trans hk')
      · exact Or.inr ⟨kv, hk.trans hk', hlt⟩
    · exact Or.inr ⟨kv, hk, by omega⟩

theorem Moves.extends {n : Nat} {s s' : Store} {g g' : Ghost T} (h : Moves n s g s' g') :
    g.log <+: g'.log := by
  obtain ⟨ext, h1, _⟩ := h.log
  exact ⟨ext, h1.symm⟩

/-- A key that is there stays there. -/
theorem Moves.bound {n : Nat} {s s' : Store} {g g' : Ghost T} (h : Moves n s g s' g') {k : String}
    (hk : s.kvs k ≠ none) : s'.kvs k ≠ none := by
  rcases h.kept k with he | ⟨kv, he, -⟩
  · rwa [he]
  · rw [he]; exact Option.some_ne_none kv

theorem ids_extend {log log' : List (Commit T)} (h : log <+: log') :
    ids cfg log <+: ids cfg log' := by
  obtain ⟨ext, rfl⟩ := h
  rw [ids_append]
  exact List.prefix_append _ _

theorem appended_extend {log log' : List (Commit T)} (h : log <+: log') :
    appended log <+: appended log' := by
  obtain ⟨ext, rfl⟩ := h
  rw [appended_append]
  exact List.prefix_append _ _

/-- What a client knows of an item stays true whatever others do. -/
theorem Known.stable {it : ChainItem T} {n : Nat} {s s' : Store} {g g' : Ghost T}
    (h : Known cfg cd H it s g.log) (hm : Moves n s g s' g') : Known cfg cd H it s' g'.log := by
  have hids : ids cfg _ <+: _ := ids_extend hm.extends
  refine ⟨hids.subset h.on, hm.bound h.there, ?_, fun hn => (h.next hn).trans hids.isInfix,
    Nat.le_trans h.rev_le hm.rev, ?_⟩
  · obtain ⟨d, h1, h2⟩ := h.data
    refine ⟨d, h1, h2.imp id ?_⟩
    rintro ⟨h3, h4⟩
    exact ⟨h3, (appended_extend hm.extends).subset h4⟩
  · intro hn kv hkv hrev
    rcases hm.kept (cfg.chainKey it.id) with hk | ⟨kv', hk, hlt⟩
    · exact h.unchanged hn kv (hk ▸ hkv) hrev
    · -- the record was rewritten, so its revision has moved past the item's
      rw [hk] at hkv
      obtain rfl := Option.some.inj hkv
      have := h.rev_le
      omega

/-- Each cache entry is an item of the chain with the link it has in etcd. -/
def CacheInv (cfg : Config) (cd : Codecs T) (H : T → Prop) (s : State) (log : List (Commit T)) :
    Prop :=
  ∀ key v, s.redis key = some v →
    ∃ id d next rev, key = cfg.chainKey id ∧ v = cd.redis.serialize ⟨rev, d, next⟩ ∧
      [id, next] <:+: ids cfg log ∧ next ≠ "" ∧ rev ≤ s.etcd.revision ∧
      s.etcd.kvs (cfg.chainKey id) ≠ none ∧
      ((id = cfg.headKey ∧ H d) ∨ (id ≠ cfg.headKey ∧ (id, d) ∈ appended log))

theorem ChainInv.ids_nodup {s : Store} {log : List (Commit T)} (h : ChainInv cfg cd H s log) :
    (ids cfg log).Nodup := by
  rcases h.chain with ⟨_, rfl⟩ | ⟨hd, _, hh⟩
  · simp [ids, appended]
  · exact hh.ids_nodup

theorem mem_batch_key {b : String × T} {m : List (String × T)} {r : String × String}
    (hr : r ∈ (layout cfg cd).batch b m) :
    (∃ x ∈ b :: m, r.1 = cfg.chainKey x.1) ∨
      (cfg.saveDataOnSeparateStorage = true ∧ ∃ x ∈ b :: m, r.1 = cfg.dataKey x.1) := by
  rcases List.mem_append.mp hr with h | h
  · left
    have : r.1 ∈ ((layout cfg cd).linksTo b m "").map Prod.fst := List.mem_map.mpr ⟨r, h, rfl⟩
    rw [linksTo_keys] at this
    obtain ⟨x, hx, he⟩ := List.mem_map.mp this
    exact ⟨x, hx, he.symm⟩
  · right
    obtain ⟨x, hx, hrx⟩ := List.mem_flatMap.mp h
    by_cases hsep : cfg.saveDataOnSeparateStorage = true
    · simp only [layout, hsep, if_true, List.mem_singleton] at hrx
      exact ⟨hsep, x, hx, by rw [hrx]⟩
    · simp [layout, hsep] at hrx

/-- The keys of a batch, next to the link that will point to it. -/
theorem batch_keys_nodup {t : TxnRequest} {ws : List (String × String)}
    (hacc : Acceptable t.success) (hputs : t.success.Perm (puts ws)) :
    (ws.map Prod.fst).Nodup := by
  rw [← putKeys_puts]
  exact (putKeys_perm hputs).nodup_iff.mp hacc.2

section Commit

variable {s : Store} {log : List (Commit T)} {e : Commit T} {b : String × T}
  {m : List (String × T)} {d : T} {t : TxnRequest}

/-- What etcd holds after an append: the list, extended by the items of the append. -/
theorem holds_after_append (hi : ChainInv cfg cd H s log)
    (hnamed : ∀ x ∈ b :: m, x.1 ≠ "")
    (hlast : ∃ pre, ids cfg log = pre ++ [e.tail])
    (hd : (e.tail = cfg.headKey ∧ H d) ∨ (e.tail ≠ cfg.headKey ∧ (e.tail, d) ∈ appended log))
    (hhead : s.kvs (cfg.chainKey e.tail) ≠ none)
    (hpass : t.passes s = true) (hacc : Acceptable t.success) (hacf : Acceptable t.failure)
    (hputs : t.success.Perm (puts ((cfg.chainKey e.tail, (layout cfg cd).linkVal d b.1) ::
      (layout cfg cd).batch b m)))
    (hfree : ∀ r ∈ (layout cfg cd).batch b m, s.kvs r.1 = none) :
    ∃ hd, H hd ∧
      Holds (layout cfg cd) (s.txn t).2.value (cfg.headKey, hd) (appended log ++ b :: m) := by
  have hnd := batch_keys_nodup hacc hputs
  have hbranch : t.branch s = t.success := by unfold TxnRequest.branch; rw [if_pos hpass]
  have hput : ∀ w ∈ (cfg.chainKey e.tail, (layout cfg cd).linkVal d b.1) ::
      (layout cfg cd).batch b m, (s.txn t).2.value w.1 = some w.2 := by
    intro w hw
    have hmem : RequestOp.requestPut w.1 w.2 ∈ t.branch s := by
      rw [hbranch, hputs.mem_iff]
      exact List.mem_map.mpr ⟨w, hw, rfl⟩
    obtain ⟨kv, h1, h2, _⟩ := txn_put hacc hacf hmem
    simp [Store.value, h1, h2]
  have hkeep : ∀ k, k ∉ ((cfg.chainKey e.tail, (layout cfg cd).linkVal d b.1) ::
      (layout cfg cd).batch b m).map Prod.fst → (s.txn t).2.value k = s.value k := by
    intro k hk
    unfold Store.value
    rw [txn_kvs_of_notMem]
    rw [hbranch, (putKeys_perm hputs).mem_iff, putKeys_puts]
    exact hk
  have hl := hput _ (List.mem_cons_self ..)
  have hb := fun r hr => hput r (List.mem_cons_of_mem _ hr)
  rcases hi.chain with ⟨habs, rfl⟩ | ⟨hd', hH, hh⟩
  · -- the head record is there, since it is the one the append rewrites
    obtain ⟨pre, hpre⟩ := hlast
    have : e.tail = cfg.headKey := by
      have : [cfg.headKey] = pre ++ [e.tail] := hpre
      exact (List.append_inj' (show [] ++ _ = _ from this) rfl).2 |> List.singleton_inj.mp |>.symm
    rw [this] at hhead
    exact absurd habs hhead
  · cases hlist : appended log with
    | nil =>
        obtain ⟨pre, hpre⟩ := hlast
        have ht : e.tail = cfg.headKey := by
          have : [cfg.headKey] = pre ++ [e.tail] := by rw [← hpre]; simp [ids, hlist]
          exact (List.append_inj'
            (show [] ++ _ = _ from this) rfl).2 |> List.singleton_inj.mp |>.symm
        rcases hd with ⟨_, hHd⟩ | ⟨hne, _⟩
        · rw [ht] at hl hnd
          exact ⟨d, hHd, Holds.start hnamed hnd hl hb⟩
        · exact absurd ht hne
    | cons a l =>
        have hlist' : appended log = a :: l := hlist
        have hlo : lastOf (cfg.headKey, hd') (appended log) = (e.tail, d) := by
          obtain ⟨pre, hpre⟩ := hlast
          obtain ⟨pre', hpre'⟩ := lastOf_split (cfg.headKey, hd') (appended log)
          have hids : ids cfg log = pre'.map Prod.fst ++
              [(lastOf (cfg.headKey, hd') (appended log)).1] := by
            have := congrArg (List.map Prod.fst) hpre'
            simpa [ids] using this
          have htail : (lastOf (cfg.headKey, hd') (appended log)).1 = e.tail := by
            have := hids.symm.trans hpre
            exact List.singleton_inj.mp (List.append_inj' this rfl).2
          have hlmem : lastOf (cfg.headKey, hd') (appended log) ∈ appended log := by
            rw [hlist']; exact lastOf_mem a l
          have hne : e.tail ≠ cfg.headKey := by
            intro heq
            have hnd' := hi.ids_nodup
            unfold ids at hnd'
            rw [List.nodup_cons] at hnd'
            exact hnd'.1 (List.mem_map.mpr ⟨_, hlmem, htail.trans heq⟩)
          rcases hd with ⟨heq, _⟩ | ⟨_, hmem⟩
          · exact absurd heq hne
          · exact hh.eq_of_id (List.mem_cons_of_mem _ hlmem) (List.mem_cons_of_mem _ hmem) htail
        rw [← hlist]
        refine ⟨hd', hH, hh.append hnamed (List.nodup_cons.mp hnd).2 ?_ ?_ hb ?_⟩
        · intro r hr
          rw [value_eq_none_iff]
          exact hfree r hr
        · rw [hlo]; exact hl
        · intro k hk hne
          refine hkeep k ?_
          rw [hlo] at hne
          simp only [List.map_cons, List.mem_cons, not_or]
          refine ⟨hne, ?_⟩
          intro hm
          obtain ⟨r, hr, rfl⟩ := List.mem_map.mp hm
          exact hk ((value_eq_none_iff s r.1).mpr (hfree r hr))

/-- **A committed append extends the list.** -/
theorem commit_append (hi : ChainInv cfg cd H s log) (he : e.items = b :: m)
    (hnamed : ∀ x ∈ b :: m, x.1 ≠ "")
    (hlast : ∃ pre, ids cfg log = pre ++ [e.tail])
    (hd : (e.tail = cfg.headKey ∧ H d) ∨ (e.tail ≠ cfg.headKey ∧ (e.tail, d) ∈ appended log))
    (hhead : s.kvs (cfg.chainKey e.tail) ≠ none)
    (hpass : t.passes s = true) (hacc : Acceptable t.success) (hacf : Acceptable t.failure)
    (hputs : t.success.Perm (puts ((cfg.chainKey e.tail, (layout cfg cd).linkVal d b.1) ::
      (layout cfg cd).batch b m)))
    (hfree : ∀ r ∈ (layout cfg cd).batch b m, s.kvs r.1 = none)
    (hcall : ∀ x ∈ log, x.call ≠ e.call) :
    ChainInv cfg cd H (s.txn t).2 (log ++ [e]) := by
  have happ : appended (log ++ [e]) = appended log ++ b :: m := by
    rw [appended_append]; simp [appended, he]
  have hids : ids cfg (log ++ [e]) = ids cfg log ++ (b :: m).map Prod.fst := by
    rw [ids_append]; simp [appended, he]
  obtain ⟨pre, hpre⟩ := hlast
  refine ⟨sound_txn hi.sound t, Or.inr ?_, ?_, ?_, ?_, ?_, ?_⟩
  · rw [happ]
    exact holds_after_append hi hnamed ⟨pre, hpre⟩ hd hhead hpass hacc hacf hputs hfree
  · intro k hk
    rw [hids, happ]
    by_cases hw : k ∈ putKeys (t.branch s)
    · unfold TxnRequest.branch at hw
      rw [if_pos hpass, (putKeys_perm hputs).mem_iff, putKeys_puts] at hw
      obtain ⟨r, hr, rfl⟩ := List.mem_map.mp hw
      rcases List.mem_cons.mp hr with rfl | hr
      · exact Or.inl ⟨e.tail, by rw [hpre]; simp, rfl⟩
      · rcases mem_batch_key hr with ⟨x, hx, hk'⟩ | ⟨hsep, x, hx, hk'⟩
        · exact Or.inl ⟨x.1, List.mem_append_right _ (List.mem_map.mpr ⟨x, hx, rfl⟩), hk'⟩
        · exact Or.inr ⟨hsep, x, List.mem_append_right _ hx, hk'⟩
    · rw [txn_kvs_of_notMem hw] at hk
      rcases hi.only k hk with ⟨id, hid, rfl⟩ | ⟨hsep, x, hx, rfl⟩
      · exact Or.inl ⟨id, List.mem_append_left _ hid, rfl⟩
      · exact Or.inr ⟨hsep, x, List.mem_append_left _ hx, rfl⟩
  · intro x hx
    rw [hids]
    rcases List.mem_append.mp hx with hx | hx
    · exact (hi.placed x hx).trans (List.prefix_append _ _).isInfix
    · obtain rfl := List.mem_singleton.mp hx
      exact ⟨pre, [], by rw [hpre, he]; simp⟩
  · intro x hx
    rcases List.mem_append.mp hx with hx | hx
    · exact hi.nonempty x hx
    · obtain rfl := List.mem_singleton.mp hx
      rw [he]; simp
  · rw [List.map_append, List.nodup_append]
    refine ⟨hi.calls, by simp, ?_⟩
    intro a ha a' ha' haa
    obtain ⟨x, hx, rfl⟩ := List.mem_map.mp ha
    simp only [List.map_cons, List.map_nil, List.mem_singleton] at ha'
    exact hcall x hx (haa.trans ha')
  · rw [List.map_append, List.nodup_append]
    refine ⟨hi.tails, by simp, ?_⟩
    intro a ha a' ha' haa
    obtain ⟨x, hx, rfl⟩ := List.mem_map.mp ha
    simp only [List.map_cons, List.map_nil, List.mem_singleton] at ha'
    -- an earlier tail has something after it, the last item has not
    obtain ⟨p, q, hpq⟩ := hi.placed x hx
    obtain ⟨y, ys, hy⟩ := List.exists_cons_of_ne_nil (hi.nonempty x hx)
    have hnd := hi.ids_nodup
    rw [← hpq, hy] at hnd
    rw [← hpq, hy] at hpre
    have hmem : e.tail ∈ y.1 :: (ys.map Prod.fst ++ q) := by
      have hl := congrArg List.getLast? hpre
      simp only [List.append_assoc, List.cons_append, List.map_cons, List.getLast?_append_cons,
        List.getLast?_cons_cons] at hl
      exact List.mem_of_getLast? hl
    rw [← ha', ← haa] at hmem
    simp only [List.append_assoc, List.cons_append, List.map_cons] at hnd
    exact (List.nodup_cons.mp (List.nodup_append.mp hnd).2.1).1 hmem

end Commit

end EtcdChain
