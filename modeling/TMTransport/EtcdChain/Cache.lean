import TMTransport.EtcdChain.AppendOnly

/-!
# Reading through the cache

An item that a C++ client took from redis is the item it would have read from
etcd: the cache only ever has items whose link is set, and a link that is set
does not change.

Besides whole appends this needs that, with separate storage, nobody loads the
head by its id. The head has no data record, so that the plain path throws where
the cache may have an answer.
-/

namespace EtcdChain

open Etcd Interleave LinkedStore

variable {T : Type}

/-- The calls of the C++ client. -/
def CppCalls (c : Req T) : Prop := c.isCpp = true

/-- The calls of the C++ client that do not ask for a data record of the head. -/
def DataCalls (cfg : Config) (c : Req T) : Prop :=
  CppCalls c ∧ ∀ id, c.kind = .load id → cfg.saveDataOnSeparateStorage = true → id ≠ cfg.headKey

/-- Appends are whole, keys have no NUL, and what is loaded as data is no link. -/
def cachedReads (cfg : Config) : Guard Op State (Ghost T) (Req T) where
  op := fun c o st => AppendsWhole cfg c o st ∧ KeysWhole o ∧
    ∀ id, c.kind = .load id → LoadsItem cfg id st.2.log
  env := fun _ _ => True

/-- The item `it'`, read from etcd, is the item `it`, perhaps with a link that `it` lacks. -/
structure SameItem (it it' : ChainItem T) : Prop where
  id : it'.id = it.id
  data : it'.data = it.data
  nextID : it.nextID ≠ "" → it'.nextID = it.nextID

/--
What the clients got, by way of the cache or not, is what is read from etcd alone
at any time from then on; and the cache has links that are set and right.
-/
structure CacheAgrees [Inhabited T] (cfg : Config) (cd : Codecs T)
    (w : World Op Op.Res State (Ghost T) (Req T) String (Reply T)) : Prop where
  head : ∀ n chain it, (n, .head chain, .ok (.item it)) ∈ w.returned →
    ∃ it', ((head cfg {} cd).run (State.step cfg) w.st.1).1 = .ok it' ∧ SameItem it it'
  load : ∀ n chain id it, (n, .loadUntil chain id, .ok (.item it)) ∈ w.returned →
    ∃ it', ((loadUntil cfg {} cd id).run (State.step cfg) w.st.1).1 = .ok it' ∧ SameItem it it'
  next : ∀ n chain cur it, (n, .fetchNext chain cur, .ok (.next (some it))) ∈ w.returned →
    ∃ it', ((fetchNext cfg {} cd chain cur).run (State.step cfg) w.st.1).1 = .ok (some it') ∧
      SameItem it it'
  cache : ∀ key v, w.st.1.redis key = some v →
    ∃ id d next rev kv, key = cfg.chainKey id ∧ v = cd.redis.serialize ⟨rev, d, next⟩ ∧
      next ≠ "" ∧ w.st.1.etcd.kvs (cfg.chainKey id) = some kv ∧ nextOf cfg cd kv.value = some next

section Agree

variable {Γ : Setting T} {st : State × Ghost T}

/-- Two items of one id, of which the second has just been read, are the same. -/
theorem sameItem_of_got {st' : State × Ghost T} {it it' : ChainItem T}
    (hH : ∀ d d', Γ.H d → Γ.H d' → d = d') (hi : Γ.Inv st) (hlog : st'.2.log = st.2.log)
    (hk : Γ.KnownAt it st) (hg : Γ.Got st.2.log it' st') (hid : it'.id = it.id) :
    SameItem it it' := by
  have hnd := hi.1.ids_nodup
  refine ⟨hid, ?_, fun hn => ?_⟩
  · obtain ⟨d, hd, h⟩ := hk.data
    obtain ⟨d', hd', h'⟩ := hg.known.data
    rw [hid, hlog] at h'
    rw [hd, hd']
    rcases h with ⟨he, h⟩ | ⟨hne, h⟩
    · rw [hH d d' h (h'.resolve_right (fun h => h.1 he)).2]
    · rw [appended_unique hnd h (h'.resolve_left (fun h => hne h.1)).2]
  · have hadj := hk.next hn
    by_cases hn' : it'.nextID = ""
    · obtain ⟨l, h1, h2, h3⟩ := hg.last hn'
      rw [hlog] at h2
      obtain rfl := h1.eq_of_length_le h2.length_le
      rw [hid] at h3
      exact absurd h3 (not_last_of_adjacent hnd hadj)
    · have hadj' := hg.known.next hn'
      rw [hid, hlog] at hadj'
      exact adjacent_unique hnd hadj' hadj

/-- The plain path finds each item that has data. -/
theorem itemFromEtcd_run (who : String) {id : String} (hi : Γ.Inv st)
    (hid : id ∈ ids Γ.cfg st.2.log) (hth : st.1.etcd.kvs (Γ.cfg.chainKey id) ≠ none)
    (hne : Γ.cfg.saveDataOnSeparateStorage = true → id ≠ Γ.cfg.headKey) :
    ∃ it, ((itemFromEtcd Γ.cfg Γ.cd who id).run (State.step Γ.cfg) st.1).1 = .ok it ∧
      it.id = id ∧ Γ.Got st.2.log it st := by
  by_cases hsep : Γ.cfg.saveDataOnSeparateStorage = true
  · have hon : id ∈ (appended st.2.log).map Prod.fst :=
      (List.mem_cons.mp hid).resolve_left (hne hsep)
    obtain ⟨ckv, dkv, d, h1, h2, h3, -, h4, h5⟩ :=
      (record_separate hi.1 hsep (Or.inr hon)).resolve_right (fun h => h.1 hon)
    have hstep : (State.step Γ.cfg (.txn (readTxn Γ.cfg id)) st.1).1 =
        some ⟨true, [.responseRange [ckv], .responseRange [dkv]]⟩ := by
      rw [show (State.step Γ.cfg (.txn (readTxn Γ.cfg id)) st.1).1 =
        (st.1.etcd.txn (readTxn Γ.cfg id)).1 from rfl, readTxn_answer, h1, h2]
      rfl
    refine ⟨⟨dkv.modRevision, id, some d, ckv.value⟩, ?_, rfl, ?_⟩
    · unfold itemFromEtcd
      rw [if_pos hsep]
      show ((Prog.act (.txn (readTxn Γ.cfg id)) _ : Call (ChainItem T)).run _ _).1 = _
      rw [Prog.run_act, hstep]
      simp [responseRange, h3, Γ.cd.data.parse_serialize]
    · exact Setting.got_of_link (List.prefix_refl _) hid h1 (linkVal_separate hsep d _).symm h5 rfl
        h4 (hi.1.sound _ _ h2).2.1
  · have hsep' : Γ.cfg.saveDataOnSeparateStorage = false := by simpa using hsep
    obtain ⟨kv, d, next, h1, h2, -, h3, h4⟩ :=
      (record_inline id hi.1 hsep').resolve_right (fun h => hth h.2)
    refine ⟨⟨kv.modRevision, id, some d, next⟩, ?_, rfl, ?_⟩
    · unfold itemFromEtcd
      rw [if_neg hsep]
      show ((Prog.act (.range (Γ.cfg.chainKey id)) _ : Call (ChainItem T)).run _ _).1 = _
      rw [Prog.run_act]
      simp [State.step, Store.range, h1, h2, Γ.cd.mapData.parse_serialize]
    · exact Setting.got_of_link (List.prefix_refl _) hid h1
        (h2.trans (linkVal_inline hsep' d _).symm) h4 rfl h3 (hi.1.sound _ _ h1).2.1

variable [Inhabited T]

/-- The plain path finds the head again. -/
theorem head_run (hH : Γ.H default) (hany : ∀ c o st, Γ.guard.op c o st) (hi : Γ.Inv st) :
    ∃ it st', ((head Γ.cfg {} Γ.cd).run (State.step Γ.cfg) st.1).1 = .ok it ∧
      it.id = Γ.cfg.headKey ∧ st'.2.log = st.2.log ∧ Γ.Got st.2.log it st' := by
  obtain ⟨st', hlog, -, hok, herr⟩ := solo_run (n := 0) (c := .head 0) rfl hi
    (fun o s _ _ => hany _ o s)
    (show Γ.Meets 0 (.head 0) _ _ (head Γ.cfg {} Γ.cd) st from
      head_meets hH (by rintro ⟨⟩) (List.prefix_refl st.2.log) hi)
  cases hres : ((head Γ.cfg {} Γ.cd).run (State.step Γ.cfg) st.1).1 with
  | error e => exact (herr e hres).elim
  | ok it => exact ⟨it, st', rfl, (hok it hres).1, hlog, (hok it hres).2⟩

/-- The plain path finds the item after `cur`. -/
theorem fetchNext_run (hany : ∀ c o st, Γ.guard.op c o st) (chain : Nat) {cur : ChainItem T}
    (hi : Γ.Inv st) (hcur : Γ.KnownAt cur st) {next : String}
    (hadj : [cur.id, next] <:+: ids Γ.cfg st.2.log) :
    ∃ it st', ((fetchNext Γ.cfg {} Γ.cd chain cur).run (State.step Γ.cfg) st.1).1 = .ok (some it) ∧
      it.id = next ∧ st'.2.log = st.2.log ∧ Γ.Got st.2.log it st' := by
  obtain ⟨st', hlog, -, hok, herr⟩ := solo_run (n := 0) (c := .head 0) rfl hi
    (fun o s _ _ => hany _ o s)
    (show Γ.Meets 0 (.head 0) _ _ (fetchNext Γ.cfg {} Γ.cd chain cur) st from
      fetchNext_meets_unwatched chain rfl (by rintro ⟨⟩) (List.prefix_refl st.2.log) hi hcur)
  cases hres : ((fetchNext Γ.cfg {} Γ.cd chain cur).run (State.step Γ.cfg) st.1).1 with
  | error e => exact (herr e hres).elim
  | ok o =>
      have hg := hok o hres
      cases o with
      | none =>
          obtain ⟨l, h1, h2, h3⟩ := hg.last rfl
          rw [hlog] at h2
          obtain rfl := h1.eq_of_length_le h2.length_le
          exact absurd h3 (not_last_of_adjacent hi.1.ids_nodup hadj)
      | some it =>
          obtain ⟨hgot, hadj'⟩ := hg.item it rfl
          rw [hlog] at hadj'
          exact ⟨it, st', rfl, adjacent_unique hi.1.ids_nodup hadj' hadj, hlog, hgot⟩

end Agree

variable [Inhabited T]

theorem dataCalls_guarded (cfg : Config) (opts : Nat → Options) (cd : Codecs T) :
    (cppSetting cfg opts cd (DataCalls cfg) (cachedReads cfg)).Guarded where
  appends := fun c o st _ hg => hg.1
  keys := fun c o st _ hg => hg.2.1
  loads := fun c id o st _ hk hg => hg.2.2 id hk
  exact := by rintro _ _ _ _ _ _ ⟨⟨⟩, _⟩
  starts := by rintro _ _ _ _ ⟨⟨⟩, _⟩
  headData := ⟨rfl, fun c hc h => by rw [hc.1] at h; cases h⟩
  loops := by rintro _ _ _ _ _ _ ⟨⟨⟩, _⟩

/-- **Reading through the cache is reading etcd**, in every run of whole appends. -/
theorem cacheAgrees_of_cachedReads (cfg : Config) (opts : Nat → Options) (cd : Codecs T)
    {w : World Op Op.Res State (Ghost T) (Req T) String (Reply T)}
    (hr : Runs cfg opts cd (DataCalls cfg) (cachedReads cfg) w) : CacheAgrees cfg cd w := by
  have hs := settled (dataCalls_guarded cfg opts cd) hr
  have hi : (cppSetting cfg opts cd (DataCalls cfg) Guard.any).Inv w.st := hs.inv
  have hsame : ∀ {it it' : ChainItem T} {st'},
      (cppSetting cfg opts cd (DataCalls cfg) Guard.any).KnownAt it w.st →
      st'.2.log = w.st.2.log →
      (cppSetting cfg opts cd (DataCalls cfg) Guard.any).Got w.st.2.log it' st' →
      it'.id = it.id → SameItem it it' :=
    fun hk hlog hg hid => sameItem_of_got
      (fun d d' (h : d = default) (h' : d' = default) => h.trans h'.symm) hi hlog hk hg hid
  have hhead : ∀ it, (cppSetting cfg opts cd (DataCalls cfg) Guard.any).KnownAt it w.st →
      it.id = cfg.headKey →
      ∃ it', ((head cfg {} cd).run (State.step cfg) w.st.1).1 = .ok it' ∧ SameItem it it' := by
    intro it hk hid
    obtain ⟨it', st', h1, h2, h3, h4⟩ := head_run rfl (fun _ _ _ => trivial) hi
    exact ⟨it', h1, hsame hk h3 h4 (h2.trans hid.symm)⟩
  refine ⟨fun n chain it he => ?_, fun n chain id it he => ?_, fun n chain cur it he => ?_, ?_⟩
  · have ha := hs.post _ he
    obtain ⟨it', h1, h2⟩ := ha.head rfl
    cases h1
    exact hhead it (ha.known _ it rfl rfl) h2
  · have ha := hs.post _ he
    have hk := ha.known _ it rfl rfl
    by_cases hid : id = ""
    · obtain ⟨it', h1, h2⟩ := ha.head (if_pos hid)
      cases h1
      unfold loadUntil
      rw [if_pos hid]
      exact hhead it hk h2
    · obtain rfl := ha.load id (if_neg hid) _ it rfl rfl
      obtain ⟨it', h1, h2, h3⟩ := itemFromEtcd_run "LoadUntil" hi hk.on hk.there
        (fun hsep => ha.made.2 _ (if_neg hid) hsep)
      unfold loadUntil
      rw [if_neg hid, if_neg (by simp)]
      exact ⟨it', h1, hsame hk rfl h3 h2⟩
  · have ha := hs.post _ he
    obtain ⟨o, h1, h2⟩ := ha.next cur rfl
    cases h1
    obtain ⟨it', st', h3, h4, h5, h6⟩ :=
      fetchNext_run (fun _ _ _ => trivial) chain hi (ha.handed cur rfl) (h2 it rfl)
    exact ⟨it', h3, hsame (ha.known _ it rfl rfl) h5 h6 h4⟩
  · intro key v hv
    obtain ⟨id, d, next, rev, h1, h2, h3, h4, -, h6, -⟩ := hi.2 key v hv
    obtain ⟨kv, d', next', h7, h8, -, h9⟩ := link_record hi.1 (h3.subset (by simp)) h6
    refine ⟨id, d, next, rev, kv, h1, h2, h4, h7, ?_⟩
    rw [h8, nextOf_linkVal]
    by_cases hn : next' = ""
    · exact absurd (h9.last hn) (not_last_of_adjacent hi.1.ids_nodup h3)
    · rw [adjacent_unique hi.1.ids_nodup (h9.adjacent hn) h3]

/-! ## Two runs -/

/-- Everything goes to the cache as well, and is looked for there first. -/
def cached : Options := { duplicateFromRedis := true, automaticallyDuplicateToRedis := true }

/-- The head, read from the cache after an append, is the head in etcd. -/
theorem cacheAgrees_single :
    ∃ w, Runs inlineConfig (fun _ => cached) Codecs.unit (DataCalls inlineConfig)
        (cachedReads inlineConfig) w ∧
      (2, .head 0, .ok (.item ⟨3, "", some (), "a"⟩)) ∈ w.returned ∧
      CacheAgrees inlineConfig Codecs.unit w := by
  have hr : Runs inlineConfig (fun _ => cached) Codecs.unit (DataCalls inlineConfig)
      (cachedReads inlineConfig)
      (oneByOne cached (DataCalls inlineConfig)
        [.head 0, .appendAfter 0 inlineHead "a" (), .head 0]) := by
    refine reachable_solos .init ⟨⟨⟨rfl, ?_⟩, ?_⟩,
      ⟨⟨?_, keysWhole_redisGet rfl, ?_⟩, ⟨?_, keysWhole_txn _, ?_⟩, trivial⟩,
      ⟨⟨rfl, ?_⟩, ?_⟩, ⟨⟨?_, keysWhole_txn _, ?_⟩, ⟨?_, keysWhole_redisSet rfl, ?_⟩, trivial⟩,
      ⟨⟨rfl, ?_⟩, ?_⟩, ⟨⟨?_, keysWhole_redisGet rfl, ?_⟩, trivial⟩, trivial⟩
    -- the head is looked for in the cache and made in etcd
    · rintro id ⟨⟩
    · rintro _ ⟨⟩
    · rintro t cur l ⟨⟩
    · rintro id ⟨⟩
    · rintro t cur l ⟨⟩ ⟨⟩
    · rintro id ⟨⟩
    -- the item is appended and the head goes to the cache
    · rintro id ⟨⟩
    · rintro _ ⟨⟩
      exact ⟨(0, .head 0, .ok (.item inlineHead)), List.Mem.head _, Or.inr ⟨_, rfl, rfl⟩⟩
    · rintro t cur l ⟨⟩ ⟨⟩ _ _ _ _; simp
    · rintro id ⟨⟩
    · rintro t cur l ⟨⟩
    · rintro id ⟨⟩
    -- the head is in the cache
    · rintro id ⟨⟩
    · rintro _ ⟨⟩
    · rintro t cur l ⟨⟩
    · rintro id ⟨⟩
  exact ⟨_, hr, List.Mem.head _, cacheAgrees_of_cachedReads _ _ _ hr⟩

/--
Without separate storage, the first item of a batch is in the cache but not in etcd.
-/
theorem not_cacheAgrees_batch :
    ∃ w, Runs inlineConfig (fun _ => cached) Codecs.unit CppCalls Guard.any w ∧
      (2, .fetchNext 0 inlineHead, .ok (.next (some ⟨3, "a", some (), "b"⟩))) ∈ w.returned ∧
      ¬ CacheAgrees inlineConfig Codecs.unit w := by
  have hr : Runs inlineConfig (fun _ => cached) Codecs.unit CppCalls Guard.any
      (oneByOne cached CppCalls
        [.head 0, .appendAfterBatch 0 inlineHead [("a", ()), ("b", ())],
          .fetchNext 0 inlineHead]) := by
    refine reachable_solos .init ⟨⟨rfl, ?_⟩, along_any .., ⟨rfl, ?_⟩, along_any .., ⟨rfl, ?_⟩,
      along_any .., trivial⟩
    · rintro _ ⟨⟩
    · rintro _ ⟨⟩
      exact ⟨(0, .head 0, .ok (.item inlineHead)), List.Mem.head _, Or.inr ⟨_, rfl, rfl⟩⟩
    · rintro _ ⟨⟩
      exact ⟨(0, .head 0, .ok (.item inlineHead)), List.Mem.tail _ (List.Mem.head _),
        Or.inr ⟨_, rfl, rfl⟩⟩
  refine ⟨_, hr, List.Mem.head _, fun h => ?_⟩
  obtain ⟨it', hrun, -⟩ := h.next 2 0 inlineHead _ (List.Mem.head _)
  have herr : ((fetchNext inlineConfig {} Codecs.unit 0 inlineHead).run (State.step inlineConfig)
      (oneByOne cached CppCalls [.head 0, .appendAfterBatch 0 inlineHead [("a", ()), ("b", ())],
        .fetchNext 0 inlineHead]).st.1).1 =
      .error "FetchNext Error! No record for shared_chain_test:a" := rfl
  rw [herr] at hrun
  cases hrun

end EtcdChain
