import TMTransport.EtcdChain.Contract

/-!
# What the C++ readers return

One specification per reading function, proved against whatever the other calls
may do between any two of its operations. The first half is shared with the other
clients, who read the same records through requests of their own.
-/

namespace EtcdChain

open Etcd Interleave LinkedStore

variable {T : Type}

/-! ## Reading an item from etcd -/

section Record

variable {cfg : Config} {cd : Codecs T} {H : T → Prop} {s : Store} {log : List (Commit T)}
  {id : String}

/-- In separate storage mode a reader finds both records of an item, or misses one. -/
theorem record_separate (hi : ChainInv cfg cd H s log)
    (hsep : cfg.saveDataOnSeparateStorage = true)
    (hl : LoadsItem cfg id log ∨ id ∈ (appended log).map Prod.fst) :
    (∃ chainKV dataKV d, s.kvs (cfg.chainKey id) = some chainKV ∧
      s.kvs (cfg.dataKey id) = some dataKV ∧ dataKV.value = cd.data.serialize d ∧
      id ∈ ids cfg log ∧ DataOf cfg H log id d ∧ Follows cfg log id chainKV.value) ∨
    (id ∉ (appended log).map Prod.fst ∧
      (s.kvs (cfg.chainKey id) = none ∨ s.kvs (cfg.dataKey id) = none)) := by
  by_cases hon : id ∈ (appended log).map Prod.fst
  · left
    have hid : id ∈ ids cfg log := List.mem_cons_of_mem _ hon
    obtain ⟨kv, d, next, h1, h2, h3, h4⟩ := link_record hi hid (there_of_appended hi hon)
    have hne : id ≠ cfg.headKey := fun he => (List.nodup_cons.mp hi.ids_nodup).1 (he ▸ hon)
    have hx : (id, d) ∈ appended log := (h3.resolve_left (fun h => hne h.1)).2
    obtain ⟨dkv, h5, h6⟩ := data_record hi hsep hx
    have hv : kv.value = next := by rw [h2]; simp [layout, hsep]
    exact ⟨kv, dkv, d, h1, h5, h6, hid, h3, hv ▸ h4⟩
  · right
    refine ⟨hon, Or.inr ?_⟩
    by_contra hdk
    rcases hi.only _ hdk with ⟨id', hid', he⟩ | ⟨-, x, hx, he⟩
    · exact (hl.resolve_right hon) hsep id' hid' he
    · exact hon (List.mem_map.mpr ⟨x, hx, (dataKey_inj _ he).symm⟩)

variable (id) in
/-- Without separate storage a reader finds the record of an item, or nothing. -/
theorem record_inline (hi : ChainInv cfg cd H s log)
    (hsep : cfg.saveDataOnSeparateStorage = false) :
    (∃ kv d next, s.kvs (cfg.chainKey id) = some kv ∧
      kv.value = cd.mapData.serialize ⟨d, next⟩ ∧
      id ∈ ids cfg log ∧ DataOf cfg H log id d ∧ Follows cfg log id next) ∨
    (id ∉ (appended log).map Prod.fst ∧ s.kvs (cfg.chainKey id) = none) := by
  by_cases hth : s.kvs (cfg.chainKey id) = none
  · exact Or.inr ⟨fun hon => there_of_appended hi hon hth, hth⟩
  · left
    have hid : id ∈ ids cfg log := by
      rcases hi.only _ hth with ⟨id', hid', he⟩ | ⟨h, -⟩
      · rwa [chainKey_inj _ he]
      · rw [hsep] at h; exact absurd h (by simp)
    obtain ⟨kv, d, next, h1, h2, h3, h4⟩ := link_record hi hid hth
    exact ⟨kv, d, next, h1, by rw [h2]; simp [layout, hsep], hid, h3, h4⟩

/-- An item made of its link record is `Got`. -/
theorem Setting.got_of_link {Γ : Setting T} {st : State × Ghost T} {log₀ : List (Commit T)}
    {it : ChainItem T} {kv : KV} {d d' : T} (hs : log₀ <+: st.2.log)
    (hid : it.id ∈ ids Γ.cfg st.2.log) (hkv : st.1.etcd.kvs (Γ.cfg.chainKey it.id) = some kv)
    (hval : kv.value = (layout Γ.cfg Γ.cd).linkVal d it.nextID)
    (hf : Follows Γ.cfg st.2.log it.id it.nextID)
    (hdata : it.data = some d') (hd : DataOf Γ.cfg Γ.H st.2.log it.id d')
    (hrev : it.revision ≤ st.1.etcd.revision) : Γ.Got log₀ it st :=
  ⟨hs, known_of_link hid hkv hval hf ⟨d', hdata, hd⟩ hrev,
    fun hn => ⟨st.2.log, hs, List.prefix_refl _, hf.last hn⟩⟩

/-- What follows an item, once the link record has been read. -/
theorem Setting.gotNext_of_follows {Γ : Setting T} {st : State × Ghost T}
    {log₀ : List (Commit T)} {next : String} (hs : log₀ <+: st.2.log)
    (hf : Follows Γ.cfg st.2.log id next) : Γ.GotNext log₀ id next st :=
  ⟨hs, fun hn => ⟨st.2.log, hs, List.prefix_refl _, hf.last hn⟩, hf.adjacent⟩

/-- The next id that a known item carries. -/
theorem Setting.gotNext_of_known {Γ : Setting T} {st : State × Ghost T}
    {log₀ : List (Commit T)} {cur : ChainItem T} (hs : log₀ <+: st.2.log)
    (hk : Γ.KnownAt cur st) (hn : cur.nextID ≠ "") : Γ.GotNext log₀ cur.id cur.nextID st :=
  ⟨hs, fun h => absurd h hn, hk.next⟩

/-- What has not been appended by now had not been appended before. -/
theorem notMem_of_extends {log₀ : List (Commit T)} (h : log₀ <+: log)
    (hn : id ∉ (appended log).map Prod.fst) : id ∉ (appended log₀).map Prod.fst :=
  fun hm => hn (((appended_extend h).map _).subset hm)

end Record

section Items

variable [Inhabited T] {Γ : Setting T} {n : Nat} {c : Req T} {log₀ : List (Commit T)}
  {st : State × Ghost T} {id : String}

/-- Reading the two records of an item, with what a client makes of them. -/
theorem meets_itemTxn {k : Option TxnResponse → Call (ChainItem T)} (h₀ : log₀ <+: st.2.log)
    (hsep : Γ.cfg.saveDataOnSeparateStorage = true)
    (hl : (∀ o st', Γ.guard.op c o st' → LoadsItem Γ.cfg id st'.2.log) ∨
      id ∈ (appended log₀).map Prod.fst)
    (hfound : ∀ chainKV dataKV d, dataKV.value = Γ.cd.data.serialize d →
      k (some ⟨true, [.responseRange [chainKV], .responseRange [dataKV]]⟩) =
        .ret ⟨dataKV.modRevision, id, some d, chainKV.value⟩)
    (hmissing : ∀ chainKVs dataKVs, chainKVs = [] ∨ dataKVs = [] →
      ∃ e, k (some ⟨true, [.responseRange chainKVs, .responseRange dataKVs]⟩) = .fail e) :
    Γ.Meets n c (fun it st' => it.id = id ∧ Γ.Got log₀ it st')
      (fun _ _ => id ∉ (appended log₀).map Prod.fst) (.act (.txn (readTxn Γ.cfg id)) k) st := by
  refine meets_readTxn (readTxn_reads id) rfl (fun st' hm hi hg => ?_)
  have hp := h₀.trans hm.extends
  rw [readTxn_answer]
  rcases record_separate hi.1 hsep
    (hl.imp (fun h => h _ st' hg) (fun h => ((appended_extend hp).map _).subset h)) with
    ⟨ckv, dkv, d, h1, h2, h3, h4, h5, h6⟩ | ⟨hn, habs⟩
  · rw [h1, h2, Option.toList_some, Option.toList_some, hfound ckv dkv d h3]
    refine Safe.ret ⟨rfl, ?_⟩ (fun _ _ hr _ h => ⟨h.1, h.2.stable hr⟩)
    exact Setting.got_of_link hp h4 h1 (linkVal_separate hsep d _).symm h6 rfl h5
      (hi.1.sound _ _ h2).2.1
  · obtain ⟨e, he⟩ := hmissing _ _
      (habs.imp (congrArg Option.toList) (congrArg Option.toList))
    rw [he]
    exact fun _ _ _ => notMem_of_extends hp hn

/-- Reading an item from etcd fails only if it had not been appended when the call began. -/
theorem itemFromEtcd_meets (who : String) (h₀ : log₀ <+: st.2.log)
    (hl : (∀ o st', Γ.guard.op c o st' → LoadsItem Γ.cfg id st'.2.log) ∨
      id ∈ (appended log₀).map Prod.fst) :
    Γ.Meets n c (fun it st' => it.id = id ∧ Γ.Got log₀ it st')
      (fun _ _ => id ∉ (appended log₀).map Prod.fst)
      (itemFromEtcd Γ.cfg Γ.cd who id) st := by
  unfold itemFromEtcd
  by_cases hsep : Γ.cfg.saveDataOnSeparateStorage = true
  · rw [if_pos hsep]
    refine meets_itemTxn h₀ hsep hl (fun ckv dkv d hd => ?_) (fun ckvs dkvs hnil => ?_)
    · simp only [Option.getD_some, responseRange, Prog.ret_bind, if_true, hd,
        Γ.cd.data.parse_serialize]
      rfl
    · simp only [Option.getD_some, responseRange, Prog.ret_bind, if_true]
      cases ckvs with
      | nil => exact ⟨_, rfl⟩
      | cons ckv rest =>
          rw [hnil.resolve_left (List.cons_ne_nil _ _)]
          exact ⟨_, rfl⟩
  · have hsep' : Γ.cfg.saveDataOnSeparateStorage = false := by simpa using hsep
    rw [if_neg hsep]
    refine meets_range (fun st' hm hi hg => ?_)
    have hp := h₀.trans hm.extends
    rcases record_inline id hi.1 hsep' with ⟨kv, d, next, h1, h2, h3, h4, h5⟩ | ⟨hn, habs⟩
    · simp only [Store.range, h1, Option.toList_some, Prog.ret_bind, h2,
        Γ.cd.mapData.parse_serialize]
      refine Safe.ret ⟨rfl, ?_⟩ (fun _ _ hr _ h => ⟨h.1, h.2.stable hr⟩)
      exact Setting.got_of_link hp h3 h1 (h2.trans (linkVal_inline hsep' d _).symm) h5 rfl h4
        (hi.1.sound _ _ h1).2.1
    · simp only [Store.range, habs, Option.toList_none, Prog.ret_bind]
      exact fun _ _ _ => notMem_of_extends hp hn

/-- The link record of a known item, as `Range` on its key returns it. -/
theorem meets_link {β : Type} {Q : β → State × Ghost T → Prop}
    {E : String → State × Ghost T → Prop} {k : List KV → Call β} (h₀ : log₀ <+: st.2.log)
    (hid : id ∈ ids Γ.cfg st.2.log) (hth : st.1.etcd.kvs (Γ.cfg.chainKey id) ≠ none)
    (hk : ∀ st' kv rest d next, log₀ <+: st'.2.log → Γ.Inv st' →
      st'.1.etcd.kvs (Γ.cfg.chainKey id) = some kv →
      kv.value = (layout Γ.cfg Γ.cd).linkVal d next → DataOf Γ.cfg Γ.H st'.2.log id d →
      Follows Γ.cfg st'.2.log id next → id ∈ ids Γ.cfg st'.2.log →
      Γ.Meets n c Q E (k (kv :: rest)) st') :
    Γ.Meets n c Q E (.act (.range (Γ.cfg.chainKey id)) k) st ∧
      Γ.Meets n c Q E (.act (.rangePrefix (Γ.cfg.chainKey id)) k) st := by
  constructor
  · refine meets_range (fun st' hm hi _ => ?_)
    have hid' := (ids_extend hm.extends).subset hid
    obtain ⟨kv, d, next, h1, h2, h3, h4⟩ := link_record hi.1 hid' (hm.bound hth)
    rw [Store.range, h1]
    exact hk st' kv [] d next (h₀.trans hm.extends) hi h1 h2 h3 h4 hid'
  · refine meets_rangePrefix (fun st' hm hi _ => ?_)
    have hid' := (ids_extend hm.extends).subset hid
    obtain ⟨kv, d, next, h1, h2, h3, h4⟩ := link_record hi.1 hid' (hm.bound hth)
    obtain ⟨rest, hrest⟩ := rangePrefix_of_mem hi.1.sound h1
    rw [hrest]
    exact hk st' kv rest d next (h₀.trans hm.extends) hi h1 h2 h3 h4 hid'

/-- The item that follows another one is read without fail. -/
theorem Setting.gotItem_of_got {next : String} (hi : Γ.Inv st) (hn : Γ.GotNext log₀ id next st)
    (hne : next ≠ "") {p : Call (ChainItem T)}
    (hp : next ∈ (appended st.2.log).map Prod.fst →
      Γ.Meets n c (fun it st' => it.id = next ∧ Γ.Got st.2.log it st')
        (fun _ _ => next ∉ (appended st.2.log).map Prod.fst) p st) :
    Γ.Meets n c (fun r st' => Γ.GotItem log₀ id (some r) st') (fun _ _ => False) p st := by
  have hmem := (mem_of_adjacent hi.1.ids_nodup (hn.adjacent hne)).1
  refine Safe.mono (hp hmem) ?_ (fun _ _ _ h => h hmem)
  rintro it st' _ ⟨rfl, hg⟩
  refine ⟨hn.since.trans hg.since, by simp, ?_⟩
  rintro _ ⟨⟩
  exact ⟨hg.weaken hn.since, (hn.adjacent hne).trans (ids_extend hg.since).isInfix⟩

/-- What the link record of an item says of the next one. -/
theorem nextOfLink_meets {kv : KV} {d : T} {next e : String}
    (hval : kv.value = (layout Γ.cfg Γ.cd).linkVal d next) (hg : Γ.GotNext log₀ id next st) :
    Γ.Meets n c (fun next st' => Γ.GotNext log₀ id next st') (fun _ _ => False)
      (if Γ.cfg.saveDataOnSeparateStorage then .ret kv.value
        else match Γ.cd.mapData.parse kv.value with
          | some mapData => .ret mapData.nextID
          | none => .fail e) st := by
  by_cases hsep : Γ.cfg.saveDataOnSeparateStorage = true
  · rw [if_pos hsep, hval, linkVal_separate hsep]
    exact Safe.ret hg (fun _ _ hr _ h => h.stable hr)
  · have hsep' : Γ.cfg.saveDataOnSeparateStorage = false := by simpa using hsep
    rw [if_neg hsep, hval, linkVal_inline hsep', Γ.cd.mapData.parse_serialize]
    exact Safe.ret hg (fun _ _ hr _ h => h.stable hr)

/-- The item whose id a client has read, with the client's way `q` of reading it. -/
theorem itemAfter_meets {p : Call String} {q : String → Call (ChainItem T)} (hi : Γ.Inv st)
    (hp : Γ.Meets n c (fun next st' => Γ.GotNext log₀ id next st') (fun _ _ => False) p st)
    (hq : ∀ next st', next ∈ (appended st'.2.log).map Prod.fst →
      Γ.Meets n c (fun it st'' => it.id = next ∧ Γ.Got st'.2.log it st'')
        (fun _ _ => next ∉ (appended st'.2.log).map Prod.fst) (q next) st') :
    Γ.Meets n c (fun r st' => Γ.GotItem log₀ id r st') (fun _ _ => False)
      (p.bind fun next => if next ≠ "" then (q next).bind fun item => .ret (some item)
        else .ret none) st := by
  refine Safe.bind hp (fun next st' hi' hg => ?_) hi
  by_cases hne : next = ""
  · subst hne
    exact Safe.ret ⟨hg.since, fun _ => hg.last rfl, by simp⟩ (fun _ _ hr _ h => h.stable hr)
  · rw [if_pos hne]
    refine Safe.bind (Setting.gotItem_of_got hi' hg hne (hq next st')) ?_ hi'
    exact fun it st'' _ h => Safe.ret h (fun _ _ hr _ h => h.stable hr)

end Items

/-! ## Reading an item from the cache -/

section Cache

/-- What may come out of the cache under the chain key of `id`. -/
structure Setting.Cached (Γ : Setting T) (id : String) (it : ChainItem T)
    (st : State × Ghost T) : Prop where
  id : it.id = id
  known : Γ.KnownAt it st
  next : it.nextID ≠ ""

theorem Setting.Cached.got {Γ : Setting T} {id : String} {it : ChainItem T}
    {st : State × Ghost T} {log₀ : List (Commit T)} (h : Γ.Cached id it st)
    (hs : log₀ <+: st.2.log) : Γ.Got log₀ it st :=
  ⟨hs, h.known, fun hn => absurd hn h.next⟩

variable [Inhabited T] {Γ : Setting T} {opt : Options} {n : Nat} {c : Req T}
  {log₀ : List (Commit T)} {st : State × Ghost T} {id : String} {cur : ChainItem T}

/-- Each client makes the same item of what it finds in the cache. -/
theorem cached_meets {arg : KeyArg} {k : Option String → Call (Option (ChainItem T))}
    (hw : ∀ o st', Γ.guard.op c o st' → KeysWhole o) (hnone : k none = .ret none)
    (hsome : ∀ rev d next, k (some (Γ.cd.redis.serialize ⟨rev, d, next⟩)) =
      .ret (some ⟨rev, id, some d, next⟩)) :
    Γ.Meets n c (fun r st' => ∀ it, r = some it → Γ.Cached id it st') (fun _ _ => False)
      (.act (.redisGet arg (Γ.cfg.chainKey id)) k) st := by
  refine meets_redisGet hw (fun st' _ _ => ?_) (fun st' d next rev _ _ hne _ hk => ?_)
  · rw [hnone]
    exact Safe.ret (by simp) (fun _ _ _ _ _ => by simp)
  · rw [hsome]
    refine Safe.ret (fun it hit => ?_) (fun _ _ hr _ h it hit =>
      ⟨(h it hit).id, (h it hit).known.stable hr, (h it hit).next⟩)
    obtain rfl := Option.some.inj hit
    exact ⟨rfl, hk, hne⟩

/-- The item after `cur`, by way of the cache, with a client's way `f` of reading it. -/
theorem nextCached_meets {f : String → Call (Option (ChainItem T))} (h₀ : log₀ <+: st.2.log)
    (hi : Γ.Inv st) (hcur : Γ.KnownAt cur st)
    (hf : ∀ id st, Γ.Meets n c (fun r st' => ∀ it, r = some it → Γ.Cached id it st')
      (fun _ _ => False) (f id) st) :
    Γ.Meets n c (fun r st' => (log₀ <+: st'.2.log ∧ Γ.KnownAt cur st') ∧ ∀ it, r = some it →
        Γ.Got log₀ it st' ∧ [cur.id, it.id] <:+: ids Γ.cfg st'.2.log) (fun _ _ => False)
      (if cur.nextID ≠ "" then f cur.nextID else do
        match ← f cur.id with
        | some s => if s.nextID ≠ "" then f s.nextID else return none
        | none => return none) st := by
  have hF : ∀ (m : Nat) (s s' : State × Ghost T), Moves m s.1.etcd s.2 s'.1.etcd s'.2 →
      (log₀ <+: s.2.log ∧ Γ.KnownAt cur s) → log₀ <+: s'.2.log ∧ Γ.KnownAt cur s' :=
    fun m s s' hr h => ⟨h.1.trans hr.extends, h.2.stable hr⟩
  by_cases hn : cur.nextID ≠ ""
  · rw [if_pos hn]
    refine ((hf cur.nextID st).frame ⟨h₀, hcur⟩ hF).mono ?_ (fun _ _ _ h => h.1)
    rintro r st' _ ⟨hc, hs, hk⟩
    refine ⟨⟨hs, hk⟩, fun it hit => ⟨(hc it hit).got hs, ?_⟩⟩
    rw [(hc it hit).id]
    exact hk.next hn
  · rw [if_neg hn]
    refine Safe.bind (((hf cur.id st).frame ⟨h₀, hcur⟩ hF).mono (fun _ _ _ h => h)
      (fun _ _ _ h => h.1)) ?_ hi
    rintro r st' hi' ⟨hc, hs, hk⟩
    have hnil : Γ.Meets n c (fun r st' => (log₀ <+: st'.2.log ∧ Γ.KnownAt cur st') ∧
        ∀ it, r = some it → Γ.Got log₀ it st' ∧ [cur.id, it.id] <:+: ids Γ.cfg st'.2.log)
        (fun _ _ => False) (.ret none) st' :=
      Safe.ret ⟨⟨hs, hk⟩, by simp⟩ (fun _ _ hr _ h => ⟨hF n _ _ hr h.1, by simp⟩)
    cases r with
    | none => exact hnil
    | some s =>
        by_cases hsn : s.nextID ≠ ""
        · simp only [if_pos hsn]
          have hadj : [cur.id, s.nextID] <:+: ids Γ.cfg st'.2.log := by
            have := (hc s rfl).known.next hsn
            rwa [(hc s rfl).id] at this
          have hF' : ∀ (m : Nat) (s' s'' : State × Ghost T),
              Moves m s'.1.etcd s'.2 s''.1.etcd s''.2 →
              ((log₀ <+: s'.2.log ∧ Γ.KnownAt cur s') ∧
                [cur.id, s.nextID] <:+: ids Γ.cfg s'.2.log) →
              (log₀ <+: s''.2.log ∧ Γ.KnownAt cur s'') ∧
                [cur.id, s.nextID] <:+: ids Γ.cfg s''.2.log :=
            fun m s' s'' hr h => ⟨hF m s' s'' hr h.1,
              h.2.trans (ids_extend hr.extends).isInfix⟩
          refine ((hf s.nextID st').frame ⟨⟨hs, hk⟩, hadj⟩ hF').mono ?_ (fun _ _ _ h => h.1)
          rintro r st'' _ ⟨hc', hs', hadj'⟩
          refine ⟨hs', fun it hit => ⟨(hc' it hit).got hs'.1, ?_⟩⟩
          rw [(hc' it hit).id]
          exact hadj'
        · simp only [if_neg hsn]
          exact hnil

/-- A client reads the cache only if it is told to. -/
theorem nextIfCached_meets {p : Call (Option (ChainItem T))} (h₀ : log₀ <+: st.2.log)
    (hcur : Γ.KnownAt cur st)
    (hp : opt.duplicateFromRedis = true → Γ.Meets n c (fun r st' => (log₀ <+: st'.2.log ∧
      Γ.KnownAt cur st') ∧ ∀ it, r = some it →
        Γ.Got log₀ it st' ∧ [cur.id, it.id] <:+: ids Γ.cfg st'.2.log) (fun _ _ => False) p st) :
    Γ.Meets n c (fun r st' => (log₀ <+: st'.2.log ∧ Γ.KnownAt cur st') ∧ ∀ it, r = some it →
        Γ.Got log₀ it st' ∧ [cur.id, it.id] <:+: ids Γ.cfg st'.2.log) (fun _ _ => False)
      (if opt.duplicateFromRedis then p else .ret none) st := by
  by_cases hdup : opt.duplicateFromRedis = true
  · rw [if_pos hdup]
    exact hp hdup
  · rw [if_neg hdup]
    exact Safe.ret ⟨⟨h₀, hcur⟩, by simp⟩ (fun _ _ hr _ h =>
      ⟨⟨h.1.1.trans hr.extends, h.1.2.stable hr⟩, by simp⟩)

/-- What the cache does not have comes from etcd. -/
theorem nextOrElse_meets {Q : Option (ChainItem T) → State × Ghost T → Prop}
    {p q : Call (Option (ChainItem T))} (hi : Γ.Inv st)
    (hp : Γ.Meets n c (fun r st' => (log₀ <+: st'.2.log ∧ Γ.KnownAt cur st') ∧ ∀ it,
      r = some it → Γ.Got log₀ it st' ∧ [cur.id, it.id] <:+: ids Γ.cfg st'.2.log)
      (fun _ _ => False) p st)
    (hQ : ∀ it st', Γ.GotItem log₀ cur.id (some it) st' → Q (some it) st')
    (hq : ∀ st', log₀ <+: st'.2.log → Γ.Inv st' → Γ.KnownAt cur st' →
      Γ.Meets n c Q (fun _ _ => False) q st') :
    Γ.Meets n c Q (fun _ _ => False) (p.bind fun r => match r with
      | some item => .ret (some item)
      | none => q) st := by
  refine Safe.bind hp ?_ hi
  rintro r st' hi' ⟨⟨hs, hk⟩, hr⟩
  cases r with
  | none => exact hq st' hs hi' hk
  | some it =>
      have hgot : Γ.GotItem log₀ cur.id (some it) st' := by
        refine ⟨hs, by simp, ?_⟩
        rintro _ ⟨⟩
        exact hr it rfl
      exact fun st'' hm _ => hQ it st'' (hgot.stable hm)

end Cache

/-! ## Reading or making the head -/

/--
A head transaction that makes the head the right way, or finds it there. `k`
goes on with the head's record, of data `d` and next id `next`.
-/
theorem meets_head [Inhabited T] {Γ : Setting T} {n : Nat} {c : Req T} {β : Type}
    {Q : β → State × Ghost T → Prop} {E : String → State × Ghost T → Prop}
    {st : State × Ghost T} {log₀ : List (Commit T)} {v : String}
    {k : Option TxnResponse → Call β} (h₀ : log₀ <+: st.2.log)
    (hv : ∀ st', Γ.guard.op c (.txn (headTxn Γ.cfg v)) st' →
      (∃ d, Γ.H d ∧ v = (layout Γ.cfg Γ.cd).linkVal d "") ∨ st'.1.etcd.kvs Γ.cfg.headKeyStr ≠ none)
    (hk : ∀ st' kv d next resp, log₀ <+: st'.2.log → Γ.Inv st' →
      st'.1.etcd.kvs (Γ.cfg.chainKey Γ.cfg.headKey) = some kv →
      kv.value = (layout Γ.cfg Γ.cd).linkVal d next → Γ.H d →
      Follows Γ.cfg st'.2.log Γ.cfg.headKey next →
      (resp = ⟨true, [.responseRange [kv]]⟩ ∨
        ∃ rev, next = "" ∧ resp = ⟨false, [.responsePut rev, .responseRange [kv]]⟩) →
      Γ.Meets n c Q E (k (some resp)) st') :
    Γ.Meets n c Q E (.act (.txn (headTxn Γ.cfg v)) k) st := by
  refine meets_txn (fun st' hm hi hg => ?_)
  have hlog : logOf n c (.txn (headTxn Γ.cfg v)) (st'.1.txn Γ.cfg (headTxn Γ.cfg v)).1
      (st'.1.txn Γ.cfg (headTxn Γ.cfg v)).2 = [] := logOf_of_reads rfl
  have hmv := (moves_txn (c := c) Γ.cfg (Nat.succ_ne_self n) st'.1 st'.2
    (headTxn Γ.cfg v)).extends
  simp only [note, hlog, List.append_nil] at hmv ⊢
  have hp := h₀.trans hm.extends
  cases hh : st'.1.etcd.kvs Γ.cfg.headKeyStr with
  | some kv =>
      obtain ⟨h1, h2⟩ := headTxn_of_some (v := v) hh
      have hs : (st'.1.txn Γ.cfg (headTxn Γ.cfg v)).2.etcd = st'.1.etcd := h2
      refine ⟨by rw [hs]; exact hi.1, fun hi' => ?_⟩
      have hth : st'.1.etcd.kvs (Γ.cfg.chainKey Γ.cfg.headKey) ≠ none := by
        rw [show Γ.cfg.chainKey Γ.cfg.headKey = Γ.cfg.headKeyStr from rfl, hh]
        exact Option.some_ne_none kv
      obtain ⟨kv', d, next, h3, h4, h5, h6⟩ := link_record hi.1 (List.mem_cons_self ..) hth
      obtain rfl : kv = kv' := Option.some.inj (hh.symm.trans h3)
      have hd : Γ.H d := h5.elim (fun h => h.2) (fun h => absurd rfl h.1)
      rw [h1]
      exact hk _ kv d next _ hp hi' (by rw [hs]; exact h3) h4 hd h6 (Or.inl rfl)
  | none =>
      obtain ⟨kv, h1, h2, h3⟩ := headTxn_of_none (v := v) hh
      obtain ⟨d, hd, hvd⟩ := (hv st' hg).resolve_right (fun h => h hh)
      have hkvs : (st'.1.txn Γ.cfg (headTxn Γ.cfg v)).2.etcd.kvs =
          Function.update st'.1.etcd.kvs Γ.cfg.headKeyStr (some kv) :=
        congrArg (fun r => r.2.kvs) h3
      obtain ⟨h4, h5⟩ := chainInv_head hi.1 hh (sound_txn hi.1.sound (headTxn Γ.cfg v)) hkvs
        (h1.trans hvd) hd
      refine ⟨h4, fun hi' => ?_⟩
      rw [show (st'.1.etcd.txn (headTxn Γ.cfg v)).1 = _ from congrArg Prod.fst h3]
      refine hk _ kv d "" _ hp hi' ?_ (h1.trans hvd) hd ⟨fun _ => ⟨[], ?_⟩, fun h => absurd rfl h⟩
        (Or.inr ⟨_, rfl, rfl⟩)
      · rw [hkvs]; exact Function.update_self _ _ _
      · simp [ids, h5, appended]

/-! ## The C++ client -/

section Cpp

variable [Inhabited T] {Γ : Setting T} {opt : Options} {n : Nat} {c : Req T}
  {log₀ : List (Commit T)} {st : State × Ghost T} {cur : ChainItem T}

theorem nextIDFromEtcd_meets (h₀ : log₀ <+: st.2.log) (hcur : Γ.KnownAt cur st) :
    Γ.Meets n c (fun next st' => Γ.GotNext log₀ cur.id next st') (fun _ _ => False)
      (nextIDFromEtcd Γ.cfg Γ.cd cur) st := by
  unfold nextIDFromEtcd
  by_cases hn : cur.nextID = ""
  · rw [if_pos hn]
    refine (meets_link h₀ hcur.on hcur.there ?_).1
    intro st' kv rest d next hs hi hkv hval hd hf _
    exact nextOfLink_meets hval (Γ.gotNext_of_follows hs hf)
  · rw [if_neg hn]
    exact Safe.ret (Γ.gotNext_of_known h₀ hcur hn) (fun _ _ hr _ h => h.stable hr)

theorem fetchNextFromEtcd_meets (h₀ : log₀ <+: st.2.log) (hi : Γ.Inv st)
    (hcur : Γ.KnownAt cur st) :
    Γ.Meets n c (fun r st' => Γ.GotItem log₀ cur.id r st') (fun _ _ => False)
      (fetchNextFromEtcd Γ.cfg Γ.cd cur) st :=
  itemAfter_meets hi (nextIDFromEtcd_meets h₀ hcur) fun _ _ hmem =>
    itemFromEtcd_meets "FetchNext" (List.prefix_refl _) (Or.inr hmem)

theorem itemFromRedis_meets (hw : ∀ o st', Γ.guard.op c o st' → KeysWhole o) (id : String)
    (st : State × Ghost T) :
    Γ.Meets n c (fun r st' => ∀ it, r = some it → Γ.Cached id it st') (fun _ _ => False)
      (itemFromRedis Γ.cfg Γ.cd id) st :=
  cached_meets hw rfl (fun rev d next => by simp [Γ.cd.redis.parse_serialize])

theorem fetchNextAnyway_meets
    (hw : opt.duplicateFromRedis = true → ∀ o st', Γ.guard.op c o st' → KeysWhole o)
    (h₀ : log₀ <+: st.2.log) (hi : Γ.Inv st) (hcur : Γ.KnownAt cur st) :
    Γ.Meets n c (fun r st' => Γ.GotItem log₀ cur.id r st') (fun _ _ => False)
      (fetchNextAnyway Γ.cfg opt Γ.cd cur) st := by
  refine nextOrElse_meets hi ?_ (fun _ _ h => h) (fun _ => fetchNextFromEtcd_meets)
  refine nextIfCached_meets h₀ hcur fun hdup => ?_
  exact nextCached_meets h₀ hi hcur (fun id st => itemFromRedis_meets (hw hdup) id st)

/-- `fetchNext` returns the next item, if it returns one. -/
theorem fetchNext_meets (chain : Nat)
    (hw : opt.duplicateFromRedis = true → ∀ o st', Γ.guard.op c o st' → KeysWhole o)
    (h₀ : log₀ <+: st.2.log) (hi : Γ.Inv st) (hcur : Γ.KnownAt cur st) :
    Γ.Meets n c (fun r st' => (opt.useWatchThread = true ∧ r = none) ∨
        Γ.GotItem log₀ cur.id r st') (fun _ _ => False)
      (fetchNext Γ.cfg opt Γ.cd chain cur) st := by
  refine Safe.bind (R := fun b st' => (b = true → opt.useWatchThread = true) ∧
    log₀ <+: st'.2.log ∧ Γ.KnownAt cur st') ?_ ?_ hi
  · unfold upToDate
    by_cases hup : (opt.useWatchThread && cur.nextID == "") = true
    · rw [if_pos hup]
      refine meets_loadLatest (fun st' hm _ => ?_)
      refine Safe.ret ⟨fun _ => (Bool.and_eq_true_iff.mp hup).1, h₀.trans hm.extends,
        hcur.stable hm⟩ (fun _ _ hr _ h => ⟨h.1, h.2.1.trans hr.extends, h.2.2.stable hr⟩)
    · rw [if_neg hup]
      exact Safe.ret ⟨by simp, h₀, hcur⟩
        (fun _ _ hr _ h => ⟨h.1, h.2.1.trans hr.extends, h.2.2.stable hr⟩)
  · rintro b st' hi' ⟨hb, hs, hk⟩
    cases b with
    | true => exact Safe.ret (Or.inl ⟨hb rfl, rfl⟩) (fun _ _ _ _ _ => Or.inl ⟨hb rfl, rfl⟩)
    | false =>
        rw [if_neg (by simp)]
        exact (fetchNextAnyway_meets hw hs hi' hk).mono (fun _ _ _ h => Or.inr h)
          (fun _ _ _ h => h)

/-- Without a watch thread it returns none only if nothing follows. -/
theorem fetchNext_meets_unwatched (chain : Nat) (hunw : opt.useWatchThread = false)
    (hw : opt.duplicateFromRedis = true → ∀ o st', Γ.guard.op c o st' → KeysWhole o)
    (h₀ : log₀ <+: st.2.log) (hi : Γ.Inv st) (hcur : Γ.KnownAt cur st) :
    Γ.Meets n c (fun r st' => Γ.GotItem log₀ cur.id r st') (fun _ _ => False)
      (fetchNext Γ.cfg opt Γ.cd chain cur) st :=
  (fetchNext_meets chain hw h₀ hi hcur).mono
    (fun _ _ _ h => h.resolve_left (fun h' => by rw [hunw] at h'; exact absurd h'.1 (by simp)))
    (fun _ _ _ h => h)

omit [Inhabited T] in
/-- The head item that a client makes of the head's record. -/
theorem Setting.got_head {it : ChainItem T} {kv : KV} {d d' : T} (hs : log₀ <+: st.2.log)
    (hi : Γ.Inv st) (hkv : st.1.etcd.kvs (Γ.cfg.chainKey Γ.cfg.headKey) = some kv)
    (hval : kv.value = (layout Γ.cfg Γ.cd).linkVal d it.nextID)
    (hf : Follows Γ.cfg st.2.log Γ.cfg.headKey it.nextID) (hid : it.id = Γ.cfg.headKey)
    (hrev : it.revision = kv.modRevision) (hdata : it.data = some d') (hd : Γ.H d') :
    Γ.Got log₀ it st := by
  have hk := (hi.1.sound _ _ hkv).2.1
  rw [← hid] at hkv hf
  exact Setting.got_of_link hs (by rw [hid]; exact List.mem_cons_self ..) hkv hval hf hdata
    (Or.inl ⟨hid, hd⟩) (hrev ▸ hk)

theorem headFromEtcd_meets (hH : Γ.H default) (h₀ : log₀ <+: st.2.log) :
    Γ.Meets n c (fun it st' => it.id = Γ.cfg.headKey ∧ Γ.Got log₀ it st') (fun _ _ => False)
      (headFromEtcd Γ.cfg Γ.cd) st := by
  refine meets_head h₀ (fun st' _ => Or.inl ⟨default, hH, ?_⟩) ?_
  · unfold emptyHeadDataStr
    by_cases hsep : Γ.cfg.saveDataOnSeparateStorage = true
    · rw [if_pos hsep, linkVal_separate hsep]
    · rw [if_neg hsep, linkVal_inline (by simpa using hsep)]
  · intro st' kv d next resp hs hi hkv hval hd hf hresp
    have hitem : (headItem Γ.cfg Γ.cd kv).id = Γ.cfg.headKey ∧
        Γ.Got log₀ (headItem Γ.cfg Γ.cd kv) st' := by
      unfold headItem
      by_cases hsep : Γ.cfg.saveDataOnSeparateStorage = true
      · rw [if_pos hsep]
        have hv : kv.value = next := by rw [hval, linkVal_separate hsep]
        exact ⟨rfl, Setting.got_head (d := d) hs hi hkv (by rw [linkVal_separate hsep])
          (hv ▸ hf) rfl rfl rfl hH⟩
      · have hsep' : Γ.cfg.saveDataOnSeparateStorage = false := by simpa using hsep
        rw [if_neg hsep, hval, linkVal_inline hsep', Γ.cd.mapData.parse_serialize]
        exact ⟨rfl, Setting.got_head (d := d) hs hi hkv hval hf rfl rfl rfl hd⟩
    rcases hresp with rfl | ⟨rev, -, rfl⟩
    · exact Safe.ret hitem (fun _ _ hr _ h => ⟨h.1, h.2.stable hr⟩)
    · exact Safe.ret hitem (fun _ _ hr _ h => ⟨h.1, h.2.stable hr⟩)

/-- What comes out of the cache is as good as what comes out of etcd. -/
theorem orElse_meets {id : String} {E : String → State × Ghost T → Prop}
    {p : Call (Option (ChainItem T))} {q : Call (ChainItem T)} (h₀ : log₀ <+: st.2.log)
    (hi : Γ.Inv st)
    (hp : Γ.Meets n c (fun r st' => ∀ it, r = some it → Γ.Cached id it st')
      (fun _ _ => False) p st)
    (hq : ∀ st, log₀ <+: st.2.log → Γ.Meets n c
      (fun it st' => it.id = id ∧ Γ.Got log₀ it st') E q st) :
    Γ.Meets n c (fun it st' => it.id = id ∧ Γ.Got log₀ it st') E
      (p.bind fun r => match r with
        | some item => .ret item
        | none => q) st := by
  have hF : ∀ (m : Nat) (s s' : State × Ghost T), Moves m s.1.etcd s.2 s'.1.etcd s'.2 →
      log₀ <+: s.2.log → log₀ <+: s'.2.log := fun m s s' hr h => h.trans hr.extends
  refine Safe.bind ((hp.frame h₀ hF).mono (fun _ _ _ h => h) (fun _ _ _ h => h.1.elim)) ?_ hi
  rintro r st' _ ⟨hc, hs⟩
  cases r with
  | none => exact hq st' hs
  | some it =>
      have h : it.id = id ∧ Γ.Got log₀ it st' := ⟨(hc it rfl).id, (hc it rfl).got hs⟩
      exact Safe.ret h (fun _ _ hr _ h => ⟨h.1, h.2.stable hr⟩)

theorem head_meets (hH : Γ.H default)
    (hw : opt.duplicateFromRedis = true → ∀ o st', Γ.guard.op c o st' → KeysWhole o)
    (h₀ : log₀ <+: st.2.log) (hi : Γ.Inv st) :
    Γ.Meets n c (fun it st' => it.id = Γ.cfg.headKey ∧ Γ.Got log₀ it st') (fun _ _ => False)
      (head Γ.cfg opt Γ.cd) st := by
  unfold head
  by_cases hdup : opt.duplicateFromRedis = true
  · rw [if_pos hdup]
    exact orElse_meets h₀ hi (itemFromRedis_meets (hw hdup) _ st)
      (fun st hs => headFromEtcd_meets hH hs)
  · rw [if_neg hdup]
    exact headFromEtcd_meets hH h₀

/-- `loadUntil` fails only if the id had not been appended when the call began. -/
theorem loadUntil_meets {id : String} (hne : id ≠ "")
    (hw : opt.duplicateFromRedis = true → ∀ o st', Γ.guard.op c o st' → KeysWhole o)
    (hl : (∀ o st', Γ.guard.op c o st' → LoadsItem Γ.cfg id st'.2.log) ∨
      id ∈ (appended log₀).map Prod.fst)
    (h₀ : log₀ <+: st.2.log) (hi : Γ.Inv st) :
    Γ.Meets n c (fun it st' => it.id = id ∧ Γ.Got log₀ it st')
      (fun _ _ => id ∉ (appended log₀).map Prod.fst) (loadUntil Γ.cfg opt Γ.cd id) st := by
  unfold loadUntil
  rw [if_neg hne]
  by_cases hdup : opt.duplicateFromRedis = true
  · rw [if_pos hdup]
    exact orElse_meets h₀ hi (itemFromRedis_meets (hw hdup) _ st)
      (fun st hs => itemFromEtcd_meets "LoadUntil" hs hl)
  · rw [if_neg hdup]
    exact itemFromEtcd_meets "LoadUntil" h₀ hl

end Cpp

end EtcdChain
