import TMTransport.EtcdChain.BlindCalls

/-!
# Runs in which the head may be empty

`start` makes the head empty, which filled in is the head that the others make. So in
every run, whoever starts the chain, the store filled in is the chain, and whoever has an
item knows it.
-/

namespace EtcdChain

open Etcd Interleave LinkedStore

variable {T : Type} [Inhabited T]

/-- The steps of `oneFormat`, and of a `start` that makes the head. -/
def oneRecord (cfg : Config) : Guard Op State (Ghost T) (Req T) where
  op := fun c o st => AppendsWhole cfg c o st ∧ KeysWhole o ∧
    (∀ id, c.kind = .load id → LoadsItem cfg id st.2.log ∧
      (c.isDotNetLoad = true → LoadsExact cfg id st.1.etcd))
  env := fun _ _ => True

/-- The setting of all calls of all clients. -/
abbrev allSetting (cfg : Config) (opts : Nat → Options) (cd : Codecs T)
    (G : Guard Op State (Ghost T) (Req T)) : Setting T :=
  ⟨cfg, opts, cd, fun _ => True, fun _ => True, G⟩

section Calls

variable {cfg : Config} {opts : Nat → Options} {cd : Codecs T}

theorem allCalls_guarded : (allSetting cfg opts cd (oneFormat cfg)).Guarded where
  appends := fun _ _ _ _ hg => hg.1
  keys := fun _ _ _ _ hg => hg.2.1
  loads := fun _ id _ _ _ hk hg => (hg.2.2.2 id hk).1
  exact := fun _ id _ _ _ hid _ hg => (hg.2.2.2 id (if_neg hid)).2 rfl
  starts := fun _ _ _ _ _ hg => hg.2.2.1 rfl
  headData := ⟨trivial, fun _ _ _ _ => trivial⟩
  loops := fun _ _ _ _ _ _ _ => trivial

omit [Inhabited T] in
theorem appendsWhole_fill {v : String} {c : Req T} {o : Op} {st : State × Ghost T} (ho : o.Filled)
    (h : AppendsWhole cfg c o st) : AppendsWhole cfg c o (st.1.fill v, st.2) := by
  intro t cur l hot hc hputs resp hresp hok
  subst hot
  rw [State.fill_etcd, txn_fill ho] at hresp
  obtain ⟨resp', hresp', rfl⟩ := Option.map_eq_some_iff.mp hresp
  exact h t cur l rfl hc hputs resp' hresp' hok

omit [Inhabited T] in
theorem loadsExact_fill {v id : String} {s : Store} (h : LoadsExact cfg id s) :
    LoadsExact cfg id (s.fill v) := by
  intro hsep hnone
  rw [rangePrefix_fill, h hsep (Store.fill_kvs_eq_none.mp hnone), List.map_nil]

omit [Inhabited T] in
/-- A step that is right is right of the filled store. -/
theorem oneFormat_of_oneRecord {v : String} {c : Req T} {o : Op} {st : State × Ghost T}
    (hc : c.isStart = false) (ho : o.Filled) (h : (oneRecord cfg).op c o st) :
    (oneFormat cfg).op c o (st.1.fill v, st.2) := by
  refine ⟨appendsWhole_fill ho h.1, h.2.1, fun hstart => ?_, fun id hk => ?_⟩
  · rw [hc] at hstart
    cases hstart
  · exact ⟨(h.2.2 id hk).1, fun hload => loadsExact_fill ((h.2.2 id hk).2 hload)⟩

/-! ## `start` -/

section Start

variable (hsep : cfg.saveDataOnSeparateStorage = false)

include hsep

theorem linkVal_default (kv : KV) (h : kv.value = "") :
    (kv.fill (emptyHeadDataStr cfg cd)).value = (layout cfg cd).linkVal default "" := by
  rw [KV.fill_of_eq h, linkVal_inline hsep]
  exact emptyHeadDataStr_eq hsep

/-- The head that `start` reads, from the record as it is or from an empty one. -/
theorem Script.known_head {s : Store} {log : List (Commit T)} {kv : KV} (created : Bool) (d : T)
    (hi : ChainInv cfg cd (fun _ => True) (s.fill (emptyHeadDataStr cfg cd)) log)
    (hkv : s.kvs cfg.headKeyStr = some kv) (hcreated : created = true → kv.value = "") :
    (∃ it, Script.headItem cfg cd d created kv = .ret it ∧
      Known cfg cd (fun _ => True) it (s.fill (emptyHeadDataStr cfg cd)) log) := by
  have hfill : (s.fill (emptyHeadDataStr cfg cd)).kvs (cfg.chainKey cfg.headKey) =
      some (kv.fill (emptyHeadDataStr cfg cd)) := by
    rw [Store.fill_kvs, show cfg.chainKey cfg.headKey = cfg.headKeyStr from rfl, hkv]
    rfl
  obtain ⟨kv', d', next, hkv', hval, -, hf⟩ := link_record hi (List.mem_cons_self : cfg.headKey ∈ _)
    (by rw [hfill]; exact Option.some_ne_none _)
  obtain rfl := Option.some.inj (hfill.symm.trans hkv')
  have hknown : Known cfg cd (fun _ => True) ⟨kv.modRevision, cfg.headKey, some d, next⟩
      (s.fill (emptyHeadDataStr cfg cd)) log := by
    refine known_of_link List.mem_cons_self hfill hval hf ⟨d, rfl, .inl ⟨rfl, trivial⟩⟩ ?_
    have hle := (hi.sound _ _ hfill).2.1
    rwa [KV.fill_modRevision] at hle
  by_cases hempty : kv.value = ""
  · -- what an empty record stands for names nothing
    have hnext : next = "" := by
      have hof := congrArg (nextOf cfg cd) (hval.symm.trans (linkVal_default hsep kv hempty))
      rw [nextOf_linkVal, nextOf_linkVal] at hof
      exact Option.some.inj hof
    subst hnext
    refine ⟨_, ?_, hknown⟩
    unfold Script.headItem
    rw [hsep, hempty, if_neg Bool.false_ne_true, if_pos rfl, Prog.pure_eq, ite_self]
  · have hmade : ¬ created = true := fun h => hempty (hcreated h)
    refine ⟨_, ?_, hknown⟩
    rw [KV.fill_of_ne hempty, linkVal_inline hsep] at hval
    unfold Script.headItem
    rw [if_neg hmade, hsep, if_neg Bool.false_ne_true, if_neg hempty, hval,
      cd.mapData.parse_serialize]
    rfl

/-- Making the head empty makes the head of the filled store. -/
theorem stands_head {s : State} {log : List (Commit T)}
    (hi : Stands cfg cd (fun _ => True) s log) (hnone : s.etcd.kvs cfg.headKeyStr = none) :
    Stands cfg cd (fun _ => True) (s.txn cfg (headTxn cfg "")).2 log := by
  obtain ⟨kv, hvalue, hrev, htxn⟩ := headTxn_of_none (v := "") hnone
  have hetcd : (s.txn cfg (headTxn cfg "")).2.etcd = ⟨s.etcd.revision + 1,
      Function.update s.etcd.kvs cfg.headKeyStr (some kv), s.etcd.keys ++ [cfg.headKeyStr]⟩ :=
    congrArg Prod.snd htxn
  have hkvs : ((s.txn cfg (headTxn cfg "")).2.etcd.fill (emptyHeadDataStr cfg cd)).kvs =
      Function.update (s.etcd.fill (emptyHeadDataStr cfg cd)).kvs cfg.headKeyStr
        (some (kv.fill (emptyHeadDataStr cfg cd))) := by
    funext k
    rw [Store.fill_kvs, hetcd]
    dsimp only
    by_cases hk : k = cfg.headKeyStr
    · subst hk
      rw [Function.update_self, Function.update_self]
      rfl
    · rw [Function.update_of_ne hk, Function.update_of_ne hk, Store.fill_kvs]
  have hsound : ((s.txn cfg (headTxn cfg "")).2.etcd.fill (emptyHeadDataStr cfg cd)).Sound :=
    sound_fill_iff.mpr (sound_txn (sound_fill_iff.mp hi.chain.sound) _)
  refine ⟨(chainInv_head hi.chain (Store.fill_kvs_eq_none.mpr hnone) hsound hkvs
    (linkVal_default hsep kv hvalue) trivial).1, ?_, fun _ k kv' hk hempty => ?_⟩
  · refine cacheInv_mono hi.cache (List.prefix_refl _) ?_ (fun k hk => ?_) fun _ _ h => h
    · exact revision_le_txn s.etcd (headTxn cfg "")
    · rw [State.fill_etcd, hkvs]
      by_cases hkey : k = cfg.headKeyStr
      · rw [hkey, Function.update_self]
        exact Option.some_ne_none _
      · rw [Function.update_of_ne hkey]
        exact hk
  · by_contra hkey
    rw [hetcd] at hk
    dsimp only at hk
    exact hkey (hi.empty hsep k kv' (by rwa [Function.update_of_ne hkey] at hk) hempty)

/-- What `start` makes of the answer to its transaction. -/
theorem Script.known_start {s : State} {log : List (Commit T)} (d : T)
    (hi : Stands cfg cd (fun _ => True) s log) :
    Stands cfg cd (fun _ => True) (s.txn cfg (headTxn cfg "")).2 log ∧
      ∃ resp kv created it, (s.txn cfg (headTxn cfg "")).1 = some resp ∧
        resp.responses[if resp.succeeded then 0 else 1]? = some (.responseRange [kv]) ∧
        created = !resp.succeeded ∧ Script.headItem cfg cd d created kv = .ret it ∧
        Known cfg cd (fun _ => True) it
          ((s.txn cfg (headTxn cfg "")).2.etcd.fill (emptyHeadDataStr cfg cd)) log := by
  cases hhead : s.etcd.kvs cfg.headKeyStr with
  | some kv =>
      -- the head is there and is only read
      have hanswer := (headTxn_of_some (v := "") hhead).1
      have hsame : (s.txn cfg (headTxn cfg "")).2 = s := by
        refine txn_readOnly_state ?_
        rw [branch_of_passes (by rw [headTxn_passes, hhead]; rfl)]
        rfl
      rw [hsame]
      obtain ⟨it, hit, hknown⟩ := Script.known_head hsep false d hi.chain hhead
        (fun h => by cases h)
      exact ⟨hi, _, kv, false, it, hanswer, rfl, rfl, hit, hknown⟩
  | none =>
      have hstands := stands_head hsep hi hhead
      obtain ⟨kv, hvalue, -, htxn⟩ := headTxn_of_none (v := "") hhead
      have hkv : (s.txn cfg (headTxn cfg "")).2.etcd.kvs cfg.headKeyStr = some kv := by
        show (s.etcd.txn (headTxn cfg "")).2.kvs cfg.headKeyStr = some kv
        rw [htxn]
        exact Function.update_self ..
      obtain ⟨it, hit, hknown⟩ := Script.known_head hsep true d hstands.chain
        hkv fun _ => hvalue
      exact ⟨hstands, _, kv, true, it, congrArg Prod.fst htxn, rfl, rfl, hit, hknown⟩

variable {G : Guard Op State (Ghost T) (Req T)} {n : Nat} {c : Req T} {st : State × Ghost T}

theorem Script.startFromEtcd_safe (d : T) :
    Safe (system cfg opts cd fun _ => True) G (filledContract cfg cd fun _ => True) n c
      (fun it st' => Known cfg cd (fun _ => True) it
        (st'.1.etcd.fill (emptyHeadDataStr cfg cd)) st'.2.log) (fun _ _ => True)
      (Script.startFromEtcd cfg cd d) st := by
  unfold Script.startFromEtcd
  rw [Prog.bind_eq, Script.commit_bind]
  intro st' _ hi _
  have hlog : (note n c (.txn (headTxn cfg "")) (st'.1.txn cfg (headTxn cfg "")).1 st'.1
      (st'.1.txn cfg (headTxn cfg "")).2 st'.2).log = st'.2.log := by
    rw [note, logOf_of_reads rfl, List.append_nil]
  obtain ⟨hstands, resp, kv, created, it, hanswer, hrange, rfl, hit, hknown⟩ :=
    Script.known_start hsep d hi
  rw [← hlog] at hstands hknown
  refine ⟨hstands, fun m hmn => moves_step hmn _ _ _, ?_⟩
  have hexec : ((system cfg opts cd fun _ => True).exec n c (.txn (headTxn cfg "")) st').1 =
      some resp := hanswer
  rw [hexec]
  simp only [hrange, responseRange, hit]
  exact fun st'' hm _ => hknown.stable (Moves.fill hm)

theorem Script.start_safe (lang : Lang) (opt : Options) (d : T) {n : Nat} {c : Req T}
    {st : State × Ghost T} (hi : Stands cfg cd (fun _ => True) st.1 st.2.log) :
    Safe (system cfg opts cd fun _ => True) (oneRecord cfg)
      (filledContract cfg cd fun _ => True) n c
      (fun it st' => Known cfg cd (fun _ => True) it
        (st'.1.etcd.fill (emptyHeadDataStr cfg cd)) st'.2.log) (fun _ _ => True)
      (Script.start lang cfg opt cd d) st := by
  unfold Script.start
  by_cases hdup : opt.duplicateFromRedis = true
  · rw [if_pos hdup]
    refine Safe.bind ((Script.blind_fromRedis lang cfg.headKey).meets
      (Γ := allSetting cfg opts cd ⟨fun _ o _ => KeysWhole o, fun _ _ => True⟩)
      (fun _ _ _ hg => hg.2.1) (Script.fromRedis_meets lang (fun _ _ h => h) _ _)) ?_ hi
    intro r st' _ hcached
    cases r with
    | some it => exact fun st'' hm _ => (hcached it rfl).known.stable (Moves.fill hm)
    | none => exact Script.startFromEtcd_safe hsep d
  · rw [if_neg hdup]
    exact Script.startFromEtcd_safe hsep d

end Start

end Calls

/-! ## Runs -/

section Runs

variable (cfg : Config) (opts : Nat → Options) (cd : Codecs T)

/-- What is known of the items of a call that has ended. -/
structure ItemsKnown (c : Req T) (r : Except String (Reply T)) (st : State × Ghost T) : Prop where
  handed : ∀ cur, c.current = some cur →
    Known cfg cd (fun _ => True) cur (st.1.etcd.fill (emptyHeadDataStr cfg cd)) st.2.log
  known : ∀ rep it, r = .ok rep → rep.current = some it →
    Known cfg cd (fun _ => True) it (st.1.etcd.fill (emptyHeadDataStr cfg cd)) st.2.log

variable {cfg opts cd}

omit [Inhabited T] in
theorem fill_init (v : String) : State.init.fill v = State.init := rfl

omit [Inhabited T] in
theorem env_fill {v : String} {s t : State} (h : Env opts s t) :
    Env opts (s.fill v) (t.fill v) ∧ t.etcd = s.etcd := by
  cases h with
  | expire key => exact ⟨.expire key, rfl⟩
  | watchCreated huse hw => exact ⟨.watchCreated huse hw, rfl⟩
  | watchDelivered hw hev hrev => exact ⟨.watchDelivered hw hev hrev, rfl⟩
  | watchEnded c => exact ⟨.watchEnded c, rfl⟩

theorem emptyHead_obligations (hsep : cfg.saveDataOnSeparateStorage = false)
    (hparse : cd.mapData.parse "" = none) :
    Obligations (system cfg opts cd fun _ => True) (oneRecord cfg)
      (filledContract cfg cd fun _ => True) (State.init, {}) Idle
      (fun n c st => (allSetting cfg opts cd (oneFormat cfg)).Ready n c
        (st.1.fill (emptyHeadDataStr cfg cd), st.2))
      (fun _ => ItemsKnown cfg cd) where
  init := by
    have hinit : (allSetting cfg opts cd (oneFormat cfg)).Inv (State.init, {}) := inv_init
    refine ⟨?_, ?_, fun _ _ _ h => by cases h⟩
    · have := hinit.1
      rwa [← fill_init (emptyHeadDataStr cfg cd)] at this
    · have := hinit.2
      rwa [← fill_init (emptyHeadDataStr cfg cd)] at this
  fresh_init := fun _ => ⟨fun _ h => (nomatch h), fun h => h⟩
  fresh_stable := fun _ _ _ h hm => h.stable hm
  env := fun s t hi he _ => by
    obtain ⟨hfill, hetcd⟩ := env_fill (v := emptyHeadDataStr cfg cd) he
    have hinv := (inv_env (Γ := allSetting cfg opts cd (oneFormat cfg))
      (show Setting.Inv _ (s.1.fill (emptyHeadDataStr cfg cd), s.2) from ⟨hi.chain, hi.cache⟩)
      hfill).1
    refine ⟨⟨hinv.1, hinv.2, fun hsep k kv hk => ?_⟩, fun n => ?_⟩
    · rw [hetcd] at hk
      exact hi.empty hsep k kv hk
    · show Moves n s.1.etcd s.2 t.etcd s.2
      rw [hetcd]
      exact Moves.refl n _ _
  post_stable := fun _ _ _ _ _ h hm _ =>
    ⟨fun cur hc => (h.handed cur hc).stable (Moves.fill hm),
      fun rep it hr hit => (h.known rep it hr hit).stable (Moves.fill hm)⟩
  call := fun n c s h _ hid hp hm => by
    refine ⟨trivial, fun cur hc => ?_, hid.log, hid.touched⟩
    obtain ⟨e, he, hcur | ⟨rep, hr, hit⟩⟩ := hm.2 cur hc
    · exact (hp e he).handed cur hcur
    · exact (hp e he).known rep cur hr hit
  body := fun n c s hi hr => by
    cases hc : c.isStart with
    | false =>
        have hmeets := (blind_body hsep hparse opts hc).meets
          (Γ := allSetting cfg opts cd (oneFormat cfg)) (G := oneRecord cfg)
          (fun _ _ ho hg => oneFormat_of_oneRecord hc ho hg)
          (body_meets allCalls_guarded ⟨hi.chain, hi.cache⟩ hr)
        refine (hmeets.frame (F := fun st => ∀ cur, c.current = some cur →
          Known cfg cd (fun _ => True) cur (st.1.etcd.fill (emptyHeadDataStr cfg cd)) st.2.log)
          hr.handed (fun _ _ _ hm h cur hcur => (h cur hcur).stable (Moves.fill hm))).mono ?_ ?_
        · intro r st' _ h
          cases r with
          | inl c' => exact h.1
          | inr a => exact ⟨h.2, h.1.known⟩
        · exact fun e st' _ h => ⟨h.2, fun _ _ h => by cases h⟩
    | true =>
        cases c with
        | start lang chain d =>
            refine Safe.bind ((Script.start_safe hsep lang (opts chain) d hi).mono
              (fun _ _ _ h => h) fun _ _ _ _ => ⟨fun _ h => (nomatch h), fun _ _ h => (nomatch h)⟩)
              (fun it st' _ hknown st'' hm _ => ?_) hi
            refine ⟨fun _ h => (nomatch h), fun rep it' hrep hit => ?_⟩
            cases hrep
            cases hit
            exact hknown.stable (Moves.fill hm)
        | _ => cases hc

/-- **Whoever starts the chain**, the store filled in is the chain that the log says, and
whoever has an item knows it. -/
theorem stands_of_runs (hparse : cd.mapData.parse "" = none)
    {w : World Op Op.Res State (Ghost T) (Req T) String (Reply T)}
    (hr : Runs cfg opts cd (fun _ => True) (oneRecord cfg) w) :
    Stands cfg cd (fun _ => True) w.st.1 w.st.2.log ∧ ∀ it, Held w.returned it →
      Known cfg cd (fun _ => True) it (w.st.1.etcd.fill (emptyHeadDataStr cfg cd))
        w.st.2.log := by
  by_cases hsep : cfg.saveDataOnSeparateStorage = true
  · -- the head is empty in any case, and there is nothing to fill in
    have hone : ∀ (c : Req T) o st, (oneRecord cfg).op c o st → (oneFormat cfg).op c o st :=
      fun _ _ _ hg => ⟨hg.1, hg.2.1, fun _ => .inl hsep, hg.2.2⟩
    have hs := settled allCalls_guarded (hr.mono hone fun _ _ h => h)
    have hfill : w.st.1.etcd.fill (emptyHeadDataStr cfg cd) = w.st.1.etcd := by
      rw [emptyHeadDataStr, if_pos hsep, Store.fill_empty]
    have hstate : w.st.1.fill (emptyHeadDataStr cfg cd) = w.st.1 := by rw [State.fill, hfill]
    refine ⟨⟨?_, ?_, fun hsep' => ?_⟩, fun it hit => ?_⟩
    · rw [hfill]
      exact hs.inv.1
    · rw [hstate]
      exact hs.inv.2
    · rw [hsep] at hsep'
      cases hsep'
    · rw [hfill]
      exact known_of_held hs.post hit
  · have hs := safe_reachable (emptyHead_obligations (by simpa using hsep) hparse) hr
    refine ⟨hs.inv, fun it hit => ?_⟩
    obtain ⟨e, he, hcur | ⟨rep, hrep, hcur⟩⟩ := hit
    · exact (hs.post e he).handed it hcur
    · exact (hs.post e he).known rep it hrep hcur

end Runs

end EtcdChain
