import TMTransport.EtcdChain.Reads

/-!
# What the TypeScript and Python readers return
-/

namespace EtcdChain.Script

open Etcd Interleave LinkedStore

variable {T : Type} {cfg : Config} {s : Store}

theorem readTxn_reads (id : String) : putKeys (readTxn cfg id).success = [] := by
  unfold readTxn
  split <;> rfl

theorem readTxn_answer (id : String) :
    (s.txn (readTxn cfg id)).1 = some ⟨(s.kvs (cfg.chainKey id)).isSome,
      if (s.kvs (cfg.chainKey id)).isSome then
        if cfg.saveDataOnSeparateStorage then
          [.responseRange (s.kvs (cfg.chainKey id)).toList,
            .responseRange (s.kvs (cfg.dataKey id)).toList]
        else [.responseRange (s.kvs (cfg.chainKey id)).toList]
      else []⟩ := by
  have hp : (readTxn cfg id).passes s = (s.kvs (cfg.chainKey id)).isSome := by
    simp [TxnRequest.passes, readTxn]
  rw [txn_of_acceptable ⟨by unfold readTxn; split <;> simp, by rw [readTxn_reads]; simp⟩
    acceptable_nil, hp]
  unfold TxnRequest.branch
  rw [hp]
  by_cases hc : (s.kvs (cfg.chainKey id)).isSome = true
  · rw [if_pos hc, if_pos hc]
    unfold readTxn
    by_cases hsep : cfg.saveDataOnSeparateStorage = true
    · simp [hsep, applyOps, applyOp]
    · simp [hsep, applyOps, applyOp]
  · rw [if_neg hc, if_neg hc]
    rfl

/-- What a reader that may come back with nothing has found under `id`. -/
structure Found (Γ : Setting T) (log₀ : List (Commit T)) (id : String)
    (r : Option (ChainItem T)) (st : State × Ghost T) : Prop where
  missing : r = none → id ∉ (appended log₀).map Prod.fst
  found : ∀ it, r = some it → it.id = id ∧ Γ.Got log₀ it st

theorem Found.stable {Γ : Setting T} {log₀ : List (Commit T)} {id : String}
    {r : Option (ChainItem T)} {n : Nat} {st st' : State × Ghost T} (h : Found Γ log₀ id r st)
    (hm : Moves n st.1.etcd st.2 st'.1.etcd st'.2) : Found Γ log₀ id r st' :=
  ⟨h.missing, fun it hit => ⟨(h.found it hit).1, (h.found it hit).2.stable hm⟩⟩

theorem Found.of_got {Γ : Setting T} {log₀ : List (Commit T)} {id : String} {it : ChainItem T}
    {st : State × Ghost T} (h : it.id = id ∧ Γ.Got log₀ it st) :
    Found Γ log₀ id (some it) st :=
  ⟨by simp, by rintro _ ⟨⟩; exact h⟩

section Reads

variable [Inhabited T] {Γ : Setting T} {opt : Options} {n : Nat} {c : Req T}
  {log₀ : List (Commit T)} {st : State × Ghost T} {cur : ChainItem T} {id : String}

/-- `commit` of a request that is answered. -/
theorem commit_bind {β : Type} (t : TxnRequest) (f : TxnResponse → Call β) :
    (commit t).bind f = .act (.txn t) (fun (r : Option TxnResponse) => match r with
      | some resp => f resp
      | none => .fail rpcError) := by
  simp only [commit, Prog.act_bind]
  congr 1
  funext r
  cases r <;> rfl

/-- The record of an item, in the mode without separate storage. -/
theorem itemOfMapData_meets (h₀ : log₀ <+: st.2.log) (hi : Γ.Inv st)
    (hsep : Γ.cfg.saveDataOnSeparateStorage = false) {kv : KV} {d : T} {next : String}
    (hid : id ∈ ids Γ.cfg st.2.log) (hkv : st.1.etcd.kvs (Γ.cfg.chainKey id) = some kv)
    (hval : kv.value = Γ.cd.mapData.serialize ⟨d, next⟩) (hd : DataOf Γ.cfg Γ.H st.2.log id d)
    (hf : Follows Γ.cfg st.2.log id next) :
    Γ.Meets n c (fun it st' => it.id = id ∧ Γ.Got log₀ it st') (fun _ _ => False)
      (itemOfMapData Γ.cd id [kv]) st := by
  simp only [itemOfMapData, hval, Γ.cd.mapData.parse_serialize]
  refine Safe.ret ⟨rfl, ?_⟩ (fun _ _ hr _ h => ⟨h.1, h.2.stable hr⟩)
  exact Setting.got_of_link h₀ hid hkv (hval.trans (linkVal_inline hsep d _).symm) hf rfl hd
    (hi.1.sound _ _ hkv).2.1

/-- Reading an item from etcd comes back with nothing only if it had not been appended. -/
theorem itemFromEtcd_meets (h₀ : log₀ <+: st.2.log)
    (hl : (∀ o st', Γ.guard.op c o st' → LoadsItem Γ.cfg id st'.2.log) ∨
      id ∈ (appended log₀).map Prod.fst) :
    Γ.Meets n c (fun r st' => Found Γ log₀ id r st')
      (fun _ _ => id ∉ (appended log₀).map Prod.fst) (itemFromEtcd Γ.cfg Γ.cd id) st := by
  have hnone : ∀ st' : State × Ghost T, id ∉ (appended log₀).map Prod.fst →
      Γ.Meets n c (fun r st' => Found Γ log₀ id r st')
        (fun _ _ => id ∉ (appended log₀).map Prod.fst) (.ret none) st' :=
    fun st' hn => Safe.ret ⟨fun _ => hn, by simp⟩ (fun _ _ hr _ h => h.stable hr)
  unfold itemFromEtcd
  rw [Prog.bind_eq, commit_bind]
  refine meets_readTxn (readTxn_reads id) rfl (fun st' hm hi hg => ?_)
  have hp := h₀.trans hm.extends
  rw [readTxn_answer]
  by_cases hsep : Γ.cfg.saveDataOnSeparateStorage = true
  · rcases record_separate hi.1 hsep
      (hl.imp (fun h => h _ st' hg) (fun h => ((appended_extend hp).map _).subset h)) with
      ⟨ckv, dkv, d, h1, h2, h3, h4, h5, h6⟩ | ⟨hn, habs⟩
    · simp only [h1, h2, hsep, Option.isSome_some, Option.toList_some, responseRange, if_true, h3,
        Γ.cd.data.parse_serialize]
      refine Safe.ret (Found.of_got ⟨rfl, ?_⟩) (fun _ _ hr _ h => h.stable hr)
      exact Setting.got_of_link hp h4 h1 (linkVal_separate hsep d _).symm h6 rfl h5
        (hi.1.sound _ _ h1).2.1
    · cases hc : st'.1.etcd.kvs (Γ.cfg.chainKey id) with
      | none =>
          simp only [Option.isSome_none, Bool.false_eq_true, if_false]
          exact hnone st' (notMem_of_extends hp hn)
      | some kv =>
          have hd := habs.resolve_left (by rw [hc]; simp)
          simp only [hd, hsep, Option.isSome_some, Option.toList_some, Option.toList_none,
            responseRange, if_true]
          exact fun _ _ _ => notMem_of_extends hp hn
  · have hsep' : Γ.cfg.saveDataOnSeparateStorage = false := by simpa using hsep
    rcases record_inline id hi.1 hsep' with ⟨kv, d, next, h1, h2, h3, h4, h5⟩ | ⟨hn, habs⟩
    · simp only [h1, hsep', Option.isSome_some, Option.toList_some, if_true, Bool.false_eq_true,
        if_false, List.head?_cons, Option.map_some, Option.getD_some, responseRange]
      refine Safe.bind ((itemOfMapData_meets hp hi hsep' h3 h1 h2 h4 h5).mono
        (fun _ _ _ h => h) (fun _ _ _ h => h.elim)) ?_ hi
      exact fun it st'' _ h => Safe.ret (Found.of_got h) (fun _ _ hr _ h => h.stable hr)
    · simp only [habs, Option.isSome_none, Bool.false_eq_true, if_false]
      exact hnone st' (notMem_of_extends hp hn)

theorem nextIDFromEtcd_meets (h₀ : log₀ <+: st.2.log) (hcur : Γ.KnownAt cur st) :
    Γ.Meets n c (fun next st' => Γ.GotNext log₀ cur.id next st' ∧ (next = "" → cur.nextID = ""))
      (fun _ _ => False) (nextIDFromEtcd Γ.cfg Γ.cd cur) st := by
  unfold nextIDFromEtcd
  by_cases hn : cur.nextID = ""
  · rw [if_pos hn]
    refine (meets_link h₀ hcur.on hcur.there ?_).1
    intro st' kv rest d next hs hi hkv hval hd hf _
    have hg : Γ.GotNext log₀ cur.id next st' ∧ (next = "" → cur.nextID = "") :=
      ⟨Γ.gotNext_of_follows hs hf, fun _ => hn⟩
    by_cases hsep : Γ.cfg.saveDataOnSeparateStorage = true
    · simp only [hsep, if_true, Prog.ret_bind, hval, linkVal_separate hsep]
      exact Safe.ret hg (fun _ _ hr _ h => ⟨h.1.stable hr, h.2⟩)
    · have hsep' : Γ.cfg.saveDataOnSeparateStorage = false := by simpa using hsep
      simp only [hsep', Prog.ret_bind, hval, linkVal_inline hsep', Γ.cd.mapData.parse_serialize,
        Γ.cd.mapData_ne, Bool.false_eq_true, if_false]
      exact Safe.ret hg (fun _ _ hr _ h => ⟨h.1.stable hr, h.2⟩)
  · rw [if_neg hn]
    exact Safe.ret ⟨Γ.gotNext_of_known h₀ hcur hn, fun h => h⟩
      (fun _ _ hr _ h => ⟨h.1.stable hr, h.2⟩)

/-- `next` comes back with nothing only if nothing follows, which `current` does not know. -/
theorem nextFromEtcd_meets (h₀ : log₀ <+: st.2.log) (hi : Γ.Inv st) (hcur : Γ.KnownAt cur st) :
    Γ.Meets n c (fun r st' => Γ.GotItem log₀ cur.id r st' ∧ (r = none → cur.nextID = ""))
      (fun _ _ => False) (nextFromEtcd Γ.cfg Γ.cd cur) st := by
  refine Safe.bind (nextIDFromEtcd_meets h₀ hcur) (fun next st' hi' hg => ?_) hi
  by_cases hne : next = ""
  · subst hne
    exact Safe.ret ⟨⟨hg.1.since, fun _ => hg.1.last rfl, by simp⟩, fun _ => hg.2 rfl⟩
      (fun _ _ hr _ h => ⟨h.1.stable hr, h.2⟩)
  · rw [if_neg hne]
    have hmem := (mem_of_adjacent hi'.1.ids_nodup (hg.1.adjacent hne)).1
    have hitem : ∀ it st'', it.id = next ∧ Γ.Got st'.2.log it st'' →
        Γ.GotItem log₀ cur.id (some it) st'' := by
      rintro it st'' ⟨rfl, h⟩
      refine ⟨hg.1.since.trans h.since, by simp, ?_⟩
      rintro _ ⟨⟩
      exact ⟨h.weaken hg.1.since, (hg.1.adjacent hne).trans (ids_extend h.since).isInfix⟩
    by_cases hsep : Γ.cfg.saveDataOnSeparateStorage = true
    · rw [if_pos hsep]
      refine (itemFromEtcd_meets (List.prefix_refl _) (Or.inr hmem)).mono ?_ (fun _ _ _ h => h hmem)
      intro r st'' _ h
      cases r with
      | none => exact absurd hmem (h.missing rfl)
      | some it => exact ⟨hitem it st'' (h.found it rfl), by simp⟩
    · have hsep' : Γ.cfg.saveDataOnSeparateStorage = false := by simpa using hsep
      rw [if_neg hsep]
      refine meets_range (fun st'' hm hi'' _ => ?_)
      have hmem' : next ∈ (appended st''.2.log).map Prod.fst :=
        ((appended_extend hm.extends).map _).subset hmem
      rcases record_inline next hi''.1 hsep' with ⟨kv, d, nx, h1, h2, h3, h4, h5⟩ | ⟨hn, _⟩
      · simp only [Store.range, h1, Option.toList_some, Prog.ret_bind]
        refine Safe.bind (itemOfMapData_meets hm.extends hi'' hsep' h3 h1 h2 h4 h5) ?_ hi''
        intro it st3 _ h
        exact Safe.ret ⟨hitem it st3 h, by simp⟩ (fun _ _ hr _ h => ⟨h.1.stable hr, h.2⟩)
      · exact absurd hmem' hn

theorem fromRedis_meets (lang : Lang) (hw : ∀ o st', Γ.guard.op c o st' → KeysWhole o)
    (id : String) (st : State × Ghost T) :
    Γ.Meets n c (fun r st' => ∀ it, r = some it → Γ.Cached id it st') (fun _ _ => False)
      (fromRedis lang Γ.cfg Γ.cd id) st :=
  cached_meets hw rfl (fun rev d next => by simp [Γ.cd.redis.parse_serialize])

theorem next_meets (lang : Lang)
    (hw : opt.duplicateFromRedis = true → ∀ o st', Γ.guard.op c o st' → KeysWhole o)
    (h₀ : log₀ <+: st.2.log) (hi : Γ.Inv st) (hcur : Γ.KnownAt cur st) :
    Γ.Meets n c (fun r st' => Γ.GotItem log₀ cur.id r st' ∧ (r = none → cur.nextID = ""))
      (fun _ _ => False) (next lang Γ.cfg opt Γ.cd cur) st := by
  refine nextOrElse_meets hi ?_ (fun _ _ h => ⟨h, fun hn => absurd hn (Option.some_ne_none _)⟩)
    (fun _ => nextFromEtcd_meets)
  refine nextIfCached_meets h₀ hcur fun hdup => ?_
  have h := nextCached_meets (n := n) h₀ hi hcur
    (fun id st => fromRedis_meets lang (hw hdup) id st)
  by_cases hn : cur.nextID = ""
  · rw [if_pos hn]
    rwa [if_neg (not_not_intro hn)] at h
  · rw [if_neg hn]
    rwa [if_pos hn] at h

omit [Inhabited T] in
theorem fromRedis_reads (lang : Lang) (cfg : Config) (cd : Codecs T) (id : String) :
    (fromRedis lang cfg cd id).Only Op.Reads := by
  refine ⟨trivial, fun r => ?_⟩
  cases r with
  | none => trivial
  | some reply =>
      simp only [Prog.ret_bind]
      cases cd.redis.parse reply with
      | none => cases lang <;> trivial
      | some parsed => trivial

omit [Inhabited T] in
theorem itemOfMapData_reads (cd : Codecs T) (id : String) (kvs : List KV) :
    (itemOfMapData cd id kvs).Only Op.Reads := by
  unfold itemOfMapData
  split
  · trivial
  · split <;> trivial

omit [Inhabited T] in
theorem itemFromEtcd_reads (cfg : Config) (cd : Codecs T) (id : String) :
    (itemFromEtcd cfg cd id).Only Op.Reads := by
  unfold itemFromEtcd
  rw [Prog.bind_eq, commit_bind]
  refine ⟨⟨readTxn_reads id, rfl⟩, fun r => ?_⟩
  cases r with
  | none => trivial
  | some resp =>
      dsimp only
      split
      · split
        · split
          · split
            · split <;> trivial
            · trivial
          · trivial
        · exact (itemOfMapData_reads cd id _).bind (fun _ => trivial)
      · trivial

omit [Inhabited T] in
theorem nextIDFromEtcd_reads (cfg : Config) (cd : Codecs T) (cur : ChainItem T) :
    (nextIDFromEtcd cfg cd cur).Only Op.Reads := by
  unfold nextIDFromEtcd
  split
  · refine ⟨trivial, fun kvs => ?_⟩
    cases kvs with
    | nil => trivial
    | cons kv rest =>
        simp only [Prog.ret_bind]
        split
        · trivial
        · split
          · trivial
          · split <;> trivial
  · trivial

omit [Inhabited T] in
/-- `next` only reads. -/
theorem next_reads (lang : Lang) (cfg : Config) (opt : Options) (cd : Codecs T)
    (cur : ChainItem T) : (next lang cfg opt cd cur).Only Op.Reads := by
  refine Prog.Only.bind ?_ (fun r => ?_)
  · unfold nextFromRedis
    split
    · split
      · refine (fromRedis_reads lang cfg cd _).bind (fun r => ?_)
        cases r with
        | none => trivial
        | some parsed =>
            dsimp only
            split
            · exact fromRedis_reads lang cfg cd _
            · trivial
      · exact fromRedis_reads lang cfg cd _
    · trivial
  · cases r with
    | some item => trivial
    | none =>
        refine (nextIDFromEtcd_reads cfg cd cur).bind (fun nextID => ?_)
        split
        · trivial
        · split
          · exact itemFromEtcd_reads cfg cd _
          · refine ⟨trivial, fun kvs => ?_⟩
            exact (itemOfMapData_reads cd nextID kvs).bind (fun _ => trivial)

theorem tryLoadUntil_meets (lang : Lang)
    (hw : opt.duplicateFromRedis = true → ∀ o st', Γ.guard.op c o st' → KeysWhole o)
    (hl : (∀ o st', Γ.guard.op c o st' → LoadsItem Γ.cfg id st'.2.log) ∨
      id ∈ (appended log₀).map Prod.fst)
    (h₀ : log₀ <+: st.2.log) (hi : Γ.Inv st) :
    Γ.Meets n c (fun r st' => Found Γ log₀ id r st')
      (fun _ _ => id ∉ (appended log₀).map Prod.fst)
      (tryLoadUntil lang Γ.cfg opt Γ.cd id) st := by
  unfold tryLoadUntil
  by_cases hdup : opt.duplicateFromRedis = true
  · rw [if_pos hdup]
    have hF : ∀ (m : Nat) (s s' : State × Ghost T), Moves m s.1.etcd s.2 s'.1.etcd s'.2 →
        log₀ <+: s.2.log → log₀ <+: s'.2.log := fun m s s' hr h => h.trans hr.extends
    refine Safe.bind (((fromRedis_meets lang (hw hdup) id st).frame h₀ hF).mono
      (fun _ _ _ h => h) (fun _ _ _ h => h.1.elim)) ?_ hi
    rintro r st' _ ⟨hc, hs⟩
    cases r with
    | none => exact itemFromEtcd_meets hs hl
    | some it =>
        exact Safe.ret (Found.of_got ⟨(hc it rfl).id, (hc it rfl).got hs⟩)
          (fun _ _ hr _ h => h.stable hr)
  · rw [if_neg hdup]
    exact itemFromEtcd_meets h₀ hl

/-- `start` makes the head empty, which is a head's record in separate storage mode only. -/
theorem start_meets (lang : Lang) {defaultData : T} (hH : Γ.H defaultData)
    (hw : opt.duplicateFromRedis = true → ∀ o st', Γ.guard.op c o st' → KeysWhole o)
    (hv : ∀ st', Γ.guard.op c (.txn (headTxn Γ.cfg "")) st' →
      Γ.cfg.saveDataOnSeparateStorage = true ∨ st'.1.etcd.kvs Γ.cfg.headKeyStr ≠ none)
    (h₀ : log₀ <+: st.2.log) (hi : Γ.Inv st) :
    Γ.Meets n c (fun it st' => it.id = Γ.cfg.headKey ∧ Γ.Got log₀ it st') (fun _ _ => False)
      (start lang Γ.cfg opt Γ.cd defaultData) st := by
  have hstart : ∀ st : State × Ghost T, log₀ <+: st.2.log →
      Γ.Meets n c (fun it st' => it.id = Γ.cfg.headKey ∧ Γ.Got log₀ it st') (fun _ _ => False)
        (startFromEtcd Γ.cfg Γ.cd defaultData) st := by
    intro st hs₀
    unfold startFromEtcd
    rw [Prog.bind_eq, commit_bind]
    refine meets_head hs₀ (fun st' hg => (hv st' hg).imp_left
      (fun hsep => ⟨defaultData, hH, (linkVal_separate hsep _ _).symm⟩)) ?_
    intro st' kv d next resp hs hi' hkv hval hd hf hresp
    rcases hresp with rfl | ⟨rev, hnil, rfl⟩
    · simp only [if_true, List.getElem?_cons_zero, responseRange, headItem, Bool.not_true,
        Bool.false_eq_true, if_false]
      by_cases hsep : Γ.cfg.saveDataOnSeparateStorage = true
      · rw [if_pos hsep]
        have hv : kv.value = next := by rw [hval, linkVal_separate hsep]
        refine Safe.ret ⟨rfl, ?_⟩ (fun _ _ hr _ h => ⟨h.1, h.2.stable hr⟩)
        exact Setting.got_head (d := d) hs hi' hkv (by rw [linkVal_separate hsep])
          (hv ▸ hf) rfl rfl rfl hH
      · have hsep' : Γ.cfg.saveDataOnSeparateStorage = false := by simpa using hsep
        rw [if_neg hsep, hval, linkVal_inline hsep', if_neg (Γ.cd.mapData_ne _),
          Γ.cd.mapData.parse_serialize]
        refine Safe.ret ⟨rfl, ?_⟩ (fun _ _ hr _ h => ⟨h.1, h.2.stable hr⟩)
        exact Setting.got_head (d := d) hs hi' hkv hval hf rfl rfl rfl hH
    · subst hnil
      simp only [Bool.false_eq_true, if_false, List.getElem?_cons_succ, List.getElem?_cons_zero,
        responseRange, headItem, Bool.not_false, if_true]
      refine Safe.ret ⟨rfl, ?_⟩ (fun _ _ hr _ h => ⟨h.1, h.2.stable hr⟩)
      exact Setting.got_head (d := d) hs hi' hkv hval hf rfl rfl rfl hH
  unfold start
  by_cases hdup : opt.duplicateFromRedis = true
  · rw [if_pos hdup]
    exact orElse_meets h₀ hi (fromRedis_meets lang (hw hdup) _ st) hstart
  · rw [if_neg hdup]
    exact hstart st h₀

end Reads

end EtcdChain.Script
