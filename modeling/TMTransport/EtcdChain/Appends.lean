import TMTransport.EtcdChain.ScriptReads
import TMTransport.EtcdChain.DotNetReads
import Mathlib.Data.List.Perm.Basic

/-!
# What an append does

Every append, of whichever client, is one transaction that tests that nothing
follows its tail and that the new keys are unused, and then puts the records of
the new items and repoints the tail. `Appends` says so of a transaction;
`meets_append` is the consequence. What comes after the transaction only writes
the cache.
-/

namespace EtcdChain

open Etcd Interleave LinkedStore

variable {T : Type}

/-- The transaction `t` appends `b :: m` after `cur`, whose data is `d`. -/
structure Appends (cfg : Config) (cd : Codecs T) (cur : ChainItem T) (d : T) (b : String × T)
    (m : List (String × T)) (t : TxnRequest) : Prop where
  puts : t.success.Perm (puts ((cfg.chainKey cur.id, (layout cfg cd).linkVal d b.1) ::
    (layout cfg cd).batch b m))
  free : ∀ s : Store, t.passes s = true → ∀ r ∈ (layout cfg cd).batch b m, s.kvs r.1 = none
  tail : ∀ s : Store, t.passes s = true →
    (cfg.saveDataOnSeparateStorage = true ∧ s.value (cfg.chainKey cur.id) = some "") ∨
    (s.kvs (cfg.chainKey cur.id)).elim 0 KV.modRevision = cur.revision

theorem Appends.all_puts {cfg : Config} {cd : Codecs T} {cur : ChainItem T} {d : T}
    {b : String × T} {m : List (String × T)} {t : TxnRequest} (h : Appends cfg cd cur d b m t) :
    ∀ op ∈ t.success, ∃ k v, op = .requestPut k v := by
  intro op hop
  obtain ⟨w, -, rfl⟩ := List.mem_map.mp (h.puts.mem_iff.mp hop)
  exact ⟨_, _, rfl⟩

/-- Call number `n` has changed nothing. -/
structure Idle (n : Nat) (st : State × Ghost T) : Prop where
  log : ∀ e ∈ st.2.log, e.call ≠ n
  touched : ¬ st.2.touched n

/-- Call number `n`, the call `c`, has appended `l` after the item `id`. -/
def Appended (n : Nat) (c : Req T) (id : String) (l : List (String × T))
    (st : State × Ghost T) : Prop :=
  ∃ e ∈ st.2.log, e.call = n ∧ e.chain = c.chain ∧ e.tail = id ∧ e.items = l

theorem Idle.stable {n : Nat} {st st' : State × Ghost T} (h : Idle n st)
    (hm : Moves n st.1.etcd st.2 st'.1.etcd st'.2) : Idle n st' := by
  obtain ⟨ext, he, hn⟩ := hm.log
  refine ⟨fun e hmem => ?_, fun ht => h.touched (hm.touched.mp ht)⟩
  rw [he] at hmem
  exact (List.mem_append.mp hmem).elim (h.log e) (hn e)

theorem Appended.stable {n m : Nat} {c : Req T} {id : String} {l : List (String × T)}
    {st st' : State × Ghost T} (h : Appended n c id l st)
    (hm : Moves m st.1.etcd st.2 st'.1.etcd st'.2) : Appended n c id l st' := by
  obtain ⟨e, he, h'⟩ := h
  exact ⟨e, hm.extends.subset he, h'⟩

section Txn

variable [Inhabited T] {Γ : Setting T} {n : Nat} {c : Req T} {β : Type}
  {Q : β → State × Ghost T → Prop} {E : String → State × Ghost T → Prop} {st : State × Ghost T}
  {cur : ChainItem T} {d : T} {b : String × T} {m : List (String × T)} {t : TxnRequest}

/-- **An append** either commits all its items right after its tail, or changes nothing. -/
theorem meets_append {k : Option TxnResponse → Call β} (hc : c.appends = some (cur, b :: m))
    (hf : t.failure = [])
    (ha : ∀ st' resp, Γ.guard.op c (.txn t) st' → (st'.1.etcd.txn t).1 = some resp →
      resp.succeeded = true → Appends Γ.cfg Γ.cd cur d b m t ∧ ∀ x ∈ b :: m, x.1 ≠ "")
    (hcur : Γ.KnownAt cur st) (hd : cur.data = some d) (hnext : cur.nextID = "")
    (hidle : Idle n st)
    (hcommit : ∀ st', Γ.Inv st' → Appended n c cur.id (b :: m) st' → Γ.KnownAt cur st' →
      (∃ pre, ids Γ.cfg st'.2.log = pre ++ (b :: m).map Prod.fst) → Γ.Meets n c Q E (k (some ⟨true,
        List.replicate t.success.length (.responsePut st'.1.etcd.revision)⟩)) st')
    (hfail : ∀ st' r, Γ.Inv st' → Idle n st' → Γ.KnownAt cur st' →
      (r = none ∨ ∃ resp, r = some resp ∧ resp.succeeded = false) → Γ.Meets n c Q E (k r) st') :
    Γ.Meets n c Q E (.act (.txn t) k) st := by
  refine meets_txn (fun st' hm hi hg => ?_)
  have hcur' := hcur.stable hm
  have hidle' := hidle.stable hm
  by_cases hok : ∃ resp, (st'.1.etcd.txn t).1 = some resp ∧ resp.succeeded = true
  · -- the transaction goes through
    obtain ⟨resp, hresp, hsucc⟩ := hok
    obtain ⟨ha, hnamed⟩ := ha st' resp hg hresp hsucc
    obtain ⟨hacc, hacf⟩ := txn_accepted hresp
    have htxn := txn_of_acceptable (s := st'.1.etcd) hacc hacf
    have hpass : t.passes st'.1.etcd = true := by
      rw [htxn] at hresp
      rw [← hsucc, ← Option.some.inj hresp]
    have hbr := branch_of_passes hpass
    have hputs : putKeys t.success ≠ [] := by
      intro hnil
      have := (putKeys_perm ha.puts).length_eq
      rw [hnil, putKeys_puts] at this
      simp at this
    have hrev : (st'.1.txn Γ.cfg t).2.etcd.revision = st'.1.etcd.revision + 1 := by
      show (st'.1.etcd.txn t).2.revision = _
      rw [htxn, hbr]
      exact if_neg hputs
    have hresp' : resp = ⟨true,
        List.replicate t.success.length (.responsePut (st'.1.etcd.revision + 1))⟩ := by
      rw [htxn, hbr, hpass, applyOps_puts ha.all_puts] at hresp
      exact (Option.some.inj hresp).symm
    have hlog : logOf n c (.txn t) (st'.1.txn Γ.cfg t).1 (st'.1.txn Γ.cfg t).2 =
        [⟨n, c.chain, cur.id, b :: m, (st'.1.txn Γ.cfg t).2.etcd.revision⟩] := by
      show logOf n c (.txn t) (st'.1.etcd.txn t).1 _ = _
      rw [hresp]
      simp [logOf, hc, hsucc, hputs]
    obtain ⟨kv, d', next, h1, h2, h3, h4⟩ := link_record hi.1 hcur'.on hcur'.there
    have hlast : next = "" := by
      rcases ha.tail _ hpass with ⟨hsep, hv⟩ | hrev'
      · rw [Store.value, h1, Option.map_some, h2, linkVal_separate hsep] at hv
        exact Option.some.inj hv
      · rw [h1] at hrev'
        have := hcur'.unchanged hnext kv h1 hrev'
        rw [h2, nextOf_linkVal] at this
        exact Option.some.inj this
    obtain ⟨d'', hd'', hdata⟩ := hcur'.data
    obtain rfl : d = d'' := Option.some.inj (hd.symm.trans hd'')
    refine ⟨?_, fun hi' => ?_⟩
    · simp only [note, hlog]
      exact commit_append
        (e := ⟨n, c.chain, cur.id, b :: m, (st'.1.txn Γ.cfg t).2.etcd.revision⟩)
        hi.1 rfl hnamed (h4.last hlast) hdata hcur'.there hpass hacc hacf ha.puts
        (ha.free _ hpass) hidle'.log
    · rw [hresp, hresp', ← hrev]
      refine hcommit _ hi'
        ⟨⟨n, c.chain, cur.id, b :: m, (st'.1.txn Γ.cfg t).2.etcd.revision⟩, ?_, rfl, rfl, rfl,
          rfl⟩ ?_ ⟨ids Γ.cfg st'.2.log, ?_⟩
      · simp only [note, hlog]
        exact List.mem_append_right _ (List.mem_singleton_self _)
      · exact hcur'.stable (moves_txn Γ.cfg (Nat.succ_ne_self n) st'.1 st'.2 t)
      · simp only [note, hlog, ids_append]
        simp [appended]
  · -- it is rejected, or its compares fail; either way nothing is put
    have hr : (st'.1.etcd.txn t).1 = none ∨
        ∃ resp, (st'.1.etcd.txn t).1 = some resp ∧ resp.succeeded = false := by
      cases h : (st'.1.etcd.txn t).1 with
      | none => exact Or.inl rfl
      | some resp => exact Or.inr ⟨resp, rfl, by simpa using fun hs => hok ⟨resp, h, hs⟩⟩
    have hsame : (st'.1.etcd.txn t).2 = st'.1.etcd := by
      by_cases hacc : Acceptable t.success ∧ Acceptable t.failure
      · refine txn_readOnly ?_
        rw [branch_of_not_passes, hf]
        · rfl
        · intro hp
          exact hok ⟨_, congrArg Prod.fst (txn_of_acceptable hacc.1 hacc.2), hp⟩
      · unfold Store.txn
        rw [if_neg hacc]
    have hlog : logOf n c (.txn t) (st'.1.txn Γ.cfg t).1 (st'.1.txn Γ.cfg t).2 = [] := by
      show logOf n c (.txn t) (st'.1.etcd.txn t).1 _ = _
      rcases hr with h | ⟨resp, h, hs⟩
      · rw [h]; rfl
      · rw [h]; simp [logOf, hc, hs]
    have hst : (st'.1.txn Γ.cfg t).2.etcd = st'.1.etcd := hsame
    refine ⟨by simp only [note, hlog, List.append_nil, hst]; exact hi.1, fun hi' => ?_⟩
    refine hfail _ _ hi' ⟨?_, ?_⟩ ?_ hr
    · simp only [note, hlog, List.append_nil]
      exact hidle'.log
    · simp only [note, hst]
      simpa using hidle'.touched
    · exact hcur'.stable (moves_txn Γ.cfg (Nat.succ_ne_self n) st'.1 st'.2 t)

end Txn

/-! ## The transactions of the clients -/

section Transactions

variable [Inhabited T] {cfg : Config} {cd : Codecs T} {cur : ChainItem T} {d : T}

omit [Inhabited T] in
theorem batch_single (b : String × T) :
    (layout cfg cd).batch b [] =
      (cfg.chainKey b.1, (layout cfg cd).linkVal b.2 "") :: (layout cfg cd).extra b.1 b.2 := by
  simp [Layout.batch, Layout.linksTo, Layout.extras]

omit [Inhabited T] in
theorem extra_separate (h : cfg.saveDataOnSeparateStorage = true) (id : String) (d : T) :
    (layout cfg cd).extra id d = [(cfg.dataKey id, cd.data.serialize d)] := by
  simp [layout, h]

omit [Inhabited T] in
theorem extra_inline (h : cfg.saveDataOnSeparateStorage = false) (id : String) (d : T) :
    (layout cfg cd).extra id d = [] := by
  simp [layout, h]

omit [Inhabited T] in
/-- One item appended, with its data under a key of its own. -/
theorem Appends.single_separate (hsep : cfg.saveDataOnSeparateStorage = true) {id : String}
    {nd : T} {t : TxnRequest} {link : Compare}
    (hcompare : t.compare = [link, ⟨.equal, .version 0, cfg.dataKey id⟩,
      ⟨.equal, .version 0, cfg.chainKey id⟩])
    (hsuccess : t.success = [.requestPut (cfg.chainKey cur.id) id,
      .requestPut (cfg.dataKey id) (cd.data.serialize nd), .requestPut (cfg.chainKey id) ""])
    (hlink : ∀ s : Store, link.holds s = true →
      s.value (cfg.chainKey cur.id) = some "" ∨
        (s.kvs (cfg.chainKey cur.id)).elim 0 KV.modRevision = cur.revision) :
    Appends cfg cd cur d (id, nd) [] t := by
  refine ⟨?_, fun s hs => ?_, fun s hs => ?_⟩
  · rw [batch_single, extra_separate hsep, linkVal_separate hsep, linkVal_separate hsep, hsuccess]
    exact (List.Perm.swap _ _ _).cons _
  · rw [batch_single, extra_separate hsep]
    simp only [TxnRequest.passes, hcompare, List.all_cons, holds_version_zero, List.all_nil,
      Bool.and_eq_true, Option.isNone_iff_eq_none] at hs
    simpa using ⟨hs.2.2.1, hs.2.1⟩
  · simp only [TxnRequest.passes, hcompare, List.all_cons, Bool.and_eq_true] at hs
    exact (hlink s hs.1).imp_left fun h => ⟨hsep, h⟩

omit [Inhabited T] in
/-- One item appended, with its data in its link record. -/
theorem Appends.single_inline (hsep : ¬ cfg.saveDataOnSeparateStorage = true) {id : String}
    {nd : T} {t : TxnRequest}
    (hcompare : t.compare = [⟨.equal, .modRevision cur.revision, cfg.chainKey cur.id⟩,
      ⟨.equal, .version 0, cfg.chainKey id⟩])
    (hsuccess : t.success = [.requestPut (cfg.chainKey cur.id) (cd.mapData.serialize ⟨d, id⟩),
      .requestPut (cfg.chainKey id) (cd.mapData.serialize ⟨nd, ""⟩)]) :
    Appends cfg cd cur d (id, nd) [] t := by
  have hsep : cfg.saveDataOnSeparateStorage = false := by simpa using hsep
  refine ⟨?_, fun s hs => ?_, fun s hs => Or.inr ?_⟩
  · rw [batch_single, extra_inline hsep, linkVal_inline hsep, linkVal_inline hsep, hsuccess]
    exact List.Perm.refl _
  · rw [batch_single, extra_inline hsep]
    simp only [TxnRequest.passes, hcompare, List.all_cons, holds_version_zero, List.all_nil,
      Bool.and_eq_true, Option.isNone_iff_eq_none] at hs
    simpa using hs.2.1
  · simp only [TxnRequest.passes, hcompare, List.all_cons, Bool.and_eq_true,
      holds_modRevision_iff] at hs
    exact hs.1

variable (cfg cd) in
theorem appendTxn_appends (hd : cur.data = some d) (id : String) (nd : T) :
    Appends cfg cd cur d (id, nd) [] (appendTxn cfg cd cur (formChainItem id nd)) := by
  unfold appendTxn
  rw [hd]
  by_cases hsep : cfg.saveDataOnSeparateStorage = true
  · rw [if_pos hsep]
    exact .single_separate hsep rfl rfl fun s hs => .inl ((holds_value_iff s _ _).mp hs)
  · rw [if_neg hsep]
    exact .single_inline hsep rfl rfl

variable (cfg cd) in
theorem Script.appendTxn_appends (hd : cur.data = some d) (id : String) (nd : T) :
    Appends cfg cd cur d (id, nd) [] (Script.appendTxn cfg cd cur id nd) := by
  unfold Script.appendTxn
  rw [hd]
  by_cases hsep : cfg.saveDataOnSeparateStorage = true
  · rw [if_pos hsep]
    exact .single_separate hsep rfl rfl fun s hs => .inr ((holds_modRevision_iff s _ _).mp hs)
  · rw [if_neg hsep]
    exact .single_inline hsep rfl rfl

variable (cd) in
omit [Inhabited T] in
/-- The link records of a batch are those of the items that `formChainItems` makes. -/
theorem formChainItems_links (hsep : cfg.saveDataOnSeparateStorage = true) (b : String × T)
    (m : List (String × T)) :
    (layout cfg cd).linksTo b m "" =
      (formChainItems (b :: m)).map (fun x => (cfg.chainKey x.id, x.nextID)) := by
  induction m generalizing b with
  | nil => simp [Layout.linksTo, formChainItems, formChainItem, linkVal_separate hsep]
  | cons a m ih =>
      rw [Layout.linksTo, ih, formChainItems]
      simp [formChainItem, linkVal_separate hsep]

theorem formChainItems_extras (hsep : cfg.saveDataOnSeparateStorage = true)
    (l : List (String × T)) :
    (layout cfg cd).extras l = (formChainItems l).map
      (fun x => (cfg.dataKey x.id, cd.data.serialize (x.data.getD default))) := by
  induction l with
  | nil => rfl
  | cons b m ih =>
      cases m with
      | nil => simp [Layout.extras, extra_separate hsep, formChainItems, formChainItem]
      | cons a m =>
          rw [formChainItems, List.map_cons, ← ih]
          simp [Layout.extras, extra_separate hsep, formChainItem]

theorem appendBatchTxn_appends (hsep : cfg.saveDataOnSeparateStorage = true) (b : String × T)
    (m : List (String × T)) :
    Appends cfg cd cur d b m (appendBatchTxn cfg cd cur (formChainItems (b :: m))) := by
  have hfirst : ((formChainItems (b :: m)).head?.map ChainItem.id).getD "" = b.1 := by
    cases m <;> rfl
  have hbatch : (layout cfg cd).batch b m =
      (formChainItems (b :: m)).map (fun x => (cfg.chainKey x.id, x.nextID)) ++
      (formChainItems (b :: m)).map
        (fun x => (cfg.dataKey x.id, cd.data.serialize (x.data.getD default))) := by
    rw [← formChainItems_links cd hsep, ← formChainItems_extras hsep]
    rfl
  refine ⟨?_, fun s hs => ?_, fun s hs => Or.inl ⟨hsep, ?_⟩⟩
  · rw [hbatch, linkVal_separate hsep]
    simp only [appendBatchTxn, if_pos hsep, hfirst, puts, List.map_cons, List.map_append,
      List.map_map]
    refine List.Perm.cons _ ?_
    refine (List.map_append_flatMap_perm _ _ _).symm.trans (List.perm_append_comm.trans ?_)
    rw [← List.map_eq_flatMap]
    exact List.Perm.refl _
  · rw [hbatch]
    simp only [TxnRequest.passes, appendBatchTxn, if_pos hsep, List.all_cons, Bool.and_eq_true,
      List.all_flatMap, List.all_eq_true] at hs
    intro r hr
    rcases List.mem_append.mp hr with hr | hr
    · obtain ⟨x, hx, rfl⟩ := List.mem_map.mp hr
      simpa using (hs.2 x hx).2.1
    · obtain ⟨x, hx, rfl⟩ := List.mem_map.mp hr
      simpa using (hs.2 x hx).1
  · simp only [TxnRequest.passes, appendBatchTxn, if_pos hsep, List.all_cons, Bool.and_eq_true,
      holds_value_iff] at hs
    exact hs.1

omit [Inhabited T] in
theorem Appends.putKeys_ne {b : String × T} {m : List (String × T)} {t : TxnRequest}
    (h : Appends cfg cd cur d b m t) : putKeys t.success ≠ [] := by
  intro hnil
  have := (putKeys_perm h.puts).length_eq
  rw [hnil, putKeys_puts] at this
  simp at this

omit [Inhabited T] in
theorem formChainItems_ids (l : List (String × T)) :
    (formChainItems l).map ChainItem.id = l.map Prod.fst := by
  induction l with
  | nil => rfl
  | cons b m ih =>
      cases m with
      | nil => rfl
      | cons a m => rw [formChainItems, List.map_cons, ih]; rfl

omit [Inhabited T] in
theorem formChainItems_data {l : List (String × T)} {x : ChainItem T}
    (h : x ∈ formChainItems l) : ∃ d, x.data = some d ∧ (x.id, d) ∈ l := by
  induction l with
  | nil => simp [formChainItems] at h
  | cons b m ih =>
      cases m with
      | nil =>
          obtain rfl := List.mem_singleton.mp h
          exact ⟨b.2, rfl, by simp [formChainItem]⟩
      | cons a m =>
          rcases List.mem_cons.mp h with rfl | h
          · exact ⟨b.2, rfl, by simp [formChainItem]⟩
          · obtain ⟨d, h1, h2⟩ := ih h
            exact ⟨d, h1, List.mem_cons_of_mem _ h2⟩

end Transactions

/-! ## Copying to the cache -/

section Duplicate

/-- The item `id`, of data `d`, may be put in the cache as followed by `next`. -/
structure Setting.Cacheable (Γ : Setting T) (id : String) (d : T) (next : String) (rev : Nat)
    (st : State × Ghost T) : Prop where
  adjacent : [id, next] <:+: ids Γ.cfg st.2.log
  next : next ≠ ""
  rev : rev ≤ st.1.etcd.revision
  there : st.1.etcd.kvs (Γ.cfg.chainKey id) ≠ none
  data : DataOf Γ.cfg Γ.H st.2.log id d

variable {Γ : Setting T} {opt : Options} {n : Nat} {c : Req T} {st st' : State × Ghost T}
  {id next : String} {d : T} {rev : Nat}

theorem Setting.Cacheable.stable (h : Γ.Cacheable id d next rev st)
    (hm : Moves n st.1.etcd st.2 st'.1.etcd st'.2) : Γ.Cacheable id d next rev st' :=
  ⟨h.adjacent.trans (ids_extend hm.extends).isInfix, h.next, Nat.le_trans h.rev hm.rev,
    hm.bound h.there, h.data.mono hm.extends⟩

/-- Ids next to each other on the chain may be put in the cache. -/
theorem Setting.cacheable_of_adjacent (hi : Γ.Inv st) (h : [id, next] <:+: ids Γ.cfg st.2.log)
    (hth : st.1.etcd.kvs (Γ.cfg.chainKey id) ≠ none) (hd : DataOf Γ.cfg Γ.H st.2.log id d)
    (hrev : rev ≤ st.1.etcd.revision) : Γ.Cacheable id d next rev st := by
  refine ⟨h, ?_, hrev, hth, hd⟩
  obtain ⟨hd', -, hh⟩ := holds_of_there hi.1 (h.subset (by simp)) hth
  obtain ⟨x, hx, rfl⟩ := List.mem_map.mp (mem_of_adjacent hi.1.ids_nodup h).1
  exact hh.named x hx

variable [Inhabited T]

/-- Each item of `xs` may be put in the cache as followed by the one after it. -/
def Setting.PairsCacheable (Γ : Setting T) (rev : Nat) (xs : List (ChainItem T))
    (st : State × Ghost T) : Prop :=
  ∀ p x y q, xs = p ++ x :: y :: q → Γ.Cacheable x.id (x.data.getD default) y.id rev st

theorem Setting.PairsCacheable.stable {xs : List (ChainItem T)}
    (h : Γ.PairsCacheable rev xs st) (hm : Moves n st.1.etcd st.2 st'.1.etcd st'.2) :
    Γ.PairsCacheable rev xs st' :=
  fun p x y q he => (h p x y q he).stable hm

theorem duplicateToRedisAs_meets {arg : KeyArg} {F : State × Ghost T → Prop}
    (hw : ∀ o st', Γ.guard.op c o st' → KeysWhole o) (h : Γ.Cacheable id d next rev st) (hF : F st)
    (hst : ∀ (m : Nat) (s s' : State × Ghost T), Moves m s.1.etcd s.2 s'.1.etcd s'.2 → F s → F s') :
    Γ.Meets n c (fun _ st' => F st') (fun _ _ => False)
      (duplicateToRedisAs arg Γ.cfg opt Γ.cd rev id d next) st := by
  refine meets_aside (fun _ => rfl) (fun _ _ => rfl) (fun st' hm hi hg => ?_)
  have h' := h.stable hm
  have hkey : arg.seen (Γ.cfg.chainKey id) = Γ.cfg.chainKey id :=
    hw _ st' hg arg _ (Or.inr ⟨_, _, rfl⟩)
  refine ⟨?_, fun st'' hr _ => hst n _ _ hr (hst n _ _ hm hF)⟩
  intro key v hv
  have hv' : Function.update st'.1.redis (arg.seen (Γ.cfg.chainKey id))
      (some (Γ.cd.redis.serialize ⟨rev, d, next⟩)) key = some v := hv
  rw [hkey] at hv'
  by_cases hk : key = Γ.cfg.chainKey id
  · rw [hk, Function.update_self] at hv'
    exact ⟨id, d, next, rev, hk, (Option.some.inj hv').symm, h'.adjacent, h'.next, h'.rev,
      h'.there, h'.data⟩
  · rw [Function.update_of_ne hk] at hv'
    exact hi.2 key v hv'

theorem duplicateBatch_meets {xs : List (ChainItem T)} {F : State × Ghost T → Prop}
    (hw : ∀ o st', Γ.guard.op c o st' → KeysWhole o) (hi : Γ.Inv st)
    (h : Γ.PairsCacheable rev xs st) (hF : F st)
    (hst : ∀ (m : Nat) (s s' : State × Ghost T), Moves m s.1.etcd s.2 s'.1.etcd s'.2 → F s → F s') :
    Γ.Meets n c (fun _ st' => F st') (fun _ _ => False)
      (duplicateBatch Γ.cfg opt Γ.cd rev xs) st := by
  induction xs generalizing st with
  | nil => exact Safe.ret hF (fun s s' hr _ h => hst n s s' hr h)
  | cons x xs ih =>
      cases xs with
      | nil => exact Safe.ret hF (fun s s' hr _ h => hst n s s' hr h)
      | cons y l =>
          refine Safe.bind (duplicateToRedisAs_meets
            (F := fun s => F s ∧ Γ.PairsCacheable rev (y :: l) s) hw (h [] x y l rfl)
            ⟨hF, fun p x' y' q he => h (x :: p) x' y' q (congrArg (List.cons x) he)⟩
            (fun m s s' hr hs => ⟨hst m s s' hr hs.1, hs.2.stable hr⟩)) ?_ hi
          rintro _ st' hi' ⟨hF', h'⟩
          exact ih hi' h' hF'

/-- What follows the transaction of a C++ append leaves everything but the cache as it is. -/
theorem afterAppend_meets {cur : ChainItem T} {b : String × T} {m : List (String × T)}
    {F : State × Ghost T → Prop} (chain : Nat)
    (hw : opt.automaticallyDuplicateToRedis = true → ∀ o st', Γ.guard.op c o st' → KeysWhole o)
    (hi : Γ.Inv st) (happ : Appended n c cur.id (b :: m) st) (hcur : Γ.KnownAt cur st)
    (hrev : rev ≤ st.1.etcd.revision) (hF : F st)
    (hst : ∀ (m : Nat) (s s' : State × Ghost T), Moves m s.1.etcd s.2 s'.1.etcd s'.2 → F s → F s') :
    Γ.Meets n c (fun _ st' => F st') (fun _ _ => False)
      (afterAppend Γ.cfg opt Γ.cd chain rev cur (formChainItems (b :: m))) st := by
  have hdup : ∀ st : State × Ghost T, Γ.Inv st → Appended n c cur.id (b :: m) st →
      Γ.KnownAt cur st → rev ≤ st.1.etcd.revision → F st →
      Γ.Meets n c (fun _ st' => F st') (fun _ _ => False)
        (if opt.automaticallyDuplicateToRedis then do
          duplicateToRedis Γ.cfg opt Γ.cd rev cur.id (cur.data.getD default)
            (((formChainItems (b :: m)).head?.map ChainItem.id).getD "")
          duplicateBatch Γ.cfg opt Γ.cd rev (formChainItems (b :: m))
        else pure ()) st := by
    intro st hi happ hcur hrev hF
    by_cases hauto : opt.automaticallyDuplicateToRedis = true
    · rw [if_pos hauto]
      obtain ⟨e, he, -, -, htail, hitems⟩ := happ
      have hplaced := hi.1.placed e he
      rw [hitems, htail] at hplaced
      have hfirst : ((formChainItems (b :: m)).head?.map ChainItem.id).getD "" = b.1 := by
        cases m <;> rfl
      have hsub : ∀ x ∈ b :: m, x ∈ appended st.2.log := fun x hx =>
        List.mem_flatMap.mpr ⟨e, he, hitems ▸ hx⟩
      obtain ⟨d, hd, hdata⟩ := hcur.data
      have hcache : Γ.Cacheable cur.id d b.1 rev st := by
        refine Setting.cacheable_of_adjacent hi ?_ hcur.there hdata hrev
        exact (List.IsPrefix.isInfix ⟨m.map Prod.fst, by simp⟩).trans hplaced
      have hrest : Γ.PairsCacheable rev (formChainItems (b :: m)) st := by
        intro p x y q hpq
        obtain ⟨d', h1, h2⟩ := formChainItems_data (l := b :: m) (x := x) (by rw [hpq]; simp)
        have hx := hsub _ h2
        have hne : x.id ≠ Γ.cfg.headKey := fun h =>
          (List.nodup_cons.mp hi.1.ids_nodup).1 (h ▸ List.mem_map.mpr ⟨_, hx, rfl⟩)
        rw [h1]
        refine Setting.cacheable_of_adjacent hi ?_
          (there_of_appended hi.1 (List.mem_map.mpr ⟨_, hx, rfl⟩)) (Or.inr ⟨hne, hx⟩) hrev
        have hids := formChainItems_ids (b :: m)
        rw [hpq] at hids
        refine List.IsInfix.trans ?_ hplaced
        rw [← hids]
        exact ⟨cur.id :: p.map ChainItem.id, q.map ChainItem.id, by simp⟩
      rw [hfirst, hd]
      refine Safe.bind (duplicateToRedisAs_meets
        (F := fun s => F s ∧ Γ.PairsCacheable rev (formChainItems (b :: m)) s) (hw hauto) hcache
        ⟨hF, hrest⟩ (fun m' s s' hr hs => ⟨hst m' s s' hr hs.1, hs.2.stable hr⟩)) ?_ hi
      rintro _ st' hi' ⟨hF', h'⟩
      exact duplicateBatch_meets (hw hauto) hi' h' hF' hst
    · rw [if_neg hauto]
      exact Safe.ret hF (fun s s' hr _ h => hst n s s' hr h)
  unfold afterAppend
  by_cases hwatch : opt.useWatchThread = true
  · simp only [hwatch, if_true]
    refine meets_aside (fun _ => rfl) (fun _ _ => rfl) (fun st' hm hi' _ => ⟨hi'.2, ?_⟩)
    exact hdup _ ⟨hi'.1, hi'.2⟩ (happ.stable hm) (hcur.stable hm) (Nat.le_trans hrev hm.rev)
      (hst n _ _ hm hF)
  · simp only [hwatch]
    exact hdup st hi happ hcur hrev hF

end Duplicate

/-! ## The appends -/

/--
What goes through as an append of items `l` goes to separate storage or is a
single item, and no item has the empty id.
-/
def AppendsWhole (cfg : Config) (c : Req T) (o : Op) (st : State × Ghost T) : Prop :=
  ∀ t cur l, o = .txn t → c.appends = some (cur, l) → putKeys t.success ≠ [] →
    ∀ resp, (st.1.etcd.txn t).1 = some resp → resp.succeeded = true →
      (cfg.saveDataOnSeparateStorage = true ∨ l.length = 1) ∧ ∀ x ∈ l, x.1 ≠ ""

/-- What an append of `l` after `cur` has done when it returns `ok`. -/
structure AppendDone (n : Nat) (c : Req T) (cur : ChainItem T) (l : List (String × T)) (ok : Bool)
    (st : State × Ghost T) : Prop where
  yes : ok = true → Appended n c cur.id l st
  no : ok = false → Idle n st

theorem AppendDone.stable {n : Nat} {c : Req T} {cur : ChainItem T} {l : List (String × T)}
    {ok : Bool} {st st' : State × Ghost T} (h : AppendDone n c cur l ok st)
    (hm : Moves n st.1.etcd st.2 st'.1.etcd st'.2) : AppendDone n c cur l ok st' :=
  ⟨fun hok => (h.yes hok).stable hm, fun hok => (h.no hok).stable hm⟩

section Calls

variable [Inhabited T] {Γ : Setting T} {opt : Options} {n : Nat} {c : Req T}
  {st : State × Ghost T} {cur : ChainItem T} {b : String × T} {m : List (String × T)}

/-- The revision that an append reads off its answer is not ahead of etcd's. -/
theorem responsePutRevision_le (len rev i : Nat) :
    (((List.replicate len (ResponseOp.responsePut rev))[i]?).map responsePutRevision).getD 0 ≤
      rev := by
  cases h : (List.replicate len (ResponseOp.responsePut rev))[i]? with
  | none => exact Nat.zero_le _
  | some r =>
      obtain rfl := List.eq_of_mem_replicate (List.mem_of_getElem? h)
      exact Nat.le_refl _

/-- The item that has been appended to may be put in the cache with its new link. -/
theorem cacheable_of_appended {rev : Nat} (hi : Γ.Inv st) (ha : Appended n c cur.id (b :: m) st)
    (hcur : Γ.KnownAt cur st) (hrev : rev ≤ st.1.etcd.revision) :
    Γ.Cacheable cur.id (cur.data.getD default) b.1 rev st := by
  obtain ⟨e, he, -, -, htail, hitems⟩ := ha
  obtain ⟨d, hd, hdata⟩ := hcur.data
  have hplaced := hi.1.placed e he
  rw [hitems, htail] at hplaced
  rw [hd]
  refine Setting.cacheable_of_adjacent hi ?_ hcur.there hdata hrev
  exact (List.IsPrefix.isInfix ⟨m.map Prod.fst, by simp⟩).trans hplaced

omit [Inhabited T] in
/-- An item that has just been appended at the end is known. -/
theorem known_of_last {rev : Nat} (hi : Γ.Inv st) (ha : Appended n c cur.id [b] st)
    (hlast : ∃ pre, ids Γ.cfg st.2.log = pre ++ [b].map Prod.fst)
    (hrev : rev ≤ st.1.etcd.revision) : Γ.KnownAt ⟨rev, b.1, some b.2, ""⟩ st := by
  obtain ⟨e, he, -, -, -, hitems⟩ := ha
  have hx : b ∈ appended st.2.log := List.mem_flatMap.mpr ⟨e, he, by rw [hitems]; simp⟩
  have hmem : b.1 ∈ (appended st.2.log).map Prod.fst := List.mem_map.mpr ⟨b, hx, rfl⟩
  have hid : b.1 ∈ ids Γ.cfg st.2.log := List.mem_cons_of_mem _ hmem
  have hth := there_of_appended hi.1 hmem
  have hne : b.1 ≠ Γ.cfg.headKey := fun h => (List.nodup_cons.mp hi.1.ids_nodup).1 (h ▸ hmem)
  obtain ⟨kv, d, next, h1, h2, h3, h4⟩ := link_record hi.1 hid hth
  have hnext : next = "" := by
    by_contra hne
    exact not_last_of_adjacent hi.1.ids_nodup (h4.adjacent hne) hlast
  subst hnext
  exact known_of_link (d := d) hid h1 h2 h4 ⟨b.2, rfl, Or.inr ⟨hne, hx⟩⟩ hrev

/-- An append that gives up. -/
theorem idle_meets (l : List (String × T)) (h : Idle n st) :
    Γ.Meets n c (fun ok st' => AppendDone n c cur l ok st') (fun _ st' => Idle n st')
      (.ret false) st :=
  Safe.ret ⟨by simp, fun _ => h⟩ (fun _ _ hr _ h => h.stable hr)

theorem appendAfter_meets (chain : Nat) (hc : c.appends = some (cur, [b]))
    (hw : opt.automaticallyDuplicateToRedis = true → ∀ o st', Γ.guard.op c o st' → KeysWhole o)
    (hG : ∀ o st', Γ.guard.op c o st' → AppendsWhole Γ.cfg c o st') (hcur : Γ.KnownAt cur st)
    (hidle : Idle n st) :
    Γ.Meets n c (fun ok st' => AppendDone n c cur [b] ok st') (fun _ st' => Idle n st')
      (appendAfter Γ.cfg opt Γ.cd chain cur (formChainItem b.1 b.2)) st := by
  obtain ⟨d, hd, -⟩ := hcur.data
  have happ := appendTxn_appends Γ.cfg Γ.cd hd b.1 b.2
  unfold appendAfter
  by_cases hn : cur.nextID = ""
  · rw [if_neg (by simp [hn]), if_neg (by simp [formChainItem]), if_neg (by simp [formChainItem])]
    refine meets_append hc ?_ ?_ hcur hd hn hidle ?_ ?_
    · unfold appendTxn; dsimp only; split <;> rfl
    · intro st' resp hg hresp hs
      exact ⟨happ, (hG _ st' hg _ cur [b] rfl hc happ.putKeys_ne resp hresp hs).2⟩
    · intro st' hi' ha hk _
      simp only [Option.getD_some, if_true, Prog.ret_bind]
      refine Safe.bind ((afterAppend_meets (F := fun s => AppendDone n c cur [b] true s) chain hw
        hi' ha hk ?_ ⟨fun _ => ha, by simp⟩ (fun m' s s' hr h =>
          ⟨fun hok => (h.yes hok).stable hr, by simp⟩)).mono (fun _ _ _ h => h)
        (fun _ _ _ h => h.elim)) ?_ hi'
      · exact responsePutRevision_le _ _ _
      · exact fun _ st'' _ h => Safe.ret h (fun _ _ hr _ h => h.stable hr)
    · intro st' r hi' hid' hk hr
      rcases hr with rfl | ⟨resp, rfl, hs⟩
      · exact idle_meets [b] hid'
      · simp only [Option.getD_some, hs, Prog.ret_bind, Bool.false_eq_true, if_false]
        exact idle_meets [b] hid'
  · rw [if_pos hn]
    exact idle_meets [b] hidle

/-- In the mode without separate storage the guard lets no batch through. -/
theorem appendAfterBatch_meets (chain : Nat) (hc : c.appends = some (cur, b :: m))
    (hw : opt.automaticallyDuplicateToRedis = true → ∀ o st', Γ.guard.op c o st' → KeysWhole o)
    (hG : ∀ o st', Γ.guard.op c o st' → AppendsWhole Γ.cfg c o st') (hcur : Γ.KnownAt cur st)
    (hidle : Idle n st) :
    Γ.Meets n c (fun ok st' => AppendDone n c cur (b :: m) ok st') (fun _ st' => Idle n st')
      (appendAfterBatch Γ.cfg opt Γ.cd chain cur (formChainItems (b :: m))) st := by
  cases m with
  | nil => exact appendAfter_meets chain hc hw hG hcur hidle
  | cons a m =>
      obtain ⟨d, hd, -⟩ := hcur.data
      obtain ⟨y, l, hyl⟩ : ∃ y l, formChainItems (a :: m) = y :: l := by
        cases m <;> exact ⟨_, _, rfl⟩
      have hitems : formChainItems (b :: a :: m) =
          { formChainItem b.1 b.2 with nextID := a.1 } :: y :: l := by
        rw [formChainItems, hyl]
      have hlast : ((formChainItems (b :: a :: m)).getLast?.map ChainItem.nextID).getD "" = "" := by
        clear hyl hitems hc
        induction m generalizing a b with
        | nil => rfl
        | cons a' m ih =>
            rw [formChainItems]
            have := ih (b := a) (a := a')
            rw [formChainItems] at this ⊢
            simpa [List.getLast?_cons] using this
      have hf : (appendBatchTxn Γ.cfg Γ.cd cur (formChainItems (b :: a :: m))).failure = [] := by
        unfold appendBatchTxn; dsimp only; split <;> rfl
      have hput : putKeys (appendBatchTxn Γ.cfg Γ.cd cur (formChainItems (b :: a :: m))).success
          ≠ [] := by
        unfold appendBatchTxn; dsimp only; split <;> simp [putKeys]
      rw [hitems] at hlast hf hput ⊢
      unfold appendAfterBatch
      dsimp only
      by_cases hn : cur.nextID = ""
      · rw [if_neg (by simp [hn]), if_neg (by simp [formChainItem]), if_neg (by simpa using hlast)]
        refine meets_append hc hf ?_ hcur hd hn hidle ?_ ?_
        · intro st' resp hg hresp hs
          obtain ⟨h1, h2⟩ := hG _ st' hg _ cur (b :: a :: m) rfl hc hput resp hresp hs
          refine ⟨?_, h2⟩
          rw [← hitems]
          exact appendBatchTxn_appends (h1.resolve_right (by simp)) b (a :: m)
        · intro st' hi' ha hk _
          simp only [Option.getD_some, if_true, Prog.ret_bind]
          rw [← hitems]
          refine Safe.bind ((afterAppend_meets
            (F := fun s => AppendDone n c cur (b :: a :: m) true s) chain hw hi' ha hk ?_
            ⟨fun _ => ha, by simp⟩ (fun m' s s' hr h =>
              ⟨fun hok => (h.yes hok).stable hr, by simp⟩)).mono (fun _ _ _ h => h)
            (fun _ _ _ h => h.elim)) ?_ hi'
          · cases h : (List.replicate (appendBatchTxn Γ.cfg Γ.cd cur
              (formChainItems (b :: a :: m))).success.length
                (ResponseOp.responsePut st'.1.etcd.revision)).getLast? with
            | none => exact Nat.zero_le _
            | some r =>
                obtain rfl := List.eq_of_mem_replicate (List.mem_of_getLast? h)
                exact Nat.le_refl _
          · exact fun _ st'' _ h => Safe.ret h (fun _ _ hr _ h => h.stable hr)
        · intro st' r hi' hid' hk hr
          rcases hr with rfl | ⟨resp, rfl, hs⟩
          · exact idle_meets _ hid'
          · simp only [Option.getD_some, hs, Prog.ret_bind, Bool.false_eq_true, if_false]
            exact idle_meets _ hid'
      · rw [if_pos hn]
        exact idle_meets _ hidle

theorem DotNet.appendAfter_meets (hc : c.appends = some (cur, [b]))
    (hw : opt.automaticallyDuplicateToRedis = true → ∀ o st', Γ.guard.op c o st' → KeysWhole o)
    (hG : ∀ o st', Γ.guard.op c o st' → AppendsWhole Γ.cfg c o st') (hcur : Γ.KnownAt cur st)
    (hidle : Idle n st) :
    Γ.Meets n c (fun ok st' => AppendDone n c cur [b] ok st') (fun _ st' => Idle n st')
      (DotNet.appendAfter Γ.cfg opt Γ.cd cur (formChainItem b.1 b.2)) st := by
  obtain ⟨d, hd, -⟩ := hcur.data
  have happ := appendTxn_appends Γ.cfg Γ.cd hd b.1 b.2
  unfold DotNet.appendAfter
  by_cases hn : cur.nextID = ""
  · rw [if_neg (by simp [hn]), if_neg (by simp [formChainItem])]
    refine meets_append hc ?_ ?_ hcur hd hn hidle ?_ ?_
    · unfold appendTxn; dsimp only; split <;> rfl
    · intro st' resp hg hresp hs
      exact ⟨happ, (hG _ st' hg _ cur [b] rfl hc happ.putKeys_ne resp hresp hs).2⟩
    · intro st' hi' ha hk _
      simp only [if_true, Prog.ret_bind]
      by_cases hauto : opt.automaticallyDuplicateToRedis = true
      · rw [if_pos hauto]
        refine Safe.bind ((duplicateToRedisAs_meets (F := fun s => AppendDone n c cur [b] true s)
          (hw hauto) ?_ ⟨fun _ => ha, by simp⟩ (fun m' s s' hr h =>
            ⟨fun hok => (h.yes hok).stable hr, by simp⟩)).mono (fun _ _ _ h => h)
          (fun _ _ _ h => h.elim)) ?_ hi'
        · exact cacheable_of_appended hi' ha hk (responsePutRevision_le _ _ _)
        · exact fun _ st'' _ h => Safe.ret h (fun _ _ hr _ h => h.stable hr)
      · rw [if_neg hauto]
        exact Safe.ret ⟨fun _ => ha, by simp⟩ (fun _ _ hr _ h => h.stable hr)
    · intro st' r hi' hid' hk hr
      rcases hr with rfl | ⟨resp, rfl, hs⟩
      · exact fun _ hr _ => hid'.stable hr
      · simp only [hs, Prog.ret_bind, Bool.false_eq_true, if_false]
        exact idle_meets [b] hid'
  · rw [if_pos hn]
    exact idle_meets [b] hidle

/-- `tryAppend` after its loop. The client ends up on an item it knows. -/
theorem Script.appendHere_meets (hc : c.appends = some (cur, [b]))
    (hw : opt.automaticallyDuplicateToRedis = true → ∀ o st', Γ.guard.op c o st' → KeysWhole o)
    (hG : ∀ o st', Γ.guard.op c o st' → AppendsWhole Γ.cfg c o st') (hcur : Γ.KnownAt cur st)
    (hn : cur.nextID = "") (hidle : Idle n st) :
    Γ.Meets n c (fun r st' => AppendDone n c cur [b] r.1 st' ∧ Γ.KnownAt r.2 st')
      (fun _ st' => Idle n st') (Script.appendHere Γ.cfg opt Γ.cd cur b.1 b.2) st := by
  obtain ⟨d, hd, -⟩ := hcur.data
  have happ := Script.appendTxn_appends Γ.cfg Γ.cd hd b.1 b.2
  have hst : ∀ (m : Nat) (it : ChainItem T) (s s' : State × Ghost T),
      Moves m s.1.etcd s.2 s'.1.etcd s'.2 → (Appended n c cur.id [b] s ∧ Γ.KnownAt it s) →
      Appended n c cur.id [b] s' ∧ Γ.KnownAt it s' :=
    fun m it s s' hr h => ⟨h.1.stable hr, h.2.stable hr⟩
  unfold Script.appendHere
  rw [Prog.bind_eq, Script.commit_bind]
  refine meets_append hc ?_ ?_ hcur hd hn hidle ?_ ?_
  · unfold Script.appendTxn; dsimp only; split <;> rfl
  · intro st' resp hg hresp hs
    exact ⟨happ, (hG _ st' hg _ cur [b] rfl hc happ.putKeys_ne resp hresp hs).2⟩
  · intro st' hi' ha hk hlast
    have hrev := responsePutRevision_le (Script.appendTxn Γ.cfg Γ.cd cur b.1 b.2).success.length
      st'.1.etcd.revision (if Γ.cfg.saveDataOnSeparateStorage then 2 else 1)
    have hnew := known_of_last hi' ha hlast hrev
    simp only [if_true]
    by_cases hauto : opt.automaticallyDuplicateToRedis = true
    · rw [if_pos hauto]
      refine Safe.bind ((duplicateToRedisAs_meets (hw hauto)
        (cacheable_of_appended hi' ha hk hk.rev_le) ⟨ha, hnew⟩ (hst · _)).mono
          (fun _ _ _ h => h) (fun _ _ _ h => h.elim)) ?_ hi'
      rintro _ st'' _ ⟨ha', hnew'⟩
      exact Safe.ret ⟨⟨fun _ => ha', by simp⟩, hnew'⟩
        (fun _ _ hr _ h => ⟨h.1.stable hr, h.2.stable hr⟩)
    · rw [if_neg hauto]
      exact Safe.ret ⟨⟨fun _ => ha, by simp⟩, hnew⟩
        (fun _ _ hr _ h => ⟨h.1.stable hr, h.2.stable hr⟩)
  · intro st' r hi' hid' hk hr
    rcases hr with rfl | ⟨resp, rfl, hs⟩
    · exact fun _ hr _ => hid'.stable hr
    · simp only [hs, Bool.false_eq_true, if_false]
      exact Safe.ret ⟨⟨by simp, fun _ => hid'⟩, hk⟩
        (fun _ _ hr _ h => ⟨h.1.stable hr, h.2.stable hr⟩)

/-- One turn of the loop of `tryAppend`. -/
theorem Script.tryAppend_meets (lang : Lang) (hc : c.appends = some (cur, [b]))
    (hr : opt.duplicateFromRedis = true → ∀ o st', Γ.guard.op c o st' → KeysWhole o)
    (hw : opt.automaticallyDuplicateToRedis = true → ∀ o st', Γ.guard.op c o st' → KeysWhole o)
    (hG : ∀ o st', Γ.guard.op c o st' → AppendsWhole Γ.cfg c o st') (hi : Γ.Inv st)
    (hcur : Γ.KnownAt cur st) (hidle : Idle n st) :
    Γ.Meets n c (fun r st' => match r with
        | .inl it => Γ.KnownAt it st' ∧ Idle n st'
        | .inr r => AppendDone n c cur [b] r.1 st' ∧ Γ.KnownAt r.2 st')
      (fun _ st' => Idle n st') (Script.tryAppend lang Γ.cfg opt Γ.cd cur b.1 b.2) st := by
  refine Safe.bind (R := fun r st' => (Γ.GotItem st.2.log cur.id r st' ∧
    (r = none → cur.nextID = "")) ∧ Γ.KnownAt cur st' ∧ Idle n st') ?_ ?_ hi
  · refine ((Script.next_meets lang hr (List.prefix_refl _) hi hcur).frame_own
      (Script.next_reads lang Γ.cfg opt Γ.cd cur) ⟨hcur, hidle⟩ ?_
      (fun s s' hr h => ⟨h.1.stable hr, h.2.stable hr⟩)).mono (fun _ _ _ h => h)
      (fun _ _ _ h => h.1.elim)
    intro o s ho h
    rwa [exec_of_reads ho s]
  · rintro r st' hi' ⟨⟨hg, hn⟩, hk, hid⟩
    cases r with
    | none =>
        refine Safe.bind (Script.appendHere_meets hc hw hG hk (hn rfl) hid) ?_ hi'
        exact fun r st'' _ h => Safe.ret h (fun _ _ hr _ h => ⟨h.1.stable hr, h.2.stable hr⟩)
    | some it =>
        have h : Γ.KnownAt it st' ∧ Idle n st' := ⟨(hg.item it rfl).1.known, hid⟩
        exact Safe.ret h (fun _ _ hr _ h => ⟨h.1.stable hr, h.2.stable hr⟩)

end Calls

end EtcdChain
