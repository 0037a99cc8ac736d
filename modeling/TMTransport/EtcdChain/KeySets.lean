import TMTransport.EtcdChain.Contract
import TMTransport.EtcdChain.Objects

/-!
# Calls that stay with their keys

Each operation of an object stays with the object's keys: those are made from its
prefixes and from names that its user gives, or that a link of its own chain gives.
So a call does the same wherever the object sees the same under its keys.

Other objects make the revision grow, though. A transaction asks about revisions only
whether one is the same, so it does not matter what they are called.
-/

namespace EtcdChain

open Etcd Interleave

variable {T X : Type}

namespace KeySet

variable {o : Object T X} {K : KeySet o} {R : Renaming} {id key v : String}

/-! ## The object's keys -/

theorem ownsLink_chainKey (h : K.ids id) : K.OwnsLink (o.cfg.chainKey id) := ⟨id, h, rfl⟩

theorem owns_chainKey (h : K.ids id) : K.Owns (o.cfg.chainKey id) := .inl ⟨id, h, rfl⟩

theorem owns_dataKey (hsep : o.cfg.saveDataOnSeparateStorage = true) (h : K.ids id) :
    K.Owns (o.cfg.dataKey id) :=
  .inr (.inl ⟨hsep, id, h, rfl⟩)

theorem owns_extraDataKey (h : K.extras key) : K.Owns (o.extraDataKey key) :=
  .inr (.inr ⟨key, h, rfl⟩)

/-- Redis is given the chain key of an id of the object. -/
theorem ownsLink_seen
    (hredis : o.opt.duplicateFromRedis = true ∨ o.opt.automaticallyDuplicateToRedis = true)
    (h : K.ids id) : K.OwnsLink (KeyArg.cString.seen (o.cfg.chainKey id)) := by
  obtain ⟨hpre, hids⟩ := K.cut hredis
  have hwhole : '\x00' ∉ (o.cfg.chainPrefix ++ ":").toList := by
    rw [String.toList_append, List.mem_append]
    exact not_or.mpr ⟨hpre, by decide⟩
  exact ⟨cStr id, hids id h, cStr_append hwhole⟩

/-- The items of a batch lead to one another. -/
theorem names_formChainItems {items : List (String × T)} (h : ∀ x ∈ items, K.ids x.1) :
    ∀ x ∈ formChainItems items, K.ids x.id ∧ (x.nextID = "" ∨ K.ids x.nextID) := by
  induction items with
  | nil =>
      intro x hx
      cases hx
  | cons b m ih =>
      have hb := h b List.mem_cons_self
      cases m with
      | nil =>
          intro x hx
          obtain rfl := List.mem_singleton.mp hx
          exact ⟨hb, .inl rfl⟩
      | cons a m =>
          intro x hx
          rcases List.mem_cons.mp hx with rfl | hx
          · exact ⟨hb, .inr (h a (by simp))⟩
          · exact ih (fun y hy => h y (List.mem_cons_of_mem _ hy)) x hx

/-! ## Links that stay with the object -/

theorem linkOk_link (hsep : o.cfg.saveDataOnSeparateStorage = true) (h : v = "" ∨ K.ids v) :
    K.LinkOk key v := by
  intro _
  rw [if_pos hsep]
  exact h

theorem linkOk_mapData (hsep : o.cfg.saveDataOnSeparateStorage = false) {m : ChainStorage T}
    (h : m.nextID = "" ∨ K.ids m.nextID) : K.LinkOk key (o.cd.mapData.serialize m) := by
  intro _
  rw [if_neg (by simp [hsep])]
  intro m' hm
  rw [o.cd.mapData.parse_serialize, Option.some.injEq] at hm
  rw [← hm]
  exact h

theorem linkOk_of_all (hall : ∀ id, K.ids id) : K.LinkOk key v := by
  intro _
  split
  · exact .inr (hall v)
  · exact fun m _ => .inr (hall m.nextID)

theorem linkOk_dataKey (hsep : o.cfg.saveDataOnSeparateStorage = true) (h : K.ids id) :
    K.LinkOk (o.cfg.dataKey id) v := by
  rcases K.apart with hall | hapart
  · exact linkOk_of_all hall
  · intro ⟨id', hid', heq⟩
    exact absurd heq.symm ((hapart id' hid').1 hsep id h)

theorem linkOk_extraDataKey (h : K.extras key) : K.LinkOk (o.extraDataKey key) v := by
  rcases K.apart with hall | hapart
  · exact linkOk_of_all hall
  · intro ⟨id', hid', heq⟩
    exact absurd heq.symm ((hapart id' hid').2 key h)

/-! ## The object's view -/

variable (K R) in
/-- The object sees the same under its keys, and its revisions are those that it has brought
about. -/
def mirror : Mirror Op Op.Res State where
  step := State.step o.cfg
  allowed := fun op s => ∀ r, s.etcd.revision < r →
    r ≤ (State.step o.cfg op s).2.etcd.revision → R.mine r
  own := fun op _ => K.OwnsOp op
  view := fun s t => SameContent K R.name s t ∧ t.etcd.revision = R.clock s.etcd.revision ∧
    K.Closed s

variable {α γ : Type} {f : α → γ} {Q : α → Prop} {p : Call α} {p' : Call γ}

/-- Operations that change nothing. -/
theorem copies_reads {op op' : Op} {k : op.Res → Call α} {k' : op'.Res → Call γ}
    (h : op.Reads) (h' : op'.Reads) (hown : K.OwnsOp op)
    (hk : ∀ s t, (K.mirror R).view s t → (K.mirror R).Copies f Q (k (State.step o.cfg op s).1)
      (k' (State.step o.cfg op' t).1)) :
    (K.mirror R).Copies f Q (.act op k) (.act op' k') := by
  refine Mirror.Copies.act fun s t hv _ => ⟨hown, ?_, hk s t hv⟩
  show (K.mirror R).view (State.step o.cfg op s).2 (State.step o.cfg op' t).2
  rw [step_of_reads o.cfg h, step_of_reads o.cfg h']
  exact hv

theorem view_heard {s t : State} (hv : (K.mirror R).view s t) (latest latest' : Nat → Nat) :
    (K.mirror R).view { s with latestModRevision := latest }
      { t with latestModRevision := latest' } :=
  ⟨⟨hv.1.etcd, hv.1.redis⟩, hv.2.1, hv.2.2.links, hv.2.2.cached⟩

theorem view_expire {s t : State} (hv : (K.mirror R).view s t) (k : String) :
    (K.mirror R).view { s with redis := Function.update s.redis k none }
      { t with redis := Function.update t.redis k none } := by
  obtain ⟨hsame, hclock, hclosed⟩ := hv
  refine ⟨⟨hsame.etcd, fun k' hk => ?_⟩, hclock, hclosed.links, fun k' x st hk hx hst => ?_⟩
  · by_cases heq : k' = k
    · simp [heq]
    · simp only [Function.update_of_ne heq]
      exact hsame.redis k' hk
  · by_cases heq : k' = k
    · simp [heq] at hx
    · simp only [Function.update_of_ne heq] at hx
      exact hclosed.cached k' x st hk hx hst

/-- What happens elsewhere does not touch the view. -/
theorem view_elsewhere {s s' t : State} (hv : (K.mirror R).view s t)
    (hkvs : ∀ k, K.Owns k → s'.etcd.kvs k = s.etcd.kvs k)
    (hredis : ∀ k, K.OwnsLink k → s'.redis k = s.redis k)
    (hclock : R.clock s'.etcd.revision = R.clock s.etcd.revision) : (K.mirror R).view s' t := by
  refine ⟨⟨fun k hk => ?_, fun k hk => ?_⟩, hv.2.1.trans hclock.symm, fun k kv hkv hk => ?_,
    fun k x st hk hx hst => ?_⟩
  · rw [hv.1.etcd k hk, hkvs k hk]
  · rw [hv.1.redis k hk, hredis k hk]
  · rw [hkvs k (.inl hk)] at hkv
    exact hv.2.2.links k kv hkv hk
  · rw [hredis k hk] at hx
    exact hv.2.2.cached k x st hk hx hst

/-- A transaction on the object's keys, which asks about revisions only whether one is the
same. -/
theorem view_txn {s s' : State} {t : TxnRequest} (hkeys : ∀ k ∈ t.keys, K.Owns k)
    (hnames : t.OnlyNames)
    (hlinks : ∀ k v, RequestOp.requestPut k v ∈ t.success ++ t.failure → K.LinkOk k v)
    (hv : (K.mirror R).view s s') (hg : (K.mirror R).allowed (.txn t) s) :
    (s'.txn o.cfg (t.rename R.name)).1 = (s.txn o.cfg t).1.map (TxnResponse.rename R.name) ∧
      (K.mirror R).view (s.txn o.cfg t).2 (s'.txn o.cfg (t.rename R.name)).2 := by
  obtain ⟨hsame, hclock, hclosed⟩ := hv
  have hmine : s.etcd.revision < (s.etcd.txn t).2.revision → R.mine (s.etcd.revision + 1) :=
    fun hlt => hg _ (Nat.lt_succ_self _) hlt
  have hname : s.etcd.revision < (s.etcd.txn t).2.revision →
      R.name (s.etcd.revision + 1) = s'.etcd.revision + 1 := by
    intro hlt
    rw [R.name_succ _ (hmine hlt), hclock]
  obtain ⟨hanswer, hstores, hrev⟩ :=
    txn_rename R.name_injective R.name_zero hsame.etcd hkeys hnames hname
  refine ⟨hanswer, ⟨hstores, hsame.redis⟩, ?_, (txn_all hclosed.links hlinks).1, hclosed.cached⟩
  show (s'.etcd.txn (t.rename R.name)).2.revision = R.clock (s.etcd.txn t).2.revision
  have hle := revision_le_txn s.etcd t
  have hle' := revision_txn_le s.etcd t
  rcases Nat.eq_or_lt_of_le hle with heq | hlt
  · rw [← heq, ← hclock]
    omega
  · have hsucc : (s.etcd.txn t).2.revision = s.etcd.revision + 1 := by omega
    rw [hsucc, R.clock_mine _ (hmine hlt), ← hclock]
    omega

theorem copies_txn {t : TxnRequest} (hkeys : ∀ k ∈ t.keys, K.Owns k) (hnames : t.OnlyNames)
    (hlinks : ∀ k v, RequestOp.requestPut k v ∈ t.success ++ t.failure → K.LinkOk k v) :
    (K.mirror R).Copies (TxnResponse.rename R.name) (fun _ => True) (txn t)
      (txn (t.rename R.name)) := by
  refine Mirror.Copies.act fun s s' hv hg => ?_
  obtain ⟨hanswer, hview⟩ := view_txn hkeys hnames hlinks hv hg
  refine ⟨hkeys, hview, Mirror.Copies.ret ?_ trivial⟩
  show (s'.txn o.cfg (t.rename R.name)).1.getD {} = _
  rw [hanswer]
  show _ = TxnResponse.rename R.name ((s.txn o.cfg t).1.getD {})
  cases (s.txn o.cfg t).1 <;> rfl

/-- A link is read from where only the object's links are. -/
theorem copies_range (h : K.Owns key) :
    (K.mirror R).Copies (List.map (KV.rename R.name))
      (fun kvs => ∀ kv ∈ kvs, K.LinkOk key kv.value) (range key) (range key) := by
  refine copies_reads trivial trivial h fun s t hv => Mirror.Copies.ret ?_ ?_
  · show (t.etcd.kvs key).toList = ((s.etcd.kvs key).toList).map (KV.rename R.name)
    rw [hv.1.etcd key h]
    cases s.etcd.kvs key <;> rfl
  · intro kv hkv
    exact hv.2.2.links key kv (Option.mem_toList.mp hkv)

/-! ### The cache -/

/-- An item in the cache leads to an id of the object, and is the same up to its revision. -/
theorem copies_redisGet {arg : KeyArg} {k : Option String → Call α} {k' : Option String → Call γ}
    (h : K.OwnsLink (arg.seen key))
    (hk : ∀ r r' : Option String,
      r'.bind o.cd.redis.parse = (r.bind o.cd.redis.parse).map (ChainRedisStorage.rename R.name) →
      (∀ st, r.bind o.cd.redis.parse = some st → st.nextID = "" ∨ K.ids st.nextID) →
      (K.mirror R).Copies f Q (k r) (k' r')) :
    (K.mirror R).Copies f Q (.act (.redisGet arg key) k) (.act (.redisGet arg key) k') := by
  refine copies_reads trivial trivial h fun s t hv => hk _ _ ?_ fun st hst => ?_
  · have hsame := hv.1.redis _ h
    show (t.redis (arg.seen key)).bind _ = ((s.redis (arg.seen key)).bind _).map _
    cases hs : s.redis (arg.seen key) with
    | none =>
        rw [hs, Option.map_none, Option.map_eq_none_iff] at hsame
        rw [hsame]
        rfl
    | some x =>
        rw [hs, Option.map_some] at hsame
        obtain ⟨y, hy, hparse⟩ := Option.map_eq_some_iff.mp hsame
        rw [hy]
        exact hparse
  · obtain ⟨x, hx, hparse⟩ := Option.bind_eq_some_iff.mp hst
    exact hv.2.2.cached _ x st h hx hparse

theorem copies_itemFromRedis
    (hredis : o.opt.duplicateFromRedis = true ∨ o.opt.automaticallyDuplicateToRedis = true)
    (h : K.ids id) :
    (K.mirror R).Copies (Option.map (ChainItem.rename R.name))
      (fun r : Option (ChainItem T) => ∀ it, r = some it → it.nextID = "" ∨ K.ids it.nextID)
      (itemFromRedis o.cfg o.cd id) (itemFromRedis o.cfg o.cd id) := by
  refine copies_redisGet (ownsLink_seen hredis h) fun r r' hr hlink => Mirror.Copies.ret ?_ ?_
  · rw [hr]
    cases r.bind o.cd.redis.parse <;> rfl
  · intro it hit
    obtain ⟨st, hst, rfl⟩ := Option.map_eq_some_iff.mp hit
    exact hlink st hst

/-- The same item, up to its revision, comes into the cache. -/
theorem view_redisSet {s t : State} (hv : (K.mirror R).view s t) (k : String)
    {st : ChainRedisStorage T} (hlink : st.nextID = "" ∨ K.ids st.nextID) :
    (K.mirror R).view
      { s with redis := Function.update s.redis k (some (o.cd.redis.serialize st)) }
      { t with redis :=
          Function.update t.redis k (some (o.cd.redis.serialize (st.rename R.name))) } := by
  obtain ⟨hsame, hclock, hclosed⟩ := hv
  refine ⟨⟨hsame.etcd, fun k' hk => ?_⟩, hclock, hclosed.links, fun k' x st' hk hx hst => ?_⟩
  · by_cases heq : k' = k
    · simp [heq, o.cd.redis.parse_serialize]
    · simp only [Function.update_of_ne heq]
      exact hsame.redis k' hk
  · by_cases heq : k' = k
    · simp only [heq, Function.update_self, Option.some.injEq] at hx
      rw [← hx, o.cd.redis.parse_serialize, Option.some.injEq] at hst
      rw [← hst]
      exact hlink
    · simp only [Function.update_of_ne heq] at hx
      exact hclosed.cached k' x st' hk hx hst

theorem copies_duplicateToRedis
    (hredis : o.opt.duplicateFromRedis = true ∨ o.opt.automaticallyDuplicateToRedis = true)
    (h : K.ids id) {nextID : String} (hnext : nextID = "" ∨ K.ids nextID) (rev : Nat) (data : T) :
    (K.mirror R).Copies (fun u : Unit => u) (fun _ => True)
      (duplicateToRedis o.cfg o.opt o.cd rev id data nextID)
      (duplicateToRedis o.cfg o.opt o.cd (R.name rev) id data nextID) := by
  have hown : K.OwnsLink (KeyArg.cString.seen (o.cfg.chainKey id)) := ownsLink_seen hredis h
  refine Mirror.Copies.act fun s t hv _ => ⟨hown, ?_, Mirror.Copies.ret rfl trivial⟩
  exact @view_redisSet _ _ o K R s t hv _ ⟨rev, data, nextID⟩ hnext

/-! ## Reading -/

theorem responseRange_rename (r : ResponseOp) :
    responseRange (r.rename R.name) = (responseRange r).map (KV.rename R.name) := by
  cases r <;> rfl

theorem copies_itemFromEtcd (who : String) (h : K.ids id) :
    (K.mirror R).Copies (ChainItem.rename R.name) (fun _ => True)
      (itemFromEtcd o.cfg o.cd who id) (itemFromEtcd o.cfg o.cd who id) := by
  unfold itemFromEtcd
  split
  · next hsep =>
    have hkeys : ∀ k ∈ (readTxn o.cfg id).keys, K.Owns k := by
      intro k hk
      simp [readTxn, TxnRequest.keys, RequestOp.key] at hk
      rcases hk with rfl | rfl
      · exact owns_chainKey h
      · exact owns_dataKey hsep h
    refine Mirror.Copies.bind (copies_txn (t := readTxn o.cfg id) hkeys
      (by simp [TxnRequest.OnlyNames, readTxn]) (by simp [readTxn])) fun resp _ => ?_
    obtain ⟨succeeded, responses⟩ := resp
    cases succeeded with
    | false =>
        simp only [TxnResponse.rename, Bool.false_eq_true, if_false]
        split <;> exact Mirror.Copies.fail _
    | true =>
        simp only [TxnResponse.rename, if_true]
        cases responses with
        | nil => exact Mirror.Copies.fail _
        | cons chainRsp rest =>
            cases rest with
            | nil => exact Mirror.Copies.fail _
            | cons dataRsp _ =>
                simp only [List.map_cons, responseRange_rename]
                cases responseRange chainRsp with
                | nil => exact Mirror.Copies.fail _
                | cons chainKV _ =>
                    cases responseRange dataRsp with
                    | nil => exact Mirror.Copies.fail _
                    | cons dataKV _ => exact Mirror.Copies.ret rfl trivial
  · refine Mirror.Copies.bind (copies_range (owns_chainKey h)) fun kvs _ => ?_
    cases kvs with
    | nil => exact Mirror.Copies.fail _
    | cons kv _ =>
        simp only [List.map_cons, KV.rename]
        cases o.cd.mapData.parse kv.value with
        | none => exact Mirror.Copies.fail _
        | some mapData => exact Mirror.Copies.ret rfl trivial

variable {cur : ChainItem T}

/-- The id of an item of the object comes next, or nothing does. -/
theorem copies_nextIDFromEtcd (hid : K.ids cur.id) (hnext : cur.nextID = "" ∨ K.ids cur.nextID) :
    (K.mirror R).Copies (fun next : String => next) (fun next => next = "" ∨ K.ids next)
      (nextIDFromEtcd o.cfg o.cd cur) (nextIDFromEtcd o.cfg o.cd (cur.rename R.name)) := by
  show (K.mirror R).Copies _ _ (if cur.nextID = "" then _ else _) (if cur.nextID = "" then _ else _)
  split
  · refine Mirror.Copies.bind (copies_range (owns_chainKey hid)) fun kvs hlinks => ?_
    cases kvs with
    | nil => exact Mirror.Copies.fail _
    | cons kv _ =>
        have hlink := hlinks kv List.mem_cons_self (ownsLink_chainKey hid)
        show (K.mirror R).Copies _ _ (if _ then _ else _) (if _ then _ else _)
        by_cases hsep : o.cfg.saveDataOnSeparateStorage = true
        · rw [if_pos hsep] at hlink
          simp only [if_pos hsep]
          exact Mirror.Copies.ret rfl hlink
        · rw [if_neg hsep] at hlink
          simp only [if_neg hsep, KV.rename]
          cases hparse : o.cd.mapData.parse kv.value with
          | none => exact Mirror.Copies.fail _
          | some mapData => exact Mirror.Copies.ret rfl (hlink mapData hparse)
  · exact Mirror.Copies.ret rfl hnext

theorem copies_fetchNextFromEtcd (hid : K.ids cur.id)
    (hnext : cur.nextID = "" ∨ K.ids cur.nextID) :
    (K.mirror R).Copies (Option.map (ChainItem.rename R.name)) (fun _ => True)
      (fetchNextFromEtcd o.cfg o.cd cur) (fetchNextFromEtcd o.cfg o.cd (cur.rename R.name)) := by
  refine Mirror.Copies.bind (copies_nextIDFromEtcd hid hnext) fun next hok => ?_
  show (K.mirror R).Copies _ _ (if next ≠ "" then _ else _) (if next ≠ "" then _ else _)
  split
  · next hne =>
    refine Mirror.Copies.bind (copies_itemFromEtcd "FetchNext" (hok.resolve_left hne)) ?_
    exact fun it _ => Mirror.Copies.ret rfl trivial
  · exact Mirror.Copies.ret rfl trivial

theorem copies_fetchNextFromRedis (hid : K.ids cur.id)
    (hnext : cur.nextID = "" ∨ K.ids cur.nextID) :
    (K.mirror R).Copies (Option.map (ChainItem.rename R.name)) (fun _ => True)
      (fetchNextFromRedis o.cfg o.opt o.cd cur)
      (fetchNextFromRedis o.cfg o.opt o.cd (cur.rename R.name)) := by
  unfold fetchNextFromRedis
  split
  · next hdup =>
    show (K.mirror R).Copies _ _ (if cur.nextID ≠ "" then _ else _)
      (if cur.nextID ≠ "" then _ else _)
    split
    · next hne =>
      exact (copies_itemFromRedis (.inl hdup) (hnext.resolve_left hne)).mono fun _ _ => trivial
    · refine Mirror.Copies.bind (copies_itemFromRedis (.inl hdup) hid) fun r hr => ?_
      cases r with
      | none => exact Mirror.Copies.ret rfl trivial
      | some st =>
          show (K.mirror R).Copies _ _ (if st.nextID ≠ "" then _ else _)
            (if st.nextID ≠ "" then _ else _)
          split
          · next hne =>
            exact (copies_itemFromRedis (.inl hdup) ((hr st rfl).resolve_left hne)).mono
              fun _ _ => trivial
          · exact Mirror.Copies.ret rfl trivial
  · exact Mirror.Copies.ret rfl trivial

theorem copies_fetchNextAnyway (hid : K.ids cur.id) (hnext : cur.nextID = "" ∨ K.ids cur.nextID) :
    (K.mirror R).Copies (Option.map (ChainItem.rename R.name)) (fun _ => True)
      (fetchNextAnyway o.cfg o.opt o.cd cur)
      (fetchNextAnyway o.cfg o.opt o.cd (cur.rename R.name)) := by
  refine Mirror.Copies.bind (copies_fetchNextFromRedis hid hnext) fun r _ => ?_
  cases r with
  | none => exact copies_fetchNextFromEtcd hid hnext
  | some it => exact Mirror.Copies.ret rfl trivial

/-! ### Through what the watch thread has heard -/

theorem itemFromRedis_reads (cfg : Config) (cd : Codecs T) (id : String) :
    (itemFromRedis cfg cd id).Only Op.Reads :=
  ⟨trivial, fun _ => trivial⟩

theorem itemFromEtcd_reads (cfg : Config) (cd : Codecs T) (who id : String) :
    (itemFromEtcd cfg cd who id).Only Op.Reads := by
  unfold itemFromEtcd
  split
  · refine ⟨⟨rfl, rfl⟩, fun r => ?_⟩
    simp only [Prog.ret_bind]
    split
    · split
      · split <;> trivial
      · trivial
    · split <;> trivial
  · refine ⟨trivial, fun kvs => ?_⟩
    cases kvs with
    | nil => trivial
    | cons kv _ =>
        simp only [Prog.ret_bind]
        split <;> trivial

theorem nextIDFromEtcd_reads (cfg : Config) (cd : Codecs T) (cur : ChainItem T) :
    (nextIDFromEtcd cfg cd cur).Only Op.Reads := by
  unfold nextIDFromEtcd
  split
  · refine ⟨trivial, fun kvs => ?_⟩
    cases kvs with
    | nil => trivial
    | cons kv _ =>
        simp only [Prog.ret_bind]
        split
        · trivial
        · split <;> trivial
  · trivial

theorem fetchNextFromRedis_reads (cfg : Config) (opt : Options) (cd : Codecs T)
    (cur : ChainItem T) : (fetchNextFromRedis cfg opt cd cur).Only Op.Reads := by
  unfold fetchNextFromRedis
  split
  · split
    · exact itemFromRedis_reads cfg cd _
    · refine (itemFromRedis_reads cfg cd _).bind fun r => ?_
      cases r with
      | none => trivial
      | some st =>
          dsimp only
          split
          · exact itemFromRedis_reads cfg cd _
          · trivial
  · trivial

theorem fetchNextAnyway_reads (cfg : Config) (opt : Options) (cd : Codecs T)
    (cur : ChainItem T) : (fetchNextAnyway cfg opt cd cur).Only Op.Reads := by
  refine (fetchNextFromRedis_reads cfg opt cd cur).bind fun r => ?_
  cases r with
  | some it => trivial
  | none =>
      refine (nextIDFromEtcd_reads cfg cd cur).bind fun next => ?_
      split
      · exact (itemFromEtcd_reads cfg cd _ _).bind fun _ => trivial
      · trivial

/-- `fetchNext` goes by what the watch thread has heard, and says that nothing follows. -/
def GoesByWatch (opt : Options) (chain : Nat) (c : ChainItem T) (s : State) : Prop :=
  opt.useWatchThread = true ∧ c.nextID = "" ∧
    isUpToDate (s.latestModRevision chain) c.revision = true

instance (opt : Options) (chain : Nat) (c : ChainItem T) (s : State) :
    Decidable (GoesByWatch opt chain c s) :=
  inferInstanceAs (Decidable (_ ∧ _ ∧ _))

theorem run_fetchNext (cfg : Config) (opt : Options) (cd : Codecs T) (chain : Nat)
    (c : ChainItem T) (s : State) :
    (fetchNext cfg opt cd chain c).run (State.step cfg) s =
      if GoesByWatch opt chain c s then (.ok none, s)
      else (fetchNextAnyway cfg opt cd c).run (State.step cfg) s := by
  unfold fetchNext upToDate
  by_cases hwatch : opt.useWatchThread = true ∧ c.nextID = ""
  · have hif : (opt.useWatchThread && c.nextID == "") = true := by simp [hwatch.1, hwatch.2]
    rw [if_pos hif]
    show Prog.run _ (if isUpToDate (s.latestModRevision chain) c.revision then Prog.ret none
      else fetchNextAnyway cfg opt cd c) s = _
    by_cases hup : isUpToDate (s.latestModRevision chain) c.revision = true
    · rw [if_pos hup, if_pos ⟨hwatch.1, hwatch.2, hup⟩]
      rfl
    · rw [if_neg hup, if_neg fun h => hup h.2.2]
  · have hif : ¬ (opt.useWatchThread && c.nextID == "") = true := by simpa using hwatch
    rw [if_neg hif, if_neg fun h => hwatch ⟨h.1, h.2.1⟩]
    rfl

theorem along_fetchNext {P : Op → State → Prop} (cfg : Config) (opt : Options) (cd : Codecs T)
    (chain : Nat) (c : ChainItem T) (s : State) (hload : P (.loadLatestModRevision chain) s) :
    (fetchNext cfg opt cd chain c).Along (State.step cfg) P s ↔
      (¬ GoesByWatch opt chain c s →
        (fetchNextAnyway cfg opt cd c).Along (State.step cfg) P s) := by
  unfold fetchNext upToDate GoesByWatch
  by_cases hwatch : opt.useWatchThread = true ∧ c.nextID = ""
  · have hif : (opt.useWatchThread && c.nextID == "") = true := by simp [hwatch.1, hwatch.2]
    rw [if_pos hif]
    show _ ∧ Prog.Along _ _ (if isUpToDate (s.latestModRevision chain) c.revision then Prog.ret none
      else fetchNextAnyway cfg opt cd c) s ↔ _
    by_cases hup : isUpToDate (s.latestModRevision chain) c.revision = true
    · rw [if_pos hup]
      exact ⟨fun _ h => absurd ⟨hwatch.1, hwatch.2, hup⟩ h, fun _ => ⟨hload, trivial⟩⟩
    · rw [if_neg hup]
      exact ⟨fun h _ => h.2, fun h => ⟨hload, h fun hgo => hup hgo.2.2⟩⟩
  · have hif : ¬ (opt.useWatchThread && c.nextID == "") = true := by simpa using hwatch
    rw [if_neg hif]
    exact ⟨fun h _ => h, fun h => h fun hgo => hwatch ⟨hgo.1, hgo.2.1⟩⟩

/-- `fetchNext` stays with the object's keys, and changes nothing. If the object has a watch thread,
it may go by that, and say that nothing follows. -/
theorem fetchNext_sees (hid : K.ids cur.id) (hnext : cur.nextID = "" ∨ K.ids cur.nextID)
    {s t : State} (hv : (K.mirror R).view s t)
    (hg : (fetchNext o.cfg o.opt o.cd o.chain cur).Along (State.step o.cfg)
      (K.mirror R).allowed s) :
    let r := (fetchNext o.cfg o.opt o.cd o.chain cur).run (State.step o.cfg) s
    let r' := (fetchNext o.cfg o.opt o.cd o.chain (cur.rename R.name)).run (State.step o.cfg) t
    (fetchNext o.cfg o.opt o.cd o.chain cur).Along (State.step o.cfg) (K.mirror R).own s ∧
      (K.mirror R).view r.2 r'.2 ∧ (r'.1 = r.1.map (Option.map (ChainItem.rename R.name)) ∨
        o.opt.useWatchThread = true ∧ (r.1 = .ok none ∨ r'.1 = .ok none)) := by
  have hsame : ∀ (c : ChainItem T) (s : State),
      ((fetchNextAnyway o.cfg o.opt o.cd c).run (State.step o.cfg) s).2 = s := fun c s =>
    (fetchNextAnyway_reads o.cfg o.opt o.cd c).run_snd (fun _ s ho => step_of_reads o.cfg ho s) s
  rw [along_fetchNext _ _ _ _ _ _ fun r hlt hle => absurd hlt (Nat.not_lt.mpr hle)] at hg
  have hcopied := fun hgo =>
    copies_fetchNextAnyway (R := R) hid hnext s t hv (hg hgo)
  rw [run_fetchNext, run_fetchNext]
  refine ⟨(along_fetchNext _ _ _ _ _ _ trivial).mpr fun hgo => (hcopied hgo).along, ?_⟩
  by_cases hgo : GoesByWatch o.opt o.chain cur s <;>
    by_cases hgo' : GoesByWatch o.opt o.chain (cur.rename R.name) t
  · rw [if_pos hgo, if_pos hgo']
    exact ⟨hv, .inl rfl⟩
  · rw [if_pos hgo, if_neg hgo', hsame]
    exact ⟨hv, .inr ⟨hgo.1, .inl rfl⟩⟩
  · rw [if_neg hgo, if_pos hgo', hsame]
    exact ⟨hv, .inr ⟨hgo'.1, .inr rfl⟩⟩
  · rw [if_neg hgo, if_neg hgo']
    exact ⟨(hcopied hgo).view, .inl (hcopied hgo).answer⟩

/-! ## Extra data -/

theorem copies_saveExtraData (h : K.extras key) (data : X) :
    (K.mirror R).Copies (fun u : Unit => u) (fun _ => True) (o.saveExtraData key data)
      (o.saveExtraData key data) := by
  have hown : K.Owns (o.extraDataKey key) := owns_extraDataKey h
  refine Mirror.Copies.bind (copies_txn
    (t := { success := [.requestPut (o.extraDataKey key) (o.cx.serialize data)] })
    (fun k hk => ?_) (by simp [TxnRequest.OnlyNames]) fun k v hput => ?_) fun _ _ =>
      Mirror.Copies.ret rfl trivial
  · obtain rfl : k = o.extraDataKey key := by simpa [TxnRequest.keys, RequestOp.key] using hk
    exact hown
  · obtain ⟨rfl, -⟩ : k = o.extraDataKey key ∧ v = o.cx.serialize data := by simpa using hput
    exact linkOk_extraDataKey h

theorem copies_loadExtraData (h : K.extras key) :
    (K.mirror R).Copies (fun r : Option X => r) (fun _ => True) (o.loadExtraData key)
      (o.loadExtraData key) := by
  refine Mirror.Copies.bind (copies_range (owns_extraDataKey h)) fun kvs _ => ?_
  cases kvs with
  | nil => exact Mirror.Copies.ret rfl trivial
  | cons kv _ => exact Mirror.Copies.ret rfl trivial

/-! ## Where data may be missing -/

section

variable [Inhabited T]

theorem rename_headItem (cfg : Config) (cd : Codecs T) (kv : KV) :
    headItem cfg cd (kv.rename R.name) = (headItem cfg cd kv).rename R.name := by
  unfold headItem
  by_cases hsep : cfg.saveDataOnSeparateStorage = true
  · rw [if_pos hsep, if_pos hsep]
    rfl
  · rw [if_neg hsep, if_neg hsep, KV.rename]
    dsimp only
    cases cd.mapData.parse kv.value <;> rfl

/-- `head`, under the object's own head key. -/
theorem copies_headFromEtcdAt {emptyHead : String}
    (hlink : K.LinkOk o.cfg.headKeyStr emptyHead) :
    (K.mirror R).Copies (ChainItem.rename R.name) (fun _ => True)
      (headFromEtcdAt o.cfg.headKeyStr emptyHead o.cfg o.cd)
      (headFromEtcdAt o.cfg.headKeyStr emptyHead o.cfg o.cd) := by
  have hown : K.Owns o.cfg.headKeyStr := owns_chainKey K.head
  have hkeys : ∀ k ∈ (headTxnAt o.cfg.headKeyStr emptyHead).keys, K.Owns k := by
    intro k hk
    simp [headTxnAt, TxnRequest.keys, RequestOp.key] at hk
    rw [hk]
    exact hown
  refine Mirror.Copies.bind (copies_txn (t := headTxnAt o.cfg.headKeyStr emptyHead) hkeys
    (by simp [TxnRequest.OnlyNames, headTxnAt]) ?_) fun resp _ => ?_
  · intro k v hput
    simp [headTxnAt] at hput
    rw [hput.1, hput.2]
    exact hlink
  · have hget : (resp.rename R.name).responses[if (resp.rename R.name).succeeded then 0 else 1]? =
        (resp.responses[if resp.succeeded then 0 else 1]?).map (ResponseOp.rename R.name) :=
      List.getElem?_map
    rw [hget]
    cases resp.responses[if resp.succeeded then 0 else 1]? with
    | none => exact Mirror.Copies.fail _
    | some rsp =>
        rw [Option.map_some]
        dsimp only
        rw [responseRange_rename]
        cases responseRange rsp with
        | nil => exact Mirror.Copies.fail _
        | cons kv kvs => exact Mirror.Copies.ret (rename_headItem o.cfg o.cd kv) trivial

/-- `loadUntil` for an item that is not the head. -/
theorem copies_loadUntil (hne : id ≠ "") (h : K.ids id) :
    (K.mirror R).Copies (ChainItem.rename R.name) (fun _ => True)
      (EtcdChain.loadUntil o.cfg o.opt o.cd id) (EtcdChain.loadUntil o.cfg o.opt o.cd id) := by
  unfold EtcdChain.loadUntil
  rw [if_neg hne]
  split
  · next hdup =>
    refine Mirror.Copies.bind (copies_itemFromRedis (.inl hdup) h) fun r _ => ?_
    cases r with
    | none => exact copies_itemFromEtcd "LoadUntil" h
    | some it => exact Mirror.Copies.ret rfl trivial
  · exact copies_itemFromEtcd "LoadUntil" h

/-! ## Appending -/

theorem copies_duplicateBatch
    (hredis : o.opt.duplicateFromRedis = true ∨ o.opt.automaticallyDuplicateToRedis = true)
    (rev : Nat) {written : List (ChainItem T)} (hids : ∀ x ∈ written, K.ids x.id) :
    (K.mirror R).Copies (fun u : Unit => u) (fun _ => True)
      (duplicateBatch o.cfg o.opt o.cd rev written)
      (duplicateBatch o.cfg o.opt o.cd (R.name rev) written) := by
  match written with
  | [] => exact Mirror.Copies.ret rfl trivial
  | [_] => exact Mirror.Copies.ret rfl trivial
  | x :: y :: l =>
    refine Mirror.Copies.bind (copies_duplicateToRedis hredis (hids x List.mem_cons_self)
      (.inr (hids y (by simp))) rev _) fun _ _ => ?_
    exact copies_duplicateBatch hredis rev fun z hz => hids z (List.mem_cons_of_mem _ hz)

/-- The revision of the commit goes where only the watch thread looks, and to the cache. -/
theorem copies_afterAppend (hid : K.ids cur.id) (rev : Nat) {written : List (ChainItem T)}
    (hids : ∀ x ∈ written, K.ids x.id) :
    (K.mirror R).Copies (fun u : Unit => u) (fun _ => True)
      (afterAppend o.cfg o.opt o.cd o.chain rev cur written)
      (afterAppend o.cfg o.opt o.cd o.chain (R.name rev) (cur.rename R.name) written) := by
  have hnext : (written.head?.map ChainItem.id).getD "" = "" ∨
      K.ids ((written.head?.map ChainItem.id).getD "") := by
    cases written with
    | nil => exact .inl rfl
    | cons x l => exact .inr (hids x List.mem_cons_self)
  have hcache : (K.mirror R).Copies (fun u : Unit => u) (fun _ => True)
      (if o.opt.automaticallyDuplicateToRedis then do
        duplicateToRedis o.cfg o.opt o.cd rev cur.id (cur.data.getD default)
          ((written.head?.map ChainItem.id).getD "")
        duplicateBatch o.cfg o.opt o.cd rev written
      else pure ())
      (if o.opt.automaticallyDuplicateToRedis then do
        duplicateToRedis o.cfg o.opt o.cd (R.name rev) cur.id (cur.data.getD default)
          ((written.head?.map ChainItem.id).getD "")
        duplicateBatch o.cfg o.opt o.cd (R.name rev) written
      else pure ()) := by
    split
    · next hauto =>
      exact Mirror.Copies.bind (copies_duplicateToRedis (.inr hauto) hid hnext rev _) fun _ _ =>
        copies_duplicateBatch (.inr hauto) rev hids
    · exact Mirror.Copies.ret rfl trivial
  unfold afterAppend
  by_cases hwatch : o.opt.useWatchThread = true
  · simp only [if_pos hwatch]
    exact Mirror.Copies.act fun s t hv _ => ⟨trivial, view_heard hv _ _, hcache⟩
  · simp only [if_neg hwatch]
    exact hcache

theorem appendTxn_rename (cfg : Config) (cd : Codecs T) (cur x : ChainItem T) :
    appendTxn cfg cd (cur.rename R.name) (x.rename R.name) =
      (appendTxn cfg cd cur x).rename R.name := by
  unfold appendTxn
  split <;> rfl

/-- The revision that a transaction of puts answers with. -/
theorem getD_responsePutRevision (rsp : Option ResponseOp) :
    ((rsp.map (ResponseOp.rename R.name)).map responsePutRevision).getD 0 =
      R.name ((rsp.map responsePutRevision).getD 0) := by
  cases rsp with
  | none => exact R.name_zero.symm
  | some r =>
      cases r with
      | responsePut rev => rfl
      | _ => exact R.name_zero.symm

theorem copies_appendAfter {x : ChainItem T} (hid : K.ids cur.id) (hnew : K.ids x.id) :
    (K.mirror R).Copies (fun ok : Bool => ok) (fun _ => True)
      (appendAfter o.cfg o.opt o.cd o.chain cur x)
      (appendAfter o.cfg o.opt o.cd o.chain (cur.rename R.name) (x.rename R.name)) := by
  have hkeys : ∀ k ∈ (appendTxn o.cfg o.cd cur x).keys, K.Owns k := by
    intro k hk
    unfold appendTxn at hk
    split at hk
    · next hsep =>
      simp [TxnRequest.keys, RequestOp.key] at hk
      rcases hk with rfl | rfl | rfl | rfl | rfl | rfl
      · exact owns_chainKey hid
      · exact owns_dataKey hsep hnew
      · exact owns_chainKey hnew
      · exact owns_chainKey hid
      · exact owns_dataKey hsep hnew
      · exact owns_chainKey hnew
    · simp [TxnRequest.keys, RequestOp.key] at hk
      rcases hk with rfl | rfl | rfl | rfl
      · exact owns_chainKey hid
      · exact owns_chainKey hnew
      · exact owns_chainKey hid
      · exact owns_chainKey hnew
  have hlinks : ∀ k v, RequestOp.requestPut k v ∈
      (appendTxn o.cfg o.cd cur x).success ++ (appendTxn o.cfg o.cd cur x).failure →
        K.LinkOk k v := by
    intro k v hput
    unfold appendTxn at hput
    split at hput
    · next hsep =>
      simp at hput
      rcases hput with ⟨rfl, rfl⟩ | ⟨rfl, rfl⟩ | ⟨rfl, rfl⟩
      · exact linkOk_link hsep (.inr hnew)
      · exact linkOk_dataKey hsep hnew
      · exact linkOk_link hsep (.inl rfl)
    · next hsep =>
      simp at hput
      rcases hput with ⟨rfl, rfl⟩ | ⟨rfl, rfl⟩
      · exact linkOk_mapData (by simpa using hsep) (.inr hnew)
      · exact linkOk_mapData (by simpa using hsep) (.inl rfl)
  have hnames : (appendTxn o.cfg o.cd cur x).OnlyNames := by
    unfold appendTxn
    split <;> simp [TxnRequest.OnlyNames]
  refine Mirror.Copies.ite Iff.rfl (fun _ => Mirror.Copies.ret rfl trivial) fun _ => ?_
  refine Mirror.Copies.ite Iff.rfl (fun _ => Mirror.Copies.fail _) fun _ => ?_
  refine Mirror.Copies.ite Iff.rfl (fun _ => Mirror.Copies.fail _) fun _ => ?_
  rw [appendTxn_rename]
  refine Mirror.Copies.bind (copies_txn hkeys hnames hlinks) fun resp _ => ?_
  refine Mirror.Copies.ite Iff.rfl (fun _ => ?_) fun _ => Mirror.Copies.ret rfl trivial
  refine Mirror.Copies.bind (Q := fun _ => True) (f := fun u : Unit => u) ?_ fun _ _ =>
    Mirror.Copies.ret rfl trivial
  rw [TxnResponse.rename, List.getElem?_map, getD_responsePutRevision]
  exact copies_afterAppend hid _ (by simpa using hnew)

theorem appendBatchTxn_rename (cfg : Config) (cd : Codecs T) (cur : ChainItem T)
    (written : List (ChainItem T)) :
    appendBatchTxn cfg cd (cur.rename R.name) written =
      (appendBatchTxn cfg cd cur written).rename R.name := by
  have hversion : ∀ key, Compare.rename R.name ⟨.equal, .version 0, key⟩ =
      ⟨.equal, .version 0, key⟩ := fun _ => rfl
  unfold appendBatchTxn TxnRequest.rename
  split
  · simp only [List.map_cons, List.map_flatMap, List.map_nil, hversion]
    rfl
  · simp only [List.map_cons, List.map_map, Function.comp_def, hversion]
    rfl

/-- What a batch is about, and what it puts. -/
theorem appendBatchTxn_own {written : List (ChainItem T)} (hne : written ≠ [])
    (hid : K.ids cur.id)
    (hnew : ∀ x ∈ written, K.ids x.id ∧ (x.nextID = "" ∨ K.ids x.nextID)) :
    (∀ k ∈ (appendBatchTxn o.cfg o.cd cur written).keys, K.Owns k) ∧
      (appendBatchTxn o.cfg o.cd cur written).OnlyNames ∧
      ∀ k v, RequestOp.requestPut k v ∈ (appendBatchTxn o.cfg o.cd cur written).success ++
        (appendBatchTxn o.cfg o.cd cur written).failure → K.LinkOk k v := by
  have hfirst : K.ids ((written.head?.map ChainItem.id).getD "") := by
    cases written with
    | nil => exact absurd rfl hne
    | cons x l => exact (hnew x List.mem_cons_self).1
  unfold appendBatchTxn
  dsimp only
  split
  · next hsep =>
    refine ⟨fun k hk => ?_, fun c hc n hn => ?_, fun k v hput => ?_⟩
    · simp only [TxnRequest.keys, List.map_cons, List.map_flatMap, List.map_nil, List.append_nil,
        List.filterMap_cons, RequestOp.key, List.filterMap_flatMap, List.filterMap_nil,
        List.cons_append, List.mem_cons, List.mem_append, List.mem_flatMap, List.not_mem_nil,
        or_false] at hk
      rcases hk with rfl | ⟨x, hx, rfl | rfl⟩ | rfl | ⟨x, hx, rfl | rfl⟩
      · exact owns_chainKey hid
      · exact owns_dataKey hsep (hnew x hx).1
      · exact owns_chainKey (hnew x hx).1
      · exact owns_chainKey hid
      · exact owns_dataKey hsep (hnew x hx).1
      · exact owns_chainKey (hnew x hx).1
    · rcases List.mem_cons.mp hc with rfl | hc
      · rfl
      · obtain ⟨x, -, hc⟩ := List.mem_flatMap.mp hc
        simp only [List.mem_cons, List.not_mem_nil, or_false] at hc
        rcases hc with rfl | rfl <;> rfl
    · simp at hput
      rcases hput with ⟨rfl, rfl⟩ | ⟨x, hx, ⟨rfl, rfl⟩ | ⟨rfl, rfl⟩⟩
      · exact linkOk_link hsep (.inr hfirst)
      · exact linkOk_dataKey hsep (hnew x hx).1
      · exact linkOk_link hsep (hnew x hx).2
  · next hsep =>
    obtain ⟨x, hx, hlast⟩ := foldl_overwrite (fun x : ChainItem T => RequestOp.requestPut
      (o.cfg.chainKey x.id) (o.cd.mapData.serialize ⟨x.data.getD default, x.nextID⟩)) written
        .notSet hne
    rw [hlast]
    refine ⟨fun k hk => ?_, fun c hc n hn => ?_, fun k v hput => ?_⟩
    · simp [TxnRequest.keys, RequestOp.key] at hk
      rcases hk with rfl | ⟨y, hy, rfl⟩ | rfl | rfl
      · exact owns_chainKey hid
      · exact owns_chainKey (hnew y hy).1
      · exact owns_chainKey hid
      · exact owns_chainKey (hnew x hx).1
    · rcases List.mem_cons.mp hc with rfl | hc
      · rfl
      · obtain ⟨y, -, rfl⟩ := List.mem_map.mp hc
        rfl
    · simp at hput
      rcases hput with ⟨rfl, rfl⟩ | ⟨rfl, rfl⟩
      · exact linkOk_mapData (by simpa using hsep) (.inr hfirst)
      · exact linkOk_mapData (by simpa using hsep) (hnew x hx).2

theorem copies_appendAfterBatch {items : List (String × T)} (hid : K.ids cur.id)
    (hnew : ∀ x ∈ items, K.ids x.1) :
    (K.mirror R).Copies (fun ok : Bool => ok) (fun _ => True)
      (appendAfterBatch o.cfg o.opt o.cd o.chain cur (formChainItems items))
      (appendAfterBatch o.cfg o.opt o.cd o.chain (cur.rename R.name) (formChainItems items)) := by
  have hitems := names_formChainItems (K := K) hnew
  generalize formChainItems items = written at hitems
  match written with
  | [] => exact Mirror.Copies.ret rfl trivial
  | [x] => exact copies_appendAfter hid (hitems x List.mem_cons_self).1
  | x :: y :: l =>
    obtain ⟨hkeys, hnames, hlinks⟩ := appendBatchTxn_own (List.cons_ne_nil _ _) hid hitems
    refine Mirror.Copies.ite Iff.rfl (fun _ => Mirror.Copies.ret rfl trivial) fun _ => ?_
    refine Mirror.Copies.ite Iff.rfl (fun _ => Mirror.Copies.fail _) fun _ => ?_
    refine Mirror.Copies.ite Iff.rfl (fun _ => Mirror.Copies.fail _) fun _ => ?_
    rw [appendBatchTxn_rename]
    refine Mirror.Copies.bind (copies_txn hkeys hnames hlinks) fun resp _ => ?_
    refine Mirror.Copies.ite Iff.rfl (fun _ => ?_) fun _ => Mirror.Copies.ret rfl trivial
    refine Mirror.Copies.bind (Q := fun _ => True) (f := fun u : Unit => u) ?_ fun _ _ =>
      Mirror.Copies.ret rfl trivial
    rw [TxnResponse.rename, List.getLast?_map, getD_responsePutRevision]
    exact copies_afterAppend hid _ fun z hz => (hitems z hz).1

end

end KeySet

end EtcdChain
