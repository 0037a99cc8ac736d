import TMTransport.EtcdChain.Filled
import TMTransport.EtcdChain.CrossLanguage

/-!
# The calls that do not tell the difference

Every call but `start` of TypeScript and Python is blind. An empty record is no record of
an item that any of them would make, and so is one reason more to throw.
-/

namespace EtcdChain

open Etcd Interleave

variable {T : Type} {v : String} [Inhabited T]

section Calls

variable {cfg : Config} {cd : Codecs T} {opt : Options}

theorem filled_readTxn (id : String) :
    (readTxn cfg id).Filled ∧ (Script.readTxn cfg id).Filled := by
  have hcompare : ∀ c ∈ (Script.readTxn cfg id).compare, ∀ w, c.target ≠ .value w := by
    intro c hc w
    rw [Script.readTxn, List.mem_singleton] at hc
    rw [hc]
    exact fun h => by cases h
  refine ⟨⟨fun c hc => (by cases hc), fun k w hw => ?_⟩, ⟨hcompare, fun k w hw => ?_⟩⟩
  · simp [readTxn] at hw
  · unfold Script.readTxn at hw
    split at hw <;> simp at hw

theorem filled_headTxn {value : String} (h : value ≠ "") : (headTxn cfg value).Filled := by
  refine ⟨fun c hc w => ?_, fun k w hw => ?_⟩
  · obtain rfl := List.mem_singleton.mp hc
    exact fun h => by cases h
  · simp only [headTxn, List.cons_append, List.nil_append, List.mem_cons, reduceCtorEq,
      RequestOp.requestPut.injEq, false_or, or_false, List.not_mem_nil] at hw
    rw [hw.2]
    exact h

variable (hsep : cfg.saveDataOnSeparateStorage = false)

include hsep

theorem filled_appendTxn (cur it : ChainItem T) (id : String) (d : T) :
    (appendTxn cfg cd cur it).Filled ∧ (Script.appendTxn cfg cd cur id d).Filled := by
  constructor
  · refine ⟨fun c hc w => ?_, fun k w hw => ?_⟩
    · simp only [appendTxn, hsep, Bool.false_eq_true, if_false, List.mem_cons, List.not_mem_nil,
        or_false] at hc
      rcases hc with rfl | rfl <;> exact fun h => by cases h
    · simp only [appendTxn, hsep, Bool.false_eq_true, if_false, List.append_nil, List.mem_cons,
        RequestOp.requestPut.injEq, List.not_mem_nil, or_false] at hw
      rcases hw with ⟨-, rfl⟩ | ⟨-, rfl⟩ <;> exact cd.mapData_ne _
  · refine ⟨fun c hc w => ?_, fun k w hw => ?_⟩
    · simp only [Script.appendTxn, hsep, Bool.false_eq_true, if_false, List.mem_cons,
        List.not_mem_nil, or_false] at hc
      rcases hc with rfl | rfl <;> exact fun h => by cases h
    · simp only [Script.appendTxn, hsep, Bool.false_eq_true, if_false, List.append_nil,
        List.mem_cons, RequestOp.requestPut.injEq, List.not_mem_nil, or_false] at hw
      rcases hw with ⟨-, rfl⟩ | ⟨-, rfl⟩ <;> exact cd.mapData_ne _

theorem filled_appendBatchTxn (cur : ChainItem T) (its : List (ChainItem T)) :
    (appendBatchTxn cfg cd cur its).Filled := by
  refine ⟨fun c hc w => ?_, fun k w hw => ?_⟩
  · simp only [appendBatchTxn, hsep, Bool.false_eq_true, if_false, List.mem_cons,
      List.mem_map] at hc
    rcases hc with rfl | ⟨x, -, rfl⟩ <;> exact fun h => by cases h
  · simp only [appendBatchTxn, hsep, Bool.false_eq_true, if_false, List.append_nil,
      List.mem_cons, RequestOp.requestPut.injEq, List.not_mem_nil, or_false] at hw
    rcases hw with ⟨-, rfl⟩ | hw
    · exact cd.mapData_ne _
    · -- of the puts of the loop the last one is left, if there is one
      by_cases hne : its = []
      · rw [hne] at hw
        cases hw
      · obtain ⟨x, -, hx⟩ := foldl_overwrite (fun x : ChainItem T =>
          RequestOp.requestPut (cfg.chainKey x.id)
            (cd.mapData.serialize ⟨x.data.getD default, x.nextID⟩)) its .notSet hne
        rw [hx, RequestOp.requestPut.injEq] at hw
        rw [hw.2]
        exact cd.mapData_ne _

theorem emptyHeadDataStr_eq : emptyHeadDataStr cfg cd = cd.mapData.serialize ⟨default, ""⟩ := by
  rw [emptyHeadDataStr, hsep]
  rfl

theorem emptyHeadDataStr_ne : emptyHeadDataStr cfg cd ≠ "" := by
  rw [emptyHeadDataStr_eq hsep]
  exact cd.mapData_ne _

/-! ### C++ -/

omit [Inhabited T] hsep in
theorem blind_itemFromRedis (id : String) : Blind v (itemFromRedis cfg cd id) :=
  ⟨trivial, fun _ => ⟨trivial, .inl rfl⟩⟩

variable (hparse : cd.mapData.parse "" = none)

include hparse

theorem blind_headFromEtcd : Blind (emptyHeadDataStr cfg cd) (headFromEtcd cfg cd) := by
  refine (blind_txns (filled_headTxn (emptyHeadDataStr_ne hsep)) (fun resp => ?_)
    fun resp => .inl ?_).1
  · split
    · trivial
    · split <;> trivial
  · rw [responses_fill]
    cases resp.responses[if resp.succeeded then 0 else 1]? with
    | none => rfl
    | some rsp =>
        simp only [Option.map_some, responseRange_fill]
        cases responseRange rsp with
        | nil => rfl
        | cons kv l =>
            simp only [List.map_cons, headItem, hsep, Bool.false_eq_true, if_false,
              KV.fill_modRevision]
            by_cases hkv : kv.value = ""
            · rw [KV.fill_of_eq hkv, hkv, hparse]
              dsimp only
              rw [emptyHeadDataStr_eq hsep, cd.mapData.parse_serialize]
            · rw [KV.fill_of_ne hkv]

theorem blind_itemFromEtcd (who id : String) :
    Blind (emptyHeadDataStr cfg cd) (itemFromEtcd cfg cd who id) := by
  unfold itemFromEtcd
  rw [if_neg (by rw [hsep]; exact Bool.false_ne_true)]
  refine (blind_ranges (fun kvs => ?_) (fun kv l l' => rfl) fun kv l hkv => .inr ?_).1
  · split
    · trivial
    · split <;> trivial
  · simp only [hkv, hparse]
    exact ⟨_, rfl⟩

theorem blind_nextIDFromEtcd (cur : ChainItem T) :
    Blind (emptyHeadDataStr cfg cd) (nextIDFromEtcd cfg cd cur) := by
  refine Blind.ite (fun _ => ?_) fun _ => trivial
  refine (blind_ranges (fun kvs => ?_) (fun kv l l' => rfl) fun kv l hkv => .inr ?_).1
  · simp only [hsep, Bool.false_eq_true, if_false]
    split
    · trivial
    · split <;> trivial
  · simp only [hsep, Bool.false_eq_true, if_false, hkv, hparse]
    exact ⟨_, rfl⟩

theorem blind_head : Blind (emptyHeadDataStr cfg cd) (head cfg opt cd) := by
  refine Blind.ite (fun _ => ?_) fun _ => blind_headFromEtcd hsep hparse
  refine (blind_itemFromRedis _).bind fun r => ?_
  cases r with
  | none => exact blind_headFromEtcd hsep hparse
  | some it => trivial

theorem blind_loadUntil (id : String) :
    Blind (emptyHeadDataStr cfg cd) (loadUntil cfg opt cd id) := by
  refine Blind.ite (fun _ => blind_head hsep hparse) fun _ => ?_
  refine Blind.ite (fun _ => ?_) fun _ => blind_itemFromEtcd hsep hparse _ _
  refine (blind_itemFromRedis _).bind fun r => ?_
  cases r with
  | none => exact blind_itemFromEtcd hsep hparse _ _
  | some it => trivial

theorem blind_fetchNext (chain : Nat) (cur : ChainItem T) :
    Blind (emptyHeadDataStr cfg cd) (fetchNext cfg opt cd chain cur) := by
  have hredis : Blind (emptyHeadDataStr cfg cd) (fetchNextFromRedis cfg opt cd cur) := by
    refine Blind.ite (fun _ => ?_) fun _ => trivial
    refine Blind.ite (fun _ => blind_itemFromRedis _) fun _ => ?_
    refine (blind_itemFromRedis _).bind fun r => ?_
    cases r with
    | none => trivial
    | some it => exact Blind.ite (fun _ => blind_itemFromRedis _) fun _ => trivial
  have hetcd : Blind (emptyHeadDataStr cfg cd) (fetchNextFromEtcd cfg cd cur) := by
    refine (blind_nextIDFromEtcd hsep hparse cur).bind fun nextID => ?_
    refine Blind.ite (fun _ => ?_) fun _ => trivial
    exact (blind_itemFromEtcd hsep hparse _ _).bind fun _ => trivial
  refine Blind.bind ?_ fun upToDate => ?_
  · exact Blind.ite (fun _ => ⟨trivial, fun _ => ⟨trivial, .inl rfl⟩⟩) fun _ => trivial
  · refine Blind.ite (fun _ => trivial) fun _ => hredis.bind fun r => ?_
    cases r with
    | none => exact hetcd
    | some it => trivial

omit hparse

omit [Inhabited T] hsep in
theorem blind_duplicateToRedisAs (arg : KeyArg) (rev : Nat) (id : String) (d : T)
    (next : String) : Blind v (duplicateToRedisAs arg cfg opt cd rev id d next) :=
  ⟨trivial, fun _ => ⟨trivial, .inl rfl⟩⟩

omit hsep in
theorem blind_duplicateBatch (rev : Nat) (its : List (ChainItem T)) :
    Blind v (duplicateBatch cfg opt cd rev its) := by
  induction its with
  | nil => trivial
  | cons x its ih =>
      cases its with
      | nil => trivial
      | cons y l => exact (blind_duplicateToRedisAs _ _ _ _ _).bind fun _ => ih

omit hsep in
theorem blind_afterAppend (chain rev : Nat) (cur : ChainItem T) (its : List (ChainItem T)) :
    Blind v (afterAppend cfg opt cd chain rev cur its) := by
  have hdup : Blind v (do
      if opt.automaticallyDuplicateToRedis then
        duplicateToRedis cfg opt cd rev cur.id (cur.data.getD default)
          ((its.head?.map ChainItem.id).getD "")
        duplicateBatch cfg opt cd rev its) :=
    Blind.ite (fun _ => (blind_duplicateToRedisAs _ _ _ _ _).bind fun _ =>
      blind_duplicateBatch rev its) fun _ => trivial
  unfold afterAppend
  refine Blind.ite (fun _ => ?_) fun _ => hdup
  exact ⟨trivial, fun _ => ⟨hdup, .inl rfl⟩⟩

theorem blind_appendAfter (chain : Nat) (cur it : ChainItem T) :
    Blind v (appendAfter cfg opt cd chain cur it) := by
  refine Blind.ite (fun _ => trivial) fun _ => Blind.ite (fun _ => trivial) fun _ =>
    Blind.ite (fun _ => trivial) fun _ => ?_
  refine (blind_txns (filled_appendTxn hsep cur it "" default).1 (fun resp => ?_)
    fun resp => .inl ?_).1
  · exact Blind.ite (fun _ => (blind_afterAppend _ _ _ _).bind fun _ => trivial) fun _ => trivial
  · simp only [TxnResponse.fill, List.getElem?_map, responsePutRevision_fill]

theorem blind_appendAfterBatch (chain : Nat) (cur : ChainItem T) (its : List (ChainItem T)) :
    Blind v (appendAfterBatch cfg opt cd chain cur its) := by
  unfold appendAfterBatch
  split
  · trivial
  · exact blind_appendAfter hsep chain cur _
  · refine Blind.ite (fun _ => trivial) fun _ => Blind.ite (fun _ => trivial) fun _ =>
      Blind.ite (fun _ => trivial) fun _ => ?_
    refine (blind_txns (filled_appendBatchTxn hsep cur _) (fun resp => ?_) fun resp => .inl ?_).1
    · exact Blind.ite (fun _ => (blind_afterAppend _ _ _ _).bind fun _ => trivial) fun _ => trivial
    · simp only [TxnResponse.fill, List.getLast?_map, responsePutRevision_fill]

/-! ### TypeScript and Python -/

omit [Inhabited T] hsep in
theorem Script.blind_fromRedis (lang : Lang) (id : String) :
    Blind v (Script.fromRedis lang cfg cd id) := by
  refine ⟨trivial, fun r => ⟨?_, .inl rfl⟩⟩
  cases r with
  | none => trivial
  | some reply =>
      simp only [Prog.ret_bind]
      cases cd.redis.parse reply with
      | none => cases lang <;> trivial
      | some parsed => trivial

include hparse

omit [Inhabited T] hsep in
theorem Script.blind_itemOfMapData (id : String) :
    (∀ kvs, Blind v (Script.itemOfMapData cd id kvs)) ∧
      (∀ kv l l', Script.itemOfMapData cd id (kv :: l) = Script.itemOfMapData cd id (kv :: l')) ∧
      ∀ kv l, kv.value = "" → ∃ e, Script.itemOfMapData cd id (kv :: l) = .fail e := by
  refine ⟨fun kvs => ?_, fun kv l l' => rfl, fun kv l hkv => ?_⟩
  · unfold Script.itemOfMapData
    split
    · trivial
    · split <;> trivial
  · simp only [Script.itemOfMapData, hkv, hparse]
    exact ⟨_, rfl⟩

omit [Inhabited T] in
theorem Script.blind_itemFromEtcd (id : String) : Blind v (Script.itemFromEtcd cfg cd id) := by
  obtain ⟨hblind, hrest, hempty⟩ := Script.blind_itemOfMapData (v := v) hparse id
  refine (blind_txns (filled_readTxn id).2 (fun resp => ?_) fun resp => ?_).2.1
  · simp only [hsep, Bool.false_eq_true, if_false]
    exact Blind.ite (fun _ => (hblind _).bind fun _ => trivial) fun _ => trivial
  · have hhead : ((resp.fill v).responses.head?.map responseRange).getD [] =
        ((resp.responses.head?.map responseRange).getD []).map (KV.fill v) := by
      simp only [TxnResponse.fill, List.head?_map]
      cases resp.responses.head? with
      | none => rfl
      | some rsp => exact responseRange_fill rsp
    simp only [hsep, Bool.false_eq_true, if_false, hhead]
    by_cases hok : resp.succeeded = true
    · have hok' : (resp.fill v).succeeded = true := hok
      rw [if_pos hok, if_pos hok']
      rcases blind_first hrest (fun kv l hkv => .inr (hempty kv l hkv))
        ((resp.responses.head?.map responseRange).getD []) with heq | ⟨e, he⟩
      · exact .inl (by rw [heq])
      · exact .inr ⟨e, by rw [he]; rfl⟩
    · have hok' : ¬ (resp.fill v).succeeded = true := hok
      rw [if_neg hok, if_neg hok']
      exact .inl rfl

omit [Inhabited T] in
theorem Script.blind_tryLoadUntil (lang : Lang) (id : String) :
    Blind v (Script.tryLoadUntil lang cfg opt cd id) := by
  refine Blind.ite (fun _ => ?_) fun _ => Script.blind_itemFromEtcd hsep hparse id
  refine (Script.blind_fromRedis lang id).bind fun r => ?_
  cases r with
  | none => exact Script.blind_itemFromEtcd hsep hparse id
  | some it => trivial

omit hparse in
theorem Script.blind_nextIDFromEtcd (cur : ChainItem T) :
    Blind (emptyHeadDataStr cfg cd) (Script.nextIDFromEtcd cfg cd cur) := by
  refine Blind.ite (fun _ => ?_) fun _ => trivial
  refine (blind_ranges (fun kvs => ?_) (fun kv l l' => rfl) fun kv l hkv => .inl ?_).1
  · simp only [hsep, Bool.false_eq_true, if_false]
    split
    · trivial
    · refine Blind.ite (fun _ => trivial) fun _ => ?_
      split <;> trivial
  · simp only [hsep, Bool.false_eq_true, if_false, hkv, if_true, KV.fill_of_eq hkv,
      emptyHeadDataStr_eq hsep, cd.mapData_ne, cd.mapData.parse_serialize]

theorem Script.blind_next (lang : Lang) (cur : ChainItem T) :
    Blind (emptyHeadDataStr cfg cd) (Script.next lang cfg opt cd cur) := by
  have hredis : Blind (emptyHeadDataStr cfg cd) (Script.nextFromRedis lang cfg opt cd cur) := by
    refine Blind.ite (fun _ => ?_) fun _ => trivial
    refine Blind.ite (fun _ => ?_) fun _ => Script.blind_fromRedis lang _
    refine (Script.blind_fromRedis lang _).bind fun r => ?_
    cases r with
    | none => trivial
    | some it => exact Blind.ite (fun _ => Script.blind_fromRedis lang _) fun _ => trivial
  refine hredis.bind fun r => ?_
  cases r with
  | some it => trivial
  | none =>
      refine (Script.blind_nextIDFromEtcd hsep cur).bind fun nextID => ?_
      refine Blind.ite (fun _ => trivial) fun _ => ?_
      rw [if_neg (by rw [hsep]; exact Bool.false_ne_true)]
      obtain ⟨hblind, hrest, hempty⟩ :=
        Script.blind_itemOfMapData (v := emptyHeadDataStr cfg cd) hparse nextID
      refine (blind_ranges (fun kvs => ?_) (fun kv l l' => ?_) fun kv l hkv => .inr ?_).1
      · exact (hblind kvs).bind fun _ => trivial
      · exact congrArg (Prog.bind · _) (hrest kv l l')
      · obtain ⟨e, he⟩ := hempty kv l hkv
        exact ⟨e, congrArg (Prog.bind · _) he⟩

theorem Script.blind_tryAppend (lang : Lang) (cur : ChainItem T) (id : String) (d : T) :
    Blind (emptyHeadDataStr cfg cd) (Script.tryAppend lang cfg opt cd cur id d) := by
  refine (Script.blind_next hsep hparse lang cur).bind fun r => ?_
  cases r with
  | some it => trivial
  | none =>
      refine Blind.bind (α := Bool × ChainItem T) ?_ fun _ => trivial
      refine (blind_txns (filled_appendTxn hsep cur cur id d).2 (fun resp => ?_)
        fun resp => .inl ?_).2.1
      · refine Blind.ite (fun _ => ?_) fun _ => trivial
        dsimp only
        exact Blind.ite (fun _ => (blind_duplicateToRedisAs _ _ _ _ _).bind fun _ => trivial)
          fun _ => trivial
      · simp only [TxnResponse.fill, List.getElem?_map, responsePutRevision_fill]

/-! ### C# -/

omit [Inhabited T] hsep hparse in
theorem DotNet.blind_fromRedis (id : String) : Blind v (DotNet.fromRedis cfg cd id) :=
  ⟨trivial, fun _ => ⟨trivial, .inl rfl⟩⟩

omit [Inhabited T] hparse in
theorem DotNet.blind_headFromEtcd (d : T) : Blind v (DotNet.headFromEtcd cfg cd d) := by
  have hne : DotNet.emptyHeadData cfg cd d ≠ "" := by
    rw [DotNet.emptyHeadData, hsep]
    exact cd.mapData_ne _
  have hitem : ∀ created kv, Blind v (DotNet.headItem cfg cd d created kv) := by
    intro created kv
    exact Blind.ite (fun _ => trivial) fun _ => Blind.ite (fun _ => trivial) fun _ =>
      Blind.ite (fun _ => trivial) fun _ => trivial
  refine (blind_txns (filled_headTxn hne) (fun resp => ?_) fun resp => ?_).2.2
  · split
    · trivial
    · split
      · trivial
      · exact hitem _ _
  · rw [responses_fill]
    cases resp.responses[if resp.succeeded then 0 else 1]? with
    | none => exact .inl rfl
    | some rsp =>
        simp only [Option.map_some, responseRange_fill]
        cases responseRange rsp with
        | nil => exact .inl rfl
        | cons kv l =>
            simp only [List.map_cons]
            by_cases hkv : kv.value = ""
            · -- a head that has just been made is not looked at, any other one is not empty
              simp only [DotNet.headItem, hsep, KV.fill_modRevision, hkv, if_true,
                Bool.false_eq_true, if_false]
              by_cases hok : resp.succeeded = true
              · refine .inr ⟨DotNet.dataIsEmpty, ?_⟩
                simp [hok]
              · refine .inl ?_
                have hok : resp.succeeded = false := by simpa using hok
                have hok' : (resp.fill v).succeeded = false := hok
                simp [hok, hok']
            · exact .inl (by rw [KV.fill_of_ne hkv]; rfl)

omit [Inhabited T] in
theorem DotNet.blind_itemFromEtcd (who id : String) :
    Blind v (DotNet.itemFromEtcd cfg cd who id) := by
  unfold DotNet.itemFromEtcd
  rw [if_neg (by rw [hsep]; exact Bool.false_ne_true)]
  refine (blind_ranges (fun kvs => ?_) (fun kv l l' => rfl) fun kv l hkv => .inr ?_).2
  · split
    · trivial
    · split <;> trivial
  · simp only [hkv, hparse]
    exact ⟨_, rfl⟩

omit [Inhabited T] in
theorem DotNet.blind_nextIDFromEtcd (cur : ChainItem T) :
    Blind v (DotNet.nextIDFromEtcd cfg cd cur) := by
  refine Blind.ite (fun _ => ?_) fun _ => trivial
  refine (blind_ranges (fun kvs => ?_) (fun kv l l' => rfl) fun kv l hkv => .inr ?_).2
  · simp only [hsep, Bool.false_eq_true, if_false]
    split
    · trivial
    · split <;> trivial
  · simp only [hsep, Bool.false_eq_true, if_false, hkv, hparse]
    exact ⟨_, rfl⟩

omit [Inhabited T] hparse in
theorem DotNet.blind_head (d : T) : Blind v (DotNet.head cfg opt cd d) := by
  refine Blind.ite (fun _ => ?_) fun _ => DotNet.blind_headFromEtcd hsep d
  refine (DotNet.blind_fromRedis _).bind fun r => ?_
  cases r with
  | none => exact DotNet.blind_headFromEtcd hsep d
  | some it => trivial

omit [Inhabited T] in
theorem DotNet.blind_loadUntil (id : String) (d : T) :
    Blind v (DotNet.loadUntil cfg opt cd id d) := by
  refine Blind.ite (fun _ => DotNet.blind_head hsep d) fun _ => ?_
  refine Blind.ite (fun _ => ?_) fun _ => DotNet.blind_itemFromEtcd hsep hparse _ _
  refine (DotNet.blind_fromRedis _).bind fun r => ?_
  cases r with
  | none => exact DotNet.blind_itemFromEtcd hsep hparse _ _
  | some it => trivial

omit [Inhabited T] in
theorem DotNet.blind_fetchNext (cur : ChainItem T) : Blind v (DotNet.fetchNext cfg opt cd cur) := by
  have hredis : Blind v (DotNet.fetchNextFromRedis cfg opt cd cur) := by
    refine Blind.ite (fun _ => ?_) fun _ => trivial
    refine Blind.ite (fun _ => DotNet.blind_fromRedis _) fun _ => ?_
    refine (DotNet.blind_fromRedis _).bind fun r => ?_
    cases r with
    | none => trivial
    | some it => exact Blind.ite (fun _ => DotNet.blind_fromRedis _) fun _ => trivial
  refine hredis.bind fun r => ?_
  cases r with
  | some it => trivial
  | none =>
      refine (DotNet.blind_nextIDFromEtcd hsep hparse cur).bind fun nextID => ?_
      refine Blind.ite (fun _ => ?_) fun _ => trivial
      exact (DotNet.blind_itemFromEtcd hsep hparse _ _).bind fun _ => trivial

omit hparse in
theorem DotNet.blind_appendAfter (cur it : ChainItem T) :
    Blind v (DotNet.appendAfter cfg opt cd cur it) := by
  refine Blind.ite (fun _ => trivial) fun _ => Blind.ite (fun _ => trivial) fun _ => ?_
  refine (blind_txns (filled_appendTxn hsep cur it "" default).1 (fun resp => ?_)
    fun resp => .inl ?_).2.2
  · refine Blind.ite (fun _ => ?_) fun _ => trivial
    dsimp only
    exact Blind.ite (fun _ => (blind_duplicateToRedisAs _ _ _ _ _).bind fun _ => trivial)
      fun _ => trivial
  · simp only [TxnResponse.fill, List.getElem?_map, responsePutRevision_fill]

/-- **Every call but `start` is blind.** -/
theorem blind_body (opts : Nat → Options) {c : Req T} (hc : c.isStart = false) :
    Blind (emptyHeadDataStr cfg cd) (body cfg opts cd c) := by
  cases c with
  | head chain => exact (blind_head hsep hparse).bind fun _ => trivial
  | loadUntil chain id => exact (blind_loadUntil hsep hparse id).bind fun _ => trivial
  | fetchNext chain cur => exact (blind_fetchNext hsep hparse chain cur).bind fun _ => trivial
  | appendAfter chain cur id d => exact (blind_appendAfter hsep chain cur _).bind fun _ => trivial
  | appendAfterBatch chain cur l =>
      exact (blind_appendAfterBatch hsep chain cur _).bind fun _ => trivial
  | start lang chain d => cases hc
  | tryLoadUntil lang chain id =>
      exact (Script.blind_tryLoadUntil hsep hparse lang id).bind fun _ => trivial
  | next lang chain cur => exact (Script.blind_next hsep hparse lang cur).bind fun _ => trivial
  | tryAppend lang chain cur id d =>
      refine (Script.blind_tryAppend hsep hparse lang cur id d).bind fun r => ?_
      cases r <;> trivial
  | dotNetHead chain d => exact (DotNet.blind_head hsep d).bind fun _ => trivial
  | dotNetLoadUntil chain id d =>
      exact (DotNet.blind_loadUntil hsep hparse id d).bind fun _ => trivial
  | dotNetFetchNext chain cur =>
      exact (DotNet.blind_fetchNext hsep hparse cur).bind fun _ => trivial
  | dotNetAppendAfter chain cur id d =>
      exact (DotNet.blind_appendAfter hsep cur _).bind fun _ => trivial

end Calls

end EtcdChain
