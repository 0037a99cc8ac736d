import TMTransport.EtcdChain.Invariant

/-!
# What a record says

The facts about single answers of etcd that every client rests on: the link
record of an item on the chain, the answer to a transaction that reads an item,
and the answer to the transaction that reads or makes the head.
-/

namespace EtcdChain

open Etcd Interleave LinkedStore

variable {T : Type}

/-- Of a loop that overwrites, the last turn is left. -/
theorem foldl_overwrite {α β : Type} (f : α → β) (l : List α) (b : β) (h : l ≠ []) :
    ∃ x ∈ l, l.foldl (fun _ x => f x) b = f x := by
  obtain ⟨l', x, rfl⟩ := List.eq_nil_or_concat l |>.resolve_left h
  exact ⟨x, by simp⟩

/-- The item `id` may be read as having the data `d`: its own, or the head's. -/
def DataOf (cfg : Config) (H : T → Prop) (log : List (Commit T)) (id : String) (d : T) : Prop :=
  (id = cfg.headKey ∧ H d) ∨ (id ≠ cfg.headKey ∧ (id, d) ∈ appended log)

/-- Nothing comes after `id`. -/
def LastId (cfg : Config) (log : List (Commit T)) (id : String) : Prop :=
  ∃ pre, ids cfg log = pre ++ [id]

/-- `next` is the id after `id`, or empty if there is none. -/
structure Follows (cfg : Config) (log : List (Commit T)) (id next : String) : Prop where
  last : next = "" → LastId cfg log id
  adjacent : next ≠ "" → [id, next] <:+: ids cfg log

variable {cfg : Config} {cd : Codecs T} {H : T → Prop} {s : Store} {log : List (Commit T)}

theorem DataOf.mono {log' : List (Commit T)} {id : String} {d : T} (h : DataOf cfg H log id d)
    (hl : log <+: log') : DataOf cfg H log' id d :=
  h.imp_right (fun h' => ⟨h'.1, (appended_extend hl).subset h'.2⟩)

/-- The ids on the chain, as the list with its head lists them. -/
theorem ids_eq (log : List (Commit T)) (hd : T) :
    ids cfg log = ((cfg.headKey, hd) :: appended log).map Prod.fst := rfl

/-- The id after another one is an item's. -/
theorem mem_of_adjacent (hnd : (ids cfg log).Nodup) {a b : String}
    (h : [a, b] <:+: ids cfg log) : b ∈ (appended log).map Prod.fst ∧ b ≠ cfg.headKey := by
  obtain ⟨pre, post, hp⟩ := h
  unfold ids at hp hnd
  have hb : b ∈ (appended log).map Prod.fst := by
    cases pre with
    | nil =>
        simp only [List.nil_append, List.cons_append, List.cons.injEq] at hp
        rw [← hp.2]; simp
    | cons p pre =>
        simp only [List.cons_append, List.cons.injEq] at hp
        rw [← hp.2]; simp
  exact ⟨hb, fun he => (List.nodup_cons.mp hnd).1 (he ▸ hb)⟩

/-- Once something has been appended, the list hangs after the head. -/
theorem holds_of_there (hi : ChainInv cfg cd H s log) {id : String} (hid : id ∈ ids cfg log)
    (hth : s.kvs (cfg.chainKey id) ≠ none) :
    ∃ hd, H hd ∧ Holds (layout cfg cd) s.value (cfg.headKey, hd) (appended log) := by
  rcases hi.chain with ⟨habs, rfl⟩ | h
  · have : id = cfg.headKey := by simpa [ids, appended] using hid
    rw [this] at hth
    exact absurd habs hth
  · exact h

/-- An item that was appended has its record. -/
theorem there_of_appended (hi : ChainInv cfg cd H s log) {id : String}
    (hid : id ∈ (appended log).map Prod.fst) : s.kvs (cfg.chainKey id) ≠ none := by
  rcases hi.chain with ⟨_, rfl⟩ | ⟨hd, -, hh⟩
  · simp [appended] at hid
  · obtain ⟨x, hx, rfl⟩ := List.mem_map.mp hid
    have := hh.linkKey_bound (List.mem_cons_of_mem _ hx)
    rwa [ne_eq, layout_linkKey, value_eq_none_iff] at this

/-- **The link record** of an item on the chain: its data and the id after it. -/
theorem link_record (hi : ChainInv cfg cd H s log) {id : String} (hid : id ∈ ids cfg log)
    (hth : s.kvs (cfg.chainKey id) ≠ none) :
    ∃ kv d next, s.kvs (cfg.chainKey id) = some kv ∧
      kv.value = (layout cfg cd).linkVal d next ∧ DataOf cfg H log id d ∧
      Follows cfg log id next := by
  obtain ⟨hd, hH, hh⟩ := holds_of_there hi hid hth
  rw [ids_eq log hd] at hid
  obtain ⟨x, hx, rfl⟩ := List.mem_map.mp hid
  obtain ⟨pre, post, hs⟩ := List.append_of_mem hx
  obtain ⟨kv, hkv, hval⟩ := Option.map_eq_some_iff.mp (hh.link hs)
  have hids : ids cfg log = pre.map Prod.fst ++ x.1 :: post.map Prod.fst := by
    rw [ids_eq log hd, hs]; simp
  refine ⟨kv, x.2, (layout cfg cd).frontId post, hkv, hval, ?_, ?_, ?_⟩
  · rcases List.mem_cons.mp hx with rfl | hx'
    · exact Or.inl ⟨rfl, hH⟩
    · refine Or.inr ⟨fun he => ?_, hx'⟩
      have hnd := hh.ids_nodup
      rw [List.map_cons, List.nodup_cons] at hnd
      exact hnd.1 (List.mem_map.mpr ⟨x, hx', he⟩)
  · intro hn
    have hlast := hh.last_of_nil hs hn
    obtain ⟨pre', hpre'⟩ := lastOf_split (cfg.headKey, hd) (appended log)
    refine ⟨pre'.map Prod.fst, ?_⟩
    rw [ids_eq log hd, hpre', hlast]; simp
  · intro hn
    cases post with
    | nil => exact absurd rfl hn
    | cons y post =>
        refine ⟨pre.map Prod.fst, post.map Prod.fst, ?_⟩
        rw [hids]; simp

/-- An item read off its link record is known. -/
theorem known_of_link {it : ChainItem T} {kv : KV} {d : T}
    (hid : it.id ∈ ids cfg log) (hkv : s.kvs (cfg.chainKey it.id) = some kv)
    (hval : kv.value = (layout cfg cd).linkVal d it.nextID)
    (hf : Follows cfg log it.id it.nextID)
    (hdata : ∃ d', it.data = some d' ∧ DataOf cfg H log it.id d')
    (hrev : it.revision ≤ s.revision) : Known cfg cd H it s log := by
  refine ⟨hid, by rw [hkv]; exact Option.some_ne_none kv, hdata, hf.adjacent, hrev, ?_⟩
  intro hn kv' hkv' _
  rw [hkv] at hkv'
  obtain rfl := Option.some.inj hkv'
  rw [hval, nextOf_linkVal, hn]

/-- In separate storage mode an item's data has a key of its own. -/
theorem data_record (hi : ChainInv cfg cd H s log) (hsep : cfg.saveDataOnSeparateStorage = true)
    {id : String} {d : T} (hx : (id, d) ∈ appended log) :
    ∃ kv, s.kvs (cfg.dataKey id) = some kv ∧ kv.value = cd.data.serialize d := by
  rcases hi.chain with ⟨_, rfl⟩ | ⟨hd, -, hh⟩
  · simp [appended] at hx
  · have he := hh.extra hx (r := (cfg.dataKey id, cd.data.serialize d)) (by simp [layout, hsep])
    obtain ⟨kv, hkv, hval⟩ := Option.map_eq_some_iff.mp he
    exact ⟨kv, hkv, hval⟩

theorem appended_unique (hnd : (ids cfg log).Nodup) {id : String} {d d' : T}
    (h : (id, d) ∈ appended log) (h' : (id, d') ∈ appended log) : d = d' := by
  have := List.inj_on_of_nodup_map (List.nodup_cons.mp hnd).2 h h' rfl
  exact (Prod.mk.inj this).2

/-! ## Answers -/

@[simp] theorem acceptable_nil : Acceptable [] := ⟨by simp, by simp [putKeys]⟩

theorem readTxn_reads (id : String) : putKeys (readTxn cfg id).success = [] := rfl

theorem readTxn_answer (id : String) (s : Store) :
    (s.txn (readTxn cfg id)).1 = some ⟨true,
      [.responseRange (s.kvs (cfg.chainKey id)).toList,
        .responseRange (s.kvs (cfg.dataKey id)).toList]⟩ := by
  rw [txn_of_acceptable (by simp [readTxn, Acceptable, putKeys]) (by simp [readTxn])]
  rfl

theorem branch_of_passes {t : TxnRequest} (h : t.passes s = true) : t.branch s = t.success :=
  if_pos h

theorem branch_of_not_passes {t : TxnRequest} (h : ¬ t.passes s = true) : t.branch s = t.failure :=
  if_neg h

theorem headTxn_passes (v : String) :
    (headTxn cfg v).passes s = (s.kvs cfg.headKeyStr).isSome := by
  simp [TxnRequest.passes, headTxn]

theorem headTxn_acceptable (v : String) :
    Acceptable (headTxn cfg v).success ∧ Acceptable (headTxn cfg v).failure := by
  simp [headTxn, Acceptable, putKeys]

/-- If the head is there, the head transaction reads it. -/
theorem headTxn_of_some {v : String} {kv : KV} (h : s.kvs cfg.headKeyStr = some kv) :
    (s.txn (headTxn cfg v)).1 = some ⟨true, [.responseRange [kv]]⟩ ∧
      (s.txn (headTxn cfg v)).2 = s := by
  have hp : (headTxn cfg v).passes s = true := by rw [headTxn_passes, h]; rfl
  refine ⟨?_, txn_readOnly (by rw [branch_of_passes hp]; rfl)⟩
  rw [txn_of_acceptable (headTxn_acceptable v).1 (headTxn_acceptable v).2, branch_of_passes hp, hp]
  simp [headTxn, applyOps, applyOp, h]

/-- If it is not, the transaction makes it. -/
theorem headTxn_of_none {v : String} (h : s.kvs cfg.headKeyStr = none) :
    ∃ kv, kv.value = v ∧ kv.modRevision = s.revision + 1 ∧
      s.txn (headTxn cfg v) =
        (some ⟨false, [.responsePut (s.revision + 1), .responseRange [kv]]⟩,
          ⟨s.revision + 1, Function.update s.kvs cfg.headKeyStr (some kv),
            s.keys ++ [cfg.headKeyStr]⟩) := by
  have hp : ¬ (headTxn cfg v).passes s = true := by rw [headTxn_passes, h]; simp
  refine ⟨⟨v, s.revision + 1, 1, Nat.one_pos⟩, rfl, rfl, ?_⟩
  rw [txn_of_acceptable (headTxn_acceptable v).1 (headTxn_acceptable v).2,
    branch_of_not_passes hp, Bool.eq_false_iff.mpr hp]
  simp [headTxn, applyOps, applyOp, putKeys, h]

/-- Making the head with a right record starts the chain. -/
theorem chainInv_head {s' : Store} (hi : ChainInv cfg cd H s log)
    (hnone : s.kvs cfg.headKeyStr = none) {kv : KV} {d : T}
    (hsound : s'.Sound) (hkvs : s'.kvs = Function.update s.kvs cfg.headKeyStr (some kv))
    (hval : kv.value = (layout cfg cd).linkVal d "") (hd : H d) :
    ChainInv cfg cd H s' log ∧ log = [] := by
  have hlog : log = [] := by
    rcases hi.chain with ⟨_, h⟩ | ⟨hd', -, hh⟩
    · exact h
    · refine absurd hnone ?_
      have := hh.linkKey_bound (List.mem_cons_self ..)
      rwa [ne_eq, layout_linkKey, value_eq_none_iff] at this
  subst hlog
  refine ⟨⟨hsound, Or.inr ⟨d, hd, ?_⟩, ?_, by simp, by simp, by simp, by simp⟩, rfl⟩
  · refine Holds.empty ?_
    rw [layout_linkKey, Store.value, hkvs]
    show Option.map KV.value (Function.update s.kvs cfg.headKeyStr (some kv) cfg.headKeyStr) = _
    rw [Function.update_self]
    exact congrArg some hval
  · intro k hk
    by_cases he : k = cfg.headKeyStr
    · exact Or.inl ⟨cfg.headKey, by simp [ids], he⟩
    · rw [hkvs, Function.update_of_ne he] at hk
      exact hi.only k hk

end EtcdChain
