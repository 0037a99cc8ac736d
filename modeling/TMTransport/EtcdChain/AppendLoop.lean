import TMTransport.Library.Loop
import TMTransport.EtcdChain.EmptyHead

/-!
# `append` of TypeScript and Python

`append` repeats `tryAppend` until it says true. `tryAppend` says false to a client that has
lost a race and to a client whose new id is taken alike; the first will do better next time,
the second will not. So the loop ends, with nobody else about, only where the first turn that
reaches the end of the chain goes through, or where etcd rejects its transaction.
-/

namespace EtcdChain

open Etcd Interleave LinkedStore

variable {T : Type}

/-! ## A client that is left alone -/

/-- Some entries of the cache expire. -/
def State.expire (gone : String → Bool) (s : State) : State :=
  { s with redis := fun key => if gone key then none else s.redis key }

/-- An operation of a client that is left alone. Before the `n`-th one the cache loses the
entries under the keys that `gone n` says, which is nobody's doing. -/
def State.stepAlone (cfg : Config) (gone : Nat → String → Bool) (o : Op) (s : State × Nat) :
    o.Res × (State × Nat) :=
  let r := State.step cfg o (s.1.expire (gone s.2))
  (r.1, (r.2, s.2 + 1))

namespace Script

/-- A turn of the loop of `append`: to the next item, or to the end of a `tryAppend`, after
which it starts over unless that has appended the item. -/
def appendTurn [Inhabited T] (lang : Lang) (cfg : Config) (opt : Options) (cd : Codecs T)
    (newID : String) (newData : T) (current : ChainItem T) :
    Call (ChainItem T ⊕ ChainItem T) := do
  match ← tryAppend lang cfg opt cd current newID newData with
  | .inl item => return .inl item
  | .inr (true, item) => return .inr item
  | .inr (false, item) => return .inl item

/-- `append`, for a number of turns at most. It leaves the client at the item it returns. -/
def append [Inhabited T] (lang : Lang) (cfg : Config) (opt : Options) (cd : Codecs T)
    (fuel : Nat) (current : ChainItem T) (newID : String) (newData : T) :
    Call (Option (ChainItem T)) :=
  Prog.loop (appendTurn lang cfg opt cd newID newData) fuel current

end Script

/-- `append` puts one key twice, which etcd rejects. -/
def PutsTwice (cfg : Config) (id newID : String) : Prop :=
  newID = id ∨ cfg.saveDataOnSeparateStorage = true ∧
    (cfg.dataKey newID = cfg.chainKey id ∨ cfg.dataKey newID = cfg.chainKey newID)

/-- The records that `append` makes are not there yet. -/
structure Free (cfg : Config) (s : Store) (newID : String) : Prop where
  link : s.kvs (cfg.chainKey newID) = none
  data : cfg.saveDataOnSeparateStorage = true → s.kvs (cfg.dataKey newID) = none

/-- The id at the end of the chain. -/
def lastID (cfg : Config) (log : List (Commit T)) : String :=
  ((appended log).map Prod.fst).getLastD cfg.headKey

/-- The item carries the revision of its record. -/
def Current (cfg : Config) (s : Store) (it : ChainItem T) : Prop :=
  ∀ kv, s.kvs (cfg.chainKey it.id) = some kv → kv.modRevision = it.revision

variable [Inhabited T] {cfg : Config} {cd : Codecs T}

/-! ## Stores in which nothing is empty -/

theorem fill_eq_of_holds {s : Store} {hd : T} {x : String × T} {l : List (String × T)}
    (hempty : cfg.saveDataOnSeparateStorage = false → ∀ k kv, s.kvs k = some kv →
      kv.value = "" → k = cfg.headKeyStr)
    (hh : Holds (layout cfg cd) (s.fill (emptyHeadDataStr cfg cd)).value (cfg.headKey, hd)
      (x :: l)) : s.fill (emptyHeadDataStr cfg cd) = s := by
  by_cases hsep : cfg.saveDataOnSeparateStorage = true
  · rw [emptyHeadDataStr, if_pos hsep, Store.fill_empty]
  · have hsep : cfg.saveDataOnSeparateStorage = false := by simpa using hsep
    refine Store.fill_of_ne fun k kv hk hnil => ?_
    obtain rfl := hempty hsep k kv hk hnil
    -- the head names the first item, which an empty head does not
    have hlink := hh.link (show (cfg.headKey, hd) :: x :: l = [] ++ (cfg.headKey, hd) :: x :: l
      from rfl)
    rw [layout_linkKey, show cfg.chainKey cfg.headKey = cfg.headKeyStr from rfl, Store.value,
      Store.fill_kvs, hk, Option.map_some, Option.map_some, linkVal_default hsep kv hnil,
      Layout.frontId_cons] at hlink
    have hof := congrArg (nextOf cfg cd) (Option.some.inj hlink)
    rw [nextOf_linkVal, nextOf_linkVal] at hof
    exact hh.named x List.mem_cons_self (Option.some.inj hof).symm

/-- Once something has been appended, there is nothing to fill in. -/
theorem Stands.fill_eq {s : State} {log : List (Commit T)}
    (h : Stands cfg cd (fun _ => True) s log) (hne : appended log ≠ []) :
    s.etcd.fill (emptyHeadDataStr cfg cd) = s.etcd := by
  obtain ⟨x, l, hxl⟩ := List.exists_cons_of_ne_nil hne
  rcases h.chain.chain with ⟨-, rfl⟩ | ⟨hd, -, hh⟩
  · exact absurd rfl hne
  · rw [hxl] at hh
    exact fill_eq_of_holds h.empty hh

theorem Stands.expire {s : State} {log : List (Commit T)}
    (h : Stands cfg cd (fun _ => True) s log) (gone : String → Bool) :
    Stands cfg cd (fun _ => True) (s.expire gone) log := by
  refine ⟨h.chain, cacheInv_mono h.cache (List.prefix_refl _) (Nat.le_refl _) (fun _ hk => hk) ?_,
    h.empty⟩
  intro key v hv
  change (if gone key then none else s.redis key) = some v at hv
  split at hv
  · cases hv
  · exact hv

/-! ## Reading, alone -/

section Reading

variable {gone : Nat → String → Bool} {e : Store} {log : List (Commit T)}
  {s : State × Nat} {cur : ChainItem T}

/-- The client has not written yet. -/
structure Waiting (cfg : Config) (cd : Codecs T) (e : Store) (log : List (Commit T))
    (s : State × Nat) : Prop where
  etcd : s.1.etcd = e
  stands : Stands cfg cd (fun _ => True) s.1 log

/-- What the client knows of an item. -/
abbrev KnownTo (cfg : Config) (cd : Codecs T) (e : Store) (log : List (Commit T))
    (it : ChainItem T) : Prop :=
  Known cfg cd (fun _ => True) it (e.fill (emptyHeadDataStr cfg cd)) log

/-- A client that reads finds what there is. -/
theorem Waiting.reads (h : Waiting cfg cd e log s) {o : Op}
    (ho : ∀ s, (State.step cfg o s).2 = s) {α : Type} {k : o.Res → Call α}
    {Q : α → State × Nat → Prop} {E : String → State × Nat → Prop}
    (hk : ∀ s', Waiting cfg cd e log s' →
      (k (State.step cfg o s'.1).1).Ends (State.stepAlone cfg gone) s' Q E) :
    (Prog.act o k).Ends (State.stepAlone cfg gone) s Q E := by
  refine Prog.ends_act ?_
  have h' : Waiting cfg cd e log (s.1.expire (gone s.2), s.2 + 1) :=
    ⟨h.etcd, h.stands.expire _⟩
  have hs' : (State.stepAlone cfg gone o s).2 = (s.1.expire (gone s.2), s.2 + 1) := by
    simp only [State.stepAlone, ho]
  rw [hs']
  exact hk _ h'

/-- What the cache has of an item, and the link of that. -/
theorem Script.fromRedis_alone (lang : Lang) (id : String) (h : Waiting cfg cd e log s) :
    (Script.fromRedis lang cfg cd id).Ends (State.stepAlone cfg gone) s
      (fun r s' => Waiting cfg cd e log s' ∧ ∀ it, r = some it →
        it.id = id ∧ it.nextID ≠ "" ∧ KnownTo cfg cd e log it) fun _ _ => False := by
  refine h.reads (fun _ => rfl) fun s' h' => ?_
  change Prog.Ends _ (Prog.bind (.ret (s'.1.redis (cfg.chainKey id))) _) _ _ _
  cases hv : s'.1.redis (cfg.chainKey id) with
  | none => exact ⟨h', fun it hit => by cases hit⟩
  | some v =>
      obtain ⟨id', d, next, rev, hkey, rfl, hadj, hne, hrev, hth, hdata⟩ := h'.stands.cache _ v hv
      obtain rfl := chainKey_inj _ hkey
      simp only [Prog.ret_bind, cd.redis.parse_serialize]
      refine ⟨h', fun it hit => ?_⟩
      obtain rfl := Option.some.inj hit
      rw [State.fill_etcd, h'.etcd] at hrev hth
      exact ⟨rfl, hne, hadj.subset (by simp), hth, ⟨d, rfl, hdata⟩, fun _ => hadj, hrev,
        fun hnil => absurd hnil hne⟩

/-- What a client that looks for the item after `cur` comes back with. -/
structure NextAlone (cfg : Config) (cd : Codecs T) (e : Store) (log : List (Commit T))
    (cur it : ChainItem T) : Prop where
  known : KnownTo cfg cd e log it
  adjacent : [cur.id, it.id] <:+: ids cfg log
  current : it.nextID = "" → Current cfg e it

theorem Script.nextFromRedis_alone (lang : Lang) (opt : Options) (h : Waiting cfg cd e log s)
    (hcur : KnownTo cfg cd e log cur) :
    (Script.nextFromRedis lang cfg opt cd cur).Ends (State.stepAlone cfg gone) s
      (fun r s' => Waiting cfg cd e log s' ∧ ∀ it, r = some it → NextAlone cfg cd e log cur it)
      fun _ _ => False := by
  have hnone : ∀ s', Waiting cfg cd e log s' →
      (Prog.ret none : Call (Option (ChainItem T))).Ends (State.stepAlone cfg gone) s'
        (fun r s' => Waiting cfg cd e log s' ∧ ∀ it, r = some it → NextAlone cfg cd e log cur it)
        fun _ _ => False := fun s' h' => ⟨h', fun it hit => by cases hit⟩
  have hread : ∀ (next : String) s', Waiting cfg cd e log s' →
      [cur.id, next] <:+: ids cfg log →
      (Script.fromRedis lang cfg cd next).Ends (State.stepAlone cfg gone) s'
        (fun r s' => Waiting cfg cd e log s' ∧ ∀ it, r = some it → NextAlone cfg cd e log cur it)
        fun _ _ => False := by
    intro next s' h' hadj
    refine (Script.fromRedis_alone lang next h').mono fun r s'' hr => ⟨hr.1, fun it hit => ?_⟩
    obtain ⟨hid, hne, hknown⟩ := hr.2 it hit
    exact ⟨hknown, hid ▸ hadj, fun hnil => absurd hnil hne⟩
  unfold Script.nextFromRedis
  by_cases hdup : opt.duplicateFromRedis = true
  · rw [if_pos hdup]
    by_cases hn : cur.nextID = ""
    · rw [if_pos hn]
      refine Prog.ends_bind (Script.fromRedis_alone lang cur.id h) fun r s' hr => ?_
      cases r with
      | none => exact hnone s' hr.1
      | some parsed =>
          obtain ⟨hid, hne, hknown⟩ := hr.2 parsed rfl
          dsimp only
          rw [if_pos hne]
          refine hread _ s' hr.1 ?_
          rw [← hid]
          exact hknown.next hne
    · rw [if_neg hn]
      exact hread _ s h (hcur.next hn)
  · rw [if_neg hdup]
    exact hnone s h

/-- The id after `cur`, if there is one. -/
theorem Script.nextIDFromEtcd_alone (h : Waiting cfg cd e log s)
    (hcur : KnownTo cfg cd e log cur) :
    (Script.nextIDFromEtcd cfg cd cur).Ends (State.stepAlone cfg gone) s
      (fun next s' => Waiting cfg cd e log s' ∧ Follows cfg log cur.id next ∧
        (next = "" → cur.nextID = "")) fun _ _ => False := by
  unfold Script.nextIDFromEtcd
  by_cases hn : cur.nextID = ""
  · rw [if_pos hn]
    refine h.reads (fun _ => rfl) fun s' h' => ?_
    have hi := h'.stands.chain
    rw [h'.etcd] at hi
    obtain ⟨kv', d, next, hkv', hval, -, hf⟩ := link_record hi hcur.on hcur.there
    rw [Store.fill_kvs] at hkv'
    obtain ⟨kv, hkv, rfl⟩ := Option.map_eq_some_iff.mp hkv'
    change Prog.Ends _ (Prog.bind (.ret (s'.1.etcd.range (cfg.chainKey cur.id))) _) _ _ _
    rw [h'.etcd, Store.range, hkv]
    simp only [Option.toList_some, Prog.ret_bind]
    by_cases hsep : cfg.saveDataOnSeparateStorage = true
    · rw [if_pos hsep]
      rw [emptyHeadDataStr, if_pos hsep, linkVal_separate hsep] at hval
      have hkvval : kv.value = next := by
        rw [← hval]
        unfold KV.fill
        split
        · next hempty => exact hempty
        · rfl
      rw [hkvval]
      exact ⟨h', hf, fun _ => hn⟩
    · have hsep' : cfg.saveDataOnSeparateStorage = false := by simpa using hsep
      rw [if_neg hsep]
      by_cases hempty : kv.value = ""
      · rw [if_pos hempty]
        rw [linkVal_default hsep' kv hempty] at hval
        have hof := congrArg (nextOf cfg cd) hval
        rw [nextOf_linkVal, nextOf_linkVal] at hof
        obtain rfl := Option.some.inj hof
        exact ⟨h', hf, fun _ => hn⟩
      · rw [if_neg hempty]
        rw [KV.fill_of_ne hempty, linkVal_inline hsep'] at hval
        rw [hval, cd.mapData.parse_serialize]
        exact ⟨h', hf, fun _ => hn⟩
  · rw [if_neg hn]
    exact ⟨h, ⟨fun hnil => absurd hnil hn, hcur.next⟩, fun hnil => hnil⟩

/-- An item that is read off its record, once there are items, is the one in the record. -/
theorem nextAlone_of_link (hi : ChainInv cfg cd (fun _ => True) e log)
    (hfill : e.fill (emptyHeadDataStr cfg cd) = e) {it : ChainItem T} {kv : KV} {d : T}
    (hadj : [cur.id, it.id] <:+: ids cfg log) (hkv : e.kvs (cfg.chainKey it.id) = some kv)
    (hval : kv.value = (layout cfg cd).linkVal d it.nextID)
    (hf : Follows cfg log it.id it.nextID) (hrev : it.revision = kv.modRevision)
    (hdata : it.data = some d) (hd : DataOf cfg (fun _ => True) log it.id d) :
    NextAlone cfg cd e log cur it := by
  refine ⟨?_, hadj, fun _ kv' hkv' => ?_⟩
  · unfold KnownTo
    rw [hfill]
    refine known_of_link (hadj.subset (by simp)) hkv hval hf ⟨d, hdata, hd⟩ ?_
    rw [hrev]
    exact (hi.sound _ _ hkv).2.1
  · rw [hrev]
    exact congrArg KV.modRevision (Option.some.inj (hkv'.symm.trans hkv))

theorem Script.itemOfMapData_alone (cur : ChainItem T) (hi : ChainInv cfg cd (fun _ => True) e log)
    (hfill : e.fill (emptyHeadDataStr cfg cd) = e)
    (hsep : cfg.saveDataOnSeparateStorage = false) {next : String}
    (hadj : [cur.id, next] <:+: ids cfg log) :
    ∃ it, Script.itemOfMapData cd next (e.range (cfg.chainKey next)) = .ret it ∧
      NextAlone cfg cd e log cur it := by
  rcases record_inline next hi hsep with ⟨kv, d, nx, hkv, hval, -, hd, hf⟩ | ⟨hn, -⟩
  · refine ⟨⟨kv.modRevision, next, some d, nx⟩, ?_, ?_⟩
    · rw [Store.range, hkv, Option.toList_some, Script.itemOfMapData, hval,
        cd.mapData.parse_serialize]
      rfl
    · exact nextAlone_of_link hi hfill hadj hkv (hval.trans (linkVal_inline hsep d nx).symm) hf rfl
        rfl hd
  · exact absurd (mem_of_adjacent hi.ids_nodup hadj).1 hn

theorem Script.nextFromEtcd_alone (h : Waiting cfg cd e log s)
    (hcur : KnownTo cfg cd e log cur) :
    (Script.nextFromEtcd cfg cd cur).Ends (State.stepAlone cfg gone) s
      (fun r s' => Waiting cfg cd e log s' ∧ (∀ it, r = some it → NextAlone cfg cd e log cur it) ∧
        (r = none → LastId cfg log cur.id ∧ cur.nextID = "")) fun _ _ => False := by
  refine Prog.ends_bind (Script.nextIDFromEtcd_alone h hcur) fun next s' ⟨h', hf, hnext⟩ => ?_
  by_cases hn : next = ""
  · rw [if_pos hn]
    exact ⟨h', fun _ hit => (nomatch hit), fun _ => ⟨hf.last hn, hnext hn⟩⟩
  · rw [if_neg hn]
    have hadj := hf.adjacent hn
    -- there are items, so that nothing is empty
    have hfill : e.fill (emptyHeadDataStr cfg cd) = e := by
      have hne : appended log ≠ [] := by
        intro hnil
        obtain ⟨pre, post, hp⟩ := hadj
        have hlen := congrArg List.length hp
        simp [ids, hnil] at hlen
        omega
      rw [← h'.etcd]
      exact h'.stands.fill_eq hne
    have hi : ChainInv cfg cd (fun _ => True) e log := by
      have := h'.stands.chain
      rwa [h'.etcd, hfill] at this
    have hret : ∀ (it : ChainItem T) s', Waiting cfg cd e log s' → NextAlone cfg cd e log cur it →
        (Prog.ret (some it) : Call (Option (ChainItem T))).Ends (State.stepAlone cfg gone) s'
          (fun r s' => Waiting cfg cd e log s' ∧
            (∀ it, r = some it → NextAlone cfg cd e log cur it) ∧
            (r = none → LastId cfg log cur.id ∧ cur.nextID = "")) fun _ _ => False := by
      intro it s' h' hit
      refine ⟨h', fun it' hit' => ?_, fun hnil => by cases hnil⟩
      obtain rfl := Option.some.inj hit'
      exact hit
    by_cases hsep : cfg.saveDataOnSeparateStorage = true
    · rw [if_pos hsep]
      unfold Script.itemFromEtcd
      rw [Prog.bind_eq, Script.commit_bind]
      refine h'.reads (step_of_reads cfg (o := .txn (Script.readTxn cfg next))
        ⟨Script.readTxn_reads next, rfl⟩) fun s'' h'' => ?_
      rw [show (State.step cfg (.txn (Script.readTxn cfg next)) s''.1).1 =
        (s''.1.etcd.txn (Script.readTxn cfg next)).1 from rfl, h''.etcd, Script.readTxn_answer]
      rcases record_separate hi hsep (.inr (mem_of_adjacent hi.ids_nodup hadj).1) with
        ⟨ckv, dkv, d, hckv, hdkv, hval, -, hd, hf'⟩ | ⟨hmem, -⟩
      · simp only [hckv, hdkv, hsep, Option.isSome_some, Option.toList_some, responseRange, if_true,
          hval, cd.data.parse_serialize]
        refine hret _ _ h'' ?_
        exact nextAlone_of_link hi hfill hadj hckv (linkVal_separate hsep d _).symm hf' rfl rfl hd
      · exact absurd (mem_of_adjacent hi.ids_nodup hadj).1 hmem
    · have hsep' : cfg.saveDataOnSeparateStorage = false := by simpa using hsep
      rw [if_neg hsep]
      refine h'.reads (fun _ => rfl) fun s'' h'' => ?_
      obtain ⟨it, hit, hnext⟩ := Script.itemOfMapData_alone cur hi hfill hsep' hadj
      change Prog.Ends _ (Prog.bind (.ret (s''.1.etcd.range (cfg.chainKey next))) _) _ _ _
      rw [h''.etcd, Prog.ret_bind, hit]
      exact hret it s'' h'' hnext

theorem Script.next_alone (gone : Nat → String → Bool) (lang : Lang) (opt : Options)
    (h : Waiting cfg cd e log s)
    (hcur : KnownTo cfg cd e log cur) :
    (Script.next lang cfg opt cd cur).Ends (State.stepAlone cfg gone) s
      (fun r s' => Waiting cfg cd e log s' ∧ (∀ it, r = some it → NextAlone cfg cd e log cur it) ∧
        (r = none → LastId cfg log cur.id ∧ cur.nextID = "")) fun _ _ => False := by
  refine Prog.ends_bind (Script.nextFromRedis_alone lang opt h hcur) fun r s' ⟨h', hr⟩ => ?_
  cases r with
  | none => exact Script.nextFromEtcd_alone h' hcur
  | some it => exact ⟨h', hr, fun hnil => by cases hnil⟩

end Reading

/-! ## Appending, alone -/

section Appending

variable {gone : Nat → String → Bool} {e : Store} {log : List (Commit T)}
  {s : State × Nat} {cur : ChainItem T} {newID : String} {newData : T}

omit [Inhabited T] in
theorem lastId_unique {id id' : String} (h : LastId cfg log id) (h' : LastId cfg log id') :
    id = id' := by
  obtain ⟨pre, hpre⟩ := h
  obtain ⟨pre', hpre'⟩ := h'
  exact List.singleton_inj.mp (List.append_inj' (hpre.symm.trans hpre') rfl).2

omit [Inhabited T] in
theorem lastId_lastID (cfg : Config) (log : List (Commit T)) :
    LastId cfg log (lastID cfg log) := by
  have hne : ids cfg log ≠ [] := List.cons_ne_nil _ _
  have hlast : (ids cfg log).getLast hne = lastID cfg log := List.getLast_eq_getLastD _
  refine ⟨(ids cfg log).dropLast, ?_⟩
  rw [← hlast]
  exact (List.dropLast_append_getLast hne).symm

theorem acceptable_iff :
    Acceptable (Script.appendTxn cfg cd cur newID newData).success ∧
      Acceptable (Script.appendTxn cfg cd cur newID newData).failure ↔
        ¬ PutsTwice cfg cur.id newID := by
  have hlink : cfg.chainKey cur.id = cfg.chainKey newID ↔ newID = cur.id :=
    ⟨fun h => (chainKey_inj _ h).symm, fun h => by rw [h]⟩
  unfold Script.appendTxn PutsTwice
  by_cases hsep : cfg.saveDataOnSeparateStorage = true
  · simp only [hsep, if_true, Acceptable, putKeys, List.nodup_cons, List.mem_cons, hlink,
      List.not_mem_nil]
    simp [eq_comm]
    tauto
  · simp only [hsep, Bool.false_eq_true, if_false, Acceptable, putKeys, List.nodup_cons,
      List.mem_cons, hlink, List.not_mem_nil]
    simp

theorem passes_iff (hth : e.kvs (cfg.chainKey cur.id) ≠ none) :
    (Script.appendTxn cfg cd cur newID newData).passes e = true ↔
      Free cfg e newID ∧ Current cfg e cur := by
  obtain ⟨kv, hkv⟩ := Option.ne_none_iff_exists'.mp hth
  have hcurrent : Current cfg e cur ↔ kv.modRevision = cur.revision := by
    constructor
    · exact fun h => h kv hkv
    · intro h kv' hkv'
      rw [← Option.some.inj (hkv.symm.trans hkv')]
      exact h
  rw [hcurrent, TxnRequest.passes, Script.appendTxn]
  by_cases hsep : cfg.saveDataOnSeparateStorage = true
  · simp only [hsep, if_true, List.all_cons, List.all_nil, Bool.and_eq_true,
      holds_modRevision_iff, holds_version_zero, hkv, Option.elim_some, Option.isNone_iff_eq_none]
    constructor
    · rintro ⟨hrev, hdata, hlink, -⟩
      exact ⟨⟨hlink, fun _ => hdata⟩, hrev⟩
    · rintro ⟨hfree, hrev⟩
      exact ⟨hrev, hfree.data hsep, hfree.link, trivial⟩
  · simp only [hsep, Bool.false_eq_true, if_false, List.all_cons, List.all_nil, Bool.and_eq_true,
      holds_modRevision_iff, holds_version_zero, hkv, Option.elim_some, Option.isNone_iff_eq_none]
    constructor
    · rintro ⟨hrev, hlink, -⟩
      exact ⟨⟨hlink, fun h => absurd h hsep⟩, hrev⟩
    · rintro ⟨hfree, hrev⟩
      exact ⟨hrev, hfree.link, trivial⟩

/-- The item has been appended to the list. -/
def Added (cfg : Config) (cd : Codecs T) (log : List (Commit T)) (newID : String) (newData : T)
    (s : Store) : Prop :=
  ∃ hd, Holds (layout cfg cd) s.value (cfg.headKey, hd) (appended log ++ [(newID, newData)])

omit [Inhabited T] in
theorem not_added_empty (newData : T) (s : Store) : ¬ Added cfg cd log "" newData s := by
  rintro ⟨hd, hh⟩
  exact hh.named ("", newData) (List.mem_append_right _ (List.mem_singleton_self _)) rfl

/-- The transaction of `append` does the same to the store that is filled in. -/
theorem appendTxn_fill :
    ((e.fill (emptyHeadDataStr cfg cd)).txn (Script.appendTxn cfg cd cur newID newData)).2 =
        ((e.txn (Script.appendTxn cfg cd cur newID newData)).2).fill (emptyHeadDataStr cfg cd) ∧
      (Script.appendTxn cfg cd cur newID newData).passes (e.fill (emptyHeadDataStr cfg cd)) =
        (Script.appendTxn cfg cd cur newID newData).passes e := by
  by_cases hsep : cfg.saveDataOnSeparateStorage = true
  · rw [emptyHeadDataStr, if_pos hsep, Store.fill_empty, Store.fill_empty]
    exact ⟨rfl, rfl⟩
  · have hfilled : (Script.appendTxn cfg cd cur newID newData).Filled :=
      (filled_appendTxn (by simpa using hsep) cur cur newID newData).2
    exact ⟨congrArg Prod.snd (txn_fill hfilled), passes_fill hfilled⟩

/-- **A transaction that goes through** at the end of the chain has added the item. -/
theorem added_of_passes (h : Waiting cfg cd e log s) (hcur : KnownTo cfg cd e log cur)
    (hlast : LastId cfg log cur.id) (hname : newID ≠ "") (hputs : ¬ PutsTwice cfg cur.id newID)
    (hpass : (Script.appendTxn cfg cd cur newID newData).passes e = true) :
    Added cfg cd log newID newData (e.txn (Script.appendTxn cfg cd cur newID newData)).2 := by
  obtain ⟨d, hd, hdata⟩ := hcur.data
  have happ := Script.appendTxn_appends cfg cd hd newID newData
  obtain ⟨hacc, hacf⟩ := acceptable_iff.mpr hputs
  have hi := h.stands.chain
  rw [h.etcd] at hi
  have hpass' := appendTxn_fill.2.trans hpass
  obtain ⟨hd', -, hh⟩ := holds_after_append (e := ⟨0, 0, cur.id, [(newID, newData)], 0⟩) hi
    (by simpa using hname) hlast hdata hcur.there hpass' hacc hacf happ.puts (happ.free _ hpass')
  rw [appendTxn_fill.1] at hh
  refine ⟨hd', ?_⟩
  obtain ⟨x, l, hxl⟩ := List.exists_cons_of_ne_nil
    (List.append_ne_nil_of_right_ne_nil (appended log) (List.cons_ne_nil (newID, newData) []))
  rw [hxl] at hh ⊢
  rwa [fill_eq_of_holds (fun hsep k kv hk hempty => ?_) hh] at hh
  -- what is empty now was empty before
  have hfilled : (Script.appendTxn cfg cd cur newID newData).Filled :=
    (filled_appendTxn hsep cur cur newID newData).2
  refine h.stands.empty hsep k kv ?_ hempty
  rw [h.etcd]
  exact txn_empty hfilled hk hempty

/-- What `tryAppend` does at the end of the chain: it is rejected, it goes through, or it says
false and has done nothing. -/
inductive HereAlone (cfg : Config) (cd : Codecs T) (e : Store) (log : List (Commit T))
    (cur : ChainItem T) (newID : String) (newData : T) :
    Except String (Bool × ChainItem T) → State × Nat → Prop where
  | rejected {err : String} {s : State × Nat} : PutsTwice cfg cur.id newID → s.1.etcd = e →
      HereAlone cfg cd e log cur newID newData (.error err) s
  | appended {it : ChainItem T} {s : State × Nat} : ¬ PutsTwice cfg cur.id newID →
      (Script.appendTxn cfg cd cur newID newData).passes e = true →
      s.1.etcd = (e.txn (Script.appendTxn cfg cd cur newID newData)).2 →
      HereAlone cfg cd e log cur newID newData (.ok (true, it)) s
  | refused {s : State × Nat} : ¬ PutsTwice cfg cur.id newID →
      ¬ (Script.appendTxn cfg cd cur newID newData).passes e = true →
      Waiting cfg cd e log s → HereAlone cfg cd e log cur newID newData (.ok (false, cur)) s

theorem Script.appendHere_alone (gone : Nat → String → Bool) (opt : Options)
    (h : Waiting cfg cd e log s) :
    HereAlone cfg cd e log cur newID newData
      ((Script.appendHere cfg opt cd cur newID newData).run (State.stepAlone cfg gone) s).1
      ((Script.appendHere cfg opt cd cur newID newData).run (State.stepAlone cfg gone) s).2 := by
  have h' : Waiting cfg cd e log (s.1.expire (gone s.2), s.2 + 1) := ⟨h.etcd, h.stands.expire _⟩
  have hfail : (Script.appendTxn cfg cd cur newID newData).failure = [] := by
    unfold Script.appendTxn
    dsimp only
    split <;> rfl
  unfold Script.appendHere
  rw [Prog.bind_eq, Script.commit_bind, Prog.run_act]
  obtain ⟨resp, hresp⟩ : ∃ resp, resp = (e.txn (Script.appendTxn cfg cd cur newID newData)).1 :=
    ⟨_, rfl⟩
  have hstep : (State.stepAlone cfg gone (.txn (Script.appendTxn cfg cd cur newID newData)) s).1 =
      resp := by
    rw [hresp, ← h.etcd]
    rfl
  have hetcd : (State.stepAlone cfg gone
      (.txn (Script.appendTxn cfg cd cur newID newData)) s).2.1.etcd =
      (e.txn (Script.appendTxn cfg cd cur newID newData)).2 := by
    rw [← h.etcd]
    rfl
  rw [hstep]
  by_cases hputs : PutsTwice cfg cur.id newID
  · have hacc : ¬ (Acceptable (Script.appendTxn cfg cd cur newID newData).success ∧
        Acceptable (Script.appendTxn cfg cd cur newID newData).failure) :=
      fun hacc => acceptable_iff.mp hacc hputs
    rw [Store.txn, if_neg hacc] at hresp hetcd
    rw [hresp]
    exact .rejected hputs hetcd
  · obtain ⟨hacc, hacf⟩ := acceptable_iff.mpr hputs
    rw [txn_of_acceptable hacc hacf] at hresp
    rw [hresp]
    by_cases hpass : (Script.appendTxn cfg cd cur newID newData).passes e = true
    · simp only [hpass, if_true]
      by_cases hauto : opt.automaticallyDuplicateToRedis = true
      · rw [if_pos hauto]
        exact .appended hputs hpass hetcd
      · rw [if_neg hauto]
        exact .appended hputs hpass hetcd
    · simp only [hpass]
      refine .refused hputs hpass ?_
      have hsame : ((s.1.expire (gone s.2)).txn cfg
          (Script.appendTxn cfg cd cur newID newData)).2 = s.1.expire (gone s.2) := by
        refine txn_readOnly_state ?_
        rw [h'.etcd, branch_of_not_passes hpass, hfail]
        rfl
      have heq : (State.stepAlone cfg gone
          (.txn (Script.appendTxn cfg cd cur newID newData)) s).2 =
          (s.1.expire (gone s.2), s.2 + 1) := congrArg (Prod.mk · (s.2 + 1)) hsame
      rw [heq]
      exact h'

/-! ## The loop -/

/-- The loop of `append` ends, with the item appended or with an exception that has changed
nothing. -/
def AppendEnds (lang : Lang) (cfg : Config) (opt : Options) (cd : Codecs T)
    (gone : Nat → String → Bool) (log : List (Commit T)) (newID : String) (newData : T)
    (cur : ChainItem T) (s : State × Nat) : Prop :=
  Prog.LoopEnds (State.stepAlone cfg gone)
    (Script.appendTurn lang cfg opt cd newID newData) cur s
    (fun _ s' => Added cfg cd log newID newData s'.1.etcd) fun _ s' => s'.1.etcd = s.1.etcd

variable (gone newID newData)

/-- `append` goes round from `cur` to the item after it. -/
theorem Script.appendTurn_next (lang : Lang) (opt : Options) (h : Waiting cfg cd e log s)
    (hcur : KnownTo cfg cd e log cur) {next : String} (hadj : [cur.id, next] <:+: ids cfg log) :
    ∃ it s', (Script.appendTurn lang cfg opt cd newID newData cur).run
        (State.stepAlone cfg gone) s = (.ok (.inl it), s') ∧
      Waiting cfg cd e log s' ∧ NextAlone cfg cd e log cur it ∧ it.id = next := by
  obtain ⟨r, s', hrun, h', hsome, hnone⟩ := (Script.next_alone gone lang opt h
    hcur).returns
  have hnd : (ids cfg log).Nodup := h.stands.chain.ids_nodup
  cases r with
  | none => exact absurd (hnone rfl).1 (not_last_of_adjacent hnd hadj)
  | some it =>
      refine ⟨it, s', ?_, h', hsome it rfl, adjacent_unique hnd (hsome it rfl).adjacent hadj⟩
      simp only [Script.appendTurn, Script.tryAppend, Prog.bind_eq, Prog.run_bind, hrun,
        Prog.pure_eq, Prog.run_ret]

/-- At the end of the chain `append` tries. -/
theorem Script.appendTurn_last (lang : Lang) (opt : Options) (h : Waiting cfg cd e log s)
    (hcur : KnownTo cfg cd e log cur) (hlast : LastId cfg log cur.id) :
    ∃ r s', HereAlone cfg cd e log cur newID newData r s' ∧
      (Script.appendTurn lang cfg opt cd newID newData cur).run (State.stepAlone cfg gone) s =
        (r.map fun r => if r.1 then .inr r.2 else .inl r.2, s') := by
  obtain ⟨r, s', hrun, h', hsome, -⟩ := (Script.next_alone gone lang opt h hcur).returns
  cases r with
  | some it =>
      exact absurd hlast
        (not_last_of_adjacent h.stands.chain.ids_nodup (hsome it rfl).adjacent)
  | none =>
      refine ⟨_, _, Script.appendHere_alone gone opt h', ?_⟩
      simp only [Script.appendTurn, Script.tryAppend, Prog.bind_eq, Prog.run_bind, hrun,
        Prog.pure_eq, Prog.run_ret]
      cases hres : (Script.appendHere cfg opt cd cur newID newData).run
          (State.stepAlone cfg gone) s' with
      | mk r s'' =>
          cases r with
          | error err => rfl
          | ok r =>
              obtain ⟨ok, it⟩ := r
              cases ok <;> rfl

variable {gone newID newData}

/-- What `append` needs of the item it starts from and of the store. -/
structure Appendable (cfg : Config) (s : Store) (log : List (Commit T)) (it : ChainItem T)
    (newID : String) : Prop where
  named : newID ≠ ""
  free : Free cfg s newID
  current : it.id = lastID cfg log → Current cfg s it

theorem append_ends_last (lang : Lang) (opt : Options) (h : Waiting cfg cd e log s)
    (hcur : KnownTo cfg cd e log cur) (hlast : LastId cfg log cur.id) :
    AppendEnds lang cfg opt cd gone log newID newData cur s ↔
      PutsTwice cfg cur.id newID ∨ newID ≠ "" ∧ Free cfg e newID ∧ Current cfg e cur := by
  have hth : e.kvs (cfg.chainKey cur.id) ≠ none := fun hnone =>
    hcur.there (Store.fill_kvs_eq_none.mpr hnone)
  have hpasses : (Script.appendTxn cfg cd cur newID newData).passes e = true ↔
      Free cfg e newID ∧ Current cfg e cur := passes_iff hth
  obtain ⟨r, s', hhere, hrun⟩ := Script.appendTurn_last gone newID newData lang opt h hcur hlast
  cases hhere with
  | rejected hputs hetcd =>
      refine (Prog.loopEnds_failed hrun).trans ⟨fun _ => .inl hputs, fun _ => ?_⟩
      rw [hetcd, h.etcd]
  | appended hputs hpass hetcd =>
      refine (Prog.loopEnds_done hrun).trans ⟨fun hadded => .inr ?_, fun hor => ?_⟩
      · refine ⟨fun hname => ?_, hpasses.mp hpass⟩
        subst hname
        exact not_added_empty newData _ hadded
      · rw [hetcd]
        exact added_of_passes h hcur hlast (hor.resolve_left hputs).1 hputs hpass
  | refused hputs hpass h' =>
      refine iff_of_false (Prog.not_loopEnds (P := fun c s => c = cur ∧ Waiting cfg cd e log s)
        ?_ ⟨rfl, h⟩) fun hor => hpass (hpasses.mpr (hor.resolve_left hputs).2)
      -- the next turn is as this one
      rintro c s ⟨rfl, h⟩
      obtain ⟨r, s', hhere, hrun⟩ := Script.appendTurn_last gone newID newData lang opt h hcur hlast
      cases hhere with
      | rejected hputs' _ => exact absurd hputs' hputs
      | appended _ hpass' _ => exact absurd hpass' hpass
      | refused _ _ h' => exact ⟨_, s', hrun, rfl, h'⟩

/-- **The loop of `append`**, left alone: it ends just if its transaction will be rejected, or
the item can be appended after the last one. -/
theorem append_ends (lang : Lang) (opt : Options) (h : Waiting cfg cd e log s)
    (hcur : KnownTo cfg cd e log cur) :
    AppendEnds lang cfg opt cd gone log newID newData cur s ↔
      PutsTwice cfg (lastID cfg log) newID ∨ Appendable cfg e log cur newID := by
  have hlastID := lastId_lastID cfg log
  obtain ⟨pre, post, hids⟩ := List.append_of_mem hcur.on
  induction post generalizing cur s pre with
  | nil =>
      have hlast : LastId cfg log cur.id := ⟨pre, hids⟩
      have heq := lastId_unique hlast hlastID
      rw [append_ends_last lang opt h hcur hlast, heq]
      exact or_congr_right ⟨fun ⟨hname, hfree, hcurrent⟩ => ⟨hname, hfree, fun _ => hcurrent⟩,
        fun happ => ⟨happ.named, happ.free, happ.current heq⟩⟩
  | cons y post ih =>
      have hadj : [cur.id, y] <:+: ids cfg log := ⟨pre, post, by rw [hids]; simp⟩
      have hnd : (ids cfg log).Nodup := h.stands.chain.ids_nodup
      obtain ⟨it, s', hrun, h', hnext, rfl⟩ :=
        Script.appendTurn_next gone newID newData lang opt h hcur hadj
      have hstart : AppendEnds lang cfg opt cd gone log newID newData cur s ↔
          AppendEnds lang cfg opt cd gone log newID newData it s' := by
        unfold AppendEnds
        rw [Prog.loopEnds_turn hrun, h.etcd, h'.etcd]
      have hids' : ids cfg log = (pre ++ [cur.id]) ++ it.id :: post := by
        rw [hids, List.append_assoc]
        rfl
      refine (hstart.trans (ih h' hnext.known _ hids')).trans ?_
      refine or_congr_right ⟨fun happ => ⟨happ.named, happ.free, fun hcurlast => ?_⟩,
        fun happ => ⟨happ.named, happ.free, fun hitlast => hnext.current ?_⟩⟩
      · exact absurd (hcurlast ▸ hlastID) (not_last_of_adjacent hnd hadj)
      · -- an item that comes with a next id is not the last one
        by_contra hne
        exact not_last_of_adjacent hnd (hnext.known.next hne) (hitlast ▸ hlastID)

end Appending

/-- **`append` of TypeScript and Python, left alone** after any run whose steps are right, ends
just if its transaction will be rejected or the item can be appended after the last one. -/
theorem append_ends_of_runs {opts : Nat → Options} (hparse : cd.mapData.parse "" = none)
    {w : World Op Op.Res State (Ghost T) (Req T) String (Reply T)}
    (hr : Runs cfg opts cd (fun _ => True) (oneRecord cfg) w) (lang : Lang) (opt : Options)
    (gone : Nat → String → Bool) (newID : String) (newData : T) {cur : ChainItem T}
    (hcur : Held w.returned cur) :
    AppendEnds lang cfg opt cd gone w.st.2.log newID newData cur (w.st.1, 0) ↔
      PutsTwice cfg (lastID cfg w.st.2.log) newID ∨
        Appendable cfg w.st.1.etcd w.st.2.log cur newID := by
  obtain ⟨hstands, hknown⟩ := stands_of_runs hparse hr
  exact append_ends lang opt ⟨rfl, hstands⟩ (hknown cur hcur)

end EtcdChain
