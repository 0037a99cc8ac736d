import TMTransport.EtcdChain.WatchSystem
import TMTransport.EtcdChain.ScriptReads

/-!
# What the clients do to the watch threads

Each step keeps what is still to be delivered, and so does each call: the C++
client call by call, the others because they have no `latestModRevision_`.
-/

namespace EtcdChain

open Etcd Interleave

variable {T : Type}

/-! ## Steps -/

theorem lt_of_common_front {l m m' : List Char} (h : m < m') : l ++ m < l ++ m' := by
  induction l with
  | nil => exact h
  | cons c l ih => exact List.Lex.cons ih

/-- The watched range is that of the links. -/
theorem watches_chainKey (cfg : Config) (id : String) : cfg.watches (cfg.chainKey id) = true := by
  unfold Config.watches Config.chainKey
  rw [Bool.and_eq_true, decide_eq_true_eq, decide_eq_true_eq]
  constructor
  · refine not_lt.mp (fun hlt => ?_)
    rw [String.lt_iff_toList_lt] at hlt
    exact (show (cfg.chainPrefix ++ ":").toList <+: _ by simp).le hlt
  · rw [String.lt_iff_toList_lt]
    simp only [String.toList_append, List.append_assoc]
    exact lt_of_common_front (List.Lex.rel (by decide))

section Steps

variable {cfg : Config} {opts : Nat → Options} {cd : Codecs T} {n : Nat} {c : Req T}

/-- A transaction either changes no link or sends an event for the new revision. -/
theorem txn_notifies (cfg : Config) (s : State) (t : TxnRequest) (c : Nat) {evs : List Nat}
    (h : s.watch c = .alive evs) :
    ((s.txn cfg t).2.watch c = .alive evs ∧
      ∀ id, (s.txn cfg t).2.etcd.kvs (cfg.chainKey id) = s.etcd.kvs (cfg.chainKey id)) ∨
    ((s.txn cfg t).2.watch c = .alive (evs ++ [(s.txn cfg t).2.etcd.revision]) ∧
      (s.txn cfg t).2.etcd.revision = s.etcd.revision + 1) := by
  by_cases hseen : ((s.etcd.txn t).1.isSome && (putKeys (t.branch s.etcd)).any cfg.watches) = true
  · right
    refine ⟨by simp only [State.txn, hseen, if_true, h]; rfl, ?_⟩
    obtain ⟨hsome, k, hk, -⟩ := (Bool.and_eq_true_iff.mp hseen).imp_right List.any_eq_true.mp
    obtain ⟨r, hr⟩ := Option.isSome_iff_exists.mp hsome
    obtain ⟨hs, hf⟩ := txn_accepted hr
    show (s.etcd.txn t).2.revision = _
    rw [txn_of_acceptable hs hf]
    exact if_neg (fun hnil => by rw [hnil] at hk; exact absurd hk (by simp))
  · left
    refine ⟨by simp only [State.txn, hseen, Bool.false_eq_true, if_false, h], fun id => ?_⟩
    show (s.etcd.txn t).2.kvs _ = _
    by_cases hk : cfg.chainKey id ∈ putKeys (t.branch s.etcd)
    · have hany : (putKeys (t.branch s.etcd)).any cfg.watches = true :=
        List.any_eq_true.mpr ⟨_, hk, watches_chainKey cfg id⟩
      have hnone : (s.etcd.txn t).1 = none := by
        simpa [hany] using hseen
      unfold Store.txn at hnone ⊢
      split
      · rename_i hacc
        rw [if_pos hacc] at hnone
        cases hnone
      · rfl
    · exact txn_kvs_of_notMem hk

theorem grows_txn (s : State) (t : TxnRequest) : Grows opts s (s.txn cfg t).2 := by
  refine ⟨revision_le_txn s.etcd t, fun k => ?_, fun _ _ => Nat.le_refl _, fun c evs _ h => ?_⟩
  · rcases txn_kvs_cases s.etcd t k with h | ⟨kv, h1, h2, -⟩
    · exact Or.inl h
    · exact Or.inr ⟨kv, h1, by omega⟩
  · rcases txn_notifies cfg s t c h with ⟨h', -⟩ | ⟨h', -⟩
    · exact ⟨evs, h', fun _ h => Or.inl h⟩
    · exact ⟨_, h', fun _ h => Or.inl (List.mem_append_left _ h)⟩

/-- What is still to be delivered after a transaction includes what it wrote. -/
theorem tracked_txn {s : State} (t : TxnRequest) {c : Nat} {evs : List Nat}
    (h : s.watch c = .alive evs) (ht : Tracked cfg s.etcd (s.latestModRevision c) evs) :
    ∃ evs', (s.txn cfg t).2.watch c = .alive evs' ∧
      Tracked cfg (s.txn cfg t).2.etcd (s.latestModRevision c) evs' := by
  obtain ⟨seen, hle, hsorted, hev, hseen, hall⟩ := ht
  have hrev : s.etcd.revision ≤ (s.txn cfg t).2.etcd.revision := revision_le_txn s.etcd t
  rcases txn_notifies cfg s t c h with ⟨h', hkvs⟩ | ⟨h', hnew⟩
  · refine ⟨evs, h', seen, hle.trans hrev, hsorted, fun ev he =>
      ⟨(hev ev he).1, (hev ev he).2.trans hrev⟩, hseen,
      fun id kv hkv => ?_⟩
    rw [hkvs] at hkv
    exact hall id kv hkv
  · refine ⟨_, h', seen, hle.trans hrev, ?_, ?_, hseen, fun id kv hkv hlt => ?_⟩
    · rw [List.pairwise_append]
      refine ⟨hsorted, List.pairwise_singleton _ _, fun ev he rev hmem => ?_⟩
      obtain rfl := List.mem_singleton.mp hmem
      have := (hev ev he).2
      omega
    · intro ev he
      rcases List.mem_append.mp he with he | he
      · exact ⟨(hev ev he).1, (hev ev he).2.trans hrev⟩
      · obtain rfl := List.mem_singleton.mp he
        exact ⟨by omega, Nat.le_refl _⟩
    · rcases txn_kvs_cases s.etcd t (cfg.chainKey id) with hk | ⟨kv', hk, hmod, hr⟩
      · exact List.mem_append_left _ (hall id kv (hk ▸ hkv) hlt)
      · obtain rfl := Option.some.inj (hkv.symm.trans hk)
        rw [hmod, ← hr]
        exact List.mem_append_right _ (List.mem_singleton_self _)

theorem watchNote_txn (n : Nat) (c : Req T) (t : TxnRequest) (r : Option TxnResponse) (s s' : State)
    (g : WatchGhost T) :
    watchNote n c (.txn t) r s s' g = { g with
      commits := g.commits ++ if c.commits r then [⟨n, c.chain, s'.etcd.revision⟩] else [] } := by
  unfold watchNote
  by_cases hc : c.commits r = true <;> simp [hc]

theorem inv_txn {s : State} {g : WatchGhost T} (hi : WatchInv cfg opts cd (s, g)) (t : TxnRequest)
    (hown : c.commits (s.etcd.txn t).1 = true → ¬ g.stored n) :
    WatchInv cfg opts cd ((s.txn cfg t).2, watchNote n c (.txn t) (s.txn cfg t).1 s
      (s.txn cfg t).2 g) := by
  refine ⟨sound_txn hi.sound t, hi.cache, fun ch hw => ?_, ?_, ?_⟩
  · rcases hi.tracked ch hw with ⟨h1, h2⟩ | ⟨evs, h1, h2⟩
    · left
      refine ⟨?_, h2⟩
      simp only [State.txn]
      rw [show s.watch ch = .notCreated from h1]
      split <;> rfl
    · exact Or.inr (tracked_txn t h1 h2)
  · intro e he hs hw
    rw [watchNote_txn] at he hs
    rcases List.mem_append.mp he with he | he
    · exact hi.stored e he hs hw
    · split at he
      · rename_i hc
        obtain rfl := List.mem_singleton.mp he
        exact absurd hs (hown hc)
      · exact absurd he (by simp)
  · rw [watchNote_txn]
    exact hi.shortcuts

theorem inv_store {s : State} {g : WatchGhost T} (hi : WatchInv cfg opts cd (s, g))
    {chain rev : Nat} (hle : s.latestModRevision chain ≤ rev)
    (halive : (opts chain).useWatchThread = true →
      ∃ evs, s.watch chain = .alive evs ∧ (rev ∈ evs ∨ 0 < s.latestModRevision chain))
    (hown : ∀ e ∈ g.commits, e.call = n → e.chain = chain ∧ e.revision ≤ rev) :
    WatchInv cfg opts cd ((State.step cfg (.storeLatestModRevision chain rev) s).2,
      watchNote n c (.storeLatestModRevision chain rev) () s s g) := by
  refine ⟨hi.sound, hi.cache, fun ch hw => ?_, fun e he hs hw => ?_, hi.shortcuts⟩
  · show (s.watch ch = .notCreated ∧ Function.update s.latestModRevision chain rev ch = 0) ∨
      ∃ evs, s.watch ch = .alive evs ∧
        Tracked cfg s.etcd (Function.update s.latestModRevision chain rev ch) evs
    by_cases hch : ch = chain
    · subst hch
      obtain ⟨evs, h1, h2⟩ := halive hw
      right
      rw [Function.update_self]
      rcases hi.tracked ch hw with ⟨h3, -⟩ | ⟨evs', h3, seen, h4, h5, h6, h7, h8⟩
      · rw [h1] at h3; cases h3
      · obtain rfl : evs' = evs := by rw [h1] at h3; cases h3; rfl
        refine ⟨evs', h1, seen, h4, h5, h6, Or.inr ?_, h8⟩
        rcases h2 with h2 | h2
        · exact (h6 rev h2).1.le
        · exact (h7.resolve_left (Nat.pos_iff_ne_zero.mp h2)).trans hle
    · rw [Function.update_of_ne hch]
      exact hi.tracked ch hw
  · show e.revision ≤ Function.update s.latestModRevision chain rev e.chain
    rcases hs with hs | hs
    · have h1 : e.revision ≤ s.latestModRevision e.chain := hi.stored e he hs hw
      by_cases hch : e.chain = chain
      · rw [hch, Function.update_self]
        exact (hch ▸ h1).trans hle
      · rwa [Function.update_of_ne hch]
    · obtain ⟨h1, h2⟩ := hown e he hs
      rwa [h1, Function.update_self]

end Steps

/-! ## Rules -/

/-- Call number `n` meets its obligations as far as the watch threads go. -/
abbrev WatchMeets [Inhabited T] (cfg : Config) (opts : Nat → Options) (cd : Codecs T) (n : Nat)
    (c : Req T) {β : Type} (Q : β → State × WatchGhost T → Prop)
    (E : String → State × WatchGhost T → Prop) (p : Call β) (st : State × WatchGhost T) : Prop :=
  Safe (watchSystem cfg opts cd) (watched opts cd) (watchContract cfg opts cd) n c Q E p st

/-- Call number `n` has neither committed nor stored anything. -/
structure Unheard (n : Nat) (st : State × WatchGhost T) : Prop where
  commits : ∀ e ∈ st.2.commits, e.call ≠ n
  stored : ¬ st.2.stored n

/-- Call number `n` has committed at most what it is about to store: `rev`, on `chain`. -/
structure Storing (opts : Nat → Options) (n chain rev : Nat) (st : State × WatchGhost T) :
    Prop where
  own : ∀ e ∈ st.2.commits, e.call = n → e.chain = chain ∧ e.revision ≤ rev
  alive : (opts chain).useWatchThread = true → ∃ evs, st.1.watch chain = .alive evs ∧
    (rev ∈ evs ∨ 0 < st.1.latestModRevision chain)

section Rules

variable {cfg : Config} {opts : Nat → Options} {cd : Codecs T} {n : Nat} {c : Req T}
  {st st' : State × WatchGhost T} {chain rev : Nat}

theorem Unheard.stable (h : Unheard n st) (hm : Watches opts n st st') : Unheard n st' :=
  ⟨fun e he hn => h.commits e (hm.commits e he hn) hn, fun hs => h.stored (hm.stored hs)⟩

theorem Storing.stable (h : Storing opts n chain rev st) (hm : Watches opts n st st') :
    Storing opts n chain rev st' := by
  refine ⟨fun e he hn => h.own e (hm.commits e he hn) hn, fun hw => ?_⟩
  obtain ⟨evs, h1, h2⟩ := h.alive hw
  obtain ⟨evs', h3, h4⟩ := hm.grows.alive chain evs hw h1
  refine ⟨evs', h3, ?_⟩
  rcases h2 with h2 | h2
  · exact h4 rev h2
  · exact Or.inr (Nat.lt_of_lt_of_le h2 (hm.grows.latest chain hw))

variable [Inhabited T] {β : Type} {Q : β → State × WatchGhost T → Prop}
  {E : String → State × WatchGhost T → Prop}

/-- An operation that only reads, other than of `latestModRevision_`. -/
theorem watch_read {o : Op} {k : o.Res → Call β}
    (hs : ∀ s, (State.step cfg o s).2 = s) (hg : ∀ r s s' g, watchNote n c o r s s' g = g)
    (hk : ∀ st', Watches opts n st st' → WatchInv cfg opts cd st' →
      WatchMeets cfg opts cd n c Q E (k (State.step cfg o st'.1).1) st') :
    WatchMeets cfg opts cd n c Q E (.act o k) st := by
  refine Safe.read (fun st' _ _ => ?_) (fun st' hr hi _ => hk st' hr hi)
  show ((State.step cfg o st'.1).2, watchNote n c o _ st'.1 _ st'.2) = st'
  rw [hg, hs]

theorem watch_txn {t : TxnRequest} {k : Option TxnResponse → Call β}
    (hk : ∀ st', Watches opts n st st' → WatchInv cfg opts cd st' →
      (watched opts cd).op c (.txn t) st' →
      (c.commits (st'.1.etcd.txn t).1 = true → ¬ st'.2.stored n) ∧
      ∀ st'', st'' = ((st'.1.txn cfg t).2,
          watchNote n c (.txn t) (st'.1.txn cfg t).1 st'.1 (st'.1.txn cfg t).2 st'.2) →
        WatchInv cfg opts cd st'' →
        WatchMeets cfg opts cd n c Q E (k (st'.1.etcd.txn t).1) st'') :
    WatchMeets cfg opts cd n c Q E (.act (.txn t) k) st := by
  intro st' hr hi hg
  obtain ⟨h1, h2⟩ := hk st' hr hi hg
  have hi' := inv_txn (c := c) hi t h1
  have hnote := watchNote_txn n c t (st'.1.txn cfg t).1 st'.1 (st'.1.txn cfg t).2 st'.2
  refine ⟨hi', fun m hm => ?_, h2 _ rfl hi'⟩
  show Watches opts m st' ((st'.1.txn cfg t).2, watchNote n c (.txn t) (st'.1.txn cfg t).1 st'.1
    (st'.1.txn cfg t).2 st'.2)
  rw [hnote]
  refine ⟨grows_txn st'.1 t, fun e he hem => ?_, id⟩
  refine (List.mem_append.mp he).resolve_right (fun h => ?_)
  split at h
  · obtain rfl := List.mem_singleton.mp h
    exact hm hem.symm
  · exact absurd h (by simp)

theorem watch_redisSet {arg : KeyArg} {key v : String} {ttl : Nat} {k : Unit → Call β}
    (hk : ∀ st' st'', Watches opts n st st' → Grows opts st'.1 st''.1 → st''.2 = st'.2 →
      WatchInv cfg opts cd st'' → WatchMeets cfg opts cd n c Q E (k ()) st'') :
    WatchMeets cfg opts cd n c Q E (.act (.redisSet arg key v ttl) k) st := by
  intro st' hr hi hg
  have hgrows : Grows opts st'.1 (State.step cfg (.redisSet arg key v ttl) st'.1).2 :=
    ⟨Nat.le_refl _, fun _ => Or.inl rfl, fun _ _ => Nat.le_refl _,
      fun _ evs _ h => ⟨evs, h, fun _ h => Or.inl h⟩⟩
  have hi' : WatchInv cfg opts cd ((State.step cfg (.redisSet arg key v ttl) st'.1).2, st'.2) := by
    refine ⟨hi.sound, fun key' v' r hv' hr => ?_, hi.tracked, hi.stored, hi.shortcuts⟩
    have hv : Function.update st'.1.redis (arg.seen key) (some v) key' = some v' := hv'
    by_cases hkey : key' = arg.seen key
    · rw [hkey, Function.update_self] at hv
      obtain rfl := Option.some.inj hv
      exact hg.2.2.2 arg key v ttl r rfl hr
    · rw [Function.update_of_ne hkey] at hv
      exact hi.cache key' v' r hv hr
  exact ⟨hi', fun m _ => ⟨hgrows, fun _ h _ => h, id⟩, hk st' _ hr hgrows rfl hi'⟩

theorem watch_store {k : Unit → Call β} (hst : Storing opts n chain rev st)
    (hk : ∀ st' st'', Watches opts n st st' → Grows opts st'.1 st''.1 →
      WatchInv cfg opts cd st'' → WatchMeets cfg opts cd n c Q E (k ()) st'') :
    WatchMeets cfg opts cd n c Q E (.act (.storeLatestModRevision chain rev) k) st := by
  intro st' hr hi hg
  have hst' := hst.stable hr
  have hle := hg.2.1 chain rev rfl
  have hi' := inv_store (c := c) hi hle hst'.alive hst'.own
  have hgrows : Grows opts st'.1 (State.step cfg (.storeLatestModRevision chain rev) st'.1).2 := by
    refine ⟨Nat.le_refl _, fun _ => Or.inl rfl, fun ch _ => ?_, fun ch evs _ h => ?_⟩
    · show _ ≤ Function.update st'.1.latestModRevision chain rev ch
      by_cases hch : ch = chain
      · rw [hch, Function.update_self]; exact hle
      · rw [Function.update_of_ne hch]
    · exact ⟨evs, h, fun _ h => Or.inl h⟩
  exact ⟨hi', fun m hm => ⟨hgrows, fun _ h _ => h, fun h => h.resolve_right hm⟩,
    hk st' _ hr hgrows hi'⟩

/-- `fetchNext` reads what the object has heard of, and may take the shortcut. -/
theorem watch_load {ch : Nat} {cur : ChainItem T} {k : Nat → Call β} (hc : c = .fetchNext ch cur)
    (hw : (opts chain).useWatchThread = true) (hcur : Fresh cfg cd cur st.1.etcd)
    (hn : cur.nextID = "")
    (hk : ∀ st' r, WatchInv cfg opts cd st' → WatchMeets cfg opts cd n c Q E (k r) st') :
    WatchMeets cfg opts cd n c Q E (.act (.loadLatestModRevision chain) k) st := by
  intro st' hr hi hg
  have hown := hg.2.2.1 chain rfl
  have hcur' := hcur.stable hr.grows
  have hi' : WatchInv cfg opts cd (st'.1, watchNote n c (.loadLatestModRevision chain)
      (st'.1.latestModRevision chain) st'.1 st'.1 st'.2) ∧
      (∀ m, Watches opts m st' (st'.1, watchNote n c (.loadLatestModRevision chain)
        (st'.1.latestModRevision chain) st'.1 st'.1 st'.2)) := by
    subst hc
    simp only [watchNote]
    by_cases hup : isUpToDate (st'.1.latestModRevision chain) cur.revision = true
    · rw [if_pos hup]
      refine ⟨⟨hi.sound, hi.cache, hi.tracked, hi.stored, fun x hx => ?_⟩,
        fun m => ⟨Grows.refl opts _, fun _ h _ => h, id⟩⟩
      rcases List.mem_cons.mp hx with rfl | hx
      · exact shortcut_sound hi hw hcur' hn hown hup
      · exact hi.shortcuts x hx
    · rw [if_neg hup]
      exact ⟨hi, fun m => Watches.refl opts m st'⟩
  exact ⟨hi'.1, fun m _ => hi'.2 m, hk _ _ hi'.1⟩

end Rules

/-! ## Clients in other languages -/

/-- They have no `latestModRevision_`. -/
def Op.Foreign (o : Op) : Prop := ∀ chain rev, o ≠ .storeLatestModRevision chain rev

section Foreign

variable [Inhabited T] {cfg : Config} {opts : Nat → Options} {cd : Codecs T} {n : Nat} {c : Req T}
  {st : State × WatchGhost T}

theorem Op.Reads.foreign {o : Op} (h : o.Reads) : o.Foreign := by
  rintro chain rev rfl
  exact h

/-- Whatever a client in another language does leaves the watch threads in order. -/
theorem foreign_meets {β : Type} {p : Call β} (hp : p.Only Op.Foreign) (hc : c.isCpp = false)
    (hidle : Unheard n st) :
    WatchMeets cfg opts cd n c (fun _ st' => Unheard n st') (fun _ _ => True) p st := by
  induction p generalizing st with
  | ret a => exact Safe.ret hidle (fun _ _ hr _ h => h.stable hr)
  | fail e => exact fun _ _ _ => trivial
  | act o k ih =>
      have hk := hp.2
      cases o with
      | txn t =>
          have hcommit : ∀ r, c.commits r = false := fun r => by simp [Req.commits, hc]
          refine watch_txn (fun st' hr _ _ => ⟨by simp [hcommit], ?_⟩)
          rintro st'' rfl _
          refine ih _ (hk _) ?_
          have h := hidle.stable hr
          rw [watchNote_txn, hcommit]
          exact ⟨by simpa using h.commits, h.stored⟩
      | range key =>
          exact watch_read (o := .range key) (fun _ => rfl) (fun _ _ _ _ => rfl)
            (fun st' hr _ => ih _ (hk _) (hidle.stable hr))
      | rangePrefix key =>
          exact watch_read (o := .rangePrefix key) (fun _ => rfl) (fun _ _ _ _ => rfl)
            (fun st' hr _ => ih _ (hk _) (hidle.stable hr))
      | redisGet arg key =>
          exact watch_read (o := .redisGet arg key) (fun _ => rfl) (fun _ _ _ _ => rfl)
            (fun st' hr _ => ih _ (hk _) (hidle.stable hr))
      | redisSet arg key v ttl =>
          refine watch_redisSet (fun st' st'' hr _ hg _ => ih _ (hk _) ?_)
          have h := hidle.stable hr
          exact ⟨hg ▸ h.commits, hg ▸ h.stored⟩
      | loadLatestModRevision chain =>
          refine watch_read (o := .loadLatestModRevision chain) (fun _ => rfl) (fun _ _ _ _ => ?_)
            (fun st' hr _ => ih _ (hk _) (hidle.stable hr))
          cases c <;> first | rfl | cases hc
      | storeLatestModRevision chain rev => exact absurd rfl (hp.1 chain rev)

theorem foreign_txn (t : TxnRequest) : (Op.txn t).Foreign := by rintro _ _ ⟨⟩

theorem foreign_redisSet (arg : KeyArg) (key v : String) (ttl : Nat) :
    (Op.redisSet arg key v ttl).Foreign := by rintro _ _ ⟨⟩

section Only

variable (lang : Lang) (cfg : Config) (opt : Options) (cd : Codecs T)

omit [Inhabited T] in
theorem Script.start_foreign (d : T) : (Script.start lang cfg opt cd d).Only Op.Foreign := by
  have hetcd : (Script.startFromEtcd cfg cd d).Only Op.Foreign := by
    refine ⟨foreign_txn _, fun r => ?_⟩
    cases r with
    | none => trivial
    | some resp =>
        simp only [Prog.ret_bind]
        split
        · trivial
        · split
          · trivial
          · unfold Script.headItem
            split
            · trivial
            · split
              · trivial
              · split
                · trivial
                · split <;> trivial
  unfold Script.start
  split
  · refine ((Script.fromRedis_reads lang cfg cd _).mono (fun _ => Op.Reads.foreign)).bind
      (fun r => ?_)
    cases r with
    | none => exact hetcd
    | some item => trivial
  · exact hetcd

omit [Inhabited T] in
theorem Script.tryLoadUntil_reads (id : String) :
    (Script.tryLoadUntil lang cfg opt cd id).Only Op.Reads := by
  unfold Script.tryLoadUntil
  split
  · refine (Script.fromRedis_reads lang cfg cd _).bind (fun r => ?_)
    cases r with
    | none => exact Script.itemFromEtcd_reads cfg cd id
    | some item => trivial
  · exact Script.itemFromEtcd_reads cfg cd id

theorem Script.tryAppend_foreign (cur : ChainItem T) (id : String) (d : T) :
    (Script.tryAppend lang cfg opt cd cur id d).Only Op.Foreign := by
  refine ((Script.next_reads lang cfg opt cd cur).mono (fun _ => Op.Reads.foreign)).bind
    (fun r => ?_)
  cases r with
  | some item => trivial
  | none =>
      refine Prog.Only.bind ⟨foreign_txn _, fun r => ?_⟩ (fun _ => trivial)
      cases r with
      | none => trivial
      | some resp =>
          simp only [Prog.ret_bind]
          split
          · split
            · exact ⟨foreign_redisSet _ _ _ _, fun _ => trivial⟩
            · trivial
          · trivial

omit [Inhabited T] in
theorem DotNet.fromRedis_reads (id : String) : (DotNet.fromRedis cfg cd id).Only Op.Reads :=
  ⟨trivial, fun _ => trivial⟩

omit [Inhabited T] in
theorem DotNet.head_foreign (d : T) : (DotNet.head cfg opt cd d).Only Op.Foreign := by
  have hetcd : (DotNet.headFromEtcd cfg cd d).Only Op.Foreign := by
    refine ⟨foreign_txn _, fun r => ?_⟩
    cases r with
    | none => trivial
    | some resp =>
        simp only [Prog.ret_bind]
        split
        · trivial
        · split
          · trivial
          · unfold DotNet.headItem
            split
            · trivial
            · split
              · trivial
              · split <;> trivial
  unfold DotNet.head
  split
  · refine ((DotNet.fromRedis_reads cfg cd _).mono (fun _ => Op.Reads.foreign)).bind (fun r => ?_)
    cases r with
    | none => exact hetcd
    | some item => trivial
  · exact hetcd

omit [Inhabited T] in
theorem DotNet.itemFromEtcd_reads (who id : String) :
    (DotNet.itemFromEtcd cfg cd who id).Only Op.Reads := by
  unfold DotNet.itemFromEtcd
  split
  · refine ⟨⟨rfl, rfl⟩, fun r => ?_⟩
    cases r with
    | none => trivial
    | some resp =>
        simp only [Prog.ret_bind]
        split
        · split
          · split
            · trivial
            · trivial
            · split <;> trivial
          · trivial
        · split <;> trivial
  · refine ⟨trivial, fun kvs => ?_⟩
    cases kvs with
    | nil => trivial
    | cons kv rest =>
        simp only [Prog.ret_bind]
        split <;> trivial

omit [Inhabited T] in
theorem DotNet.loadUntil_foreign (id : String) (d : T) :
    (DotNet.loadUntil cfg opt cd id d).Only Op.Foreign := by
  have hetcd := (DotNet.itemFromEtcd_reads cfg cd "LoadUntil" id).mono (fun _ => Op.Reads.foreign)
  unfold DotNet.loadUntil
  split
  · exact DotNet.head_foreign cfg opt cd d
  · split
    · refine ((DotNet.fromRedis_reads cfg cd _).mono (fun _ => Op.Reads.foreign)).bind
        (fun r => ?_)
      cases r with
      | none => exact hetcd
      | some item => trivial
    · exact hetcd

omit [Inhabited T] in
theorem DotNet.fetchNext_reads (cur : ChainItem T) :
    (DotNet.fetchNext cfg opt cd cur).Only Op.Reads := by
  refine Prog.Only.bind ?_ (fun r => ?_)
  · unfold DotNet.fetchNextFromRedis
    split
    · split
      · exact DotNet.fromRedis_reads cfg cd _
      · refine (DotNet.fromRedis_reads cfg cd _).bind (fun r => ?_)
        cases r with
        | none => trivial
        | some data =>
            dsimp only
            split
            · exact DotNet.fromRedis_reads cfg cd _
            · trivial
    · trivial
  · cases r with
    | some item => trivial
    | none =>
        refine Prog.Only.bind ?_ (fun nextID => ?_)
        · unfold DotNet.nextIDFromEtcd
          split
          · refine ⟨trivial, fun kvs => ?_⟩
            cases kvs with
            | nil => trivial
            | cons kv rest =>
                simp only [Prog.ret_bind]
                split
                · trivial
                · split <;> trivial
          · trivial
        · split
          · exact (DotNet.itemFromEtcd_reads cfg cd _ _).bind (fun _ => trivial)
          · trivial

theorem DotNet.appendAfter_foreign (cur x : ChainItem T) :
    (DotNet.appendAfter cfg opt cd cur x).Only Op.Foreign := by
  unfold DotNet.appendAfter
  split
  · trivial
  · split
    · trivial
    · refine ⟨foreign_txn _, fun r => ?_⟩
      cases r with
      | none => trivial
      | some resp =>
          simp only [Prog.ret_bind]
          split
          · split
            · exact ⟨foreign_redisSet _ _ _ _, fun _ => trivial⟩
            · trivial
          · trivial

end Only

end Foreign

/-! ## The C++ client -/

section Cpp

variable [Inhabited T] {cfg : Config} {opts : Nat → Options} {cd : Codecs T} {n : Nat} {c : Req T}
  {st : State × WatchGhost T}

/-- A call that appends nothing leaves the history alone in a transaction. -/
theorem watch_queryTxn {β : Type} {Q : β → State × WatchGhost T → Prop}
    {E : String → State × WatchGhost T → Prop} {t : TxnRequest} {k : Option TxnResponse → Call β}
    (hc : c.appends = none)
    (hk : ∀ s g, WatchInv cfg opts cd (s, g) → WatchInv cfg opts cd ((s.txn cfg t).2, g) →
      WatchMeets cfg opts cd n c Q E (k (s.etcd.txn t).1) ((s.txn cfg t).2, g)) :
    WatchMeets cfg opts cd n c Q E (.act (.txn t) k) st := by
  have hcommit : ∀ r, c.commits r = false := fun r => by simp [Req.commits, hc]
  refine watch_txn (fun st' _ hi _ => ⟨by simp [hcommit], ?_⟩)
  rintro st'' rfl hi'
  rw [watchNote_txn, hcommit] at hi' ⊢
  simp only [Bool.false_eq_true, if_false, List.append_nil] at hi' ⊢
  exact hk _ _ hi hi'

theorem fresh_ret {it : ChainItem T} (h : Fresh cfg cd it st.1.etcd) :
    WatchMeets cfg opts cd n c (fun it st' => Fresh cfg cd it st'.1.etcd) (fun _ _ => True)
      (.ret it) st :=
  Safe.ret h (fun _ _ hr _ h => h.stable hr.grows)

theorem itemFromEtcd_watch (who id : String) (hc : c.appends = none) :
    WatchMeets cfg opts cd n c (fun it st' => Fresh cfg cd it st'.1.etcd) (fun _ _ => True)
      (itemFromEtcd cfg cd who id) st := by
  unfold itemFromEtcd
  by_cases hsep : cfg.saveDataOnSeparateStorage = true
  · rw [if_pos hsep]
    refine watch_queryTxn hc (fun s g hi _ => ?_)
    have hs : (s.txn cfg (readTxn cfg id)).2 = s :=
      step_of_reads cfg (o := .txn (readTxn cfg id)) ⟨rfl, rfl⟩ s
    rw [readTxn_answer, hs]
    cases hckv : s.etcd.kvs (cfg.chainKey id) with
    | none => exact fun _ _ _ => trivial
    | some ckv =>
        cases hdkv : s.etcd.kvs (cfg.dataKey id) with
        | none => exact fun _ _ _ => trivial
        | some dkv =>
            refine fresh_ret (fresh_of_record (hi.sound _ _ hdkv).2.1 ?_)
            intro kv hkv next hnext
            obtain rfl := Option.some.inj (hckv.symm.trans hkv)
            simpa [nextOf, hsep] using hnext.symm
  · rw [if_neg hsep]
    refine watch_read (o := .range (cfg.chainKey id)) (fun _ => rfl) (fun _ _ _ _ => rfl)
      (fun st' _ hi => ?_)
    show WatchMeets cfg opts cd n c _ _
      (Prog.bind (.ret (st'.1.etcd.range (cfg.chainKey id))) _) st'
    unfold Store.range
    cases hkv : st'.1.etcd.kvs (cfg.chainKey id) with
    | none => exact fun _ _ _ => trivial
    | some kv =>
        simp only [Option.toList_some, Prog.ret_bind]
        cases hm : cd.mapData.parse kv.value with
        | none => exact fun _ _ _ => trivial
        | some mapData =>
            refine fresh_ret (fresh_of_record (hi.sound _ _ hkv).2.1 ?_)
            intro kv' hkv' next hnext
            obtain rfl := Option.some.inj (hkv.symm.trans hkv')
            simpa [nextOf, hsep, hm] using hnext.symm

/-- What comes out of the cache knows its successor. -/
theorem itemFromRedis_watch (id : String) :
    WatchMeets cfg opts cd n c (fun r _ => ∀ it, r = some it → it.nextID ≠ "") (fun _ _ => True)
      (itemFromRedis cfg cd id) st := by
  refine watch_read (o := .redisGet .cString (cfg.chainKey id)) (fun _ => rfl)
    (fun _ _ _ _ => rfl) (fun st' _ hi => ?_)
  refine Safe.ret (fun it hit => ?_) (fun _ _ _ _ h => h)
  obtain ⟨r, hr, rfl⟩ := Option.map_eq_some_iff.mp hit
  obtain ⟨v, hv, hparse⟩ := Option.bind_eq_some_iff.mp hr
  exact hi.cache _ v r hv hparse

theorem headItem_fresh {kv : KV} {s : Store} (hs : s.Sound)
    (hkv : s.kvs cfg.headKeyStr = some kv) : Fresh cfg cd (headItem cfg cd kv) s := by
  have hid : (headItem cfg cd kv).id = cfg.headKey ∧
      (headItem cfg cd kv).revision = kv.modRevision ∧
      ∀ next, nextOf cfg cd kv.value = some next → next = (headItem cfg cd kv).nextID := by
    unfold headItem nextOf
    by_cases hsep : cfg.saveDataOnSeparateStorage = true
    · simp only [hsep, if_true, Option.some.injEq]
      exact ⟨trivial, trivial, fun next h => h.symm⟩
    · simp only [hsep, Bool.false_eq_true, if_false]
      cases cd.mapData.parse kv.value with
      | none => exact ⟨rfl, rfl, fun next h => by simp at h⟩
      | some m => exact ⟨rfl, rfl, fun next h => by simpa using h.symm⟩
  refine fresh_of_record (by rw [hid.2.1]; exact (hs _ _ hkv).2.1) (fun kv' hkv' next hnext => ?_)
  rw [hid.1] at hkv'
  obtain rfl := Option.some.inj (hkv.symm.trans hkv')
  exact hid.2.2 next hnext

theorem headFromEtcd_watch (hc : c.appends = none) :
    WatchMeets cfg opts cd n c (fun it st' => Fresh cfg cd it st'.1.etcd) (fun _ _ => True)
      (headFromEtcd cfg cd) st := by
  refine watch_queryTxn hc (fun s g hi hi' => ?_)
  have hs : (s.txn cfg (headTxn cfg (emptyHeadDataStr cfg cd))).2.etcd =
      (s.etcd.txn (headTxn cfg (emptyHeadDataStr cfg cd))).2 := rfl
  cases hh : s.etcd.kvs cfg.headKeyStr with
  | some kv =>
      obtain ⟨h1, h2⟩ := headTxn_of_some (v := emptyHeadDataStr cfg cd) hh
      rw [h1]
      refine fresh_ret (headItem_fresh hi'.sound ?_)
      rw [hs, h2]
      exact hh
  | none =>
      obtain ⟨kv, -, -, h3⟩ := headTxn_of_none (v := emptyHeadDataStr cfg cd) hh
      rw [show (s.etcd.txn (headTxn cfg (emptyHeadDataStr cfg cd))).1 = _ from congrArg Prod.fst h3]
      refine fresh_ret (headItem_fresh hi'.sound ?_)
      rw [hs, h3]
      exact Function.update_self _ _ _

/-- What comes out of the cache is as good as what comes out of etcd. -/
theorem orElse_watch {p : Call (Option (ChainItem T))} {q : Call (ChainItem T)}
    (hi : WatchInv cfg opts cd st)
    (hp : WatchMeets cfg opts cd n c (fun r _ => ∀ it, r = some it → it.nextID ≠ "")
      (fun _ _ => True) p st)
    (hq : ∀ st, WatchMeets cfg opts cd n c (fun it st' => Fresh cfg cd it st'.1.etcd)
      (fun _ _ => True) q st) :
    WatchMeets cfg opts cd n c (fun it st' => Fresh cfg cd it st'.1.etcd) (fun _ _ => True)
      (p.bind fun r => match r with
        | some item => .ret item
        | none => q) st := by
  refine Safe.bind hp (fun r st' _ hr => ?_) hi
  cases r with
  | none => exact hq st'
  | some it => exact fresh_ret (fresh_of_next (hr it rfl))

theorem head_watch {opt : Options} (hc : c.appends = none) (hi : WatchInv cfg opts cd st) :
    WatchMeets cfg opts cd n c (fun it st' => Fresh cfg cd it st'.1.etcd) (fun _ _ => True)
      (head cfg opt cd) st := by
  unfold head
  split
  · exact orElse_watch hi (itemFromRedis_watch cfg.headKey) (fun st => headFromEtcd_watch hc)
  · exact headFromEtcd_watch hc

theorem loadUntil_watch {opt : Options} (id : String) (hc : c.appends = none)
    (hi : WatchInv cfg opts cd st) :
    WatchMeets cfg opts cd n c (fun it st' => Fresh cfg cd it st'.1.etcd) (fun _ _ => True)
      (loadUntil cfg opt cd id) st := by
  unfold loadUntil
  split
  · exact head_watch hc hi
  · split
    · exact orElse_watch hi (itemFromRedis_watch id)
        (fun st => itemFromEtcd_watch "LoadUntil" id hc)
    · exact itemFromEtcd_watch "LoadUntil" id hc

theorem fetchNextFromRedis_watch {opt : Options} (cur : ChainItem T)
    (hi : WatchInv cfg opts cd st) :
    WatchMeets cfg opts cd n c (fun r _ => ∀ it, r = some it → it.nextID ≠ "") (fun _ _ => True)
      (fetchNextFromRedis cfg opt cd cur) st := by
  have hnil : ∀ st, WatchMeets cfg opts cd n c (fun r _ => ∀ it, r = some it → it.nextID ≠ "")
      (fun _ _ => True) (.ret (none : Option (ChainItem T))) st :=
    fun st => Safe.ret (by simp) (fun _ _ _ _ h => h)
  unfold fetchNextFromRedis
  split
  · split
    · exact itemFromRedis_watch cur.nextID
    · refine Safe.bind (itemFromRedis_watch cur.id) (fun r st' _ _ => ?_) hi
      cases r with
      | none => exact hnil st'
      | some s =>
          dsimp only
          split
          · exact itemFromRedis_watch s.nextID
          · exact hnil st'
  · exact hnil st

theorem nextIDFromEtcd_watch (cur : ChainItem T) :
    WatchMeets cfg opts cd n c (fun _ _ => True) (fun _ _ => True)
      (nextIDFromEtcd cfg cd cur) st := by
  unfold nextIDFromEtcd
  split
  · refine watch_read (o := .range (cfg.chainKey cur.id)) (fun _ => rfl) (fun _ _ _ _ => rfl)
      (fun st' _ _ => ?_)
    show WatchMeets cfg opts cd n c _ _ (Prog.bind (.ret (st'.1.etcd.range _)) _) st'
    rw [Prog.ret_bind]
    split
    · exact fun _ _ _ => trivial
    · split
      · exact fun _ _ _ => trivial
      · split <;> exact fun _ _ _ => trivial
  · exact fun _ _ _ => trivial

theorem fetchNextAnyway_watch {opt : Options} (cur : ChainItem T) (hc : c.appends = none)
    (hi : WatchInv cfg opts cd st) :
    WatchMeets cfg opts cd n c (fun r st' => ∀ it, r = some it → Fresh cfg cd it st'.1.etcd)
      (fun _ _ => True) (fetchNextAnyway cfg opt cd cur) st := by
  have hst : ∀ (o : Option (ChainItem T)) (s s' : State × WatchGhost T), Watches opts n s s' →
      (∀ it, o = some it → Fresh cfg cd it s.1.etcd) →
      ∀ it, o = some it → Fresh cfg cd it s'.1.etcd :=
    fun o s s' hr h it hit => (h it hit).stable hr.grows
  refine Safe.bind (fetchNextFromRedis_watch cur hi) (fun r st' hi' hr => ?_) hi
  cases r with
  | some it =>
      refine Safe.ret ?_ (fun s s' hr _ h => hst _ s s' hr h)
      rintro _ ⟨⟩
      exact fresh_of_next (hr it rfl)
  | none =>
      refine Safe.bind (nextIDFromEtcd_watch cur) (fun nextID st'' hi'' _ => ?_) hi'
      split
      · refine Safe.bind (itemFromEtcd_watch "FetchNext" nextID hc) (fun it s _ h => ?_) hi''
        refine Safe.ret ?_ (fun s s' hr _ h => hst _ s s' hr h)
        rintro _ ⟨⟩
        exact h
      · exact Safe.ret (by simp) (fun s s' hr _ h => hst _ s s' hr h)

/-- `fetchNext` of the object `chain`. -/
theorem fetchNext_watch {chain : Nat} {cur : ChainItem T} (hc : c = .fetchNext chain cur)
    (hi : WatchInv cfg opts cd st) (hcur : Fresh cfg cd cur st.1.etcd) :
    WatchMeets cfg opts cd n c (fun r st' => ∀ it, r = some it → Fresh cfg cd it st'.1.etcd)
      (fun _ _ => True) (fetchNext cfg (opts chain) cd chain cur) st := by
  have happ : c.appends = none := by rw [hc]; rfl
  refine Safe.bind (R := fun _ _ => True) ?_ (fun b st' hi' _ => ?_) hi
  · unfold upToDate
    split
    · rename_i hup
      obtain ⟨hw, hn⟩ := Bool.and_eq_true_iff.mp hup
      exact watch_load hc hw hcur (by simpa using hn) (fun _ _ _ => fun _ _ _ => trivial)
    · exact fun _ _ _ => trivial
  · split
    · exact Safe.ret (by simp) (fun _ _ hr _ h it hit => (h it hit).stable hr.grows)
    · exact fetchNextAnyway_watch cur happ hi'

/-! ### Appending -/

theorem duplicate_watch (arg : KeyArg) (opt : Options) (rev : Nat) (id : String) (d : T)
    (next : String) : WatchMeets cfg opts cd n c (fun _ _ => True) (fun _ _ => True)
      (duplicateToRedisAs arg cfg opt cd rev id d next) st :=
  watch_redisSet (fun _ _ _ _ _ _ => fun _ _ _ => trivial)

theorem duplicateBatch_watch (opt : Options) (rev : Nat) (l : List (ChainItem T))
    (hi : WatchInv cfg opts cd st) :
    WatchMeets cfg opts cd n c (fun _ _ => True) (fun _ _ => True)
      (duplicateBatch cfg opt cd rev l) st := by
  induction l generalizing st with
  | nil => exact fun _ _ _ => trivial
  | cons x l ih =>
      cases l with
      | nil => exact fun _ _ _ => trivial
      | cons y l =>
          rw [duplicateBatch, Prog.bind_eq]
          refine Safe.bind (R := fun _ _ => True) ?_ (fun _ st' hi' _ => ?_) hi
          · exact duplicate_watch .cString opt rev x.id _ y.id
          · exact ih hi'

theorem afterAppend_watch {chain rev : Nat} (cur : ChainItem T) (l : List (ChainItem T))
    (hi : WatchInv cfg opts cd st) (hst : Storing opts n chain rev st) :
    WatchMeets cfg opts cd n c (fun _ _ => True) (fun _ _ => True)
      (afterAppend cfg (opts chain) cd chain rev cur l) st := by
  have hdup : ∀ st : State × WatchGhost T, WatchInv cfg opts cd st →
      WatchMeets cfg opts cd n c (fun _ _ => True) (fun _ _ => True)
        (if (opts chain).automaticallyDuplicateToRedis then do
          duplicateToRedis cfg (opts chain) cd rev cur.id (cur.data.getD default)
            ((l.head?.map ChainItem.id).getD "")
          duplicateBatch cfg (opts chain) cd rev l
        else pure ()) st := by
    intro st hi
    split
    · refine Safe.bind (R := fun _ _ => True) ?_ (fun _ st'' hi'' _ => ?_) hi
      · exact duplicate_watch .cString (opts chain) rev cur.id _ _
      · exact duplicateBatch_watch (opts chain) rev l hi''
    · exact fun _ _ _ => trivial
  unfold afterAppend
  by_cases hw : (opts chain).useWatchThread = true
  · simp only [hw, if_true]
    exact watch_store hst (fun _ st'' _ _ hi'' => hdup st'' hi'')
  · simp only [hw]
    exact hdup st hi

/-- The transaction of an append that puts `l`, and what follows it. -/
theorem watch_append {β : Type} {t : TxnRequest} {k : Option TxnResponse → Call β}
    {chain : Nat} (hc : c.isCpp = true) (hch : c.chain = chain) (happ : c.appends.isSome = true)
    (hf : t.failure = []) (hp : ∀ op ∈ t.success, ∃ k v, op = .requestPut k v)
    (hlink : ∃ id v, .requestPut (cfg.chainKey id) v ∈ t.success) (hidle : Unheard n st)
    (hok : ∀ st' rev, WatchInv cfg opts cd st' → Storing opts n chain rev st' →
      WatchMeets cfg opts cd n c (fun _ _ => True) (fun _ _ => True)
        (k (some ⟨true, List.replicate t.success.length (.responsePut rev)⟩)) st')
    (hno : ∀ st' r, (r = none ∨ ∃ resp, r = some resp ∧ resp.succeeded = false) →
      WatchMeets cfg opts cd n c (fun _ _ => True) (fun _ _ => True) (k r) st') :
    WatchMeets cfg opts cd n c (fun _ _ => True) (fun _ _ => True) (.act (.txn t) k) st := by
  obtain ⟨id, v, hlink⟩ := hlink
  refine watch_txn (fun st' hr hi hg => ⟨fun _ => (hidle.stable hr).stored, ?_⟩)
  rintro st'' rfl hi''
  have hidle' := hidle.stable hr
  rcases txn_puts (s := st'.1.etcd) hf hp (List.ne_nil_of_mem hlink) with ⟨h1, h2, h3⟩ | ⟨h, -⟩
  · have hcommit : c.commits (st'.1.etcd.txn t).1 = true := by
      rw [h1]; simp [Req.commits, hc, happ]
    rw [h1, ← h2]
    refine hok _ _ hi'' ⟨?_, fun hw => ?_⟩
    · rw [watchNote_txn]
      intro e he hn
      rw [show (st'.1.txn cfg t).1 = (st'.1.etcd.txn t).1 from rfl, if_pos hcommit] at he
      rcases List.mem_append.mp he with he | he
      · exact absurd hn (hidle'.commits e he)
      · obtain rfl := List.mem_singleton.mp he
        exact ⟨hch, Nat.le_refl _⟩
    · rw [← hch] at hw ⊢
      obtain ⟨evs, hevs⟩ := hg.1 t _ rfl hw h1 (h1 ▸ hcommit)
      rcases txn_notifies cfg st'.1 t c.chain hevs with ⟨-, hkvs⟩ | ⟨h', -⟩
      · -- the link it puts is new
        obtain ⟨hs, hf'⟩ := txn_accepted h1
        obtain ⟨kv, h4, -, h5⟩ := txn_put (s := st'.1.etcd) hs hf' (h3 ▸ hlink)
        have h6 : st'.1.etcd.kvs (cfg.chainKey id) = some kv := (hkvs id).symm.trans h4
        have := (hi.sound _ _ h6).2.1
        omega
      · exact ⟨_, h', Or.inl (List.mem_append_right _ (List.mem_singleton_self _))⟩
  · exact hno _ _ h

theorem appendTxn_puts (cfg : Config) (cd : Codecs T) (cur x : ChainItem T) :
    (∀ op ∈ (appendTxn cfg cd cur x).success, ∃ k v, op = .requestPut k v) ∧
      ∃ id v, .requestPut (cfg.chainKey id) v ∈ (appendTxn cfg cd cur x).success := by
  unfold appendTxn
  dsimp only
  split
  · exact ⟨by simp, cur.id, _, List.mem_cons_self ..⟩
  · exact ⟨by simp, cur.id, _, List.mem_cons_self ..⟩

theorem appendBatchTxn_puts (cfg : Config) (cd : Codecs T) (cur : ChainItem T)
    {l : List (ChainItem T)} (hl : l ≠ []) :
    (∀ op ∈ (appendBatchTxn cfg cd cur l).success, ∃ k v, op = .requestPut k v) ∧
      ∃ id v, .requestPut (cfg.chainKey id) v ∈ (appendBatchTxn cfg cd cur l).success := by
  unfold appendBatchTxn
  dsimp only
  split
  · refine ⟨fun op hop => ?_, cur.id, _, List.mem_cons_self ..⟩
    rcases List.mem_cons.mp hop with rfl | hop
    · exact ⟨_, _, rfl⟩
    · obtain ⟨x, -, hx⟩ := List.mem_flatMap.mp hop
      simp only [List.mem_cons, List.not_mem_nil, or_false] at hx
      rcases hx with rfl | rfl <;> exact ⟨_, _, rfl⟩
  · obtain ⟨x, -, hx⟩ := foldl_overwrite (fun x : ChainItem T => RequestOp.requestPut
      (cfg.chainKey x.id) (cd.mapData.serialize ⟨x.data.getD default, x.nextID⟩)) l .notSet hl
    rw [hx]
    exact ⟨by simp, cur.id, _, List.mem_cons_self ..⟩

theorem appendAfter_watch {chain : Nat} (cur x : ChainItem T) (hc : c.isCpp = true)
    (hch : c.chain = chain) (happ : c.appends.isSome = true) (hidle : Unheard n st) :
    WatchMeets cfg opts cd n c (fun _ _ => True) (fun _ _ => True)
      (appendAfter cfg (opts chain) cd chain cur x) st := by
  obtain ⟨hp, hlink⟩ := appendTxn_puts cfg cd cur x
  have hlen : (appendTxn cfg cd cur x).success.length =
      if cfg.saveDataOnSeparateStorage then 3 else 2 := by
    unfold appendTxn; dsimp only; split <;> rfl
  unfold appendAfter
  split
  · exact fun _ _ _ => trivial
  · split
    · exact fun _ _ _ => trivial
    · split
      · exact fun _ _ _ => trivial
      · refine watch_append hc hch happ (by unfold appendTxn; dsimp only; split <;> rfl) hp hlink
          hidle (fun st' rev hi' hst => ?_) (fun st' r hr => ?_)
        · simp only [Option.getD_some, if_true, Prog.ret_bind]
          have hrev : (((List.replicate (appendTxn cfg cd cur x).success.length
              (ResponseOp.responsePut rev))[if cfg.saveDataOnSeparateStorage then 2 else 1]?).map
              responsePutRevision).getD 0 = rev := by
            rw [hlen]; split <;> rfl
          rw [hrev]
          exact Safe.bind (afterAppend_watch cur [x] hi' hst)
            (fun _ _ _ _ => fun _ _ _ => trivial) hi'
        · rcases hr with rfl | ⟨resp, rfl, hs⟩
          · exact fun _ _ _ => trivial
          · simp only [Option.getD_some, hs, Prog.ret_bind, Bool.false_eq_true, if_false]
            exact fun _ _ _ => trivial

theorem appendAfterBatch_watch {chain : Nat} (cur : ChainItem T) (l : List (ChainItem T))
    (hc : c.isCpp = true) (hch : c.chain = chain) (happ : c.appends.isSome = true)
    (hidle : Unheard n st) :
    WatchMeets cfg opts cd n c (fun _ _ => True) (fun _ _ => True)
      (appendAfterBatch cfg (opts chain) cd chain cur l) st := by
  unfold appendAfterBatch
  split
  · exact fun _ _ _ => trivial
  · exact appendAfter_watch cur _ hc hch happ hidle
  · rename_i first second rest
    obtain ⟨hp, hlink⟩ := appendBatchTxn_puts cfg cd cur (l := first :: second :: rest) (by simp)
    split
    · exact fun _ _ _ => trivial
    · split
      · exact fun _ _ _ => trivial
      · split
        · exact fun _ _ _ => trivial
        · refine watch_append hc hch happ (by unfold appendBatchTxn; dsimp only; split <;> rfl) hp
            hlink hidle (fun st' rev hi' hst => ?_) (fun st' r hr => ?_)
          · simp only [Option.getD_some, if_true, Prog.ret_bind]
            have hrev : ((List.replicate (appendBatchTxn cfg cd cur
                (first :: second :: rest)).success.length (ResponseOp.responsePut rev)).getLast?.map
                responsePutRevision).getD 0 = rev := by
              obtain ⟨id, v, hmem⟩ := hlink
              obtain ⟨k, hk⟩ := Nat.exists_eq_succ_of_ne_zero
                (Nat.pos_iff_ne_zero.mp (List.length_pos_of_mem hmem))
              rw [hk, List.replicate_succ']
              simp [responsePutRevision]
            rw [hrev]
            exact Safe.bind (afterAppend_watch cur _ hi' hst)
              (fun _ _ _ _ => fun _ _ _ => trivial) hi'
          · rcases hr with rfl | ⟨resp, rfl, hs⟩
            · exact fun _ _ _ => trivial
            · simp only [Option.getD_some, hs, Prog.ret_bind, Bool.false_eq_true, if_false]
              exact fun _ _ _ => trivial

end Cpp

end EtcdChain
