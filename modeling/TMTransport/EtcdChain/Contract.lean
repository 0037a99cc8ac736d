import TMTransport.EtcdChain.Records

/-!
# The contract between calls

Every call keeps the chain and the cache and may rely on `Moves`. A `Setting`
fixes what a group of runs has in common. The rules at the end say, for each
operation, what a call may assume of its answer and what it has to show.

What a reader has read is `Got`: known, and if it has no next id, then it was the
last item at some moment of the call.
-/

namespace EtcdChain

open Etcd Interleave LinkedStore

/-- What the runs under study have in common. -/
structure Setting (T : Type) where
  cfg : Config
  opts : Nat → Options
  cd : Codecs T
  /-- The data that may be read off the head. -/
  H : T → Prop
  calls : Req T → Prop
  guard : Guard Op State (Ghost T) (Req T)

/-- Redis sees the whole of the keys it is given. -/
def KeysWhole (o : Op) : Prop :=
  ∀ arg key, (o = .redisGet arg key ∨ ∃ v ttl, o = .redisSet arg key v ttl) → arg.seen key = key

theorem keysWhole_txn (t : TxnRequest) : KeysWhole (.txn t) := by
  rintro arg key (⟨⟨⟩⟩ | ⟨v, ttl, ⟨⟩⟩)

theorem keysWhole_redisGet {arg : KeyArg} {key : String} (h : arg.seen key = key) :
    KeysWhole (.redisGet arg key) := by
  rintro arg' key' (⟨⟨⟩⟩ | ⟨v, ttl, ⟨⟩⟩)
  exact h

theorem keysWhole_redisSet {arg : KeyArg} {key v : String} {ttl : Nat} (h : arg.seen key = key) :
    KeysWhole (.redisSet arg key v ttl) := by
  rintro arg' key' (⟨⟨⟩⟩ | ⟨v', ttl', ⟨⟩⟩)
  exact h

/-- In separate storage mode, what is read as the data of `id` is not a link record. -/
def LoadsItem {T : Type} (cfg : Config) (id : String) (log : List (Commit T)) : Prop :=
  cfg.saveDataOnSeparateStorage = true → ∀ id' ∈ ids cfg log, cfg.dataKey id ≠ cfg.chainKey id'

/-- Without separate storage, an id that has no record is not a prefix of one that has. -/
def LoadsExact (cfg : Config) (id : String) (s : Store) : Prop :=
  cfg.saveDataOnSeparateStorage = false → s.kvs (cfg.chainKey id) = none →
    s.rangePrefix (cfg.chainKey id) = []

/-- `id` was the last on the chain at some moment since the log was `log₀`. -/
def LastSince {T : Type} (cfg : Config) (log₀ log : List (Commit T)) (id : String) : Prop :=
  ∃ l, log₀ <+: l ∧ l <+: log ∧ LastId cfg l id

variable {T : Type}

def contract (cfg : Config) (cd : Codecs T) (H : T → Prop) : Contract State (Ghost T) where
  inv := fun st => ChainInv cfg cd H st.1.etcd st.2.log ∧ CacheInv cfg cd H st.1 st.2.log
  rely := fun n st st' => Moves n st.1.etcd st.2 st'.1.etcd st'.2
  rely_refl := fun n _ => Moves.refl n _ _
  rely_trans := fun _ _ _ _ h h' => h.trans h'

namespace Setting

/-- The item `it` is known in state `st`. -/
abbrev KnownAt (Γ : Setting T) (it : ChainItem T) (st : State × Ghost T) : Prop :=
  Known Γ.cfg Γ.cd Γ.H it st.1.etcd st.2.log

/-- The invariant of the setting. -/
abbrev Inv (Γ : Setting T) (st : State × Ghost T) : Prop := (contract Γ.cfg Γ.cd Γ.H).inv st

/-- What a call that began when the log was `log₀` may have read by state `st`. -/
structure Got (Γ : Setting T) (log₀ : List (Commit T)) (it : ChainItem T)
    (st : State × Ghost T) : Prop where
  since : log₀ <+: st.2.log
  known : Γ.KnownAt it st
  last : it.nextID = "" → LastSince Γ.cfg log₀ st.2.log it.id

/-- What such a call may have found to follow `id`. -/
structure GotNext (Γ : Setting T) (log₀ : List (Commit T)) (id next : String)
    (st : State × Ghost T) : Prop where
  since : log₀ <+: st.2.log
  last : next = "" → LastSince Γ.cfg log₀ st.2.log id
  adjacent : next ≠ "" → [id, next] <:+: ids Γ.cfg st.2.log

/-- What such a call may have found to be the item after `id`. -/
structure GotItem (Γ : Setting T) (log₀ : List (Commit T)) (id : String)
    (r : Option (ChainItem T)) (st : State × Ghost T) : Prop where
  since : log₀ <+: st.2.log
  last : r = none → LastSince Γ.cfg log₀ st.2.log id
  item : ∀ it, r = some it → Γ.Got log₀ it st ∧ [id, it.id] <:+: ids Γ.cfg st.2.log

variable [Inhabited T]

/-- Call number `n` meets its obligations in the setting. -/
abbrev Meets (Γ : Setting T) (n : Nat) (c : Req T) {β : Type} (Q : β → State × Ghost T → Prop)
    (E : String → State × Ghost T → Prop) (p : Call β) (st : State × Ghost T) : Prop :=
  Safe (system Γ.cfg Γ.opts Γ.cd Γ.calls) Γ.guard (contract Γ.cfg Γ.cd Γ.H) n c Q E p st

end Setting

/-! ## Stability -/

section Stability

variable {Γ : Setting T} {n : Nat} {log₀ : List (Commit T)} {st st' : State × Ghost T}

theorem LastSince.mono {cfg : Config} {log log' : List (Commit T)} {id : String}
    (h : LastSince cfg log₀ log id) (hl : log <+: log') : LastSince cfg log₀ log' id := by
  obtain ⟨l, h1, h2, h3⟩ := h
  exact ⟨l, h1, h2.trans hl, h3⟩

theorem LastSince.weaken {cfg : Config} {log₁ log : List (Commit T)} {id : String}
    (h : LastSince cfg log₁ log id) (hl : log₀ <+: log₁) : LastSince cfg log₀ log id := by
  obtain ⟨l, h1, h2, h3⟩ := h
  exact ⟨l, hl.trans h1, h2, h3⟩

theorem Setting.Got.weaken {log₁ : List (Commit T)} {it : ChainItem T} (h : Γ.Got log₁ it st)
    (hl : log₀ <+: log₁) : Γ.Got log₀ it st :=
  ⟨hl.trans h.since, h.known, fun hn => (h.last hn).weaken hl⟩

theorem Setting.Got.stable {it : ChainItem T} (h : Γ.Got log₀ it st)
    (hm : Moves n st.1.etcd st.2 st'.1.etcd st'.2) : Γ.Got log₀ it st' :=
  ⟨h.since.trans hm.extends, h.known.stable hm, fun hn => (h.last hn).mono hm.extends⟩

theorem Setting.GotNext.stable {id next : String} (h : Γ.GotNext log₀ id next st)
    (hm : Moves n st.1.etcd st.2 st'.1.etcd st'.2) : Γ.GotNext log₀ id next st' :=
  ⟨h.since.trans hm.extends, fun hn => (h.last hn).mono hm.extends,
    fun hn => (h.adjacent hn).trans (ids_extend hm.extends).isInfix⟩

theorem Setting.GotItem.stable {id : String} {r : Option (ChainItem T)}
    (h : Γ.GotItem log₀ id r st) (hm : Moves n st.1.etcd st.2 st'.1.etcd st'.2) :
    Γ.GotItem log₀ id r st' :=
  ⟨h.since.trans hm.extends, fun hn => (h.last hn).mono hm.extends,
    fun it hit => ⟨(h.item it hit).1.stable hm,
      (h.item it hit).2.trans (ids_extend hm.extends).isInfix⟩⟩

theorem cacheInv_mono {cfg : Config} {cd : Codecs T} {H : T → Prop} {s s' : State}
    {log log' : List (Commit T)} (h : CacheInv cfg cd H s log)
    (hlog : log <+: log') (hrev : s.etcd.revision ≤ s'.etcd.revision)
    (hkvs : ∀ k, s.etcd.kvs k ≠ none → s'.etcd.kvs k ≠ none)
    (hredis : ∀ key v, s'.redis key = some v → s.redis key = some v) :
    CacheInv cfg cd H s' log' := by
  intro key v hv
  obtain ⟨id, d, next, rev, h1, h2, h3, h4, h5, h6, h7⟩ := h key v (hredis key v hv)
  exact ⟨id, d, next, rev, h1, h2, h3.trans (ids_extend hlog).isInfix, h4,
    Nat.le_trans h5 hrev, hkvs _ h6, DataOf.mono h7 hlog⟩

end Stability

/-! ## Operations -/

theorem note_idle {n : Nat} {c : Req T} {o : Op} {r : o.Res} {s s' : State} {g : Ghost T}
    (hk : s'.etcd.kvs = s.etcd.kvs) (hl : logOf n c o r s' = []) : note n c o r s s' g = g := by
  cases g
  simp [note, hk, hl]

theorem logOf_of_reads {n : Nat} {c : Req T} {t : TxnRequest} {r : Op.Res (.txn t)} {s' : State}
    (h : putKeys t.success = []) : logOf n c (.txn t) r s' = [] := by
  simp only [logOf, h]
  split
  · simp
  · rfl

theorem txn_readOnly_state {cfg : Config} {s : State} {t : TxnRequest}
    (h : putKeys (t.branch s.etcd) = []) : (s.txn cfg t).2 = s := by
  simp [State.txn, h, txn_readOnly h]

/-- The operations that change nothing. -/
def Op.Reads : Op → Prop
  | .txn t => putKeys t.success = [] ∧ putKeys t.failure = []
  | .range _ => True
  | .rangePrefix _ => True
  | .redisGet _ _ => True
  | .redisSet _ _ _ _ => False
  | .loadLatestModRevision _ => True
  | .storeLatestModRevision _ _ => False

theorem step_of_reads (cfg : Config) {o : Op} (h : o.Reads) (s : State) :
    (State.step cfg o s).2 = s := by
  cases o with
  | txn t =>
      refine txn_readOnly_state ?_
      unfold TxnRequest.branch
      split
      · exact h.1
      · exact h.2
  | range key => rfl
  | rangePrefix key => rfl
  | redisGet arg key => rfl
  | redisSet arg key v ttl => exact h.elim
  | loadLatestModRevision chain => rfl
  | storeLatestModRevision chain rev => exact h.elim

theorem exec_of_reads [Inhabited T] {Γ : Setting T} {n : Nat} {c : Req T} {o : Op} (h : o.Reads)
    (st : State × Ghost T) :
    ((system Γ.cfg Γ.opts Γ.cd Γ.calls).exec n c o st).2 = st := by
  have hs := step_of_reads Γ.cfg h st.1
  simp only [System.exec, system]
  rw [hs, note_idle rfl]
  cases o with
  | txn t => exact logOf_of_reads h.1
  | _ => rfl

section Operations

variable [Inhabited T] {Γ : Setting T} {n : Nat} {c : Req T} {β : Type}
  {Q : β → State × Ghost T → Prop} {E : String → State × Ghost T → Prop} {st : State × Ghost T}

/-- An operation that touches neither etcd nor the log keeps every contract but the cache's. -/
theorem meets_aside {o : Op} {k : o.Res → Call β}
    (hetcd : ∀ s, (State.step Γ.cfg o s).2.etcd = s.etcd)
    (hlog : ∀ r s, logOf n c o r s = [])
    (hk : ∀ st', Moves n st.1.etcd st.2 st'.1.etcd st'.2 → Γ.Inv st' → Γ.guard.op c o st' →
      CacheInv Γ.cfg Γ.cd Γ.H (State.step Γ.cfg o st'.1).2 st'.2.log ∧
      Γ.Meets n c Q E (k (State.step Γ.cfg o st'.1).1) ((State.step Γ.cfg o st'.1).2, st'.2)) :
    Γ.Meets n c Q E (.act o k) st := by
  intro st' hr hi hg
  have hex : ((system Γ.cfg Γ.opts Γ.cd Γ.calls).exec n c o st').2 =
      ((State.step Γ.cfg o st'.1).2, st'.2) := by
    simp only [System.exec, system]
    rw [note_idle (by rw [hetcd]) (hlog _ _)]
  obtain ⟨h1, h2⟩ := hk st' hr hi hg
  rw [hex]
  refine ⟨⟨by simpa only [hetcd] using hi.1, h1⟩, ?_, h2⟩
  intro m _
  show Moves m st'.1.etcd st'.2 (State.step Γ.cfg o st'.1).2.etcd st'.2
  rw [hetcd]
  exact Moves.refl m _ _

theorem meets_range {key : String} {k : List KV → Call β}
    (hk : ∀ st', Moves n st.1.etcd st.2 st'.1.etcd st'.2 → Γ.Inv st' →
      Γ.guard.op c (.range key) st' → Γ.Meets n c Q E (k (st'.1.etcd.range key)) st') :
    Γ.Meets n c Q E (.act (.range key) k) st :=
  meets_aside (fun _ => rfl) (fun _ _ => rfl) (fun st' hr hi hg => ⟨hi.2, hk st' hr hi hg⟩)

theorem meets_rangePrefix {key : String} {k : List KV → Call β}
    (hk : ∀ st', Moves n st.1.etcd st.2 st'.1.etcd st'.2 → Γ.Inv st' →
      Γ.guard.op c (.rangePrefix key) st' →
      Γ.Meets n c Q E (k (st'.1.etcd.rangePrefix key)) st') :
    Γ.Meets n c Q E (.act (.rangePrefix key) k) st :=
  meets_aside (fun _ => rfl) (fun _ _ => rfl) (fun st' hr hi hg => ⟨hi.2, hk st' hr hi hg⟩)

theorem meets_loadLatest {chain : Nat} {k : Nat → Call β}
    (hk : ∀ st', Moves n st.1.etcd st.2 st'.1.etcd st'.2 → Γ.Inv st' →
      Γ.Meets n c Q E (k (st'.1.latestModRevision chain)) st') :
    Γ.Meets n c Q E (.act (.loadLatestModRevision chain) k) st :=
  meets_aside (fun _ => rfl) (fun _ _ => rfl) (fun st' hr hi _ => ⟨hi.2, hk st' hr hi⟩)

/-- A transaction that puts nothing on either branch. -/
theorem meets_readTxn {t : TxnRequest} {k : Option TxnResponse → Call β}
    (hs : putKeys t.success = []) (hf : putKeys t.failure = [])
    (hk : ∀ st', Moves n st.1.etcd st.2 st'.1.etcd st'.2 → Γ.Inv st' →
      Γ.guard.op c (.txn t) st' → Γ.Meets n c Q E (k (st'.1.etcd.txn t).1) st') :
    Γ.Meets n c Q E (.act (.txn t) k) st := by
  have ht : ∀ s : State, (State.step Γ.cfg (.txn t) s).2 = s := step_of_reads _ ⟨hs, hf⟩
  refine meets_aside (fun s => by rw [ht]) (fun _ _ => logOf_of_reads hs) ?_
  intro st' hr hi hg
  rw [ht]
  exact ⟨hi.2, hk st' hr hi hg⟩

omit [Inhabited T] in
/-- Nobody else minds a transaction of call number `n`. -/
theorem moves_txn (cfg : Config) {m : Nat} (hm : m ≠ n) (s : State) (g : Ghost T)
    (t : TxnRequest) :
    Moves m s.etcd g (s.txn cfg t).2.etcd
      (note n c (.txn t) (s.txn cfg t).1 s (s.txn cfg t).2 g) := by
  refine ⟨⟨_, rfl, ?_⟩, revision_le_txn s.etcd t, ?_, ?_⟩
  · intro e he
    simp only [logOf] at he
    split at he
    · split at he
      · obtain rfl := List.mem_singleton.mp he
        exact hm.symm
      · exact absurd he (by simp)
    · exact absurd he (by simp)
  · intro k
    rcases txn_kvs_cases s.etcd t k with h | ⟨kv, h1, h2, -⟩
    · exact Or.inl h
    · exact Or.inr ⟨kv, h1, by omega⟩
  · simp [note, hm]

/-- A transaction, which has to keep what etcd holds in step with the log. -/
theorem meets_txn {t : TxnRequest} {k : Option TxnResponse → Call β}
    (hk : ∀ st', Moves n st.1.etcd st.2 st'.1.etcd st'.2 → Γ.Inv st' →
      Γ.guard.op c (.txn t) st' →
      let s' := (st'.1.txn Γ.cfg t).2
      let g' := note n c (.txn t) (st'.1.txn Γ.cfg t).1 st'.1 s' st'.2
      ChainInv Γ.cfg Γ.cd Γ.H s'.etcd g'.log ∧
        (Γ.Inv (s', g') → Γ.Meets n c Q E (k (st'.1.etcd.txn t).1) (s', g'))) :
    Γ.Meets n c Q E (.act (.txn t) k) st := by
  intro st' hr hi hg
  obtain ⟨h1, h2⟩ := hk st' hr hi hg
  have hmv := moves_txn (c := c) Γ.cfg (Nat.succ_ne_self n) st'.1 st'.2 t
  have hi' : Γ.Inv ((st'.1.txn Γ.cfg t).2,
      note n c (.txn t) (st'.1.txn Γ.cfg t).1 st'.1 (st'.1.txn Γ.cfg t).2 st'.2) :=
    ⟨h1, cacheInv_mono hi.2 hmv.extends hmv.rev (fun k => hmv.bound) (fun _ _ h => h)⟩
  exact ⟨hi', fun m hm => moves_txn Γ.cfg hm st'.1 st'.2 t, h2 hi'⟩

/-- What is in the cache under an item's chain key parses to the item, with its next id. -/
theorem meets_redisGet {arg : KeyArg} {id : String} {k : Option String → Call β}
    (hw : ∀ o st', Γ.guard.op c o st' → KeysWhole o)
    (hnone : ∀ st', Moves n st.1.etcd st.2 st'.1.etcd st'.2 → Γ.Inv st' →
      Γ.Meets n c Q E (k none) st')
    (hsome : ∀ st' d next rev, Moves n st.1.etcd st.2 st'.1.etcd st'.2 → Γ.Inv st' →
      next ≠ "" → DataOf Γ.cfg Γ.H st'.2.log id d → Γ.KnownAt ⟨rev, id, some d, next⟩ st' →
      Γ.Meets n c Q E (k (some (Γ.cd.redis.serialize ⟨rev, d, next⟩))) st') :
    Γ.Meets n c Q E (.act (.redisGet arg (Γ.cfg.chainKey id)) k) st := by
  refine meets_aside (fun _ => rfl) (fun _ _ => rfl) (fun st' hr hi hg => ⟨hi.2, ?_⟩)
  show Γ.Meets n c Q E (k (st'.1.redis (arg.seen (Γ.cfg.chainKey id)))) st'
  rw [hw _ st' hg arg _ (Or.inl rfl)]
  cases hv : st'.1.redis (Γ.cfg.chainKey id) with
  | none => exact hnone st' hr hi
  | some v =>
      obtain ⟨id', d, next, rev, h1, rfl, h3, h4, h5, h6, h7⟩ := hi.2 _ v hv
      obtain rfl := chainKey_inj _ h1
      exact hsome st' d next rev hr hi h4 h7
        ⟨h3.subset (by simp), h6, ⟨d, rfl, h7⟩, fun _ => h3, h5, fun hn => absurd hn h4⟩

end Operations

end EtcdChain
