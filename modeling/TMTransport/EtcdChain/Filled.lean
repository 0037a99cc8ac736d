import TMTransport.Library.EtcdFilling
import TMTransport.EtcdChain.Contract

/-!
# The head that is made empty

Without separate storage, `start` of TypeScript and Python makes the record of the
head empty. The clients do not agree on such a record: to TypeScript, to Python and to
`head` of C++ it is a head that nothing follows, and the rest of C++ and C# throws at it.

What it stands for is the record that C++ makes, and so a store stands for the one in
which it is filled in. A call that is `Blind` does to the store what it does to the
filled one, or it throws. So what is known of the calls where heads are made as in C++
holds in all runs, of the stores filled in.
-/

namespace EtcdChain

open Etcd Interleave LinkedStore

variable {T : Type}

/-! ## Stores filled in -/

def State.fill (v : String) (s : State) : State := { s with etcd := s.etcd.fill v }

@[simp] theorem State.fill_etcd (v : String) (s : State) : (s.fill v).etcd = s.etcd.fill v := rfl

@[simp] theorem State.fill_redis (v : String) (s : State) : (s.fill v).redis = s.redis := rfl

/-- The answer of the store that is filled in. -/
def Op.fill (v : String) : (o : Op) → o.Res → o.Res
  | .txn _, r => Option.map (TxnResponse.fill v) r
  | .range _, r => List.map (KV.fill v) r
  | .rangePrefix _, r => List.map (KV.fill v) r
  | .redisGet _ _, r => r
  | .redisSet _ _ _ _, r => r
  | .loadLatestModRevision _, r => r
  | .storeLatestModRevision _ _, r => r

def Op.Filled : Op → Prop
  | .txn t => t.Filled
  | _ => True

theorem step_fill {cfg : Config} {v : String} {o : Op} (h : o.Filled) (s : State) :
    State.step cfg o (s.fill v) =
      (o.fill v (State.step cfg o s).1, (State.step cfg o s).2.fill v) := by
  cases o with
  | txn t =>
      have hsome : ∀ r : Option TxnResponse, (r.map (TxnResponse.fill v)).isSome = r.isSome := by
        intro r
        cases r <;> rfl
      simp only [State.step, State.txn, State.fill_etcd, txn_fill h, branch_fill h, hsome]
      rfl
  | range key => exact congrArg (Prod.mk · _) (range_fill key)
  | rangePrefix key => exact congrArg (Prod.mk · _) (rangePrefix_fill key)
  | _ => rfl

theorem sound_fill_iff {v : String} {s : Store} : (s.fill v).Sound ↔ s.Sound := by
  constructor
  · intro h k kv hk
    have := h k (kv.fill v) (by rw [Store.fill_kvs, hk]; rfl)
    rwa [KV.fill_modRevision] at this
  · intro h k kv hk
    rw [Store.fill_kvs] at hk
    obtain ⟨kv', hk', rfl⟩ := Option.map_eq_some_iff.mp hk
    rw [KV.fill_modRevision]
    exact h k kv' hk'

theorem Moves.fill {v : String} {n : Nat} {s s' : Store} {g g' : Ghost T} (h : Moves n s g s' g') :
    Moves n (s.fill v) g (s'.fill v) g' := by
  refine ⟨h.log, h.rev, fun k => ?_, h.touched⟩
  rw [Store.fill_kvs, Store.fill_kvs]
  rcases h.kept k with hk | ⟨kv, hk, hlt⟩
  · exact .inl (by rw [hk])
  · refine .inr ⟨kv.fill v, by rw [hk]; rfl, ?_⟩
    rwa [KV.fill_modRevision]

theorem logOf_fill {v : String} {n : Nat} {c : Req T} {o : Op} (r : o.Res) (s : State) :
    logOf n c o (o.fill v r) (s.fill v) = logOf n c o r s := by
  cases o with
  | txn t =>
      change Option TxnResponse at r
      cases r with
      | none => rfl
      | some resp =>
          simp only [logOf, Op.fill, Option.map_some]
          cases c.appends <;> rfl
  | _ => rfl

/-- The ghost history does not tell whether the store is filled in. -/
theorem note_fill {cfg : Config} {v : String} {n : Nat} {c : Req T} {o : Op} {s : State}
    (hs : s.etcd.Sound) (g : Ghost T) :
    note n c o (o.fill v (State.step cfg o s).1) (s.fill v) ((State.step cfg o s).2.fill v) g =
      note n c o (State.step cfg o s).1 s (State.step cfg o s).2 g := by
  have hkvs : ((State.step cfg o s).2.fill v).etcd.kvs = (s.fill v).etcd.kvs ↔
      (State.step cfg o s).2.etcd.kvs = s.etcd.kvs := by
    cases o with
    | txn t => exact txn_fill_kvs_iff hs
    | _ => exact ⟨fun _ => rfl, fun _ => rfl⟩
  simp only [note, logOf_fill, ne_eq, hkvs]

/-- Nobody else minds an operation of call number `n`. -/
theorem moves_step {cfg : Config} {m n : Nat} (hm : m ≠ n) {c : Req T} (o : Op) (s : State)
    (g : Ghost T) : Moves m s.etcd g (State.step cfg o s).2.etcd
      (note n c o (State.step cfg o s).1 s (State.step cfg o s).2 g) := by
  have hidle : (State.step cfg o s).2.etcd = s.etcd →
      logOf n c o (State.step cfg o s).1 (State.step cfg o s).2 = [] →
      Moves m s.etcd g (State.step cfg o s).2.etcd
        (note n c o (State.step cfg o s).1 s (State.step cfg o s).2 g) := by
    intro hetcd hlog
    rw [note_idle (by rw [hetcd]) hlog, hetcd]
    exact Moves.refl m _ g
  cases o with
  | txn t => exact moves_txn cfg hm s g t
  | _ => exact hidle rfl rfl

/-! ## Calls that do not tell the difference -/

/-- The call goes on alike from an answer and from the answer of the store that is filled in,
or it throws at the former. -/
def Blind (v : String) {α : Type} : Call α → Prop
  | .ret _ => True
  | .fail _ => True
  | .act o k => o.Filled ∧ ∀ r, Blind v (k r) ∧ (k (o.fill v r) = k r ∨ ∃ e, k r = .fail e)

variable {v : String} {α β : Type}

theorem Blind.bind {p : Call α} {f : α → Call β} (hp : Blind v p) (hf : ∀ a, Blind v (f a)) :
    Blind v (p.bind f) := by
  induction p with
  | ret a => exact hf a
  | fail e => trivial
  | act o k ih =>
      refine ⟨hp.1, fun r => ⟨ih r (hp.2 r).1, ?_⟩⟩
      rcases (hp.2 r).2 with heq | ⟨e, he⟩
      · exact .inl (congrArg (Prog.bind · f) heq)
      · exact .inr ⟨e, congrArg (Prog.bind · f) he⟩

theorem Blind.ite {P : Prop} [Decidable P] {p q : Call α} (hp : P → Blind v p)
    (hq : ¬ P → Blind v q) : Blind v (if P then p else q) := by
  split
  · next h => exact hp h
  · next h => exact hq h

/-- What a call makes of the records that it finds, when it looks at the first one only. -/
theorem blind_first {f : List KV → Call α} (hrest : ∀ kv l l', f (kv :: l) = f (kv :: l'))
    (hempty : ∀ kv l, kv.value = "" →
      f (kv.fill v :: l) = f (kv :: l) ∨ ∃ e, f (kv :: l) = .fail e) (kvs : List KV) :
    f (kvs.map (KV.fill v)) = f kvs ∨ ∃ e, f kvs = .fail e := by
  cases kvs with
  | nil => exact .inl rfl
  | cons kv l =>
      rw [List.map_cons, hrest _ _ l]
      by_cases hkv : kv.value = ""
      · exact hempty kv l hkv
      · exact .inl (by rw [KV.fill_of_ne hkv])

theorem blind_ranges {key : String} {f : List KV → Call α} (hf : ∀ kvs, Blind v (f kvs))
    (hrest : ∀ kv l l', f (kv :: l) = f (kv :: l'))
    (hempty : ∀ kv l, kv.value = "" →
      f (kv.fill v :: l) = f (kv :: l) ∨ ∃ e, f (kv :: l) = .fail e) :
    Blind v ((range key).bind f) ∧ Blind v ((DotNet.getRange key).bind f) :=
  ⟨⟨trivial, fun kvs => ⟨hf kvs, blind_first hrest hempty kvs⟩⟩,
    ⟨trivial, fun kvs => ⟨hf kvs, blind_first hrest hempty kvs⟩⟩⟩

theorem blind_txn {t : TxnRequest} {k : Option TxnResponse → Call α} (ht : t.Filled)
    (hnone : Blind v (k none)) (hsome : ∀ resp, Blind v (k (some resp)))
    (hsame : ∀ resp, k (some (resp.fill v)) = k (some resp) ∨ ∃ e, k (some resp) = .fail e) :
    Blind v (.act (.txn t) k) := by
  refine ⟨ht, fun r => ?_⟩
  change Option TxnResponse at r
  cases r with
  | none => exact ⟨hnone, .inl rfl⟩
  | some resp => exact ⟨hsome resp, hsame resp⟩

/-- What a call makes of the answer to a transaction. -/
theorem blind_txns {t : TxnRequest} {f : TxnResponse → Call α} (ht : t.Filled)
    (hf : ∀ resp, Blind v (f resp))
    (hsame : ∀ resp, f (resp.fill v) = f resp ∨ ∃ e, f resp = .fail e) :
    Blind v ((txn t).bind f) ∧ Blind v ((Script.commit t).bind f) ∧
      Blind v ((DotNet.transaction t).bind f) :=
  ⟨blind_txn ht (hf _) hf hsame, blind_txn ht trivial hf hsame, blind_txn ht trivial hf hsame⟩

theorem responses_fill (resp : TxnResponse) (i j : Nat) :
    (resp.fill v).responses[if (resp.fill v).succeeded then i else j]? =
      (resp.responses[if resp.succeeded then i else j]?).map (ResponseOp.fill v) :=
  List.getElem?_map

theorem responseRange_fill (rsp : ResponseOp) :
    responseRange (rsp.fill v) = (responseRange rsp).map (KV.fill v) := by
  cases rsp <;> rfl

theorem responsePutRevision_fill (rsp : Option ResponseOp) :
    (rsp.map (ResponseOp.fill v)).map responsePutRevision = rsp.map responsePutRevision := by
  rw [Option.map_map]
  refine congrFun (congrArg Option.map (funext fun rsp => ?_)) _
  cases rsp <;> rfl

variable [Inhabited T]

/-- What holds of a store whose log is `log`: filled in, it is the chain, and nothing is empty
without separate storage but the head. -/
structure Stands (cfg : Config) (cd : Codecs T) (H : T → Prop) (s : State)
    (log : List (Commit T)) : Prop where
  chain : ChainInv cfg cd H (s.etcd.fill (emptyHeadDataStr cfg cd)) log
  cache : CacheInv cfg cd H (s.fill (emptyHeadDataStr cfg cd)) log
  empty : cfg.saveDataOnSeparateStorage = false → ∀ k kv, s.etcd.kvs k = some kv →
    kv.value = "" → k = cfg.headKeyStr

/-- The contract between calls, one of which may make the head empty. -/
def filledContract (cfg : Config) (cd : Codecs T) (H : T → Prop) :
    Contract State (Ghost T) where
  inv := fun st => Stands cfg cd H st.1 st.2.log
  rely := (contract cfg cd H).rely
  rely_refl := (contract cfg cd H).rely_refl
  rely_trans := (contract cfg cd H).rely_trans

/-- The state that `st` stands for. -/
abbrev Setting.filled (Γ : Setting T) (st : State × Ghost T) : State × Ghost T :=
  (st.1.fill (emptyHeadDataStr Γ.cfg Γ.cd), st.2)

/-- **A blind call** meets its obligations, where those of the filled store say what it returns. -/
theorem Blind.meets {Γ : Setting T} {G : Guard Op State (Ghost T) (Req T)} {n : Nat} {c : Req T}
    {Q : α → State × Ghost T → Prop} {E : String → State × Ghost T → Prop} {p : Call α}
    {st : State × Ghost T} (hp : Blind (emptyHeadDataStr Γ.cfg Γ.cd) p)
    (hG : ∀ o st', o.Filled → G.op c o st' → Γ.guard.op c o (Γ.filled st'))
    (h : Γ.Meets n c Q E p (Γ.filled st)) :
    Safe (system Γ.cfg Γ.opts Γ.cd Γ.calls) G (filledContract Γ.cfg Γ.cd Γ.H) n c
      (fun a st' => Q a (Γ.filled st')) (fun _ _ => True) p st := by
  induction p generalizing st with
  | ret a => exact fun st' hm hi => h (Γ.filled st') (Moves.fill hm) ⟨hi.chain, hi.cache⟩
  | fail e => exact fun _ _ _ => trivial
  | act o k ih =>
      intro st' hm hi hg
      obtain ⟨hfilled, hk⟩ := hp
      obtain ⟨hinv, -, hrest⟩ := h (Γ.filled st') (Moves.fill hm) ⟨hi.chain, hi.cache⟩
        (hG o st' hfilled hg)
      have hexec : (system Γ.cfg Γ.opts Γ.cd Γ.calls).exec n c o (Γ.filled st') =
          (o.fill (emptyHeadDataStr Γ.cfg Γ.cd)
            ((system Γ.cfg Γ.opts Γ.cd Γ.calls).exec n c o st').1,
            Γ.filled ((system Γ.cfg Γ.opts Γ.cd Γ.calls).exec n c o st').2) := by
        simp only [System.exec, system]
        rw [step_fill hfilled, note_fill (sound_fill_iff.mp hi.chain.sound)]
      rw [hexec] at hinv hrest
      refine ⟨⟨hinv.1, hinv.2, fun hsep key kv hkv hempty => ?_⟩,
        fun m hmn => moves_step hmn o st'.1 st'.2, ?_⟩
      · refine hi.empty hsep key kv ?_ hempty
        cases o with
        | txn t => exact txn_empty hfilled hkv hempty
        | _ => exact hkv
      · rcases (hk ((system Γ.cfg Γ.opts Γ.cd Γ.calls).exec n c o st').1).2 with heq | ⟨e, he⟩
        · rw [heq] at hrest
          exact ih _ (hk _).1 hrest
        · rw [he]
          exact fun _ _ _ => trivial

end EtcdChain
