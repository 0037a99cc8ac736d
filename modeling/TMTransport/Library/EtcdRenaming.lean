import TMTransport.Library.Etcd

/-!
# Etcd, up to the names of revisions

The revision of a store counts the commits of all its users. What one of them sees
under its own keys does not depend on the others, but for the names of revisions: a
transaction that asks only whether a key still has the revision it had is answered
alike by two stores that differ in these names.
-/

namespace Etcd

variable (ρ : Nat → Nat)

def KV.rename (kv : KV) : KV := { kv with modRevision := ρ kv.modRevision }

def CompareTarget.rename : CompareTarget → CompareTarget
  | .modRevision n => .modRevision (ρ n)
  | .version n => .version n
  | .value v => .value v

def Compare.rename (c : Compare) : Compare := { c with target := c.target.rename ρ }

def TxnRequest.rename (t : TxnRequest) : TxnRequest :=
  { t with compare := t.compare.map (Compare.rename ρ) }

def ResponseOp.rename : ResponseOp → ResponseOp
  | .responseRange kvs => .responseRange (kvs.map (KV.rename ρ))
  | .responsePut rev => .responsePut (ρ rev)
  | .notSet => .notSet

def TxnResponse.rename (r : TxnResponse) : TxnResponse :=
  { r with responses := r.responses.map (ResponseOp.rename ρ) }

/-- The store `s'` holds under the keys in `O` what `s` holds, with other names for revisions. -/
def Alike (O : String → Prop) (kvs kvs' : String → Option KV) : Prop :=
  ∀ k, O k → kvs' k = (kvs k).map (KV.rename ρ)

/-- The key that an operation is about. -/
def RequestOp.key : RequestOp → Option String
  | .requestRange k => some k
  | .requestPut k _ => some k
  | .notSet => none

/-- The keys that a transaction is about. -/
def TxnRequest.keys (t : TxnRequest) : List String :=
  t.compare.map Compare.key ++ (t.success ++ t.failure).filterMap RequestOp.key

/-- A revision is only compared for being the same. -/
def TxnRequest.OnlyNames (t : TxnRequest) : Prop :=
  ∀ c ∈ t.compare, ∀ n, c.target = .modRevision n → c.result = .equal

variable {ρ} {O : String → Prop} {kvs kvs' : String → Option KV} {s s' : Store} {t : TxnRequest}

/-- A key that a transaction puts is one that it is about. -/
theorem mem_keys_of_put {k : String} (h : k ∈ putKeys (t.branch s)) : k ∈ t.keys := by
  obtain ⟨v, hv⟩ := mem_putKeys.mp h
  refine List.mem_append_right _ (List.mem_filterMap.mpr ⟨.requestPut k v, ?_, rfl⟩)
  unfold TxnRequest.branch at hv
  split at hv
  · exact List.mem_append_left _ hv
  · exact List.mem_append_right _ hv

theorem holds_rename (hinj : Function.Injective ρ) (hzero : ρ 0 = 0) {c : Compare}
    (h : Alike ρ O s.kvs s'.kvs) (hkey : O c.key)
    (hname : ∀ n, c.target = .modRevision n → c.result = .equal) :
    (c.rename ρ).holds s' = c.holds s := by
  obtain ⟨result, target, key⟩ := c
  have hk : s'.kvs key = (s.kvs key).map (KV.rename ρ) := h key hkey
  cases target with
  | version n =>
      simp only [Compare.rename, CompareTarget.rename, Compare.holds, hk]
      cases s.kvs key <;> rfl
  | modRevision n =>
      obtain rfl : result = .equal := hname n rfl
      have hrev : (s'.kvs key).elim 0 KV.modRevision = ρ ((s.kvs key).elim 0 KV.modRevision) := by
        rw [hk]
        cases s.kvs key with
        | none => exact hzero.symm
        | some kv => rfl
      simp only [Compare.rename, CompareTarget.rename, Compare.holds, CompareResult.test, hrev]
      rw [Bool.eq_iff_iff, beq_iff_eq, beq_iff_eq, hinj.eq_iff]
  | value v =>
      simp only [Compare.rename, CompareTarget.rename, Compare.holds, hk]
      cases s.kvs key with
      | none => rfl
      | some kv => cases result <;> rfl

theorem applyOps_rename {ops : List RequestOp} {rev rev' : Nat} (h : Alike ρ O kvs kvs')
    (hkeys : ∀ k ∈ ops.filterMap RequestOp.key, O k) (hrev : putKeys ops ≠ [] → ρ rev = rev') :
    (applyOps rev' kvs' ops).1 = (applyOps rev kvs ops).1.map (ResponseOp.rename ρ) ∧
      Alike ρ O (applyOps rev kvs ops).2 (applyOps rev' kvs' ops).2 := by
  induction ops generalizing kvs kvs' with
  | nil => exact ⟨rfl, h⟩
  | cons op ops ih =>
      cases op with
      | requestRange k =>
          obtain ⟨hanswers, hstores⟩ := ih h
            (fun q hq => hkeys q (List.mem_cons_of_mem _ hq)) hrev
          refine ⟨?_, hstores⟩
          have hk : kvs' k = (kvs k).map (KV.rename ρ) := h k (hkeys k List.mem_cons_self)
          simp only [applyOps, applyOp, List.map_cons, hanswers, hk, ResponseOp.rename]
          cases kvs k <;> rfl
      | requestPut k v =>
          have hk : kvs' k = (kvs k).map (KV.rename ρ) := h k (hkeys k List.mem_cons_self)
          have hname : ρ rev = rev' := hrev (List.cons_ne_nil _ _)
          have hput : Alike ρ O (applyOp rev kvs (.requestPut k v)).2
              (applyOp rev' kvs' (.requestPut k v)).2 := by
            intro q hq
            by_cases heq : q = k
            · have hversion : (kvs' k).elim 0 KV.version = (kvs k).elim 0 KV.version := by
                rw [hk]
                cases kvs k <;> rfl
              simp only [heq, applyOp, Function.update_self, Option.map_some, KV.rename, hname,
                hversion]
            · simp only [applyOp, Function.update_of_ne heq]
              exact h q hq
          obtain ⟨hanswers, hstores⟩ := ih hput
            (fun q hq => hkeys q (List.mem_cons_of_mem _ hq)) (fun _ => hname)
          refine ⟨?_, hstores⟩
          rw [applyOps, applyOps]
          simp only [hanswers, List.map_cons]
          rw [applyOp, applyOp, ResponseOp.rename, hname]
      | notSet =>
          obtain ⟨hanswers, hstores⟩ := ih h hkeys hrev
          refine ⟨?_, hstores⟩
          simp only [applyOps, applyOp, List.map_cons, hanswers, ResponseOp.rename]

/-- **A transaction is answered alike**, and leaves stores that are alike. -/
theorem txn_rename (hinj : Function.Injective ρ) (hzero : ρ 0 = 0) (h : Alike ρ O s.kvs s'.kvs)
    (hkeys : ∀ k ∈ t.keys, O k) (hnames : t.OnlyNames)
    (hrev : s.revision < (s.txn t).2.revision → ρ (s.revision + 1) = s'.revision + 1) :
    (s'.txn (t.rename ρ)).1 = (s.txn t).1.map (TxnResponse.rename ρ) ∧
      Alike ρ O (s.txn t).2.kvs (s'.txn (t.rename ρ)).2.kvs ∧
      (s'.txn (t.rename ρ)).2.revision + s.revision = s'.revision + (s.txn t).2.revision := by
  have hpasses : (t.rename ρ).passes s' = t.passes s := by
    have hholds : ∀ c ∈ t.compare, (c.rename ρ).holds s' = c.holds s := fun c hc =>
      holds_rename hinj hzero h (hkeys _ (List.mem_append_left _ (List.mem_map_of_mem hc)))
        (hnames c hc)
    rw [TxnRequest.passes, TxnRequest.passes, TxnRequest.rename, List.all_map, Bool.eq_iff_iff,
      List.all_eq_true, List.all_eq_true]
    exact forall₂_congr fun c hc => by rw [Function.comp_apply, hholds c hc]
  have hbranch : (t.rename ρ).branch s' = t.branch s := by
    rw [TxnRequest.branch, TxnRequest.branch, hpasses]
    rfl
  by_cases hacc : Acceptable t.success ∧ Acceptable t.failure
  · have htxn := txn_of_acceptable (s := s) hacc.1 hacc.2
    have htxn' : s'.txn (t.rename ρ) = _ := txn_of_acceptable (s := s') (t := t.rename ρ)
      hacc.1 hacc.2
    rw [hbranch, hpasses] at htxn'
    rw [htxn] at hrev
    rw [htxn, htxn']
    have hkeys' : ∀ k ∈ (t.branch s).filterMap RequestOp.key, O k := by
      intro k hk
      refine hkeys k (List.mem_append_right _ ?_)
      rw [List.filterMap_append, List.mem_append]
      unfold TxnRequest.branch at hk
      split at hk
      · exact .inl hk
      · exact .inr hk
    have hname : putKeys (t.branch s) ≠ [] → ρ (s.revision + 1) = s'.revision + 1 :=
      fun hput => hrev (by simp [if_neg hput])
    obtain ⟨hanswers, hstores⟩ := applyOps_rename h hkeys' hname
    refine ⟨?_, hstores, ?_⟩
    · simp [TxnResponse.rename, hanswers]
    · dsimp only
      split <;> omega
  · have hacc' : ¬ (Acceptable (t.rename ρ).success ∧ Acceptable (t.rename ρ).failure) := hacc
    rw [Store.txn, Store.txn, if_neg hacc, if_neg hacc']
    exact ⟨rfl, h, rfl⟩

/-! ## What holds of every record -/

variable {I : String → String → Prop}

/-- What holds of every record and of every put holds afterwards, and of every answer. -/
theorem applyOps_all (rev : Nat) {ops : List RequestOp}
    (h : ∀ k kv, kvs k = some kv → I k kv.value)
    (hputs : ∀ k v, RequestOp.requestPut k v ∈ ops → I k v) :
    (∀ k kv, (applyOps rev kvs ops).2 k = some kv → I k kv.value) ∧
      List.Forall₂ (fun op rsp => ∀ k, op = .requestRange k →
        ∃ o : Option KV, rsp = .responseRange o.toList ∧ ∀ kv, o = some kv → I k kv.value)
        ops (applyOps rev kvs ops).1 := by
  induction ops generalizing kvs with
  | nil => exact ⟨h, .nil⟩
  | cons op ops ih =>
      have hputs' : ∀ k v, RequestOp.requestPut k v ∈ ops → I k v := fun k v hv =>
        hputs k v (List.mem_cons_of_mem _ hv)
      cases op with
      | requestRange q =>
          obtain ⟨hstores, hanswers⟩ := ih h hputs'
          refine ⟨hstores, .cons (fun k hk => ?_) hanswers⟩
          cases hk
          exact ⟨kvs q, rfl, h q⟩
      | notSet =>
          obtain ⟨hstores, hanswers⟩ := ih h hputs'
          exact ⟨hstores, .cons (fun k hk => by cases hk) hanswers⟩
      | requestPut q v =>
          have hput : ∀ k kv, (applyOp rev kvs (.requestPut q v)).2 k = some kv → I k kv.value := by
            intro k kv hkv
            by_cases heq : k = q
            · simp only [applyOp, heq, Function.update_self, Option.some.injEq] at hkv
              rw [heq, ← hkv]
              exact hputs q v List.mem_cons_self
            · simp only [applyOp, Function.update_of_ne heq] at hkv
              exact h k kv hkv
          obtain ⟨hstores, hanswers⟩ := ih hput hputs'
          exact ⟨hstores, .cons (fun k hk => by cases hk) hanswers⟩

theorem txn_all (h : ∀ k kv, s.kvs k = some kv → I k kv.value)
    (hputs : ∀ k v, RequestOp.requestPut k v ∈ t.success ++ t.failure → I k v) :
    (∀ k kv, (s.txn t).2.kvs k = some kv → I k kv.value) ∧
      ∀ resp, (s.txn t).1 = some resp → resp.succeeded = t.passes s ∧
        List.Forall₂ (fun op rsp => ∀ k, op = .requestRange k →
          ∃ o : Option KV, rsp = .responseRange o.toList ∧ ∀ kv, o = some kv → I k kv.value)
          (t.branch s) resp.responses := by
  by_cases hacc : Acceptable t.success ∧ Acceptable t.failure
  · rw [txn_of_acceptable hacc.1 hacc.2]
    have hputs' : ∀ k v, RequestOp.requestPut k v ∈ t.branch s → I k v := by
      intro k v hv
      unfold TxnRequest.branch at hv
      split at hv
      · exact hputs k v (List.mem_append_left _ hv)
      · exact hputs k v (List.mem_append_right _ hv)
    obtain ⟨hstores, hanswers⟩ := applyOps_all (s.revision + 1) h hputs'
    refine ⟨hstores, fun resp hresp => ?_⟩
    cases hresp
    exact ⟨rfl, hanswers⟩
  · simp only [Store.txn, if_neg hacc]
    exact ⟨h, fun resp hresp => by cases hresp⟩

end Etcd
