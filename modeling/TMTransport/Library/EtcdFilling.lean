import TMTransport.Library.Etcd

/-!
# Etcd, with the empty values filled in

Some users of a store leave a record empty where others write what it stands for.
What `v` stands for is put in place of every empty value, and a transaction that
neither compares values nor puts an empty one is answered by the store that is filled
in as by the one that is not, but for what the ranges of its answer show.
-/

namespace Etcd

variable (v : String)

def KV.fill (kv : KV) : KV := if kv.value = "" then { kv with value := v } else kv

def Store.fill (s : Store) : Store := { s with kvs := fun k => (s.kvs k).map (KV.fill v) }

def ResponseOp.fill : ResponseOp → ResponseOp
  | .responseRange kvs => .responseRange (kvs.map (KV.fill v))
  | .responsePut rev => .responsePut rev
  | .notSet => .notSet

def TxnResponse.fill (r : TxnResponse) : TxnResponse :=
  { r with responses := r.responses.map (ResponseOp.fill v) }

/-- A transaction that says nothing of the empty value. -/
structure TxnRequest.Filled (t : TxnRequest) : Prop where
  compares : ∀ c ∈ t.compare, ∀ w, c.target ≠ .value w
  puts : ∀ k w, RequestOp.requestPut k w ∈ t.success ++ t.failure → w ≠ ""

variable {v} {kv : KV} {s : Store} {t : TxnRequest}

theorem KV.fill_of_ne (h : kv.value ≠ "") : kv.fill v = kv := if_neg h

theorem KV.fill_of_eq (h : kv.value = "") : kv.fill v = { kv with value := v } := if_pos h

@[simp] theorem KV.fill_modRevision : (kv.fill v).modRevision = kv.modRevision := by
  unfold KV.fill
  split <;> rfl

@[simp] theorem KV.fill_version : (kv.fill v).version = kv.version := by
  unfold KV.fill
  split <;> rfl

@[simp] theorem Store.fill_kvs (k : String) : (s.fill v).kvs k = (s.kvs k).map (KV.fill v) := rfl

@[simp] theorem Store.fill_revision : (s.fill v).revision = s.revision := rfl

@[simp] theorem Store.fill_kvs_eq_none {k : String} : (s.fill v).kvs k = none ↔ s.kvs k = none := by
  simp

theorem Store.fill_eq_self (h : ∀ k kv, s.kvs k = some kv → kv.fill v = kv) : s.fill v = s := by
  obtain ⟨rev, kvs, keys⟩ := s
  rw [Store.fill, Store.mk.injEq]
  refine ⟨rfl, ?_, rfl⟩
  funext k
  cases hk : kvs k with
  | none => simp [hk]
  | some kv => simpa [hk] using h k kv hk

/-- A store without empty values has nothing to fill in. -/
theorem Store.fill_of_ne (h : ∀ k kv, s.kvs k = some kv → kv.value ≠ "") : s.fill v = s :=
  Store.fill_eq_self fun k kv hk => KV.fill_of_ne (h k kv hk)

/-- To fill in the empty value itself is to do nothing. -/
theorem Store.fill_empty (s : Store) : s.fill "" = s := by
  refine Store.fill_eq_self fun k kv _ => ?_
  unfold KV.fill
  split
  · next h =>
    cases kv
    rw [KV.mk.injEq]
    exact ⟨h.symm, rfl, rfl⟩
  · rfl

theorem range_fill (k : String) : (s.fill v).range k = (s.range k).map (KV.fill v) := by
  simp only [Store.range, Store.fill_kvs]
  cases s.kvs k <;> rfl

theorem rangePrefix_fill (p : String) :
    (s.fill v).rangePrefix p = (s.rangePrefix p).map (KV.fill v) := by
  rw [Store.rangePrefix, Store.rangePrefix, List.map_filterMap]
  rfl

theorem holds_fill {c : Compare} (h : ∀ w, c.target ≠ .value w) :
    c.holds (s.fill v) = c.holds s := by
  obtain ⟨result, target, key⟩ := c
  cases target with
  | value w => exact absurd rfl (h w)
  | version n =>
      simp only [Compare.holds, Store.fill_kvs]
      cases s.kvs key <;> simp
  | modRevision n =>
      simp only [Compare.holds, Store.fill_kvs]
      cases s.kvs key <;> simp

theorem passes_fill (h : t.Filled) : t.passes (s.fill v) = t.passes s := by
  rw [TxnRequest.passes, TxnRequest.passes, Bool.eq_iff_iff, List.all_eq_true, List.all_eq_true]
  exact forall₂_congr fun c hc => by rw [holds_fill (h.compares c hc)]

theorem branch_fill (h : t.Filled) : t.branch (s.fill v) = t.branch s := by
  rw [TxnRequest.branch, TxnRequest.branch, passes_fill h]

theorem applyOps_fill {rev : Nat} {ops : List RequestOp} {kvs : String → Option KV}
    (h : ∀ k w, RequestOp.requestPut k w ∈ ops → w ≠ "") :
    applyOps rev (fun k => (kvs k).map (KV.fill v)) ops =
      ((applyOps rev kvs ops).1.map (ResponseOp.fill v),
        fun k => ((applyOps rev kvs ops).2 k).map (KV.fill v)) := by
  induction ops generalizing kvs with
  | nil => rfl
  | cons op ops ih =>
      have hops : ∀ k w, RequestOp.requestPut k w ∈ ops → w ≠ "" := fun k w hw =>
        h k w (List.mem_cons_of_mem _ hw)
      cases op with
      | requestRange q =>
          simp only [applyOps, applyOp, List.map_cons, ResponseOp.fill]
          rw [ih hops]
          cases kvs q <;> rfl
      | notSet =>
          simp only [applyOps, applyOp, List.map_cons, ResponseOp.fill]
          rw [ih hops]
      | requestPut q w =>
          -- the record that is put is not empty, and its version does not depend on values
          have hput : (applyOp rev (fun k => (kvs k).map (KV.fill v)) (.requestPut q w)).2 =
              fun k => ((applyOp rev kvs (.requestPut q w)).2 k).map (KV.fill v) := by
            funext k
            have hversion : ((kvs q).map (KV.fill v)).elim 0 KV.version =
                (kvs q).elim 0 KV.version := by
              cases kvs q with
              | none => rfl
              | some kv => exact KV.fill_version
            by_cases hk : k = q
            · subst hk
              simp only [applyOp, Function.update_self, Option.map_some, hversion]
              rw [KV.fill_of_ne (h k w List.mem_cons_self)]
            · simp only [applyOp, Function.update_of_ne hk]
          rw [applyOps, applyOps, hput, ih hops]
          rfl

/-- **A transaction does the same** to the store that is filled in. -/
theorem txn_fill (h : t.Filled) :
    (s.fill v).txn t = ((s.txn t).1.map (TxnResponse.fill v), (s.txn t).2.fill v) := by
  have hputs : ∀ k w, RequestOp.requestPut k w ∈ t.branch s → w ≠ "" := by
    intro k w hw
    refine h.puts k w (List.mem_append.mpr ?_)
    unfold TxnRequest.branch at hw
    split at hw
    · exact .inl hw
    · exact .inr hw
  by_cases hacc : Acceptable t.success ∧ Acceptable t.failure
  · rw [txn_of_acceptable hacc.1 hacc.2, txn_of_acceptable hacc.1 hacc.2, branch_fill h,
      passes_fill h, show (s.fill v).kvs = fun k => (s.kvs k).map (KV.fill v) from rfl,
      applyOps_fill hputs]
    rfl
  · rw [Store.txn, Store.txn, if_neg hacc, if_neg hacc]
    rfl

/-- What a transaction leaves empty was empty before. -/
theorem txn_empty (h : t.Filled) {k : String} (hk : (s.txn t).2.kvs k = some kv)
    (hempty : kv.value = "") : s.kvs k = some kv := by
  by_cases hput : k ∈ putKeys (t.branch s)
  · by_cases hacc : Acceptable t.success ∧ Acceptable t.failure
    · obtain ⟨w, hw⟩ := mem_putKeys.mp hput
      obtain ⟨kv', hkv', hvalue, -⟩ := txn_put hacc.1 hacc.2 hw
      rw [hk] at hkv'
      obtain rfl := Option.some.inj hkv'
      refine absurd (hvalue.symm.trans hempty) (h.puts k w (List.mem_append.mpr ?_))
      unfold TxnRequest.branch at hw
      split at hw
      · exact .inl hw
      · exact .inr hw
    · rwa [Store.txn, if_neg hacc] at hk
  · rwa [txn_kvs_of_notMem hput] at hk

/-- Filled in or not, a transaction has changed something or nothing. -/
theorem txn_fill_kvs_iff (hs : s.Sound) :
    ((s.txn t).2.fill v).kvs = (s.fill v).kvs ↔ (s.txn t).2.kvs = s.kvs := by
  constructor
  · intro h
    funext k
    rcases txn_kvs_cases s t k with hk | ⟨kv, hk, hrev, -⟩
    · exact hk
    · -- a record that was put has a revision that no record had before
      have heq := congrFun h k
      rw [Store.fill_kvs, Store.fill_kvs, hk, Option.map_some] at heq
      cases hold : s.kvs k with
      | none => rw [hold] at heq; cases heq
      | some kv' =>
          rw [hold, Option.map_some] at heq
          have hsame := congrArg KV.modRevision (Option.some.inj heq)
          rw [KV.fill_modRevision, KV.fill_modRevision] at hsame
          have hle := (hs k kv' hold).2.1
          omega
  · intro h
    funext k
    rw [Store.fill_kvs, Store.fill_kvs, h]

end Etcd
