import Mathlib.Logic.Function.Basic
import Mathlib.Data.List.Nodup
import Mathlib.Data.String.Basic

/-!
# The etcd key-value service

The part of the `etcdserverpb.KV` service that chain clients use: `Range`, on one
key or on a prefix, and `Txn`. A transaction evaluates its compares against the store, runs the
success or the failure operations in order, and commits all of them under one
new revision. A transaction that puts a key twice in one branch, or carries an
operation that was never filled in, is rejected as a whole with an error status.
-/

namespace Etcd

/-- What etcd keeps under a key. A key that exists has a positive version. -/
structure KV where
  value : String
  modRevision : Nat
  version : Nat
  version_pos : 0 < version
  deriving DecidableEq

/-- The store. -/
structure Store where
  revision : Nat
  kvs : String → Option KV
  /-- Every key that was ever put. -/
  keys : List String

/-- A service nobody has written to. -/
def Store.empty : Store := ⟨1, fun _ => none, []⟩

/-- The value under a key. -/
def Store.value (s : Store) (k : String) : Option String := (s.kvs k).map KV.value

inductive CompareResult where
  | equal
  | greater
  deriving DecidableEq

inductive CompareTarget where
  | version (n : Nat)
  | modRevision (n : Nat)
  | value (v : String)
  deriving DecidableEq

/-- A compare of a transaction. -/
structure Compare where
  result : CompareResult
  target : CompareTarget
  key : String
  deriving DecidableEq

/-- Does `x` stand in the given relation to the operand `y`? -/
def CompareResult.test : CompareResult → Nat → Nat → Bool
  | .equal, x, y => x == y
  | .greater, x, y => y < x

/--
A missing key has version and mod revision zero. A compare of the value of a
missing key fails, whatever the operand.
-/
def Compare.holds (s : Store) (c : Compare) : Bool :=
  match c.target with
  | .version n => c.result.test ((s.kvs c.key).elim 0 KV.version) n
  | .modRevision n => c.result.test ((s.kvs c.key).elim 0 KV.modRevision) n
  | .value v =>
    match s.kvs c.key, c.result with
    | none, _ => false
    | some kv, .equal => kv.value == v
    | some kv, .greater => decide (v < kv.value)

/-- One operation of a transaction. -/
inductive RequestOp where
  | requestRange (key : String)
  | requestPut (key value : String)
  | notSet
  deriving DecidableEq

/-- The answer to one operation: the keys found, or the revision of the put. -/
inductive ResponseOp where
  | responseRange (kvs : List KV)
  | responsePut (revision : Nat)
  | notSet
  deriving DecidableEq

structure TxnRequest where
  compare : List Compare := []
  success : List RequestOp := []
  failure : List RequestOp := []
  deriving DecidableEq

structure TxnResponse where
  succeeded : Bool := false
  responses : List ResponseOp := []
  deriving DecidableEq

/-- The keys that a list of operations puts, in order. -/
def putKeys : List RequestOp → List String
  | [] => []
  | .requestPut k _ :: ops => k :: putKeys ops
  | .requestRange _ :: ops => putKeys ops
  | .notSet :: ops => putKeys ops

theorem mem_putKeys {k : String} {ops : List RequestOp} :
    k ∈ putKeys ops ↔ ∃ v, RequestOp.requestPut k v ∈ ops := by
  induction ops with
  | nil => simp [putKeys]
  | cons op ops ih =>
    cases op with
    | requestRange q => simp [putKeys, ih]
    | notSet => simp [putKeys, ih]
    | requestPut q v =>
      simp only [putKeys, List.mem_cons, ih, RequestOp.requestPut.injEq]
      constructor
      · rintro (rfl | ⟨w, hw⟩)
        · exact ⟨v, Or.inl ⟨rfl, rfl⟩⟩
        · exact ⟨w, Or.inr hw⟩
      · rintro ⟨w, ⟨rfl, -⟩ | hw⟩
        · exact Or.inl rfl
        · exact Or.inr ⟨w, hw⟩

/-- The puts that write the given records. -/
def puts (ws : List (String × String)) : List RequestOp :=
  ws.map (fun w => .requestPut w.1 w.2)

theorem putKeys_puts (ws : List (String × String)) : putKeys (puts ws) = ws.map Prod.fst := by
  induction ws with
  | nil => rfl
  | cons w ws ih => exact congrArg (List.cons w.1) ih

theorem putKeys_perm {ops ops' : List RequestOp} (h : ops.Perm ops') :
    (putKeys ops).Perm (putKeys ops') := by
  induction h with
  | nil => exact List.Perm.refl _
  | cons op _ ih =>
    cases op with
    | requestRange q => exact ih
    | notSet => exact ih
    | requestPut q v => exact ih.cons q
  | swap op op' ops =>
    cases op <;> cases op' <;> first | exact List.Perm.refl _ | exact List.Perm.swap _ _ _
  | trans _ _ ih ih' => exact ih.trans ih'

/-- The service accepts a branch that is filled in and puts no key twice. -/
def Acceptable (ops : List RequestOp) : Prop := RequestOp.notSet ∉ ops ∧ (putKeys ops).Nodup

instance (ops : List RequestOp) : Decidable (Acceptable ops) :=
  inferInstanceAs (Decidable (_ ∧ _))

/-- Run one operation, committing under revision `rev`. -/
def applyOp (rev : Nat) (kvs : String → Option KV) : RequestOp → ResponseOp × (String → Option KV)
  | .requestRange k => (.responseRange (kvs k).toList, kvs)
  | .requestPut k v =>
    (.responsePut rev, Function.update kvs k
      (some ⟨v, rev, (kvs k).elim 0 KV.version + 1, Nat.succ_pos _⟩))
  | .notSet => (.notSet, kvs)

/-- Run operations in order. -/
def applyOps (rev : Nat) : (String → Option KV) → List RequestOp →
    List ResponseOp × (String → Option KV)
  | kvs, [] => ([], kvs)
  | kvs, op :: ops =>
    let r := applyOp rev kvs op
    let q := applyOps rev r.2 ops
    (r.1 :: q.1, q.2)

/-- Do the compares of a transaction all hold? -/
def TxnRequest.passes (t : TxnRequest) (s : Store) : Bool := t.compare.all (Compare.holds s)

/-- The branch a transaction takes. -/
def TxnRequest.branch (t : TxnRequest) (s : Store) : List RequestOp :=
  if t.passes s then t.success else t.failure

/-- The `Txn` call. `none` is an error status. -/
def Store.txn (s : Store) (t : TxnRequest) : Option TxnResponse × Store :=
  if Acceptable t.success ∧ Acceptable t.failure then
    let r := applyOps (s.revision + 1) s.kvs (t.branch s)
    (some ⟨t.passes s, r.1⟩,
      ⟨if putKeys (t.branch s) = [] then s.revision else s.revision + 1, r.2,
        s.keys ++ putKeys (t.branch s)⟩)
  else
    (none, s)

/-- The `Range` call on a single key. -/
def Store.range (s : Store) (k : String) : List KV := (s.kvs k).toList

/-- The `Range` call on all keys with the given prefix, in ascending order. -/
def Store.rangePrefix (s : Store) (p : String) : List KV :=
  ((s.keys.filter (fun k => p.toList.isPrefixOf k.toList)).mergeSort
    (fun a b => decide (a ≤ b))).filterMap s.kvs

/-! ## Compares -/

@[simp] theorem holds_version_zero (s : Store) (k : String) :
    Compare.holds s ⟨.equal, .version 0, k⟩ = (s.kvs k).isNone := by
  cases h : s.kvs k with
  | none => simp [Compare.holds, CompareResult.test, h]
  | some kv => simp [Compare.holds, CompareResult.test, h, Nat.pos_iff_ne_zero.mp kv.version_pos]

@[simp] theorem holds_version_pos (s : Store) (k : String) :
    Compare.holds s ⟨.greater, .version 0, k⟩ = (s.kvs k).isSome := by
  cases h : s.kvs k with
  | none => simp [Compare.holds, CompareResult.test, h]
  | some kv => simp [Compare.holds, CompareResult.test, h, kv.version_pos]

theorem holds_value_iff (s : Store) (k v : String) :
    Compare.holds s ⟨.equal, .value v, k⟩ = true ↔ s.value k = some v := by
  cases h : s.kvs k with
  | none => simp [Compare.holds, Store.value, h]
  | some kv => simp [Compare.holds, Store.value, h]

theorem holds_modRevision_iff (s : Store) (k : String) (n : Nat) :
    Compare.holds s ⟨.equal, .modRevision n, k⟩ = true ↔
      (s.kvs k).elim 0 KV.modRevision = n := by
  simp [Compare.holds, CompareResult.test]

theorem value_eq_none_iff (s : Store) (k : String) : s.value k = none ↔ s.kvs k = none := by
  simp [Store.value]

/-! ## What a transaction leaves behind -/

/--
Every key that is there was put, and was last modified no later than the store's
revision.
-/
def Store.Sound (s : Store) : Prop :=
  ∀ k kv, s.kvs k = some kv →
    0 < kv.modRevision ∧ kv.modRevision ≤ s.revision ∧ k ∈ s.keys

theorem sound_empty : Store.empty.Sound := by
  intro k kv h; exact absurd h (by simp [Store.empty])

/-- A key that is not put keeps its record. -/
theorem applyOps_of_notMem {rev : Nat} {ops : List RequestOp} {kvs : String → Option KV}
    {k : String} (h : k ∉ putKeys ops) : (applyOps rev kvs ops).2 k = kvs k := by
  induction ops generalizing kvs with
  | nil => rfl
  | cons op ops ih =>
    cases op with
    | requestRange q => exact ih h
    | notSet => exact ih h
    | requestPut q v =>
      simp only [putKeys, List.mem_cons, not_or] at h
      exact (ih h.2).trans (Function.update_of_ne h.1 _ _)

/-- A key that is put is there afterwards, under the new revision. -/
theorem applyOps_of_mem (rev : Nat) {ops : List RequestOp} (kvs : String → Option KV)
    {k : String} (h : k ∈ putKeys ops) :
    ∃ kv, (applyOps rev kvs ops).2 k = some kv ∧ kv.modRevision = rev := by
  induction ops generalizing kvs with
  | nil => exact absurd h (by simp [putKeys])
  | cons op ops ih =>
    cases op with
    | requestRange q => exact ih _ h
    | notSet => exact ih _ h
    | requestPut q v =>
      by_cases hk : k ∈ putKeys ops
      · exact ih _ hk
      · simp only [putKeys, List.mem_cons, hk, or_false] at h
        subst h
        refine ⟨_, (applyOps_of_notMem hk).trans (Function.update_self _ _ _), rfl⟩

/-- With no key put twice, every put leaves its value. -/
theorem applyOps_put {rev : Nat} {ops : List RequestOp} {kvs : String → Option KV}
    {k v : String} (hnd : (putKeys ops).Nodup) (h : RequestOp.requestPut k v ∈ ops) :
    ∃ kv, (applyOps rev kvs ops).2 k = some kv ∧ kv.value = v ∧ kv.modRevision = rev := by
  induction ops generalizing kvs with
  | nil => exact absurd h (by simp)
  | cons op ops ih =>
    cases op with
    | requestRange q =>
      exact ih hnd (by simpa using h)
    | notSet => exact ih hnd (by simpa using h)
    | requestPut q w =>
      obtain ⟨hq, hnd'⟩ := List.nodup_cons.mp hnd
      rcases List.mem_cons.mp h with he | h'
      · obtain ⟨rfl, rfl⟩ : k = q ∧ v = w := by simpa using he
        exact ⟨_, (applyOps_of_notMem hq).trans (Function.update_self _ _ _), rfl, rfl⟩
      · exact ih hnd' h'

/-- A branch of puts answers each with the revision of the commit. -/
theorem applyOps_puts {rev : Nat} {ops : List RequestOp} {kvs : String → Option KV}
    (h : ∀ op ∈ ops, ∃ k v, op = .requestPut k v) :
    (applyOps rev kvs ops).1 = List.replicate ops.length (.responsePut rev) := by
  induction ops generalizing kvs with
  | nil => rfl
  | cons op ops ih =>
    obtain ⟨k, v, rfl⟩ := h op (List.mem_cons_self ..)
    rw [applyOps, List.length_cons, List.replicate_succ]
    exact congrArg₂ List.cons rfl (ih (fun op hop => h op (List.mem_cons_of_mem _ hop)))

/-- A branch that puts nothing leaves the keys alone. -/
theorem applyOps_readOnly {rev : Nat} {ops : List RequestOp} {kvs : String → Option KV}
    (h : putKeys ops = []) : (applyOps rev kvs ops).2 = kvs := by
  funext k
  exact applyOps_of_notMem (by simp [h])

variable {s : Store} {t : TxnRequest}

/-- A transaction that puts nothing leaves the store alone. -/
theorem txn_readOnly (h : putKeys (t.branch s) = []) : (s.txn t).2 = s := by
  unfold Store.txn
  split
  · simp [h, applyOps_readOnly]
  · rfl

theorem txn_kvs_of_notMem {k : String} (h : k ∉ putKeys (t.branch s)) :
    (s.txn t).2.kvs k = s.kvs k := by
  unfold Store.txn
  split
  · exact applyOps_of_notMem h
  · rfl

theorem revision_le_txn (s : Store) (t : TxnRequest) : s.revision ≤ (s.txn t).2.revision := by
  unfold Store.txn
  split
  · dsimp only
    split <;> omega
  · exact Nat.le_refl _

theorem revision_txn_le (s : Store) (t : TxnRequest) : (s.txn t).2.revision ≤ s.revision + 1 := by
  unfold Store.txn
  split
  · dsimp only
    split <;> omega
  · exact Nat.le_succ _

/-- Each key either keeps its record or is rewritten under the new revision. -/
theorem txn_kvs_cases (s : Store) (t : TxnRequest) (k : String) :
    (s.txn t).2.kvs k = s.kvs k ∨
      ∃ kv, (s.txn t).2.kvs k = some kv ∧ kv.modRevision = s.revision + 1 ∧
        (s.txn t).2.revision = s.revision + 1 := by
  by_cases hk : k ∈ putKeys (t.branch s)
  · unfold Store.txn
    split
    · right
      obtain ⟨kv, h1, h2⟩ := applyOps_of_mem (s.revision + 1) s.kvs hk
      refine ⟨kv, h1, h2, ?_⟩
      dsimp only
      rw [if_neg (by intro h; rw [h] at hk; exact absurd hk (by simp))]
    · exact Or.inl rfl
  · exact Or.inl (txn_kvs_of_notMem hk)

theorem keys_subset_txn (s : Store) (t : TxnRequest) : s.keys ⊆ (s.txn t).2.keys := by
  unfold Store.txn
  split
  · exact List.subset_append_left _ _
  · exact List.Subset.refl _

/-- A key that a transaction rewrote is among the keys that were put. -/
theorem mem_keys_of_changed {k : String} (h : (s.txn t).2.kvs k ≠ s.kvs k) :
    k ∈ (s.txn t).2.keys := by
  have hk : k ∈ putKeys (t.branch s) := by
    by_contra hk
    exact h (txn_kvs_of_notMem hk)
  unfold Store.txn at h ⊢
  split
  · exact List.mem_append_right _ hk
  · simp_all

theorem sound_txn (h : s.Sound) (t : TxnRequest) : (s.txn t).2.Sound := by
  intro k kv hk
  rcases txn_kvs_cases s t k with h1 | ⟨kv', h1, h2, h3⟩
  · rw [h1] at hk
    obtain ⟨h2, h3, h4⟩ := h k kv hk
    exact ⟨h2, Nat.le_trans h3 (revision_le_txn s t), keys_subset_txn s t h4⟩
  · by_cases hch : (s.txn t).2.kvs k = s.kvs k
    · rw [hch] at hk
      obtain ⟨h4, h5, h6⟩ := h k kv hk
      exact ⟨h4, Nat.le_trans h5 (revision_le_txn s t), keys_subset_txn s t h6⟩
    · rw [h1] at hk
      obtain rfl := Option.some.inj hk
      exact ⟨by omega, by omega, mem_keys_of_changed hch⟩

/-- An accepted transaction commits the puts of the branch it takes. -/
theorem txn_put {k v : String} (hs : Acceptable t.success) (hf : Acceptable t.failure)
    (h : RequestOp.requestPut k v ∈ t.branch s) :
    ∃ kv, (s.txn t).2.kvs k = some kv ∧ kv.value = v ∧ kv.modRevision = s.revision + 1 := by
  unfold Store.txn
  rw [if_pos ⟨hs, hf⟩]
  refine applyOps_put ?_ h
  unfold TxnRequest.branch
  split
  · exact hs.2
  · exact hf.2

/-- A transaction that is answered was accepted. -/
theorem txn_accepted {r : TxnResponse} (h : (s.txn t).1 = some r) :
    Acceptable t.success ∧ Acceptable t.failure := by
  unfold Store.txn at h
  split at h
  · assumption
  · exact absurd h (by simp)

theorem txn_of_acceptable (hs : Acceptable t.success) (hf : Acceptable t.failure) :
    s.txn t = (some ⟨t.passes s, (applyOps (s.revision + 1) s.kvs (t.branch s)).1⟩,
      ⟨if putKeys (t.branch s) = [] then s.revision else s.revision + 1,
        (applyOps (s.revision + 1) s.kvs (t.branch s)).2, s.keys ++ putKeys (t.branch s)⟩) := by
  unfold Store.txn
  rw [if_pos ⟨hs, hf⟩]

/-- A transaction that only puts, and only if its compares hold, does so or changes nothing. -/
theorem txn_puts (hf : t.failure = []) (hp : ∀ op ∈ t.success, ∃ k v, op = .requestPut k v)
    (hne : t.success ≠ []) :
    ((s.txn t).1 = some ⟨true, List.replicate t.success.length (.responsePut (s.revision + 1))⟩ ∧
      (s.txn t).2.revision = s.revision + 1 ∧ t.branch s = t.success) ∨
    (((s.txn t).1 = none ∨ ∃ resp, (s.txn t).1 = some resp ∧ resp.succeeded = false) ∧
      (s.txn t).2 = s) := by
  by_cases hacc : Acceptable t.success ∧ Acceptable t.failure
  · have htxn := txn_of_acceptable (s := s) hacc.1 hacc.2
    by_cases hpass : t.passes s = true
    · left
      have hbr : t.branch s = t.success := if_pos hpass
      obtain ⟨op, ops, hops⟩ := List.exists_cons_of_ne_nil hne
      obtain ⟨k, v, rfl⟩ := hp op (by rw [hops]; exact List.mem_cons_self ..)
      rw [htxn, hbr, hpass, applyOps_puts hp]
      exact ⟨rfl, if_neg (by rw [hops]; simp [putKeys]), rfl⟩
    · right
      have hbr : t.branch s = [] := (if_neg hpass).trans hf
      refine ⟨Or.inr ⟨_, congrArg Prod.fst htxn, by simpa using hpass⟩, txn_readOnly ?_⟩
      rw [hbr]; rfl
  · right
    unfold Store.txn
    rw [if_neg hacc]
    exact ⟨Or.inl rfl, rfl⟩

/-! ## A range over a prefix -/

/-- A key that is there comes first among the keys it is a prefix of. -/
theorem rangePrefix_of_mem {k : String} {kv : KV} (h : s.Sound) (hk : s.kvs k = some kv) :
    ∃ rest, s.rangePrefix k = kv :: rest := by
  have hmem : k ∈ s.keys.filter (fun q => k.toList.isPrefixOf q.toList) := by
    simp [(h k kv hk).2.2]
  have hle : ∀ q ∈ s.keys.filter (fun q => k.toList.isPrefixOf q.toList), k ≤ q := by
    intro q hq
    rw [List.mem_filter, List.isPrefixOf_iff_prefix] at hq
    exact not_lt.mp (fun hlt => hq.2.le (String.lt_iff_toList_lt.mp hlt))
  unfold Store.rangePrefix
  generalize s.keys.filter (fun q => k.toList.isPrefixOf q.toList) = l at hmem hle
  have hsorted : (l.mergeSort (fun a b => decide (a ≤ b))).Pairwise (· ≤ ·) := by
    have htrans : ∀ a b c : String, decide (a ≤ b) → decide (b ≤ c) → decide (a ≤ c) :=
      fun a b c h1 h2 => by simpa using le_trans (by simpa using h1) (by simpa using h2)
    simpa using List.pairwise_mergeSort htrans (fun a b => by simpa using le_total a b) l
  have hsort : ∀ q, q ∈ l.mergeSort (fun a b => decide (a ≤ b)) ↔ q ∈ l :=
    fun _ => List.mem_mergeSort
  rw [← hsort] at hmem
  cases hl : l.mergeSort (fun a b => decide (a ≤ b)) with
  | nil => rw [hl] at hmem; exact absurd hmem (by simp)
  | cons q rest =>
      rw [hl] at hmem hsorted
      have hq : k ≤ q := hle q (by
        rw [← hsort, hl]
        exact List.mem_cons_self ..)
      have : k = q := by
        rcases List.mem_cons.mp hmem with he | he
        · exact he
        · exact le_antisymm hq ((List.pairwise_cons.mp hsorted).1 k he)
      subst this
      exact ⟨rest.filterMap s.kvs, by simp [hk]⟩

end Etcd
