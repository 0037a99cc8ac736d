import Mathlib.Data.List.Induction
import Mathlib.Data.List.Lattice
import Mathlib.Data.List.Nodup
import TMTransport.Library.ChangeLog

/-!
# Etcd, with its events

A store of keys and values whose commits are numbered by revisions, and which keeps
for its watches what each commit did to each key. A key that is deleted starts again
with version 1 when it is put the next time.
-/

namespace EtcdEvents

open ChangeLog

/-- `mvccpb::KeyValue`, without its key -/
structure KeyValue (α : Type) where
  value : α
  version : Nat
  modRevision : Nat
  deriving DecidableEq

inductive EventType where
  | put
  | delete
  deriving DecidableEq

/-- `mvccpb::Event`. Of a key that was deleted only the revision is filled in. -/
structure Event (κ α : Type) where
  type : EventType
  key : κ
  kv : KeyValue α
  deriving DecidableEq

/-- One operation of a transaction. -/
inductive Change (κ α : Type) where
  | put (key : κ) (value : α)
  | delete (key : κ)
  deriving DecidableEq

variable {κ α : Type}

def Change.key : Change κ α → κ
  | .put key _ => key
  | .delete key => key

/-- The keys that changes put. -/
def putKeys : List (Change κ α) → List κ
  | [] => []
  | .put key _ :: cs => key :: putKeys cs
  | .delete _ :: cs => putKeys cs

/-- What an event does to the map of keys and values. -/
def Event.entry (e : Event κ α) : Entry κ (KeyValue α) :=
  ⟨e.key, match e.type with
    | .put => some e.kv
    | .delete => none⟩

structure Store (κ α : Type) where
  revision : Nat
  kvs : κ → Option (KeyValue α)
  /-- The keys that there are or have been. -/
  keys : List κ
  /-- The events so far, oldest first. -/
  log : List (Event κ α)
  nodup : keys.Nodup
  mem_keys : ∀ k kv, kvs k = some kv → k ∈ keys

/-- A store before its first event. -/
def Store.empty : Store κ α where
  revision := 1
  kvs := fun _ => none
  keys := []
  log := []
  nodup := List.nodup_nil
  mem_keys := fun _ _ h => nomatch h

/-- The `Range` call for the keys that satisfy `p`. -/
def Store.range (s : Store κ α) (p : κ → Bool) : List (κ × KeyValue α) :=
  (s.keys.filter p).filterMap fun k => (s.kvs k).map fun kv => (k, kv)

theorem mem_range {s : Store κ α} {p : κ → Bool} {k : κ} {kv : KeyValue α} :
    (k, kv) ∈ s.range p ↔ p k = true ∧ s.kvs k = some kv := by
  simp only [Store.range, List.mem_filterMap, List.mem_filter, Option.map_eq_some_iff,
    Prod.mk.injEq]
  constructor
  · rintro ⟨k', ⟨-, hp⟩, kv', hkv, rfl, rfl⟩
    exact ⟨hp, hkv⟩
  · intro h
    exact ⟨k, ⟨s.mem_keys k kv h.2, h.1⟩, kv, h.2, rfl, rfl⟩

variable [DecidableEq κ]

theorem mem_keys_of_replay {kvs : κ → Option (KeyValue α)} {keys : List κ}
    (h : ∀ k kv, kvs k = some kv → k ∈ keys) (events : List (Event κ α)) (k : κ)
    (kv : KeyValue α) (hkv : replay kvs (events.map Event.entry) k = some kv) :
    k ∈ events.map Event.key ∪ keys := by
  by_cases hmem : k ∈ events.map Event.key
  · exact List.mem_union_left hmem _
  · refine List.mem_union_right _ (h k kv ?_)
    rw [replay_of_untouched] at hkv
    · exact hkv
    · intro e he heq
      obtain ⟨ev, hev, rfl⟩ := List.mem_map.mp he
      exact hmem (List.mem_map.mpr ⟨ev, hev, heq⟩)

/-- Events happen, in one commit. -/
def Store.extend (s : Store κ α) (events : List (Event κ α)) : Store κ α where
  revision := if events = [] then s.revision else s.revision + 1
  kvs := replay s.kvs (events.map Event.entry)
  keys := events.map Event.key ∪ s.keys
  log := s.log ++ events
  nodup := List.Nodup.union _ s.nodup
  mem_keys := mem_keys_of_replay s.mem_keys events

/-! ## Single keys -/

/-- The `version` of a key, 0 when it is not there. -/
def Store.version (s : Store κ α) (k : κ) : Nat := (s.kvs k).elim 0 KeyValue.version

/-- The `mod_revision` of a key, 0 when it is not there. -/
def Store.modRevision (s : Store κ α) (k : κ) : Nat := (s.kvs k).elim 0 KeyValue.modRevision

/-- The `Put` call. -/
def Store.put (s : Store κ α) (k : κ) (v : α) : Store κ α :=
  s.extend [⟨.put, k, ⟨v, s.version k + 1, s.revision + 1⟩⟩]

section Put

variable (s : Store κ α) (k : κ) (v : α)

@[simp]
theorem put_revision : (s.put k v).revision = s.revision + 1 := rfl

@[simp]
theorem put_log :
    (s.put k v).log = s.log ++ [⟨.put, k, ⟨v, s.version k + 1, s.revision + 1⟩⟩] := rfl

theorem put_kvs : (s.put k v).kvs =
    Function.update s.kvs k (some ⟨v, s.version k + 1, s.revision + 1⟩) := rfl

@[simp]
theorem put_version_self : (s.put k v).version k = s.version k + 1 := by
  rw [Store.version, put_kvs, Function.update_self]
  rfl

@[simp]
theorem put_modRevision_self : (s.put k v).modRevision k = s.revision + 1 := by
  rw [Store.modRevision, put_kvs, Function.update_self]
  rfl

variable {s k} {k' : κ}

theorem put_version_of_ne (h : k' ≠ k) : (s.put k v).version k' = s.version k' := by
  rw [Store.version, put_kvs, Function.update_of_ne h]
  rfl

theorem put_modRevision_of_ne (h : k' ≠ k) : (s.put k v).modRevision k' = s.modRevision k' := by
  rw [Store.modRevision, put_kvs, Function.update_of_ne h]
  rfl

end Put

/-! ## Transactions -/

variable [Inhabited α]

/-- The event of a change in the commit `rev`. A deletion of a key that is not there is none. -/
def Change.event (rev : Nat) (kvs : κ → Option (KeyValue α)) : Change κ α → Option (Event κ α)
  | .put key value => some ⟨.put, key, ⟨value, (kvs key).elim 0 KeyValue.version + 1, rev⟩⟩
  | .delete key =>
    match kvs key with
    | some _ => some ⟨.delete, key, ⟨default, 0, rev⟩⟩
    | none => none

/-- The events of a transaction. -/
def eventsOf (rev : Nat) : (κ → Option (KeyValue α)) → List (Change κ α) → List (Event κ α)
  | _, [] => []
  | kvs, c :: cs =>
    match c.event rev kvs with
    | some e => e :: eventsOf rev (e.entry.apply kvs) cs
    | none => eventsOf rev kvs cs

/-- The service accepts a transaction that puts no key twice, and none that it deletes. -/
def Acceptable : List (Change κ α) → Prop
  | [] => True
  | .put key _ :: cs => key ∉ cs.map Change.key ∧ Acceptable cs
  | .delete key :: cs => key ∉ putKeys cs ∧ Acceptable cs

instance Acceptable.decidable : ∀ cs : List (Change κ α), Decidable (Acceptable cs)
  | [] => .isTrue trivial
  | .put key _ :: cs =>
    have := Acceptable.decidable cs
    inferInstanceAs (Decidable (key ∉ cs.map Change.key ∧ _))
  | .delete key :: cs =>
    have := Acceptable.decidable cs
    inferInstanceAs (Decidable (key ∉ putKeys cs ∧ _))

/-- The `Txn` call without compares. `none` is an error status. -/
def Store.commit (s : Store κ α) (cs : List (Change κ α)) : Option (Store κ α) :=
  if Acceptable cs then some (s.extend (eventsOf (s.revision + 1) s.kvs cs)) else none

/-! ## What a transaction does to the values -/

/-- The values in a map of keys. -/
def valuesOf (kvs : κ → Option (KeyValue α)) : κ → Option α := fun k =>
  (kvs k).map KeyValue.value

/-- What a change does to the values. -/
def Change.entry : Change κ α → Entry κ α
  | .put key value => ⟨key, some value⟩
  | .delete key => ⟨key, none⟩

omit [Inhabited α] in
theorem valuesOf_update (kvs : κ → Option (KeyValue α)) (k : κ) (kv : Option (KeyValue α)) :
    valuesOf (Function.update kvs k kv) =
      Function.update (valuesOf kvs) k (kv.map KeyValue.value) := by
  funext k'
  rw [valuesOf, Function.update_apply, Function.update_apply, apply_ite (Option.map _)]
  rfl

/-- A change that makes no event makes no difference either. -/
theorem valuesOf_of_event_none {rev : Nat} {kvs : κ → Option (KeyValue α)} {c : Change κ α}
    (h : c.event rev kvs = none) : c.entry.apply (valuesOf kvs) = valuesOf kvs := by
  cases c with
  | put key value => cases h
  | delete key =>
      cases hk : kvs key with
      | some kv =>
          simp only [Change.event, hk] at h
          cases h
      | none =>
          refine Function.update_eq_self_iff.mpr ?_
          exact (congrArg (Option.map KeyValue.value) hk).symm

theorem valuesOf_of_event_some {rev : Nat} {kvs : κ → Option (KeyValue α)} {c : Change κ α}
    {e : Event κ α} (h : c.event rev kvs = some e) :
    valuesOf (e.entry.apply kvs) = c.entry.apply (valuesOf kvs) := by
  have hentry : valuesOf (e.entry.apply kvs) =
      Function.update (valuesOf kvs) e.key (e.entry.value.map KeyValue.value) :=
    valuesOf_update _ _ _
  cases c with
  | put key value =>
      obtain rfl := Option.some.inj h
      exact hentry
  | delete key =>
      cases hk : kvs key with
      | none =>
          simp only [Change.event, hk] at h
          cases h
      | some kv =>
          simp only [Change.event, hk, Option.some.injEq] at h
          subst h
          exact hentry

/-- The values after the events of a transaction are those after its changes, one by one. -/
theorem valuesOf_eventsOf (rev : Nat) (kvs : κ → Option (KeyValue α)) (cs : List (Change κ α)) :
    valuesOf (replay kvs ((eventsOf rev kvs cs).map Event.entry)) =
      replay (valuesOf kvs) (cs.map Change.entry) := by
  induction cs generalizing kvs with
  | nil => rfl
  | cons c cs ih =>
      rw [eventsOf, List.map_cons, replay_cons]
      cases h : c.event rev kvs with
      | none => rw [ih, valuesOf_of_event_none h]
      | some e => rw [List.map_cons, replay_cons, ih, valuesOf_of_event_some h]

/-! ## What a transaction leaves alone -/

omit [DecidableEq κ] in
/-- An event has the key of its change, and the revision of the commit. -/
theorem Change.event_some {rev : Nat} {kvs : κ → Option (KeyValue α)} {c : Change κ α}
    {e : Event κ α} (h : c.event rev kvs = some e) :
    e.key = c.key ∧ e.kv.modRevision = rev := by
  cases c with
  | put key value =>
      cases h
      exact ⟨rfl, rfl⟩
  | delete key =>
      unfold Change.event at h
      dsimp only at h
      split at h <;> cases h
      exact ⟨rfl, rfl⟩

theorem change_of_mem_eventsOf {rev : Nat} {kvs : κ → Option (KeyValue α)}
    {cs : List (Change κ α)} {e : Event κ α} (h : e ∈ eventsOf rev kvs cs) :
    ∃ c ∈ cs, e.key = c.key ∧ e.kv.modRevision = rev := by
  induction cs generalizing kvs with
  | nil => cases h
  | cons c cs ih =>
      have hrest : ∀ {kvs'}, e ∈ eventsOf rev kvs' cs →
          ∃ c' ∈ c :: cs, e.key = c'.key ∧ e.kv.modRevision = rev := fun h => by
        obtain ⟨c', hc', he⟩ := ih h
        exact ⟨c', List.mem_cons_of_mem _ hc', he⟩
      rw [eventsOf] at h
      cases hevent : c.event rev kvs with
      | none =>
          rw [hevent] at h
          exact hrest h
      | some e' =>
          rw [hevent] at h
          rcases List.mem_cons.mp h with rfl | h
          · exact ⟨c, List.mem_cons_self, Change.event_some hevent⟩
          · exact hrest h

theorem key_of_mem_eventsOf {rev : Nat} {kvs : κ → Option (KeyValue α)} {cs : List (Change κ α)}
    {e : Event κ α} (h : e ∈ eventsOf rev kvs cs) : e.key ∈ cs.map Change.key := by
  obtain ⟨c, hc, hkey, -⟩ := change_of_mem_eventsOf h
  rw [hkey]
  exact List.mem_map_of_mem hc

/-- A key that a transaction does not name stays as it is, and has no event of it. -/
theorem commit_spares {s s' : Store κ α} {cs : List (Change κ α)} {k : κ}
    (h : s.commit cs = some s') (hk : k ∉ cs.map Change.key) :
    s'.kvs k = s.kvs k ∧ ∃ events, s'.log = s.log ++ events ∧ ∀ e ∈ events, e.key ≠ k := by
  unfold Store.commit at h
  split at h
  · cases h
    have hne : ∀ e ∈ eventsOf (s.revision + 1) s.kvs cs, e.key ≠ k := fun e he heq =>
      hk (heq ▸ key_of_mem_eventsOf he)
    refine ⟨?_, _, rfl, hne⟩
    refine replay_of_untouched (fun d hd => ?_) _
    obtain ⟨e, he, rfl⟩ := List.mem_map.mp hd
    exact hne e he
  · cases h

theorem commit_revision {s s' : Store κ α} {cs : List (Change κ α)} (h : s.commit cs = some s') :
    s.revision ≤ s'.revision := by
  unfold Store.commit at h
  split at h
  · cases h
    unfold Store.extend
    dsimp only
    split <;> omega
  · cases h

/-! ## Revisions of events -/

theorem modRevision_of_mem_eventsOf {rev : Nat} {kvs : κ → Option (KeyValue α)}
    {cs : List (Change κ α)} {e : Event κ α} (h : e ∈ eventsOf rev kvs cs) :
    e.kv.modRevision = rev := by
  obtain ⟨-, -, -, hrev⟩ := change_of_mem_eventsOf h
  exact hrev

/-- A key that is not there, and is not put, has no event. -/
theorem key_ne_of_absent {rev : Nat} {kvs : κ → Option (KeyValue α)} {cs : List (Change κ α)}
    {k : κ} (hnone : kvs k = none) (hk : k ∉ putKeys cs) {e : Event κ α}
    (h : e ∈ eventsOf rev kvs cs) : e.key ≠ k := by
  induction cs generalizing kvs with
  | nil => cases h
  | cons c cs ih =>
      cases c with
      | put key value =>
          obtain ⟨hne, hrest⟩ := not_or.mp (mt List.mem_cons.mpr hk)
          rcases List.mem_cons.mp h with rfl | h
          · exact Ne.symm hne
          · refine ih ?_ hrest h
            exact (Function.update_of_ne hne _ _).trans hnone
      | delete key =>
          cases hkey : kvs key with
          | none =>
              simp only [eventsOf, Change.event, hkey] at h
              exact ih hnone hk h
          | some kv =>
              have hne : k ≠ key := by
                rintro rfl
                rw [hnone] at hkey
                cases hkey
              simp only [eventsOf, Change.event, hkey, List.mem_cons] at h
              rcases h with rfl | h
              · exact Ne.symm hne
              · refine ih ?_ hk h
                exact (Function.update_of_ne hne _ _).trans hnone

/-- A transaction has one event of a key at most. -/
theorem eventsOf_pairwise {rev : Nat} {kvs : κ → Option (KeyValue α)} {cs : List (Change κ α)}
    (h : Acceptable cs) : (eventsOf rev kvs cs).Pairwise fun e e' => e.key ≠ e'.key := by
  induction cs generalizing kvs with
  | nil => exact .nil
  | cons c cs ih =>
      cases c with
      | put key value =>
          refine List.pairwise_cons.mpr ⟨fun e he heq => h.1 ?_, ih h.2⟩
          rw [show key = e.key from heq]
          exact key_of_mem_eventsOf he
      | delete key =>
          cases hkey : kvs key with
          | none =>
              simp only [eventsOf, Change.event, hkey]
              exact ih h.2
          | some kv =>
              simp only [eventsOf, Change.event, hkey]
              refine List.pairwise_cons.mpr ⟨fun e he => ?_, ih h.2⟩
              exact Ne.symm (key_ne_of_absent (Function.update_self _ _ _) h.1 he)

/-- A store whose events carry the revisions of their commits. -/
structure Dated (s : Store κ α) : Prop where
  le : ∀ e ∈ s.log, e.kv.modRevision ≤ s.revision
  increasing : s.log.Pairwise fun e e' => e.key = e'.key → e.kv.modRevision < e'.kv.modRevision
  content : s.kvs = replay (fun _ => none) (s.log.map Event.entry)

omit [Inhabited α] in
theorem dated_empty : Dated (Store.empty : Store κ α) :=
  ⟨fun _ h => (nomatch h), .nil, rfl⟩

theorem Dated.commit {s s' : Store κ α} {cs : List (Change κ α)} (h : Dated s)
    (hs : s.commit cs = some s') : Dated s' := by
  obtain ⟨hcs, heq⟩ := Option.ite_none_right_eq_some.mp hs
  obtain rfl := Option.some.inj heq
  have hrev : ∀ e ∈ eventsOf (s.revision + 1) s.kvs cs, e.kv.modRevision = s.revision + 1 :=
    fun e he => modRevision_of_mem_eventsOf he
  refine ⟨fun e he => ?_, List.pairwise_append.mpr ⟨h.increasing, ?_, fun e he e' he' _ => ?_⟩, ?_⟩
  · rcases List.mem_append.mp he with he | he
    · exact Nat.le_trans (h.le e he) (commit_revision hs)
    · rw [hrev e he]
      exact Nat.le_of_eq (if_neg (List.ne_nil_of_mem he)).symm
  · exact (eventsOf_pairwise hcs).imp fun hne heq => absurd heq hne
  · rw [hrev e' he']
    exact Nat.lt_succ_of_le (h.le e he)
  · show replay s.kvs _ = replay _ ((s.log ++ _).map Event.entry)
    rw [List.map_append, replay_append, ← h.content]

omit [Inhabited α] in
/-- Who leaves a record of its key has put it. -/
theorem eq_put_of_apply {e : Event κ α} {kvs : κ → Option (KeyValue α)} {kv : KeyValue α}
    (h : e.entry.apply kvs e.key = some kv) : e = ⟨.put, e.key, kv⟩ := by
  obtain ⟨type, key, kv'⟩ := e
  have hvalue : (Event.entry ⟨type, key, kv'⟩).value = some kv :=
    (Function.update_self key _ kvs).symm.trans h
  cases type with
  | put =>
      obtain rfl := Option.some.inj hvalue
      rfl
  | delete => cases hvalue

omit [Inhabited α] in
/-- Of the events of a key that is there, its record is the newest one. -/
theorem newest_of_replay {l : List (Event κ α)}
    (hl : l.Pairwise fun e e' => e.key = e'.key → e.kv.modRevision < e'.kv.modRevision)
    {k : κ} {kv : KeyValue α} (h : replay (fun _ => none) (l.map Event.entry) k = some kv) :
    ⟨.put, k, kv⟩ ∈ l ∧ ∀ e ∈ l, e.key = k →
      e.kv.modRevision ≤ kv.modRevision ∧ (e.kv.modRevision = kv.modRevision → e.kv = kv) := by
  induction l using List.reverseRecOn with
  | nil => cases h
  | append_singleton l e ih =>
      obtain ⟨hl, -, hlast⟩ := List.pairwise_append.mp hl
      rw [List.map_append, replay_append] at h
      by_cases hkey : e.key = k
      · subst hkey
        have he : e = ⟨.put, e.key, kv⟩ := eq_put_of_apply h
        refine ⟨List.mem_append_right _ (List.mem_singleton.mpr he.symm), fun e' he' hek => ?_⟩
        have hkv : e.kv = kv := congrArg Event.kv he
        rcases List.mem_append.mp he' with he' | he'
        · have hlt := hlast e' he' e List.mem_cons_self hek
          rw [hkv] at hlt
          exact ⟨Nat.le_of_lt hlt, fun heq => absurd heq (Nat.ne_of_lt hlt)⟩
        · rw [List.mem_singleton.mp he', hkv]
          exact ⟨Nat.le_refl _, fun _ => rfl⟩
      · obtain ⟨hmem, hall⟩ := ih hl ((Function.update_of_ne (Ne.symm hkey) _ _).symm.trans h)
        refine ⟨List.mem_append_left _ hmem, fun e' he' hek => ?_⟩
        rcases List.mem_append.mp he' with he' | he'
        · exact hall e' he' hek
        · rw [List.mem_singleton.mp he'] at hek
          exact absurd hek hkey

omit [Inhabited α] in
/-- A record that events have made was there, or one of them has put it. -/
theorem mem_of_replay {l : List (Event κ α)} {kvs : κ → Option (KeyValue α)} {k : κ}
    {kv : KeyValue α} (h : replay kvs (l.map Event.entry) k = some kv) :
    kvs k = some kv ∨ ⟨.put, k, kv⟩ ∈ l := by
  induction l generalizing kvs with
  | nil => exact .inl h
  | cons e l ih =>
      rcases ih h with h | h
      · by_cases hkey : e.key = k
        · subst hkey
          exact .inr (List.mem_cons.mpr (.inl (eq_put_of_apply h).symm))
        · exact .inl ((Function.update_of_ne (Ne.symm hkey) _ _).symm.trans h)
      · exact .inr (List.mem_cons_of_mem _ h)

/-- What a commit does to the log, and to a record. -/
theorem commit_extends {s s' : Store κ α} {cs : List (Change κ α)} (h : s.commit cs = some s') :
    ∃ events, s'.log = s.log ++ events ∧
      ∀ k kv, s'.kvs k = some kv → s.kvs k = some kv ∨ ⟨.put, k, kv⟩ ∈ events := by
  obtain ⟨-, hs⟩ := Option.ite_none_right_eq_some.mp h
  obtain rfl := Option.some.inj hs
  exact ⟨_, rfl, fun _ _ hk => mem_of_replay hk⟩

end EtcdEvents
