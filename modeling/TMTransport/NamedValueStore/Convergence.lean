import TMTransport.NamedValueStore.DataStream

/-!
# The data stream and the store

What the listener has after all updates is what etcd holds, if the range and the
watch fit together: nothing has changed between the answer to the range and the
creation of the watch, the answer comes out of the queue before events that change
what it says, and the watch tells of no unreadable value for a name that the listener
has. The code sees to none of these.

The argument follows the changes that events make to the names and values that can be
read: the store has seen all of them, the answer to the range those up to some point,
and the watch those from some point on.
-/

namespace NamedValueStore

open ChangeLog EtcdEvents Interleave

variable {α : Type} {cfg : Config α} {name : Text} {e : Event Text Text}
  {kvs : Text → Option (KeyValue Text)} {events : List (Event Text Text)}

/-! ## Names and keys -/

/-- The name of a key that is watched. -/
def Config.realKey (cfg : Config α) (key : Text) : Text := key.drop (cfg.storagePrefix.length + 1)

theorem watches_iff (cfg : Config α) (key : Text) :
    cfg.watches key = true ↔ cfg.keyOf (cfg.realKey key) = key := by
  rw [Config.watches, List.isPrefixOf_iff_prefix, keyOf_eq]
  constructor
  · rintro ⟨rest, rfl⟩
    simp [Config.realKey]
  · intro h
    exact ⟨_, h⟩

theorem realKey_keyOf (cfg : Config α) (name : Text) : cfg.realKey (cfg.keyOf name) = name := by
  simp [Config.realKey, keyOf_eq]

theorem watches_keyOf (cfg : Config α) (name : Text) : cfg.watches (cfg.keyOf name) = true := by
  rw [watches_iff, realKey_keyOf]

/-- The names of the lock. -/
def Config.Locks (cfg : Config α) (name : Text) : Prop :=
  name = cfg.lockQueueKey ∨ name = cfg.lockNumberKey

instance (cfg : Config α) (name : Text) : Decidable (cfg.Locks name) :=
  inferInstanceAs (Decidable (_ ∨ _))

/-- The names and values that can be read, less those of the lock. -/
def visible (cfg : Config α) (kvs : Text → Option (KeyValue Text)) (name : Text) : Option α :=
  if cfg.Locks name then none else (kvs (cfg.keyOf name)).bind fun kv => cfg.parse kv.value

/-- What an event does to them. -/
def change (cfg : Config α) (e : Event Text Text) : Option (Entry Text α) :=
  if cfg.Locks (cfg.realKey e.key) ∨ ¬ cfg.watches e.key then none
  else some ⟨cfg.realKey e.key, match e.type with
    | .put => cfg.parse e.kv.value
    | .delete => none⟩

/-- What the listener is told that it does: of a value that does not read, nothing. -/
def dataEntry (cfg : Config α) (e : Event Text Text) : Option (Entry Text α) :=
  if cfg.Locks (cfg.realKey e.key) ∨ ¬ cfg.watches e.key then none
  else match e.type with
    | .put => (cfg.parse e.kv.value).map fun d => ⟨cfg.realKey e.key, some d⟩
    | .delete => some ⟨cfg.realKey e.key, none⟩

theorem eq_keyOf_iff (h : cfg.watches e.key = true) : e.key = cfg.keyOf name ↔
    cfg.realKey e.key = name := by
  have hkey := (watches_iff cfg e.key).mp h
  constructor
  · intro heq
    rw [heq, realKey_keyOf]
  · intro heq
    rw [← hkey, heq]

theorem dataEntry_locks (h : cfg.Locks (cfg.realKey e.key)) : dataEntry cfg e = none :=
  if_pos (.inl h)

theorem dataEntry_unwatched (h : ¬ cfg.watches e.key = true) : dataEntry cfg e = none :=
  if_pos (.inr h)

theorem dataEntry_watched (hlock : ¬ cfg.Locks (cfg.realKey e.key))
    (h : cfg.watches e.key = true) : dataEntry cfg e = match e.type with
      | .put => (cfg.parse e.kv.value).map fun d => ⟨cfg.realKey e.key, some d⟩
      | .delete => some ⟨cfg.realKey e.key, none⟩ :=
  if_neg (not_or.mpr ⟨hlock, not_not.mpr h⟩)

/-- What an item says is what the event does. -/
theorem createDeltaUpdate_apply (cfg : Config α) (e : Event Text Text) (rev : Nat)
    (m : Text → Option α) :
    ((createDeltaUpdate cfg e rev).elim m fun item => item.apply m) =
      (dataEntry cfg e).elim m fun d => d.apply m := by
  unfold createDeltaUpdate
  by_cases hw : cfg.watches e.key = true
  · have hqueue : e.key = cfg.lockQueue ↔ cfg.realKey e.key = cfg.lockQueueKey := eq_keyOf_iff hw
    have hnumber : e.key = cfg.lockNumber ↔ cfg.realKey e.key = cfg.lockNumberKey :=
      eq_keyOf_iff hw
    by_cases hq : e.key = cfg.lockQueue
    · rw [if_pos hq, dataEntry_locks (.inl (hqueue.mp hq))]
      rfl
    by_cases hn : e.key = cfg.lockNumber
    · rw [if_neg hq, if_pos hn, dataEntry_locks (.inr (hnumber.mp hn))]
      rfl
    rw [if_neg hq, if_neg hn, if_pos hw,
      dataEntry_watched (not_or.mpr ⟨mt hqueue.mpr hq, mt hnumber.mpr hn⟩) hw]
    cases e.type with
    | put => cases cfg.parse e.kv.value <;> rfl
    | delete => rfl
  · have hne : ∀ name, e.key ≠ cfg.keyOf name := fun name heq => by
      rw [heq] at hw
      exact hw (watches_keyOf cfg name)
    rw [if_neg (show e.key ≠ cfg.lockQueue from hne _),
      if_neg (show e.key ≠ cfg.lockNumber from hne _), if_neg hw, dataEntry_unwatched hw]
    rfl

theorem described_append (us : List (Update Text α)) (u : Update Text α) :
    described (us ++ [u]) = u.apply (described us) := by
  rw [described, List.foldl_append]
  rfl

/-- The listener follows the events. -/
theorem described_publish (ds : DS α) (cfg : Config α) (events : List (Event Text Text)) :
    described (ds.publish cfg events).published =
      replay (described ds.published) (events.filterMap (dataEntry cfg)) := by
  have happly : ∀ m : Text → Option α,
      (events.filterMap fun e => createDeltaUpdate cfg e ds.header).foldl OneUpdateItem.apply m =
        replay m (events.filterMap (dataEntry cfg)) := by
    induction events with
    | nil => exact fun m => rfl
    | cons e es ih =>
        intro m
        have he := createDeltaUpdate_apply cfg e ds.header m
        rw [List.filterMap_cons, List.filterMap_cons]
        cases hc : createDeltaUpdate cfg e ds.header <;> cases hd : dataEntry cfg e <;>
          rw [hc, hd] at he
        · exact ih m
        · rename_i d
          rw [replay_cons, ← show m = d.apply m from he]
          exact ih m
        · rename_i item
          rw [List.foldl_cons, show item.apply m = m from he]
          exact ih m
        · rename_i item d
          rw [List.foldl_cons, replay_cons, show item.apply m = d.apply m from he]
          exact ih _
  unfold DS.publish
  split
  · next hnil => rw [hnil]; rfl
  · rw [described_append]
    exact happly _

/-! ## Changes that can be read -/

/-- The watch tells of no unreadable value for a name that the listener has. -/
def Readable (cfg : Config α) : (Text → Option α) → List (Event Text Text) → Prop
  | _, [] => True
  | m, e :: es =>
    (e.type = .put → cfg.parse e.kv.value = none → m (cfg.realKey e.key) = none) ∧
      Readable cfg ((change cfg e).elim m fun d => d.apply m) es

theorem change_unwatched (h : ¬ cfg.watches e.key = true) : change cfg e = none :=
  if_pos (.inr h)

theorem change_locks (h : cfg.Locks (cfg.realKey e.key)) : change cfg e = none := if_pos (.inl h)

theorem change_watched (hlock : ¬ cfg.Locks (cfg.realKey e.key)) (h : cfg.watches e.key = true) :
    change cfg e = some ⟨cfg.realKey e.key, match e.type with
      | .put => cfg.parse e.kv.value
      | .delete => none⟩ :=
  if_neg (not_or.mpr ⟨hlock, not_not.mpr h⟩)

theorem change_key {d : Entry Text α} (h : change cfg e = some d) : d.key = cfg.realKey e.key := by
  unfold change at h
  split at h <;> cases h
  rfl

/-- To leave a name out is to say that it is not there, of one that is not there. -/
theorem dataEntry_elim {m : Text → Option α}
    (hm : e.type = .put → cfg.parse e.kv.value = none → m (cfg.realKey e.key) = none) :
    ((dataEntry cfg e).elim m fun d => d.apply m) = (change cfg e).elim m fun d => d.apply m := by
  by_cases hlock : cfg.Locks (cfg.realKey e.key)
  · rw [dataEntry_locks hlock, change_locks hlock]
  by_cases hw : cfg.watches e.key = true
  · rw [dataEntry_watched hlock hw, change_watched hlock hw]
    cases htype : e.type with
    | delete => rfl
    | put =>
        dsimp only
        cases hparse : cfg.parse e.kv.value with
        | some v => rfl
        | none =>
            have hnone := hm htype hparse
            funext k
            by_cases hk : k = cfg.realKey e.key
            · rw [hk]
              simp only [Option.map_none, Option.elim, Entry.apply, Function.update_self, hnone]
            · exact (Function.update_of_ne hk _ _).symm
  · rw [dataEntry_unwatched hw, change_unwatched hw]

theorem replay_filterMap_cons (f : Event Text Text → Option (Entry Text α)) (m : Text → Option α)
    (e : Event Text Text) (es : List (Event Text Text)) :
    replay m ((e :: es).filterMap f) =
      replay ((f e).elim m fun d => d.apply m) (es.filterMap f) := by
  rw [List.filterMap_cons]
  cases f e <;> rfl

theorem replay_dataEntry {m : Text → Option α} (hr : Readable cfg m events) :
    replay m (events.filterMap (dataEntry cfg)) = replay m (events.filterMap (change cfg)) := by
  induction events generalizing m with
  | nil => rfl
  | cons e es ih =>
      rw [replay_filterMap_cons, replay_filterMap_cons, dataEntry_elim hr.1]
      exact ih hr.2

/-- What the store holds for the reader follows the events. -/
theorem visible_apply (cfg : Config α) (kvs : Text → Option (KeyValue Text))
    (e : Event Text Text) :
    visible cfg (e.entry.apply kvs) =
      (change cfg e).elim (visible cfg kvs) fun d => d.apply (visible cfg kvs) := by
  funext name
  -- an event about another key leaves the name alone on both sides
  by_cases hkey : e.key = cfg.keyOf name
  · have hname : cfg.realKey e.key = name := by rw [hkey, realKey_keyOf]
    have hw : cfg.watches e.key = true := by
      rw [hkey]
      exact watches_keyOf cfg name
    have hat : e.entry.apply kvs (cfg.keyOf name) = e.entry.value := by
      rw [← hkey]
      exact Function.update_self _ _ _
    by_cases hlock : cfg.Locks name
    · rw [change_locks (hname.symm ▸ hlock), visible, if_pos hlock, Option.elim, visible,
        if_pos hlock]
    · rw [visible, if_neg hlock, hat, change_watched (hname.symm ▸ hlock) hw]
      cases htype : e.type with
      | put => simp only [Event.entry, htype, Option.bind_some, Option.elim, hname, Entry.apply,
          Function.update_self]
      | delete => simp only [Event.entry, htype, Option.bind_none, Option.elim, hname, Entry.apply,
          Function.update_self]
  · have hsame : visible cfg (e.entry.apply kvs) name = visible cfg kvs name := by
      rw [visible, visible, show e.entry.apply kvs (cfg.keyOf name) = kvs (cfg.keyOf name) from
        Function.update_of_ne (Ne.symm hkey) _ _]
    rw [hsame]
    cases hd : change cfg e with
    | none => rfl
    | some d =>
        have hw : cfg.watches e.key = true := by
          by_contra hw
          rw [change_unwatched hw] at hd
          cases hd
        refine (Function.update_of_ne (fun heq => hkey ?_) _ _).symm
        rw [eq_keyOf_iff hw, heq, change_key hd]

theorem visible_replay (cfg : Config α) (kvs : Text → Option (KeyValue Text))
    (events : List (Event Text Text)) :
    visible cfg (replay kvs (events.map Event.entry)) =
      replay (visible cfg kvs) (events.filterMap (change cfg)) := by
  induction events generalizing kvs with
  | nil => rfl
  | cons e es ih =>
      rw [List.map_cons, replay_cons, ih, visible_apply, replay_filterMap_cons]

/-! ## Runs -/

/-- The store, with the component that follows it. -/
structure World (α : Type) where
  store : Store Text Text
  ds : DS α

inductive Act where
  /-- A client of etcd commits changes. -/
  | commit (changes : List (Change Text Text))
  | ds (a : DSAct)
  deriving DecidableEq

/-- The component is started when the store is `s₀`. -/
def stream (cfg : Config α) (s₀ : Store Text Text) : Machine (World α) Act where
  init := ⟨s₀, .initialized⟩
  step w a :=
    match a with
    | .commit changes => (w.store.commit changes).map fun s => { w with store := s }
    | .ds a => (w.ds.step cfg w.store a).map fun ds => { w with ds := ds }

/-- What the listener has. -/
def World.copy (w : World α) : Text → Option α := described w.ds.published

/-- Etcd has answered the range, and the watch has told of everything. -/
structure AllDelivered (w : World α) : Prop where
  range : w.ds.initHandled = true
  watch : w.ds.watchFrom ≠ none
  events : w.ds.delivered = w.store.log.length

/-- The updates give what etcd holds when all is delivered, and their versions do not decrease. -/
structure Converges (cfg : Config α) (w : World α) : Prop where
  copy : AllDelivered w → w.copy = visible cfg w.store.kvs
  versions : (w.ds.published.map Update.version).Pairwise (· ≤ ·)

/-- What the answer to a range says. -/
def snapshot (cfg : Config α) (kvs : List (Text × KeyValue Text)) : Text → Option α :=
  replay (fun _ => none) ((initEvents kvs).filterMap (dataEntry cfg))

/-! ## The range -/

/-- The answer to the range says what can be read. -/
theorem range_replay (cfg : Config α) (s : Store Text Text) (m : Text → Option α) (name : Text) :
    replay m ((initEvents (s.range cfg.watches)).filterMap (dataEntry cfg)) name =
      (visible cfg s.kvs name).elim (m name) some := by
  have hagree : ∀ d ∈ (initEvents (s.range cfg.watches)).filterMap (dataEntry cfg),
      d.value = visible cfg s.kvs d.key ∧ ∃ v, d.value = some v := by
    intro d hd
    obtain ⟨e, he, hentry⟩ := List.mem_filterMap.mp hd
    obtain ⟨⟨k, kv⟩, hkv, rfl⟩ := List.mem_map.mp he
    obtain ⟨hw, hkvs⟩ := mem_range.mp hkv
    have hlock : ¬ cfg.Locks (cfg.realKey k) := fun hlock => by
      rw [dataEntry_locks hlock] at hentry
      cases hentry
    rw [dataEntry_watched hlock hw] at hentry
    obtain ⟨v, hparse, rfl⟩ := Option.map_eq_some_iff.mp hentry
    refine ⟨?_, v, rfl⟩
    rw [visible, if_neg hlock, (watches_iff cfg k).mp hw, hkvs]
    exact hparse.symm
  rw [replay_of_agree fun d hd => (hagree d hd).1]
  cases hv : visible cfg s.kvs name with
  | none =>
      refine if_pos fun d hd hkey => ?_
      obtain ⟨hvalue, v, hsome⟩ := hagree d hd
      rw [hsome, hkey, hv] at hvalue
      cases hvalue
  | some v =>
      refine if_neg fun huntouched => ?_
      by_cases hlock : cfg.Locks name
      · rw [visible, if_pos hlock] at hv
        cases hv
      · rw [visible, if_neg hlock] at hv
        obtain ⟨kv, hkvs, hparse⟩ := Option.bind_eq_some_iff.mp hv
        have hmem : (cfg.keyOf name, kv) ∈ s.range cfg.watches :=
          mem_range.mpr ⟨watches_keyOf cfg name, hkvs⟩
        refine huntouched ⟨name, some v⟩ (List.mem_filterMap.mpr
          ⟨⟨.put, cfg.keyOf name, kv⟩, List.mem_map.mpr ⟨_, hmem, rfl⟩, ?_⟩) rfl
        rw [dataEntry_watched (by rwa [realKey_keyOf]) (watches_keyOf cfg name)]
        show Option.map _ (cfg.parse kv.value) = _
        rw [hparse, realKey_keyOf]
        rfl

/-! ## What has been seen -/

section Seen

variable (cfg) (s₀ s : Store Text Text)

/-- The changes from position `a` of the log to position `b`. -/
def changes (a b : Nat) : List (Entry Text α) := (slice s.log a b).filterMap (change cfg)

/-- What could be read at position `n` of the log. -/
def visibleAt (n : Nat) : Text → Option α :=
  replay (visible cfg s₀.kvs) (changes cfg s s₀.log.length n)

variable {cfg s₀ s} {a b n : Nat}

theorem changes_append (hab : a ≤ b) {c : Nat} (hbc : b ≤ c) :
    changes cfg s a b ++ changes cfg s b c = changes cfg s a c := by
  rw [changes, changes, ← List.filterMap_append, slice_append_slice hab hbc]
  rfl

theorem visibleAt_of_le (h₀ : s₀.log.length ≤ a) (hab : a ≤ b) :
    visibleAt cfg s₀ s b = replay (visibleAt cfg s₀ s a) (changes cfg s a b) := by
  rw [visibleAt, ← changes_append h₀ hab, replay_append]
  rfl

/-- What is untouched reads as it did. -/
theorem visibleAt_untouched (h₀ : s₀.log.length ≤ a) (hab : a ≤ b)
    (h : Untouched name (changes cfg s a b)) :
    visibleAt cfg s₀ s b name = visibleAt cfg s₀ s a name := by
  rw [visibleAt_of_le h₀ hab, replay_of_untouched h]

theorem changes_extend (events : List (Event Text Text)) (h : b ≤ s.log.length) :
    changes cfg (s.extend events) a b = changes cfg s a b := by
  rw [changes, show (s.extend events).log = s.log ++ events from rfl, slice_append h]
  rfl

end Seen

/-- The range and the watch fit together. -/
def Fits (cfg : Config α) (w : World α) : Act → Prop
  | .ds .createWatch => ∀ r ∈ w.ds.initResponse, visible cfg w.store.kvs = snapshot cfg r.1
  | .ds .handleInit => ∀ r ∈ w.ds.initResponse, ∀ name v, snapshot cfg r.1 name = some v →
    replay (snapshot cfg r.1) (changes cfg w.store r.2 w.ds.delivered) name = some v
  | .ds (.handleWatch n _) => Readable cfg w.copy (w.ds.next cfg w.store n)
  | _ => True

/-- How the copy of the listener stands to what the store, the range and the watch have seen. -/
structure Inv (cfg : Config α) (s₀ : Store Text Text) (w : World α) : Prop where
  start : s₀.log.length ≤ w.store.log.length
  content : visible cfg w.store.kvs = visibleAt cfg s₀ w.store w.store.log.length
  range : ∀ r, w.ds.initResponse = some r → s₀.log.length ≤ r.2 ∧ r.2 ≤ w.store.log.length ∧
    ∀ (m : Text → Option α) name, replay m ((initEvents r.1).filterMap (dataEntry cfg)) name =
      (visibleAt cfg s₀ w.store r.2 name).elim (m name) some
  answered : w.ds.initHandled = true → w.ds.initResponse ≠ none
  watch : ∀ i, w.ds.watchFrom = some i → s₀.log.length ≤ i ∧ i ≤ w.ds.delivered ∧
    w.ds.delivered ≤ w.store.log.length ∧ ∀ r, w.ds.initResponse = some r → r.2 < i →
      visibleAt cfg s₀ w.store r.2 = visibleAt cfg s₀ w.store i
  /-- Before there is a watch, the listener has what the range has brought. -/
  unwatched : w.ds.watchFrom = none → ∀ name, w.copy name =
    if w.ds.initHandled then w.ds.initResponse.elim none fun r =>
      visibleAt cfg s₀ w.store r.2 name
    else none
  /-- Before the answer to the range, it has what the watch has told of. -/
  watched : ∀ i, w.ds.watchFrom = some i → w.ds.initHandled = false → ∀ name,
    w.copy name = visibleAt cfg s₀ w.store w.ds.delivered name ∨
      Untouched name (changes cfg w.store i w.ds.delivered) ∧ w.copy name = none
  /-- Then, what it has not been told of is older than the range. -/
  both : ∀ i r, w.ds.watchFrom = some i → w.ds.initHandled = true →
    w.ds.initResponse = some r → ∀ name,
      w.copy name = visibleAt cfg s₀ w.store w.ds.delivered name ∨
        ¬ Untouched name (changes cfg w.store w.ds.delivered r.2)

section Step

variable {s₀ : Store Text Text} {w : World α}

theorem inv_init (cfg : Config α) (s₀ : Store Text Text) :
    Inv cfg s₀ (stream cfg s₀).init where
  start := Nat.le_refl _
  content := by
    show visible cfg s₀.kvs = visibleAt cfg s₀ s₀ s₀.log.length
    rw [visibleAt, changes, slice_eq_nil (Nat.le_refl _)]
    rfl
  range := fun r hr => by cases hr
  answered := fun h => by cases h
  watch := fun i hi => by cases hi
  unwatched := fun _ _ => rfl
  watched := fun i hi => by cases hi
  both := fun i r hi => by cases hi

/-- What has been seen stays as it is when more happens. -/
theorem Inv.commit (h : Inv cfg s₀ w) {cs : List (Change Text Text)} {s : Store Text Text}
    (hs : w.store.commit cs = some s) :
    Inv cfg s₀ { w with store := s } := by
  unfold Store.commit at hs
  split at hs
  · rw [Option.some.injEq] at hs
    generalize hevents : eventsOf (w.store.revision + 1) w.store.kvs cs = events at hs
    have hlog : s.log = w.store.log ++ events := by rw [← hs]; rfl
    have hlen : w.store.log.length ≤ s.log.length := by
      rw [hlog, List.length_append]
      omega
    have hchanges : ∀ a b, b ≤ w.store.log.length →
        changes cfg s a b = changes cfg w.store a b := fun a b hb => by
      rw [← hs, changes_extend events hb]
    have hat : ∀ n, n ≤ w.store.log.length →
        visibleAt cfg s₀ s n = visibleAt cfg s₀ w.store n := fun n hn => by
      rw [visibleAt, visibleAt, hchanges _ _ hn]
    refine ⟨Nat.le_trans h.start hlen, ?_, fun r hr => ?_, h.answered, fun i hi => ?_,
      fun hi name => ?_, fun i hi hinit name => ?_, fun i r hi hinit hr name => ?_⟩
    · rw [visibleAt_of_le h.start hlen, hat _ (Nat.le_refl _), ← h.content]
      have hnew : changes cfg s w.store.log.length s.log.length =
          events.filterMap (change cfg) := by
        rw [changes, hlog, slice_length (Nat.le_refl _), slice_eq_nil (Nat.le_refl _),
          List.nil_append]
      rw [hnew, ← visible_replay, ← hs]
      rfl
    · obtain ⟨h1, h2, h3⟩ := h.range r hr
      refine ⟨h1, Nat.le_trans h2 hlen, fun m name => ?_⟩
      rw [hat _ h2]
      exact h3 m name
    · obtain ⟨h1, h2, h3, h4⟩ := h.watch i hi
      refine ⟨h1, h2, Nat.le_trans h3 hlen, fun r hr hlt => ?_⟩
      rw [hat _ (h.range r hr).2.1, hat _ (Nat.le_trans h2 h3)]
      exact h4 r hr hlt
    · refine (h.unwatched hi name).trans ?_
      cases hr : w.ds.initResponse with
      | none => rfl
      | some r =>
          rw [Option.elim, Option.elim, hat _ (h.range r hr).2.1]
    · have hle := (h.watch i hi).2.2.1
      show _ = visibleAt cfg s₀ s w.ds.delivered name ∨
        Untouched name (changes cfg s i w.ds.delivered) ∧ _
      rw [hat _ hle, hchanges _ _ hle]
      exact h.watched i hi hinit name
    · have hle := (h.watch i hi).2.2.1
      show _ = visibleAt cfg s₀ s w.ds.delivered name ∨
        ¬ Untouched name (changes cfg s w.ds.delivered r.2)
      rw [hat _ hle, hchanges _ _ (h.range r hr).2.1]
      exact h.both i r hi hinit hr name
  · cases hs

theorem Inv.readRange (h : Inv cfg s₀ w) {ds : DS α}
    (hs : w.ds.step cfg w.store .readRange = some ds) : Inv cfg s₀ { w with ds := ds } := by
  unfold DS.step at hs
  dsimp only at hs
  split at hs
  · next hnone =>
    rw [Option.some.injEq] at hs
    subst hs
    have hhandled : w.ds.initHandled = false := by
      by_contra hh
      exact h.answered (by simpa using hh) hnone
    refine ⟨h.start, h.content, fun r hr => ?_, fun hh => ?_, fun i hi => ?_, fun hi name => ?_,
      h.watched, fun i r hi hh => ?_⟩
    · cases hr
      refine ⟨h.start, Nat.le_refl _, fun m name => ?_⟩
      rw [range_replay, ← h.content]
    · cases hhandled.symm.trans hh
    · obtain ⟨h1, h2, h3, -⟩ := h.watch i hi
      refine ⟨h1, h2, h3, fun r hr hlt => ?_⟩
      cases hr
      exact absurd (Nat.le_trans h2 h3) (Nat.not_le.mpr hlt)
    · have hcopy := h.unwatched hi name
      rw [hhandled] at hcopy
      simp only [hhandled]
      exact hcopy
    · cases hhandled.symm.trans hh
  · cases hs

theorem Inv.createWatch (h : Inv cfg s₀ w) {ds : DS α}
    (hs : w.ds.step cfg w.store .createWatch = some ds) (hfits : Fits cfg w (.ds .createWatch)) :
    Inv cfg s₀ { w with ds := ds } := by
  unfold DS.step at hs
  dsimp only at hs
  split at hs
  · next hnone =>
    rw [Option.some.injEq] at hs
    subst hs
    -- what the range has brought is what can be read now
    have hsame : ∀ r, w.ds.initResponse = some r →
        visibleAt cfg s₀ w.store r.2 = visibleAt cfg s₀ w.store w.store.log.length := by
      intro r hr
      rw [← h.content, hfits r hr]
      funext name
      rw [snapshot, (h.range r hr).2.2]
      cases visibleAt cfg s₀ w.store r.2 name <;> rfl
    refine ⟨h.start, h.content, h.range, h.answered, fun i hi => ?_, fun hi => (by cases hi),
      fun i hi hh name => ?_, fun i r hi hh hr name => .inl ?_⟩
    · cases hi
      exact ⟨h.start, Nat.le_refl _, Nat.le_refl _, fun r hr _ => hsame r hr⟩
    · cases hi
      refine .inr ⟨?_, ?_⟩
      · show Untouched name (changes cfg w.store w.store.log.length w.store.log.length)
        rw [changes, slice_eq_nil (Nat.le_refl _)]
        exact untouched_nil name
      · have hcopy := h.unwatched hnone name
        rw [if_neg (by simp [show w.ds.initHandled = false from hh])] at hcopy
        exact hcopy
    · have hcopy := h.unwatched hnone name
      rw [if_pos (show w.ds.initHandled = true from hh), show w.ds.initResponse = some r from hr,
        Option.elim, hsame r hr] at hcopy
      exact hcopy
  · cases hs

/-- What the listener has when the range is handled: what can be read there, or what it had. -/
theorem copy_handleInit {r : List (Text × KeyValue Text) × Nat} (h : Inv cfg s₀ w)
    (hr : w.ds.initResponse = some r) (name : Text) :
    described ({ w.ds with initHandled := true }.publish cfg (initEvents r.1)).published name =
      (visibleAt cfg s₀ w.store r.2 name).elim (w.copy name) some := by
  rw [described_publish]
  exact (h.range r hr).2.2 w.copy name

theorem snapshot_eq {r : List (Text × KeyValue Text) × Nat} (h : Inv cfg s₀ w)
    (hr : w.ds.initResponse = some r) : snapshot cfg r.1 = visibleAt cfg s₀ w.store r.2 := by
  funext name
  rw [snapshot, (h.range r hr).2.2]
  cases visibleAt cfg s₀ w.store r.2 name <;> rfl

/-- A watch that is there when the range is handled: the listener is then up to date, but for
what the range is ahead of the watch. -/
theorem Inv.both_of_handleInit (h : Inv cfg s₀ w) {r : List (Text × KeyValue Text) × Nat}
    (hr : w.ds.initResponse = some r) (hhandled : w.ds.initHandled = false) {i : Nat}
    (hi : w.ds.watchFrom = some i)
    (hfits : Fits cfg w (.ds .handleInit)) (name : Text) :
    (visibleAt cfg s₀ w.store r.2 name).elim (w.copy name) some =
        visibleAt cfg s₀ w.store w.ds.delivered name ∨
      ¬ Untouched name (changes cfg w.store w.ds.delivered r.2) := by
  obtain ⟨hstart, -, -⟩ := h.range r hr
  obtain ⟨hi₀, hid, -, hbefore⟩ := h.watch i hi
  by_cases htouched : Untouched name (changes cfg w.store w.ds.delivered r.2)
  · left
    have hold := h.watched i hi hhandled name
    cases hv : visibleAt cfg s₀ w.store r.2 name with
    | some v =>
        rw [Option.elim]
        rcases Nat.le_total w.ds.delivered r.2 with hle | hle
        · rw [← hv, visibleAt_untouched (Nat.le_trans hi₀ hid) hle htouched]
        · -- what the watch is ahead of the range has left this value
          have hsome := hfits r hr name v
          rw [snapshot_eq h hr, ← visibleAt_of_le hstart hle] at hsome
          exact (hsome hv).symm
    | none =>
        rw [Option.elim]
        rcases hold with heq | ⟨hquiet, hnone⟩
        · exact heq
        · rw [hnone]
          by_cases hri : r.2 < i
          · -- nothing has changed from the range to the watch, nor since
            rw [visibleAt_untouched hi₀ hid hquiet, ← hbefore r hr hri, hv]
          · by_cases hrp : r.2 ≤ w.ds.delivered
            · have hlast : Untouched name (changes cfg w.store r.2 w.ds.delivered) := by
                rw [← changes_append (Nat.le_of_not_lt hri) hrp, untouched_append] at hquiet
                exact hquiet.2
              rw [visibleAt_untouched hstart hrp hlast, hv]
            · rw [← hv, visibleAt_untouched (Nat.le_trans hi₀ hid) (Nat.le_of_not_le hrp) htouched]
  · exact .inr htouched

theorem Inv.handleInit (h : Inv cfg s₀ w) {ds : DS α}
    (hs : w.ds.step cfg w.store .handleInit = some ds) (hfits : Fits cfg w (.ds .handleInit)) :
    Inv cfg s₀ { w with ds := ds } := by
  unfold DS.step at hs
  dsimp only at hs
  cases hr : w.ds.initResponse with
  | none =>
      rw [hr] at hs
      cases hs
  | some r =>
      rw [hr] at hs
      dsimp only at hs
      split at hs
      · cases hs
      · next hh =>
        rw [Option.some.injEq] at hs
        have hhandled : w.ds.initHandled = false := by simpa using hh
        have hcopy : ∀ name, described ds.published name =
            (visibleAt cfg s₀ w.store r.2 name).elim (w.copy name) some := by
          intro name
          rw [← hs, ← hr]
          exact copy_handleInit h hr name
        have hresponse : ds.initResponse = w.ds.initResponse := by
          rw [← hs, DS.publish_initResponse, hr]
        have hwatch : ds.watchFrom = w.ds.watchFrom := by rw [← hs, DS.publish_watchFrom]
        have hdelivered : ds.delivered = w.ds.delivered := by rw [← hs, DS.publish_delivered]
        have hdone : ds.initHandled = true := by rw [← hs, DS.publish_initHandled]
        refine ⟨h.start, h.content, fun r' hr' => ?_, fun _ => ?_, fun i hi => ?_,
          fun hi name => ?_, fun i _ hfalse => ?_, fun i r' hi _ hr' name => ?_⟩
        · exact h.range r' (hresponse ▸ hr')
        · dsimp only
          rw [hresponse, hr]
          exact Option.some_ne_none r
        · dsimp only at hi ⊢
          rw [hdelivered, hresponse]
          exact h.watch i (hwatch ▸ hi)
        · dsimp only at hi ⊢
          rw [World.copy, hcopy, hdone, if_pos rfl, hresponse, hr]
          have hnone := h.unwatched (hwatch ▸ hi) name
          rw [hhandled, if_neg Bool.false_ne_true] at hnone
          rw [hnone]
          show _ = visibleAt cfg s₀ w.store r.2 name
          cases visibleAt cfg s₀ w.store r.2 name <;> rfl
        · cases hdone.symm.trans hfalse
        · obtain rfl : r = r' := Option.some.inj (hr.symm.trans (hresponse.symm.trans hr'))
          dsimp only at hi ⊢
          rw [World.copy, hcopy, hdelivered]
          have hw : w.ds.watchFrom = some i := hwatch ▸ hi
          exact h.both_of_handleInit hr hhandled hw hfits name

/-- The watch tells of all changes that can be read. -/
theorem next_changes (cfg : Config α) (ds : DS α) (s : Store Text Text) (n : Nat) :
    (ds.next cfg s n).filterMap (change cfg) =
      changes cfg s ds.delivered (ds.delivered + n) := by
  rw [changes, ← take_drop_eq_slice, DS.next, List.filterMap_filter]
  refine List.filterMap_congr fun e _ => ?_
  split
  · rfl
  · next hw => exact (change_unwatched hw).symm

theorem Inv.handleWatch (h : Inv cfg s₀ w) {n header : Nat} {ds : DS α}
    (hs : w.ds.step cfg w.store (.handleWatch n header) = some ds)
    (hfits : Fits cfg w (.ds (.handleWatch n header))) :
    Inv cfg s₀ { w with ds := ds } := by
  unfold DS.step at hs
  dsimp only at hs
  split at hs
  · next hcond =>
    obtain ⟨hsome, hle, -, -, -⟩ := hcond
    obtain ⟨i, hi⟩ := Option.ne_none_iff_exists'.mp hsome
    rw [Option.some.injEq] at hs
    have hcopy : described ds.published =
        replay w.copy (changes cfg w.store w.ds.delivered (w.ds.delivered + n)) := by
      rw [← hs, described_publish, ← next_changes]
      exact replay_dataEntry hfits
    have hresponse : ds.initResponse = w.ds.initResponse := by
      rw [← hs, DS.publish_initResponse]
    have hwatch : ds.watchFrom = w.ds.watchFrom := by rw [← hs, DS.publish_watchFrom]
    have hdelivered : ds.delivered = w.ds.delivered + n := by rw [← hs, DS.publish_delivered]
    have hinit : ds.initHandled = w.ds.initHandled := by rw [← hs, DS.publish_initHandled]
    clear hs
    obtain ⟨hi₀, hid, hdl, hbefore⟩ := h.watch i hi
    have hpos : s₀.log.length ≤ w.ds.delivered := Nat.le_trans hi₀ hid
    have hadd : w.ds.delivered ≤ w.ds.delivered + n := Nat.le_add_right _ _
    have hnext : visibleAt cfg s₀ w.store (w.ds.delivered + n) =
        replay (visibleAt cfg s₀ w.store w.ds.delivered)
          (changes cfg w.store w.ds.delivered (w.ds.delivered + n)) :=
      visibleAt_of_le hpos hadd
    refine ⟨h.start, h.content, fun r hr => ?_, fun hh => ?_, fun j hj => ?_, fun hj => ?_,
      fun j hj hh name => ?_, fun j r hj hh hr name => ?_⟩
    · exact h.range r (hresponse ▸ hr)
    · dsimp only
      rw [hresponse]
      exact h.answered (hinit ▸ hh)
    · obtain rfl : i = j := Option.some.inj (hi.symm.trans (hwatch.symm.trans hj))
      dsimp only
      rw [hdelivered, hresponse]
      exact ⟨hi₀, Nat.le_trans hid hadd, hle, hbefore⟩
    · exact absurd (hwatch.symm.trans hj) hsome
    · obtain rfl : i = j := Option.some.inj (hi.symm.trans (hwatch.symm.trans hj))
      dsimp only
      rw [World.copy, hcopy, hdelivered, hnext, ← changes_append hid hadd, untouched_append]
      rcases h.watched i hi (hinit ▸ hh) name with heq | ⟨hquiet, hnone⟩
      · exact .inl (replay_congr heq _)
      · by_cases htouched : Untouched name
            (changes cfg w.store w.ds.delivered (w.ds.delivered + n))
        · refine .inr ⟨⟨hquiet, htouched⟩, ?_⟩
          rw [replay_of_untouched htouched, hnone]
        · exact .inl (replay_of_touched htouched _ _)
    · dsimp only
      rw [World.copy, hcopy, hdelivered, hnext]
      rcases h.both i r hi (hinit ▸ hh) (hresponse ▸ hr) name with heq | hahead
      · exact .inl (replay_congr heq _)
      · by_cases htouched : Untouched name
            (changes cfg w.store w.ds.delivered (w.ds.delivered + n))
        · -- the range is ahead also of the new position
          refine .inr fun hrest => hahead ?_
          rcases Nat.le_total r.2 (w.ds.delivered + n) with hr' | hr'
          · rcases Nat.le_total w.ds.delivered r.2 with hr'' | hr''
            · rw [← changes_append hr'' hr', untouched_append] at htouched
              exact htouched.1
            · rw [changes, slice_eq_nil hr'']
              exact untouched_nil name
          · rw [← changes_append hadd hr', untouched_append]
            exact ⟨htouched, hrest⟩
        · exact .inl (replay_of_touched htouched _ _)
  · cases hs

theorem Inv.step (h : Inv cfg s₀ w) {a : Act} {w' : World α}
    (hs : (stream cfg s₀).step w a = some w') (hfits : Fits cfg w a) : Inv cfg s₀ w' := by
  cases a with
  | commit cs =>
      obtain ⟨s, hcommit, rfl⟩ := Option.map_eq_some_iff.mp hs
      exact h.commit hcommit
  | ds a =>
      obtain ⟨ds, hds, rfl⟩ := Option.map_eq_some_iff.mp hs
      cases a with
      | readRange => exact h.readRange hds
      | createWatch => exact h.createWatch hds hfits
      | handleInit => exact h.handleInit hds hfits
      | handleWatch n header => exact h.handleWatch hds hfits

/-! ## Versions -/

/-- The header at hand is not older than what has been published. -/
structure Ordered (ds : DS α) : Prop where
  le_header : ∀ u ∈ ds.published, u.version ≤ ds.header
  pairwise : (ds.published.map Update.version).Pairwise (· ≤ ·)

theorem Ordered.publish {ds : DS α} (h : Ordered ds) (cfg : Config α)
    (events : List (Event Text Text)) : Ordered (ds.publish cfg events) := by
  refine ⟨?_, ?_⟩
  · rw [DS.publish_header]
    unfold DS.publish
    split
    · exact h.le_header
    · intro u hu
      rcases List.mem_append.mp hu with hu | hu
      · exact h.le_header u hu
      · obtain rfl := List.mem_singleton.mp hu
        exact Nat.le_refl _
  · unfold DS.publish
    split
    · exact h.pairwise
    · rw [List.map_append, List.pairwise_append]
      refine ⟨h.pairwise, List.pairwise_singleton _ _, fun v hv v' hv' => ?_⟩
      obtain ⟨u, hu, rfl⟩ := List.mem_map.mp hv
      rw [List.mem_singleton.mp hv']
      exact h.le_header u hu

theorem Ordered.step {ds ds' : DS α} {s : Store Text Text} {a : DSAct} (h : Ordered ds)
    (hs : ds.step cfg s a = some ds') : Ordered ds' := by
  unfold DS.step at hs
  cases a with
  | readRange =>
      dsimp only at hs
      split at hs <;> cases hs
      exact ⟨h.le_header, h.pairwise⟩
  | createWatch =>
      dsimp only at hs
      split at hs <;> cases hs
      exact ⟨h.le_header, h.pairwise⟩
  | handleInit =>
      dsimp only at hs
      split at hs
      · split at hs <;> cases hs
        have hset : Ordered { ds with initHandled := true } := ⟨h.le_header, h.pairwise⟩
        exact hset.publish cfg _
      · cases hs
  | handleWatch n header =>
      dsimp only at hs
      split at hs
      · next hcond =>
        cases hs
        have hset : Ordered { ds with delivered := ds.delivered + n, header := header } :=
          ⟨fun u hu => Nat.le_trans (h.le_header u hu) hcond.2.2.1, h.pairwise⟩
        exact hset.publish cfg _
      · cases hs

/-- The versions of the updates do not decrease, in any run. -/
theorem versions_ordered {G : World α → Act → Prop} (h : (stream cfg s₀).Reach G w) :
    Ordered w.ds := by
  refine Machine.Reach.invariant (I := fun w => Ordered w.ds) h ⟨?_, ?_⟩ fun w a w' hw _ hs => ?_
  · intro u hu
    rw [List.mem_singleton.mp hu]
    exact Nat.le_refl 0
  · exact List.pairwise_singleton _ _
  · cases a with
    | commit cs =>
        obtain ⟨s, -, rfl⟩ := Option.map_eq_some_iff.mp hs
        exact hw
    | ds a =>
        obtain ⟨ds, hds, rfl⟩ := Option.map_eq_some_iff.mp hs
        exact hw.step hds

/-! ## Convergence -/

theorem Inv.copy_eq (h : Inv cfg s₀ w) (hall : AllDelivered w) :
    w.copy = visible cfg w.store.kvs := by
  obtain ⟨i, hi⟩ := Option.ne_none_iff_exists'.mp hall.watch
  obtain ⟨r, hr⟩ := Option.ne_none_iff_exists'.mp (h.answered hall.range)
  funext name
  rcases h.both i r hi hall.range hr name with heq | hahead
  · rw [heq, hall.events, h.content]
  · refine absurd ?_ hahead
    rw [changes, hall.events, slice_eq_nil (h.range r hr).2.1]
    exact untouched_nil name

/-- **The data stream converges** in every run in which the range and the watch fit together, from
any store on. -/
theorem converges_of_fits (cfg : Config α) (s₀ : Store Text Text) (w : World α)
    (h : (stream cfg s₀).Reach (Fits cfg) w) : Converges cfg w where
  copy := (h.invariant (inv_init cfg s₀) fun _ _ _ hw hfits hs => hw.step hs hfits).copy_eq
  versions := (versions_ordered h).pairwise

end Step

/-! ## A watch that comes late -/

/-- Values are single letters. -/
def letters : Config Char where
  storagePrefix := ['s']
  lockNumberKey := ['n']
  lockQueueKey := ['q']
  parse := List.head?

def emptyStore : Store Text Text := .empty

def putA : Act := .commit [.put ['s', ':', 'a'] ['x']]

def earlyWatch : List Act :=
  [.ds .createWatch, putA, .ds .readRange, .ds .handleInit, .ds (.handleWatch 1 2)]

theorem earlyWatch_fits : (stream letters emptyStore).Within (Fits letters)
    (stream letters emptyStore).init earlyWatch := by
  refine ⟨?_, trivial, trivial, ?_, ⟨?_, trivial⟩, trivial⟩
  · intro r h
    cases h
  · intro r h name v hv
    cases h
    exact hv
  · intro _ h
    cases h

theorem converges_early_watch :
    ∃ w, (stream letters emptyStore).Reach (Fits letters) w ∧ AllDelivered w ∧
      w.copy ['a'] = some 'x' ∧ Converges letters w := by
  have hr := Machine.Reach.init.exec earlyWatch_fits
  exact ⟨_, hr, ⟨by decide +kernel, by decide +kernel, by decide +kernel⟩, by decide +kernel,
    converges_of_fits letters emptyStore _ hr⟩

/-- What is put after the answer to the range and before the watch never comes. -/
theorem not_converges_late_watch :
    ¬ ∀ (cfg : Config Char) (s₀ : Store Text Text) (w : World Char),
      (stream cfg s₀).Reach (fun _ _ => True) w → Converges cfg w := by
  intro h
  have hr : (stream letters emptyStore).Reach (fun _ _ => True) _ := Machine.Reach.init.exec
    (l := [.ds .readRange, putA, .ds .createWatch, .ds .handleInit])
    (Machine.Within.of_forall (fun _ _ => trivial) _ _)
  have hcopy := (h _ _ _ hr).copy ⟨by decide +kernel, by decide +kernel, by decide +kernel⟩
  have hlost : _ = _ := congrFun hcopy ['a']
  exact absurd hlost (by decide +kernel)

end NamedValueStore
