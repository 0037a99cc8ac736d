import TMTransport.NamedValueStore.CompoundLock

/-!
# Safety of the compound lock

Who waits has a ticket that is not less than the version of the queue key, and who is
served has that very version. What any process has seen of the queue key is a version
that is not greater, and if it is the same, then the revision that was stored with it
is not older than the key, unless it was stored with a header that is too old.
-/

namespace NamedValueStore

open ChangeLog EtcdEvents Interleave

variable {α P : Type}

/-! ## What the lock keys say -/

/-- The lock, as etcd has it. -/
structure Counters where
  number : Nat
  queue : Nat
  queueRevision : Nat
  revision : Nat

def counters (cfg : Config α) (s : Store Text Text) : Counters :=
  ⟨s.version cfg.lockNumber, s.version cfg.lockQueue, s.modRevision cfg.lockQueue, s.revision⟩

/-- A record of the queue key, which may be an old one. -/
def RecordOk (k : Counters) (kv : KeyValue Text) : Prop :=
  kv.version ≤ k.queue ∧ (kv.version = k.queue → k.queueRevision ≤ kv.modRevision)

def ViewOk (k : Counters) (v : View) : Prop :=
  v.version ≤ k.queue ∧ (v.version = k.queue → k.queueRevision ≤ v.revision)

/-- The ticket of a participant that has drawn one. -/
def Phase.ticket : Phase → Option Nat
  | .idle => none
  | .numbered _ => none
  | .waiting t _ => some t
  | .entered t _ => some t
  | .holding t => some t
  | .releasing t => some t
  | .unlocking t _ => some t

/-- Its ticket, when it has seen that it is served. -/
def Phase.served : Phase → Option Nat
  | .waiting _ _ => none
  | ph => ph.ticket

theorem ticket_of_served {ph : Phase} {t : Nat} (h : ph.served = some t) : ph.ticket = some t := by
  cases ph <;> first | exact h | cases h

theorem served_of_inside {ph : Phase} (h : ph.Inside) : ∃ t, ph.served = some t := by
  cases ph <;> first | exact ⟨_, rfl⟩ | exact h.elim

/-- What holds of one participant. -/
structure ProcInv (cfg : Config α) (base : Nat) (k : Counters) (c : Proc α) : Prop where
  place : ∀ t, c.phase.ticket = some t → k.queue ≤ t ∧ t < k.number
  served : ∀ t, c.phase.served = some t → t = k.queue
  range : ∀ r, c.ds.initResponse = some r → ∀ kv ∈ r.1, kv.1 = cfg.lockQueue → RecordOk k kv.2
  watch : c.ds.watchFrom ≠ none → base ≤ c.ds.delivered
  /-- Also what is about to be stored, bit by bit. -/
  views : ∀ l, l <+: c.pending → ViewOk k (l.foldl View.store c.view)
  stamps : ∀ r, QueueStore.revision r ∈ c.pending → r = c.ds.header
  header : c.view.revision ≤ c.ds.header
  entered : ∀ t r, c.phase = .entered t r → k.queueRevision ≤ c.view.revision
  updates : ∀ u ∈ c.updates, u ≤ k.revision

section ProcInv

variable {cfg : Config α} {base : Nat} {k k' : Counters} {c : Proc α}

/-- More tickets are drawn, and there are other commits. -/
theorem ProcInv.mono (h : ProcInv cfg base k c) (hnumber : k.number ≤ k'.number)
    (hqueue : k'.queue = k.queue) (hqueueRevision : k'.queueRevision = k.queueRevision)
    (hrevision : k.revision ≤ k'.revision) : ProcInv cfg base k' c where
  place t ht := by
    rw [hqueue]
    exact ⟨(h.place t ht).1, Nat.lt_of_lt_of_le (h.place t ht).2 hnumber⟩
  served t ht := by
    rw [hqueue]
    exact h.served t ht
  range r hr kv hkv hkey := by
    rw [RecordOk, hqueue, hqueueRevision]
    exact h.range r hr kv hkv hkey
  watch := h.watch
  views l hl := by
    rw [ViewOk, hqueue, hqueueRevision]
    exact h.views l hl
  stamps := h.stamps
  header := h.header
  entered t r ht := by
    rw [hqueueRevision]
    exact h.entered t r ht
  updates u hu := Nat.le_trans (h.updates u hu) hrevision

/-- Another participant releases the lock. -/
theorem ProcInv.release (h : ProcInv cfg base k c) (hnumber : k'.number = k.number)
    (hqueue : k'.queue = k.queue + 1) (hrevision : k.revision ≤ k'.revision)
    (hne : ∀ t, c.phase.ticket = some t → t ≠ k.queue) : ProcInv cfg base k' c := by
  have hnot : ∀ t, c.phase.served ≠ some t := fun t ht =>
    hne t (ticket_of_served ht) (h.served t ht)
  refine ⟨fun t ht => ?_, fun t ht => absurd ht (hnot t), fun r hr kv hkv hkey => ?_, h.watch,
    fun l hl => ?_, h.stamps, h.header, fun t r ht => ?_,
    fun u hu => Nat.le_trans (h.updates u hu) hrevision⟩
  · have hplace := h.place t ht
    have hother := hne t ht
    omega
  · have hle := (h.range r hr kv hkv hkey).1
    exact ⟨by omega, fun heq => by omega⟩
  · have hle := (h.views l hl).1
    exact ⟨by omega, fun heq => by omega⟩
  · refine absurd ?_ (hnot t)
    rw [ht]
    rfl

/-- The phase changes, and nothing that the watch thread knows. -/
theorem ProcInv.setPhase (h : ProcInv cfg base k c) {ph : Phase} {us : List Nat}
    (hplace : ∀ t, ph.ticket = some t → k.queue ≤ t ∧ t < k.number)
    (hserved : ∀ t, ph.served = some t → t = k.queue)
    (hentered : ∀ t r, ph = .entered t r → k.queueRevision ≤ c.view.revision)
    (hus : ∀ u ∈ us, u ≤ k.revision) :
    ProcInv cfg base k { c with phase := ph, updates := us } :=
  ⟨hplace, hserved, h.range, h.watch, h.views, h.stamps, h.header, hentered, hus⟩

end ProcInv

/-! ## What the watch thread stores -/

section Watch

variable {cfg : Config α} {base : Nat} {k : Counters} {c : Proc α} {header : Nat}

/-- One record at a time: the revision first, and then the version. -/
theorem viewOk_stores {events : List (Event Text Text)} {v : View} (hv : ViewOk k v)
    (hheader : v.revision ≤ header)
    (hevents : ∀ e ∈ events, e.key = cfg.lockQueue →
      e.kv.version ≤ k.queue ∧ (e.kv.version = k.queue → k.queueRevision ≤ header))
    (l : List QueueStore) (hl : l <+: events.flatMap fun e => queueStores cfg e header) :
    ViewOk k (l.foldl View.store v) := by
  induction events generalizing v l with
  | nil =>
      rw [List.prefix_nil.mp hl]
      exact hv
  | cons e es ih =>
      obtain ⟨he, hes⟩ := List.forall_mem_cons.mp hevents
      rw [List.flatMap_cons] at hl
      by_cases hkey : e.key = cfg.lockQueue
      · rw [queueStores, if_pos hkey] at hl
        have hrevision : ViewOk k (v.store (.revision header)) :=
          ⟨hv.1, fun heq => Nat.le_trans (hv.2 heq) hheader⟩
        have hversion : ViewOk k ((v.store (.revision header)).store (.version e.kv.version)) :=
          he hkey
        cases l with
        | nil => exact hv
        | cons q l =>
            obtain ⟨hq, hl⟩ := List.cons_prefix_cons.mp hl
            rw [hq]
            cases l with
            | nil => exact hrevision
            | cons q' l =>
                obtain ⟨hq', hl⟩ := List.cons_prefix_cons.mp hl
                rw [hq']
                exact ih hversion (Nat.le_refl _) hes l hl
      · rw [queueStores, if_neg hkey] at hl
        exact ih hv hheader hes l hl

theorem stamps_stores {events : List (Event Text Text)} {r : Nat}
    (h : QueueStore.revision r ∈ events.flatMap fun e => queueStores cfg e header) :
    r = header := by
  obtain ⟨e, -, he⟩ := List.mem_flatMap.mp h
  unfold queueStores at he
  split at he
  · rcases List.mem_cons.mp he with he | he
    · exact QueueStore.revision.inj he
    · cases List.mem_singleton.mp he
  · cases he

/-- The watch thread handles something, and is about to store what that says. -/
theorem ProcInv.setStream (h : ProcInv cfg base k c) (ds : DS α) (events : List (Event Text Text))
    (hrange : ∀ r, ds.initResponse = some r → ∀ kv ∈ r.1, kv.1 = cfg.lockQueue → RecordOk k kv.2)
    (hwatch : ds.watchFrom ≠ none → base ≤ ds.delivered) (hheader : c.ds.header ≤ ds.header)
    (hevents : ∀ e ∈ events, e.key = cfg.lockQueue →
      e.kv.version ≤ k.queue ∧ (e.kv.version = k.queue → k.queueRevision ≤ ds.header)) :
    ProcInv cfg base k { c with
      ds := ds, pending := events.flatMap fun e => queueStores cfg e ds.header } where
  place := h.place
  served := h.served
  range := hrange
  watch := hwatch
  views := by
    have hview : ViewOk k c.view := h.views [] List.nil_prefix
    exact viewOk_stores hview (Nat.le_trans h.header hheader) hevents
  stamps r hr := stamps_stores hr
  header := Nat.le_trans h.header hheader
  entered := h.entered
  updates := h.updates

theorem ProcInv.storeOne (h : ProcInv cfg base k c) {q : QueueStore} {rest : List QueueStore}
    (hpending : c.pending = q :: rest) :
    ProcInv cfg base k { c with view := c.view.store q, pending := rest } := by
  have hgrow : c.view.revision ≤ (c.view.store q).revision ∧
      (c.view.store q).revision ≤ c.ds.header := by
    cases q with
    | revision r =>
        have hr : r = c.ds.header := h.stamps r (hpending ▸ List.mem_cons_self)
        exact ⟨hr ▸ h.header, Nat.le_of_eq hr⟩
    | version n => exact ⟨Nat.le_refl _, h.header⟩
  refine ⟨h.place, h.served, h.range, h.watch, fun l hl => ?_, fun r hr => ?_, hgrow.2,
    fun t r ht => Nat.le_trans (h.entered t r ht) hgrow.1, h.updates⟩
  · refine h.views (q :: l) ?_
    rw [hpending]
    exact List.cons_prefix_cons.mpr ⟨rfl, hl⟩
  · refine h.stamps r ?_
    rw [hpending]
    exact List.mem_cons_of_mem _ hr

end Watch

/-! ## The data stream -/

/-- The store, as far as the data streams have to do with it. -/
structure StoreInv (cfg : Config α) (base : Nat) (s : Store Text Text) : Prop where
  start : base ≤ s.log.length
  log : ∀ e ∈ s.log.drop base, e.key = cfg.lockQueue → RecordOk (counters cfg s) e.kv
  numbers : s.version cfg.lockQueue ≤ s.version cfg.lockNumber
  recent : s.modRevision cfg.lockQueue ≤ s.revision

section Stream

variable {cfg : Config α} {base : Nat} {s : Store Text Text} {c : Proc α} {ds : DS α}

theorem recordOk_range {kv : Text × KeyValue Text} (h : kv ∈ s.range cfg.watches)
    (hkey : kv.1 = cfg.lockQueue) : RecordOk (counters cfg s) kv.2 := by
  obtain ⟨-, hkv⟩ := mem_range.mp h
  rw [hkey] at hkv
  have hversion : s.version cfg.lockQueue = kv.2.version := by
    rw [Store.version, hkv]
    rfl
  have hrevision : s.modRevision cfg.lockQueue = kv.2.modRevision := by
    rw [Store.modRevision, hkv]
    rfl
  exact ⟨Nat.le_of_eq hversion.symm, fun _ => Nat.le_of_eq hrevision⟩

/-- What the watch tells of has happened since the start. -/
theorem mem_log_of_mem_next {e : Event Text Text} {n : Nat} (h : e ∈ c.ds.next cfg s n)
    (hbase : base ≤ c.ds.delivered) : e ∈ s.log.drop base := by
  have hmem := List.mem_of_mem_take (List.mem_of_mem_filter h)
  rw [← Nat.add_sub_cancel' hbase, ← List.drop_drop] at hmem
  exact List.mem_of_mem_drop hmem

/-- The watch thread takes something out of its queue. -/
theorem ProcInv.stream (h : ProcInv cfg base (counters cfg s) c) (hstore : StoreInv cfg base s)
    {a : DSAct} (hs : c.ds.step cfg s a = some ds)
    (hstamped : a = .handleInit → ∀ r ∈ c.ds.initResponse, ∀ kv ∈ r.1,
      kv.1 = cfg.lockQueue → kv.2.modRevision ≤ c.ds.header) :
    ProcInv cfg base (counters cfg s) { c with ds := ds, pending := c.ds.stores cfg s a } := by
  have hnone : ∀ (e : Event Text Text), e ∈ [] → e.key = cfg.lockQueue →
      e.kv.version ≤ (counters cfg s).queue ∧ (e.kv.version = (counters cfg s).queue →
        (counters cfg s).queueRevision ≤ ds.header) := fun e he => (by cases he)
  unfold DS.step at hs
  cases a with
  | readRange =>
      dsimp only at hs
      split at hs <;> cases hs
      refine h.setStream _ [] (fun r hr kv hkv hkey => ?_) h.watch (Nat.le_refl _) hnone
      cases hr
      exact recordOk_range hkv hkey
  | createWatch =>
      dsimp only at hs
      split at hs <;> cases hs
      exact h.setStream { c.ds with watchFrom := some s.log.length, delivered := s.log.length } []
        h.range (fun _ => hstore.start) (Nat.le_refl _) hnone
  | handleInit =>
      dsimp only at hs
      cases hr : c.ds.initResponse with
      | none =>
          rw [hr] at hs
          cases hs
      | some r =>
          rw [hr] at hs
          dsimp only at hs
          split at hs
          · cases hs
          · rw [Option.some.injEq] at hs
            have hheader : ds.header = c.ds.header := by rw [← hs, DS.publish_header]
            have hset := h.setStream ds (initEvents r.1)
              (fun r' hr' => h.range r' (by rw [← hr', ← hs, DS.publish_initResponse, hr]))
              (by rw [← hs, DS.publish_watchFrom, DS.publish_delivered]; exact h.watch)
              (Nat.le_of_eq hheader.symm) fun e he hkey => ?_
            · rw [hheader] at hset
              rw [DS.stores, hr]
              exact hset
            · obtain ⟨kv, hkv, rfl⟩ := List.mem_map.mp he
              obtain ⟨hle, hnew⟩ := h.range r hr kv hkv hkey
              refine ⟨hle, fun heq => ?_⟩
              rw [hheader]
              exact Nat.le_trans (hnew heq) (hstamped rfl r hr kv hkv hkey)
  | handleWatch n header =>
      dsimp only at hs
      split at hs
      · next hcond =>
        obtain ⟨hsome, -, hgrow, -, hheaders⟩ := hcond
        rw [Option.some.injEq] at hs
        have hheader : ds.header = header := by rw [← hs, DS.publish_header]
        have hbase := h.watch hsome
        have hset := h.setStream ds (c.ds.next cfg s n)
          (fun r hr => h.range r (by rw [← hr, ← hs, DS.publish_initResponse]))
          (fun _ => by
            rw [← hs, DS.publish_delivered]
            exact Nat.le_trans hbase (Nat.le_add_right _ _))
          (hheader ▸ hgrow) fun e he hkey => ?_
        · rw [hheader] at hset
          exact hset
        · obtain ⟨hle, hnew⟩ := hstore.log e (mem_log_of_mem_next he hbase) hkey
          refine ⟨hle, fun heq => ?_⟩
          rw [hheader]
          exact Nat.le_trans (hnew heq) (hheaders e he)
      · cases hs

end Stream

/-! ## All participants -/

/-- What holds in every state. -/
structure LockInv (cfg : Config α) (base : Nat) (w : LockWorld P α) : Prop where
  procs : ∀ p, ProcInv cfg base (counters cfg w.store) (w.procs p)
  store : StoreInv cfg base w.store
  distinct : ∀ p p' t, (w.procs p).phase.ticket = some t → (w.procs p').phase.ticket = some t →
    p = p'
  settled : ∀ u ∈ w.settled, u ≤ w.store.modRevision cfg.lockQueue
  fresh : ∀ a ∈ w.acquired, ∀ u ∈ a.2, u ≤ a.1

section LockInv

variable {cfg : Config α} {base : Nat} {w : LockWorld P α} {s : Store Text Text} {p : P}

/-- Commits that are not of the queue key. -/
theorem LockInv.setStore (h : LockInv cfg base w) (hlog : ∃ events, s.log = w.store.log ++ events ∧
      ∀ e ∈ events, e.key ≠ cfg.lockQueue)
    (hnumber : w.store.version cfg.lockNumber ≤ s.version cfg.lockNumber)
    (hqueue : s.version cfg.lockQueue = w.store.version cfg.lockQueue)
    (hqueueRevision : s.modRevision cfg.lockQueue = w.store.modRevision cfg.lockQueue)
    (hrevision : w.store.revision ≤ s.revision) : LockInv cfg base { w with store := s } where
  procs p := (h.procs p).mono hnumber hqueue hqueueRevision hrevision
  store := by
    obtain ⟨events, hevents, hne⟩ := hlog
    refine ⟨?_, fun e he hkey => ?_, ?_, ?_⟩
    · rw [hevents, List.length_append]
      exact Nat.le_trans h.store.start (Nat.le_add_right _ _)
    · rw [hevents, List.drop_append_of_le_length h.store.start] at he
      rcases List.mem_append.mp he with he | he
      · have hold := h.store.log e he hkey
        unfold RecordOk counters at hold ⊢
        dsimp only at hold ⊢
        rw [hqueue, hqueueRevision]
        exact hold
      · exact absurd hkey (hne e he)
    · rw [hqueue]
      exact Nat.le_trans h.store.numbers hnumber
    · rw [hqueueRevision]
      exact Nat.le_trans h.store.recent hrevision
  distinct := h.distinct
  settled := by
    show ∀ u ∈ w.settled, u ≤ s.modRevision cfg.lockQueue
    rw [hqueueRevision]
    exact h.settled
  fresh := h.fresh

/-- A transaction that spares the lock. -/
theorem LockInv.spares (h : LockInv cfg base w) {changes : List (Change Text Text)}
    (hs : w.store.commit changes = some s) (hspares : SparesLock cfg changes) :
    LockInv cfg base { w with store := s } := by
  obtain ⟨hnumber, -⟩ := commit_spares hs hspares.1
  obtain ⟨hqueue, hlog⟩ := commit_spares hs hspares.2
  refine h.setStore hlog (Nat.le_of_eq ?_) ?_ ?_ (commit_revision hs)
  · rw [Store.version, Store.version, hnumber]
  · rw [Store.version, Store.version, hqueue]
  · rw [Store.modRevision, Store.modRevision, hqueue]

/-- The number key is put. -/
theorem LockInv.putNumber (h : LockInv cfg base w) (hkeys : cfg.lockNumber ≠ cfg.lockQueue) :
    LockInv cfg base { w with store := w.store.put cfg.lockNumber [] } := by
  refine h.setStore ⟨_, put_log _ _ _, fun e he => ?_⟩ ?_ (put_version_of_ne _ hkeys.symm)
    (put_modRevision_of_ne _ hkeys.symm) ?_
  · rw [List.mem_singleton.mp he]
    exact hkeys
  · rw [put_version_self]
    exact Nat.le_succ _
  · rw [put_revision]
    exact Nat.le_succ _

theorem LockInv.acquire (h : LockInv cfg base w) {version : Nat}
    (hv : w.store.modRevision cfg.lockQueue ≤ version) :
    LockInv cfg base { w with acquired := (version, w.settled) :: w.acquired } :=
  ⟨h.procs, h.store, h.distinct, h.settled, fun a ha => by
    rcases List.mem_cons.mp ha with rfl | ha
    · exact fun u hu => Nat.le_trans (h.settled u hu) hv
    · exact h.fresh a ha⟩

variable [DecidableEq P]

/-- One participant changes, with the store as it is. -/
theorem LockInv.setProc (h : LockInv cfg base w) {c : Proc α}
    (hc : ProcInv cfg base (counters cfg w.store) c)
    (hticket : ∀ t, c.phase.ticket = some t → ∀ p', p' ≠ p → (w.procs p').phase.ticket ≠ some t) :
    LockInv cfg base { w with procs := Function.update w.procs p c } where
  procs p' := by
    dsimp only
    by_cases heq : p' = p
    · rw [heq, Function.update_self]
      exact hc
    · rw [Function.update_of_ne heq]
      exact h.procs p'
  store := h.store
  distinct p₁ p₂ t h₁ h₂ := by
    dsimp only at h₁ h₂
    by_cases heq₁ : p₁ = p <;> by_cases heq₂ : p₂ = p
    · rw [heq₁, heq₂]
    · rw [heq₁, Function.update_self] at h₁
      rw [Function.update_of_ne heq₂] at h₂
      exact absurd h₂ (hticket t h₁ p₂ heq₂)
    · rw [Function.update_of_ne heq₁] at h₁
      rw [heq₂, Function.update_self] at h₂
      exact absurd h₁ (hticket t h₂ p₁ heq₁)
    · rw [Function.update_of_ne heq₁] at h₁
      rw [Function.update_of_ne heq₂] at h₂
      exact h.distinct p₁ p₂ t h₁ h₂
  settled := h.settled
  fresh := h.fresh

/-- It keeps its ticket, or has none any more. -/
theorem LockInv.setProc_same (h : LockInv cfg base w) {c : Proc α}
    (hc : ProcInv cfg base (counters cfg w.store) c)
    (hticket : ∀ t, c.phase.ticket = some t → (w.procs p).phase.ticket = some t) :
    LockInv cfg base { w with procs := Function.update w.procs p c } :=
  h.setProc hc fun t ht p' hne ht' => hne (h.distinct p' p t ht' (hticket t ht))

/-- The queue key is put, by the one that is served. -/
theorem LockInv.putQueue (h : LockInv cfg base w) {t : Nat}
    (hserved : (w.procs p).phase.served = some t) (hkeys : cfg.lockNumber ≠ cfg.lockQueue) :
    LockInv cfg base { w with
      store := w.store.put cfg.lockQueue []
      procs := Function.update w.procs p { w.procs p with phase := .idle, updates := [] }
      settled := w.settled ++ (w.procs p).updates } := by
  have ht := (h.procs p).served t hserved
  have hticket := ticket_of_served hserved
  have hplace := (h.procs p).place t hticket
  set k := counters cfg w.store with hk
  have hnumber : (counters cfg (w.store.put cfg.lockQueue [])).number = k.number :=
    put_version_of_ne _ hkeys
  have hqueue : (counters cfg (w.store.put cfg.lockQueue [])).queue = k.queue + 1 :=
    put_version_self _ _ _
  have hqueueRevision : (counters cfg (w.store.put cfg.lockQueue [])).queueRevision =
      k.revision + 1 := put_modRevision_self _ _ _
  have hrevision : k.revision ≤ (counters cfg (w.store.put cfg.lockQueue [])).revision :=
    Nat.le_succ _
  refine ⟨fun p' => ?_, ⟨?_, fun e he hkey => ?_, ?_, ?_⟩, fun p₁ p₂ t' h₁ h₂ => ?_, fun u hu => ?_,
    h.fresh⟩
  · dsimp only
    by_cases heq : p' = p
    · rw [heq, Function.update_self]
      have hidle : ProcInv cfg base k { w.procs p with phase := .idle, updates := [] } :=
        (h.procs p).setPhase (fun _ h => (by cases h)) (fun _ h => (by cases h))
          (fun _ _ h => (by cases h)) fun _ h => (by cases h)
      exact hidle.release hnumber hqueue hrevision fun _ h => (by cases h)
    · rw [Function.update_of_ne heq]
      refine (h.procs p').release hnumber hqueue hrevision fun t' ht' heq' => heq ?_
      exact h.distinct p' p t (by rw [ht', heq', ht]) hticket
  · show base ≤ (w.store.put cfg.lockQueue []).log.length
    rw [put_log, List.length_append]
    exact Nat.le_trans h.store.start (Nat.le_add_right _ _)
  · show RecordOk (counters cfg (w.store.put cfg.lockQueue [])) e.kv
    dsimp only at he
    rw [put_log, List.drop_append_of_le_length h.store.start] at he
    rcases List.mem_append.mp he with he | he
    · have hold : e.kv.version ≤ k.queue := (h.store.log e he hkey).1
      exact ⟨by omega, fun heq => by omega⟩
    · rw [List.mem_singleton.mp he]
      exact ⟨Nat.le_of_eq hqueue.symm, fun _ => Nat.le_of_eq hqueueRevision⟩
  · have hlt := hplace.2
    show (counters cfg (w.store.put cfg.lockQueue [])).queue ≤
      (counters cfg (w.store.put cfg.lockQueue [])).number
    omega
  · exact Nat.le_of_eq hqueueRevision
  · dsimp only at h₁ h₂
    have hne : ∀ p', (Function.update w.procs p
        { w.procs p with phase := .idle, updates := [] } p').phase.ticket = some t' →
          (w.procs p').phase.ticket = some t' := fun p' hp' => by
      by_cases heq : p' = p
      · rw [heq, Function.update_self] at hp'
        cases hp'
      · rwa [Function.update_of_ne heq] at hp'
    exact h.distinct p₁ p₂ t' (hne p₁ h₁) (hne p₂ h₂)
  · show u ≤ (counters cfg (w.store.put cfg.lockQueue [])).queueRevision
    rw [hqueueRevision]
    rcases List.mem_append.mp hu with hu | hu
    · exact Nat.le_succ_of_le (Nat.le_trans (h.settled u hu) h.store.recent)
    · exact Nat.le_succ_of_le ((h.procs p).updates u hu)

/-! ## Steps -/

/-- It goes on with the ticket it has, which is served if it says so. -/
theorem LockInv.setPhase (h : LockInv cfg base w) {ph : Phase}
    (hticket : ∀ t, ph.ticket = some t → (w.procs p).phase.ticket = some t)
    (hserved : ∀ t, ph.served = some t → t = w.store.version cfg.lockQueue)
    (hentered : ∀ t r, ph = .entered t r →
      w.store.modRevision cfg.lockQueue ≤ (w.procs p).view.revision)
    {us : List Nat} (hus : ∀ u ∈ us, u ≤ w.store.revision) :
    LockInv cfg base { w with
      procs := Function.update w.procs p { w.procs p with phase := ph, updates := us } } := by
  refine h.setProc_same ((h.procs p).setPhase (fun t ht => ?_) hserved hentered hus) hticket
  exact (h.procs p).place t (hticket t ht)

/-- It has no ticket any more, or not yet. -/
theorem LockInv.setOutside (h : LockInv cfg base w) {ph : Phase} (hph : ph.ticket = none)
    {us : List Nat} (hus : ∀ u ∈ us, u ≤ w.store.revision) :
    LockInv cfg base { w with
      procs := Function.update w.procs p { w.procs p with phase := ph, updates := us } } := by
  refine h.setPhase (fun t ht => ?_) (fun t ht => ?_) (fun t r ht => ?_) hus
  · cases hph.symm.trans ht
  · cases hph.symm.trans (ticket_of_served ht)
  · rw [ht] at hph
    cases hph

/-- It is served, and stays so. -/
theorem LockInv.setServed (h : LockInv cfg base w) {ph : Phase} {t : Nat}
    (hserved : (w.procs p).phase.served = some t) (hph : ph.ticket = some t)
    (hentered : ∀ t r, ph ≠ .entered t r) {us : List Nat} (hus : ∀ u ∈ us, u ≤ w.store.revision) :
    LockInv cfg base { w with
      procs := Function.update w.procs p { w.procs p with phase := ph, updates := us } } := by
  refine h.setPhase (fun t' ht => ?_) (fun t' ht => ?_)
    (fun t' r ht => absurd ht (hentered t' r)) hus
  · cases hph.symm.trans ht
    exact ticket_of_served hserved
  · cases hph.symm.trans (ticket_of_served ht)
    exact (h.procs p).served t hserved

/-- The number key is put by `p`, whose ticket is then the version before. -/
theorem LockInv.takeTicket (h : LockInv cfg base w) (hkeys : cfg.lockNumber ≠ cfg.lockQueue)
    (t numRevision : Nat) (ht : t = w.store.version cfg.lockNumber) :
    LockInv cfg base { w with
      store := w.store.put cfg.lockNumber []
      procs := Function.update w.procs p
        { w.procs p with phase := .waiting t numRevision } } := by
  have hput := h.putNumber hkeys
  refine hput.setProc ?_ fun t' ht' p' _ hp' => ?_
  · refine (hput.procs p).setPhase (fun t' ht' => ?_) (fun _ h => (by cases h))
      (fun _ _ h => (by cases h)) (hput.procs p).updates
    cases ht'
    show (w.store.put cfg.lockNumber []).version cfg.lockQueue ≤ t ∧
      t < (w.store.put cfg.lockNumber []).version cfg.lockNumber
    rw [put_version_self, put_version_of_ne _ hkeys.symm, ht]
    exact ⟨h.store.numbers, Nat.lt_succ_self _⟩
  · cases ht'
    have hlt : t < w.store.version cfg.lockNumber := ((h.procs p').place t hp').2
    omega

/-- **Each step of a participant keeps the lock as it is to be.** -/
theorem LockInv.proc (h : LockInv cfg base w) {kind : Kind} (hkind : kind ≠ .cpp false)
    (hkeys : cfg.lockNumber ≠ cfg.lockQueue) {a : ProcAct} {e : Effect α}
    (hs : (w.procs p).step cfg kind w.store a = some e) (hstamped : Stamped cfg w (.proc p a)) :
    LockInv cfg base (w.after p e) := by
  have hp := h.procs p
  unfold Proc.step at hs
  cases a with
  | draw =>
      dsimp only at hs
      split at hs
      · cases hs
        refine h.takeTicket hkeys _ _ ?_
        rw [put_version_self]
        rfl
      · exact absurd rfl hkind
      · cases hs
  | readNumber =>
      dsimp only at hs
      split at hs <;> cases hs
      exact h.setOutside rfl hp.updates
  | takeNumber =>
      dsimp only at hs
      split at hs
      · split at hs
        · next hversion =>
          cases hs
          exact h.takeTicket hkeys _ _ hversion.symm
        · cases hs
          exact h.setOutside rfl hp.updates
      · cases hs
  | spin =>
      dsimp only at hs
      split at hs
      · next hphase =>
        split at hs
        · next ticket _ hversion =>
          cases hs
          have hview := hp.views [] List.nil_prefix
          have hticket : (w.procs p).phase.ticket = some ticket := by rw [hphase]; rfl
          have hle := (hp.place ticket hticket).1
          have hqueue : (w.procs p).view.version = w.store.version cfg.lockQueue :=
            Nat.le_antisymm hview.1 (hversion ▸ hle)
          refine h.setPhase (fun t ht => ?_) (fun t ht => ?_) (fun _ _ _ => hview.2 hqueue)
            hp.updates
          · rw [hticket]
            exact ht
          · cases ht
            rw [← hversion, hqueue]
        · cases hs
      · cases hs
  | load =>
      dsimp only at hs
      split at hs
      · next ticket numRevision hphase =>
        cases hs
        have hserved : (w.procs p).phase.served = some ticket := by rw [hphase]; rfl
        have hheld := h.setServed hserved
          (show (Phase.holding ticket).ticket = some ticket from rfl) (fun _ _ h => (by cases h))
          hp.updates
        exact hheld.acquire (Nat.le_trans (hp.entered _ _ hphase) (Nat.le_max_left _ _))
      · cases hs
  | pollQueue =>
      dsimp only at hs
      split at hs
      · next hphase =>
        split at hs
        · next hversion =>
          cases hs
          refine h.setPhase (fun t ht => ?_) (fun t ht => ?_) (fun _ _ h => (by cases h)) hp.updates
          · rw [hphase]
            exact ht
          · cases ht
            exact hversion.symm
        · cases hs
      · cases hs
  | update changes =>
      dsimp only at hs
      split at hs
      · obtain ⟨s', hcommit, rfl⟩ := Option.map_eq_some_iff.mp hs
        have hspared := h.spares hcommit hstamped
        have hp' := hspared.procs p
        refine hspared.setProc_same (hp'.setPhase hp'.place hp'.served hp'.entered ?_)
          fun _ ht => ht
        exact List.forall_mem_cons.mpr ⟨Nat.le_refl _, hp'.updates⟩
      · cases hs
  | startRelease =>
      dsimp only at hs
      split at hs
      · next ticket hphase =>
        cases hs
        have hserved : (w.procs p).phase.served = some ticket := by rw [hphase]; rfl
        exact h.setServed hserved rfl (fun _ _ h => (by cases h)) hp.updates
      · cases hs
  | putQueue ok =>
      dsimp only at hs
      split at hs
      · next ticket hphase =>
        split at hs
        · cases hs
          have hserved : (w.procs p).phase.served = some ticket := by rw [hphase]; rfl
          exact h.putQueue hserved hkeys
        · cases hs
          exact h.setOutside rfl fun _ h => (by cases h)
      · exact absurd rfl hkind
      · cases hs
  | readQueue =>
      dsimp only at hs
      split at hs
      · next ticket hphase =>
        cases hs
        have hserved : (w.procs p).phase.served = some ticket := by rw [hphase]; rfl
        exact h.setServed hserved rfl (fun _ _ h => (by cases h)) hp.updates
      · cases hs
  | casQueue =>
      dsimp only at hs
      split at hs
      · next ticket queueVersion hphase =>
        have hserved : (w.procs p).phase.served = some ticket := by rw [hphase]; rfl
        split at hs
        · cases hs
          exact h.putQueue hserved hkeys
        · cases hs
          exact h.setServed hserved rfl (fun _ _ h => (by cases h)) hp.updates
      · cases hs
  | ds a =>
      dsimp only at hs
      split at hs
      · split at hs
        · obtain ⟨ds, hds, rfl⟩ := Option.map_eq_some_iff.mp hs
          refine h.setProc_same (hp.stream h.store hds fun ha => ?_) fun _ ht => ht
          rw [ha] at hstamped
          exact hstamped
        · cases hs
      · cases hs
  | store =>
      dsimp only at hs
      split at hs
      · cases hs
      · next hpending =>
        cases hs
        exact h.setProc_same (hp.storeOne hpending) fun _ ht => ht

theorem lockInv_init (cfg : Config α) (kind : P → Kind) {s₀ : Store Text Text}
    (hqueue : s₀.kvs cfg.lockQueue = none) :
    LockInv cfg s₀.log.length (compoundLock cfg kind s₀).init := by
  have hversion : s₀.version cfg.lockQueue = 0 := by rw [Store.version, hqueue]; rfl
  have hrevision : s₀.modRevision cfg.lockQueue = 0 := by rw [Store.modRevision, hqueue]; rfl
  refine ⟨fun p => ⟨fun _ h => (by cases h), fun _ h => (by cases h), fun _ h => (by cases h),
    fun h => absurd rfl h, fun l hl => ?_, fun _ h => (by cases h), Nat.le_refl _,
    fun _ _ h => (by cases h), fun _ h => (by cases h)⟩,
    ⟨Nat.le_refl _, fun e he => ?_, ?_, ?_⟩, fun _ _ _ h => (by cases h), fun _ h => (by cases h),
    fun _ h => (by cases h)⟩
  · rw [List.prefix_nil.mp hl]
    exact ⟨Nat.zero_le _, fun _ => Nat.le_of_eq hrevision⟩
  · rw [show (compoundLock cfg kind s₀).init.store.log = s₀.log from rfl, List.drop_length] at he
    cases he
  · show s₀.version cfg.lockQueue ≤ _
    rw [hversion]
    exact Nat.zero_le _
  · show s₀.modRevision cfg.lockQueue ≤ _
    rw [hrevision]
    exact Nat.zero_le _

/-- **The compound lock excludes**, and the versions it gives are fresh, in every run in which the
answers to ranges are stamped with a header that is not too old. -/
theorem excludes_of_stamped (cfg : Config α) (kind : P → Kind) (hkind : ∀ p, kind p ≠ .cpp false)
    (hkeys : cfg.lockNumber ≠ cfg.lockQueue) (s₀ : Store Text Text)
    (hqueue : s₀.kvs cfg.lockQueue = none)
    (w : LockWorld P α) (h : (compoundLock cfg kind s₀).Reach (Stamped cfg) w) : Excludes w := by
  have hinv : LockInv cfg s₀.log.length w :=
    h.invariant (lockInv_init cfg kind hqueue) fun w a w' hw hst hs => by
      cases a with
      | proc p a =>
          obtain ⟨e, he, rfl⟩ := Option.map_eq_some_iff.mp hs
          exact hw.proc (hkind p) hkeys he hst
      | other changes =>
          dsimp only [compoundLock] at hs
          split at hs
          · next hspares =>
            obtain ⟨s, hcommit, rfl⟩ := Option.map_eq_some_iff.mp hs
            exact hw.spares hcommit hspares
          · cases hs
  refine ⟨fun p p' hp hp' => ?_, hinv.fresh⟩
  obtain ⟨t, ht⟩ := served_of_inside hp
  obtain ⟨t', ht'⟩ := served_of_inside hp'
  -- both tickets are the version of the queue key
  obtain rfl : t = t' := ((hinv.procs p).served t ht).trans ((hinv.procs p').served t' ht').symm
  exact hinv.distinct p p' t (ticket_of_served ht) (ticket_of_served ht')

end LockInv

/-! ## Two processes -/

def lockKeys : Config Char where
  storagePrefix := ['s']
  lockNumberKey := ['n']
  lockQueueKey := ['q']
  parse := List.head?

def unlocked : Store Text Text := .empty

/-- The first one has the lock, writes, and releases it, while the second one waits. -/
def firstRound : List (LockAct Bool) :=
  [.proc false .draw, .proc true .draw, .proc true (.ds .createWatch), .proc false .spin,
    .proc false .load, .proc false (.update [.put ['s', ':', 'a'] ['x']]),
    .proc false .startRelease, .proc false (.putQueue true)]

/-- The second one is told of it by the watch. -/
def toldByWatch : List (LockAct Bool) :=
  firstRound ++ [.proc true (.ds (.handleWatch 2 5)), .proc true .store, .proc true .store,
    .proc true .spin, .proc true .load]

/-- The second one is told of it by the range, before the watch has told of anything. -/
def toldByRange : List (LockAct Bool) :=
  firstRound ++ [.proc true (.ds .readRange), .proc true (.ds .handleInit), .proc true .store,
    .proc true .store, .proc true .spin, .proc true .load]

theorem toldByWatch_stamped :
    (compoundLock lockKeys (fun _ : Bool => .cpp true) unlocked).Within (Stamped lockKeys)
      (compoundLock lockKeys (fun _ : Bool => .cpp true) unlocked).init toldByWatch := by
  refine ⟨trivial, trivial, trivial, trivial, trivial, ?_, trivial, trivial, trivial, trivial,
    trivial, trivial, trivial, trivial⟩
  show SparesLock lockKeys [.put ['s', ':', 'a'] ['x']]
  decide +kernel

theorem excludes_toldByWatch :
    ∃ w : LockWorld Bool Char,
      (compoundLock lockKeys (fun _ => .cpp true) unlocked).Reach (Stamped lockKeys) w ∧
        (w.procs true).phase.Inside ∧ w.acquired = [(5, [4]), (2, [])] ∧ Excludes w := by
  have hr := Machine.Reach.init.exec toldByWatch_stamped
  have hkeys : lockKeys.lockNumber ≠ lockKeys.lockQueue := by decide +kernel
  have hkind : ∀ p : Bool, (fun _ : Bool => Kind.cpp true) p ≠ .cpp false := fun _ h => by cases h
  refine ⟨_, hr, ?_, by decide +kernel,
    excludes_of_stamped lockKeys _ hkind hkeys unlocked rfl _ hr⟩
  have hphase : (((compoundLock lockKeys (fun _ : Bool => Kind.cpp true) unlocked).exec
      (compoundLock lockKeys (fun _ : Bool => .cpp true) unlocked).init toldByWatch).procs
        true).phase = .holding 1 := by
    decide +kernel
  rw [hphase]
  trivial

/-- The second process is then given 3, and what the first one has committed is of revision 4. -/
theorem not_excludes_toldByRange :
    ¬ ∀ w : LockWorld Bool Char,
      (compoundLock lockKeys (fun _ => .cpp true) unlocked).Reach (fun _ _ => True) w →
        Excludes w := by
  intro h
  have hr := Machine.Reach.init.exec
    (Machine.Within.of_forall (M := compoundLock lockKeys (fun _ : Bool => Kind.cpp true) unlocked)
      (fun _ _ => trivial) _ toldByRange)
  have hacquired : ((compoundLock lockKeys (fun _ : Bool => Kind.cpp true) unlocked).exec
      (compoundLock lockKeys (fun _ : Bool => .cpp true) unlocked).init toldByRange).acquired =
        [(3, [4]), (2, [])] := by
    decide +kernel
  have hfresh := (h _ hr).fresh
  rw [hacquired] at hfresh
  exact absurd (hfresh (3, [4]) List.mem_cons_self 4 List.mem_cons_self) (by decide)

end NamedValueStore
