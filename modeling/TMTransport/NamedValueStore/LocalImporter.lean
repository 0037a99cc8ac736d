import TMTransport.Library.EtcdEvents
import TMTransport.Library.Machine

/-!
# The local importers of etcd

`EtcdLocalImporter` reads a key, or a range of keys, and watches the same keys. The range
read and the watch are two calls that nothing links: the read has no revision that the
watch would start from. What both bring comes through one completion queue, the answer to
the read at any time.

Other clients change the store all the while. Of each publication the model remembers
the key and the revision, though the importer for one key publishes the values only.
-/

namespace EtcdLocalImporter

open ChangeLog EtcdEvents Interleave

abbrev Bytes : Type := List UInt8

/-- `singleKeyImporter`, which sends no `range_end`, and `keyRangeImporter` -/
inductive Importer where
  | singleKey (key : Bytes)
  | keyRange (rangeStart rangeEnd : Bytes)

/-- The keys that a request with this `key` and this `range_end` is about. -/
def inRange (key rangeEnd k : Bytes) : Bool :=
  if rangeEnd = [] then k = key
  else if rangeEnd = [0] then key ≤ k
  else key ≤ k && k < rangeEnd

def Importer.selects : Importer → Bytes → Bool
  | .singleKey key => inRange key []
  | .keyRange rangeStart rangeEnd => inRange rangeStart rangeEnd

structure Publication where
  key : Bytes
  value : Bytes
  modRevision : Nat
  deriving DecidableEq

/-- What is published of a record of the answer. -/
def ofRecord (r : Bytes × KeyValue Bytes) : Publication := ⟨r.1, r.2.value, r.2.modRevision⟩

/-- What is published of an event of the watch. That of a deletion has an empty value. -/
def ofEvent (e : Event Bytes Bytes) : Publication := ⟨e.key, e.kv.value, e.kv.modRevision⟩

structure State where
  etcd : Store Bytes Bytes
  /-- The answer to the range read. -/
  initResponse : Option (List (Bytes × KeyValue Bytes))
  /-- Has the importer taken the answer from its queue? -/
  initHandled : Bool
  /-- The position in etcd's log at which the watch was created. -/
  watchFrom : Option Nat
  /-- The position up to which the importer has been told. -/
  delivered : Nat
  published : List Publication

inductive Act where
  /-- Some client changes the store. -/
  | commit (cs : List (Change Bytes Bytes))
  /-- Etcd answers the range read. -/
  | readRange
  /-- Etcd creates the watch. -/
  | createWatch
  /-- Tag 1 comes from the queue. -/
  | handleInit
  /-- Tag 4 comes from the queue, with what `n` further events of the log have for the watch. -/
  | handleWatch (n : Nat)

section Step

variable (imp : Importer) (s : State)

/-- What the watch tells next. -/
def nextEvents (n : Nat) : List (Event Bytes Bytes) :=
  (slice s.etcd.log s.delivered (s.delivered + n)).filter fun e => imp.selects e.key

def step : Act → Option State
  | .commit cs => (s.etcd.commit cs).map fun etcd => { s with etcd := etcd }
  | .readRange =>
    if s.initResponse = none then
      some { s with initResponse := some (s.etcd.range imp.selects) }
    else none
  | .createWatch =>
    -- without a `start_revision` the watch tells of what comes after its creation
    if s.watchFrom = none then
      some { s with watchFrom := some s.etcd.log.length, delivered := s.etcd.log.length }
    else none
  | .handleInit =>
    match s.initResponse with
    | none => none
    | some kvs =>
      -- published as it is, whatever the watch has told by now
      if s.initHandled = false then
        some { s with initHandled := true, published := s.published ++ kvs.map ofRecord }
      else none
  | .handleWatch n =>
    if s.watchFrom ≠ none ∧ s.delivered + n ≤ s.etcd.log.length then
      some { s with
        delivered := s.delivered + n
        published := s.published ++ (nextEvents imp s n).map ofEvent }
    else none

end Step

def machine (imp : Importer) : Machine State Act where
  init := ⟨.empty, none, false, none, 0, []⟩
  step := step imp

/-- The answer and all events have come to the importer. -/
def AllDelivered (s : State) : Prop :=
  s.initHandled = true ∧ s.watchFrom ≠ none ∧ s.delivered = s.etcd.log.length

def lastOf (key : Bytes) (published : List Publication) : Option Bytes :=
  (published.filter fun p => p.key = key).getLast?.map Publication.value

structure Newest (imp : Importer) (s : State) : Prop where
  last : AllDelivered s → ∀ key kv, imp.selects key = true → s.etcd.kvs key = some kv →
    lastOf key s.published = some kv.value
  ordered : s.published.Pairwise fun p p' => p.key = p'.key → p.modRevision ≤ p'.modRevision

/-- The events that the watch has told. -/
def told (imp : Importer) (s : State) : List (Event Bytes Bytes) :=
  match s.watchFrom with
  | none => []
  | some i => (slice s.etcd.log i s.delivered).filter fun e => imp.selects e.key

/--
The watch is created when what the answer says still holds. Who handles the answer has not
told of newer values, and who has handled it does not tell of older ones.
-/
def Orderly (imp : Importer) (s : State) : Act → Prop
  | .createWatch => ∀ kvs, s.initResponse = some kvs → ∀ key kv, imp.selects key = true →
      s.etcd.kvs key = some kv → (key, kv) ∈ kvs
  | .handleInit => ∀ kvs, s.initResponse = some kvs → ∀ r ∈ kvs, ∀ e ∈ told imp s,
      e.key = r.1 → e.kv.modRevision ≤ r.2.modRevision
  | .handleWatch n => s.initHandled = true → ∀ kvs, s.initResponse = some kvs → ∀ r ∈ kvs,
      ∀ e ∈ nextEvents imp s n, e.key = r.1 → r.2.modRevision ≤ e.kv.modRevision
  | _ => True

structure Inv (imp : Importer) (s : State) : Prop where
  dated : Dated s.etcd
  bounds : ∀ i, s.watchFrom = some i → i ≤ s.delivered ∧ s.delivered ≤ s.etcd.log.length
  answer : ∀ kvs, s.initResponse = some kvs → ∀ r ∈ kvs, ⟨.put, r.1, r.2⟩ ∈ s.etcd.log
  oneRecord : ∀ kvs, s.initResponse = some kvs → ∀ r ∈ kvs, ∀ r' ∈ kvs, r.1 = r'.1 → r = r'
  /-- A record is in the answer, or the watch tells of it. -/
  covered : ∀ i kvs, s.watchFrom = some i → s.initResponse = some kvs →
    ∀ key kv, imp.selects key = true → s.etcd.kvs key = some kv →
      (key, kv) ∈ kvs ∨ ⟨.put, key, kv⟩ ∈ s.etcd.log.drop i
  handled : s.initHandled = true →
    ∃ kvs, s.initResponse = some kvs ∧ ∀ r ∈ kvs, ofRecord r ∈ s.published
  told : ∀ e ∈ told imp s, ofEvent e ∈ s.published
  source : ∀ p ∈ s.published, (∃ e ∈ EtcdLocalImporter.told imp s, ofEvent e = p) ∨
    s.initHandled = true ∧ ∃ kvs, s.initResponse = some kvs ∧ ∃ r ∈ kvs, ofRecord r = p
  ordered : s.published.Pairwise fun p p' => p.key = p'.key → p.modRevision ≤ p'.modRevision

variable {imp : Importer} {s s' : State}

theorem told_of_some {i : Nat} (h : s.watchFrom = some i) :
    told imp s = (slice s.etcd.log i s.delivered).filter fun e => imp.selects e.key := by
  unfold told
  rw [h]

theorem mem_log_of_told {e : Event Bytes Bytes} (he : e ∈ told imp s) : e ∈ s.etcd.log := by
  unfold told at he
  split at he
  · cases he
  · exact List.mem_of_mem_take (List.mem_of_mem_drop (List.mem_filter.mp he).1)

/-! ## Each action keeps the invariant -/

/-- What was told stays as it was. -/
theorem told_commit (h : Inv imp s) {etcd : Store Bytes Bytes} {events : List (Event Bytes Bytes)}
    (hlog : etcd.log = s.etcd.log ++ events) :
    EtcdLocalImporter.told imp { s with etcd := etcd } = EtcdLocalImporter.told imp s := by
  unfold EtcdLocalImporter.told
  cases hi : s.watchFrom with
  | none => rfl
  | some i =>
      show List.filter _ (slice etcd.log i s.delivered) = _
      rw [hlog, slice_append (h.bounds i hi).2]

theorem Inv.commit (h : Inv imp s) {cs : List (Change Bytes Bytes)} {etcd : Store Bytes Bytes}
    (hs : s.etcd.commit cs = some etcd) : Inv imp { s with etcd := etcd } := by
  obtain ⟨events, hlog, hkvs⟩ := commit_extends hs
  have htold := told_commit h hlog
  refine ⟨h.dated.commit hs, fun i hi => ?_, fun kvs ha r hr => ?_, h.oneRecord,
    fun i kvs hi ha key kv hsel hkey => ?_, h.handled, ?_, ?_, h.ordered⟩
  · have hb := h.bounds i hi
    show i ≤ s.delivered ∧ s.delivered ≤ etcd.log.length
    rw [hlog, List.length_append]
    omega
  · show _ ∈ etcd.log
    rw [hlog]
    exact List.mem_append_left _ (h.answer kvs ha r hr)
  · have hi' := h.bounds i hi
    show _ ∨ _ ∈ etcd.log.drop i
    rw [hlog, List.drop_append_of_le_length (Nat.le_trans hi'.1 hi'.2)]
    -- a record that is new in this commit has an event in it
    rcases hkvs key kv hkey with hold | hnew
    · exact (h.covered i kvs hi ha key kv hsel hold).imp id (List.mem_append_left _)
    · exact .inr (List.mem_append_right _ hnew)
  · rw [htold]
    exact h.told
  · rw [htold]
    exact h.source

theorem Inv.readRange (h : Inv imp s) (hnone : s.initResponse = none) :
    Inv imp { s with initResponse := some (s.etcd.range imp.selects) } := by
  have hfalse : s.initHandled ≠ true := fun hh => by
    obtain ⟨kvs, ha, -⟩ := h.handled hh
    rw [hnone] at ha
    cases ha
  refine ⟨h.dated, h.bounds, fun kvs ha r hr => ?_, fun kvs ha r hr r' hr' heq => ?_,
    fun i kvs hi ha key kv hsel hkey => ?_, fun hh => absurd hh hfalse, h.told, fun p hp => ?_,
    h.ordered⟩
  · -- the store is what its log makes of it, so that a record comes from an event
    obtain rfl := Option.some.inj ha
    have hkv := (mem_range.mp hr).2
    rw [h.dated.content] at hkv
    exact (newest_of_replay h.dated.increasing hkv).1
  · obtain rfl := Option.some.inj ha
    have hkv := (mem_range.mp hr).2
    rw [heq, (mem_range.mp hr').2] at hkv
    exact Prod.ext heq (Option.some.inj hkv).symm
  · obtain rfl := Option.some.inj ha
    exact .inl (mem_range.mpr ⟨hsel, hkey⟩)
  · exact (h.source p hp).imp id fun hh => absurd hh.1 hfalse

theorem Inv.createWatch (h : Inv imp s) (hnone : s.watchFrom = none)
    (ho : Orderly imp s .createWatch) :
    Inv imp { s with watchFrom := some s.etcd.log.length, delivered := s.etcd.log.length } := by
  have htold : EtcdLocalImporter.told imp s = [] := by
    unfold EtcdLocalImporter.told
    rw [hnone]
  have htold' : EtcdLocalImporter.told imp
      { s with watchFrom := some s.etcd.log.length, delivered := s.etcd.log.length } = [] := by
    rw [told_of_some rfl, slice_eq_nil (Nat.le_refl _)]
    rfl
  refine ⟨h.dated, fun i hi => ?_, h.answer, h.oneRecord,
    fun i kvs _ ha key kv hsel hkey => .inl (ho kvs ha key kv hsel hkey), h.handled, ?_, ?_,
    h.ordered⟩
  · obtain rfl := Option.some.inj hi
    exact ⟨Nat.le_refl _, Nat.le_refl _⟩
  · rw [htold']
    exact fun e he => nomatch he
  · rw [htold', ← htold]
    exact h.source

theorem Inv.handleInit (h : Inv imp s) {kvs : List (Bytes × KeyValue Bytes)}
    (ha : s.initResponse = some kvs) (hfalse : s.initHandled = false)
    (ho : Orderly imp s .handleInit) :
    Inv imp { s with initHandled := true, published := s.published ++ kvs.map ofRecord } := by
  refine ⟨h.dated, h.bounds, h.answer, h.oneRecord, h.covered, fun _ => ⟨kvs, ha, fun r hr => ?_⟩,
    fun e he => List.mem_append_left _ (h.told e he), fun p hp => ?_,
    List.pairwise_append.mpr ⟨h.ordered, ?_, fun p hp p' hp' heq => ?_⟩⟩
  · exact List.mem_append_right _ (List.mem_map_of_mem hr)
  · rcases List.mem_append.mp hp with hp | hp
    · exact (h.source p hp).imp id fun hh => absurd hh.1 (hfalse ▸ Bool.false_ne_true)
    · obtain ⟨r, hr, rfl⟩ := List.mem_map.mp hp
      exact .inr ⟨rfl, kvs, ha, r, hr, rfl⟩
  · refine List.pairwise_map.mpr (List.pairwise_of_forall_mem_list fun r hr r' hr' heq => ?_)
    obtain rfl := h.oneRecord kvs ha r hr r' hr' heq
    exact Nat.le_refl _
  · obtain ⟨r, hr, rfl⟩ := List.mem_map.mp hp'
    -- what was published before are events only
    rcases h.source p hp with ⟨e, he, rfl⟩ | hh
    · exact ho kvs ha r hr e he heq
    · exact absurd hh.1 (hfalse ▸ Bool.false_ne_true)

theorem told_handleWatch (imp : Importer) {i : Nat} (hi : s.watchFrom = some i)
    (hle : i ≤ s.delivered) (n : Nat) (published : List Publication) :
    EtcdLocalImporter.told imp { s with delivered := s.delivered + n, published := published } =
      EtcdLocalImporter.told imp s ++ nextEvents imp s n := by
  rw [told_of_some (s := s) hi, nextEvents, ← List.filter_append,
    slice_append_slice hle (Nat.le_add_right _ _)]
  exact told_of_some (i := i) hi

theorem Inv.handleWatch (h : Inv imp s) {i : Nat} (hi : s.watchFrom = some i) {n : Nat}
    (hn : s.delivered + n ≤ s.etcd.log.length) (ho : Orderly imp s (.handleWatch n)) :
    Inv imp { s with
      delivered := s.delivered + n
      published := s.published ++ (nextEvents imp s n).map ofEvent } := by
  have htold := told_handleWatch imp hi (h.bounds i hi).1 n
    (s.published ++ (nextEvents imp s n).map ofEvent)
  -- what is told all in all is a part of the log, in its order
  have hpart : (EtcdLocalImporter.told imp s ++ nextEvents imp s n).Sublist s.etcd.log := by
    rw [told_of_some hi, nextEvents, ← List.filter_append,
      slice_append_slice (h.bounds i hi).1 (Nat.le_add_right _ _)]
    exact List.filter_sublist.trans ((List.drop_sublist _ _).trans (List.take_sublist _ _))
  obtain ⟨-, hnext, hcross⟩ := List.pairwise_append.mp (h.dated.increasing.sublist hpart)
  refine ⟨h.dated, fun j hj => ?_, h.answer, h.oneRecord, h.covered, fun hh => ?_, ?_, ?_,
    List.pairwise_append.mpr ⟨h.ordered, ?_, fun p hp p' hp' heq => ?_⟩⟩
  · have := h.bounds j hj
    show j ≤ s.delivered + n ∧ s.delivered + n ≤ s.etcd.log.length
    omega
  · obtain ⟨kvs, ha, hall⟩ := h.handled hh
    exact ⟨kvs, ha, fun r hr => List.mem_append_left _ (hall r hr)⟩
  · rw [htold]
    intro e he
    rcases List.mem_append.mp he with he | he
    · exact List.mem_append_left _ (h.told e he)
    · exact List.mem_append_right _ (List.mem_map_of_mem he)
  · rw [htold]
    intro p hp
    rcases List.mem_append.mp hp with hp | hp
    · exact (h.source p hp).imp (fun ⟨e, he, heq⟩ => ⟨e, List.mem_append_left _ he, heq⟩) id
    · obtain ⟨e, he, rfl⟩ := List.mem_map.mp hp
      exact .inl ⟨e, List.mem_append_right _ he, rfl⟩
  · exact List.pairwise_map.mpr (hnext.imp fun hlt heq => Nat.le_of_lt (hlt heq))
  · obtain ⟨e', he', rfl⟩ := List.mem_map.mp hp'
    rcases h.source p hp with ⟨e, he, rfl⟩ | ⟨hh, kvs, ha, r, hr, rfl⟩
    · exact Nat.le_of_lt (hcross e he e' he' heq)
    · exact ho hh kvs ha r hr e' he' heq.symm

theorem inv_init (imp : Importer) : Inv imp (machine imp).init :=
  ⟨dated_empty, fun _ h => (nomatch h), fun _ h => (nomatch h), fun _ h => (nomatch h),
    fun _ _ h => (nomatch h), fun h => (nomatch h), fun _ h => (nomatch h), fun _ h => (nomatch h),
    .nil⟩

theorem inv_step {a : Act} (h : Inv imp s) (ho : Orderly imp s a) (hs : step imp s a = some s') :
    Inv imp s' := by
  cases a with
  | commit cs =>
      obtain ⟨etcd, hetcd, rfl⟩ := Option.map_eq_some_iff.mp hs
      exact h.commit hetcd
  | readRange =>
      obtain ⟨hnone, rfl⟩ := of_guarded hs
      exact h.readRange hnone
  | createWatch =>
      obtain ⟨hnone, rfl⟩ := of_guarded hs
      exact h.createWatch hnone ho
  | handleInit =>
      cases ha : s.initResponse with
      | none =>
          simp only [step, ha] at hs
          cases hs
      | some kvs =>
          simp only [step, ha] at hs
          obtain ⟨hfalse, rfl⟩ := of_guarded hs
          rw [← ha]
          exact h.handleInit ha hfalse ho
  | handleWatch n =>
      obtain ⟨⟨hsome, hn⟩, rfl⟩ := of_guarded hs
      obtain ⟨i, hi⟩ := Option.ne_none_iff_exists'.mp hsome
      exact h.handleWatch hi hn ho

/-! ## What is published last -/

theorem exists_lastOf {key : Bytes} {published : List Publication} {p : Publication}
    (hp : p ∈ published) (hkey : p.key = key)
    (hl : published.Pairwise fun p p' => p.key = p'.key → p.modRevision ≤ p'.modRevision) :
    ∃ q ∈ published, q.key = key ∧ p.modRevision ≤ q.modRevision ∧
      lastOf key published = some q.value := by
  have hmem : p ∈ published.filter fun p => p.key = key :=
    List.mem_filter.mpr ⟨hp, decide_eq_true hkey⟩
  have hsub := hl.sublist (List.filter_sublist (p := fun p => p.key = key))
  rcases List.eq_nil_or_concat (published.filter fun p => p.key = key) with hnil | ⟨l, q, hq⟩
  · rw [hnil] at hmem
    cases hmem
  · -- the last one for the key
    rw [List.concat_eq_append] at hq
    have hqmem : q ∈ published.filter fun p => p.key = key := by
      rw [hq]
      exact List.mem_append_right _ List.mem_cons_self
    have hqkey : q.key = key := of_decide_eq_true (List.mem_filter.mp hqmem).2
    refine ⟨q, (List.mem_filter.mp hqmem).1, hqkey, ?_, ?_⟩
    · rw [hq] at hmem hsub
      rcases List.mem_append.mp hmem with hmem | hmem
      · exact (List.pairwise_append.mp hsub).2.2 p hmem q List.mem_cons_self (hkey.trans hqkey.symm)
      · exact Nat.le_of_eq (congrArg Publication.modRevision (List.mem_singleton.mp hmem))
    · unfold lastOf
      rw [hq, List.getLast?_concat]
      rfl

theorem Inv.newest (h : Inv imp s) : Newest imp s := by
  refine ⟨fun ⟨hh, hw, hall⟩ key kv hsel hkey => ?_, h.ordered⟩
  obtain ⟨i, hi⟩ := Option.ne_none_iff_exists'.mp hw
  obtain ⟨kvs, ha, hpub⟩ := h.handled hh
  have hcontent := hkey
  rw [h.dated.content] at hcontent
  have hnewest := (newest_of_replay h.dated.increasing hcontent).2
  -- the record has been published, from the answer or by the watch
  have hmem : ofRecord (key, kv) ∈ s.published := by
    rcases h.covered i kvs hi ha key kv hsel hkey with hr | he
    · exact hpub _ hr
    · refine h.told ⟨.put, key, kv⟩ ?_
      rw [told_of_some hi, hall, slice, List.take_length]
      exact List.mem_filter.mpr ⟨he, hsel⟩
  have hkeyed : (ofRecord (key, kv)).key = key := rfl
  obtain ⟨q, hq, hqkey, hle, hlast⟩ := exists_lastOf hmem hkeyed h.ordered
  -- the last one is not older, and no event of the key is newer than the record
  have hevent : ∃ e ∈ s.etcd.log, ofEvent e = q := by
    rcases h.source q hq with ⟨e, he, heq⟩ | ⟨-, kvs, ha, r, hr, heq⟩
    · exact ⟨e, mem_log_of_told he, heq⟩
    · exact ⟨_, h.answer kvs ha r hr, heq⟩
  obtain ⟨e, he, rfl⟩ := hevent
  obtain ⟨hmax, hsame⟩ := hnewest e he hqkey
  rw [hlast, ← hsame (Nat.le_antisymm hmax hle)]
  rfl

/--
**The newest value comes last** in every run in which the watch takes up where the answer ends, and
the queue brings neither after newer values of the other.
-/
theorem newest_of_orderly (h : (machine imp).Reach (Orderly imp) s) : Newest imp s :=
  (h.invariant (inv_init imp) fun _ _ _ hi ho hs => inv_step hi ho hs).newest

/-- The importer of one key, which changes before, between and after what the importer does. -/
def quiet : List Act :=
  [.commit [.put [1] [10]], .readRange, .createWatch, .handleInit, .commit [.put [1] [11]],
    .commit [.put [2] [12], .put [3] [13]], .handleWatch 3]

theorem newest_quiet :
    let M := machine (.singleKey [1])
    AllDelivered (M.exec M.init quiet) ∧
      (M.exec M.init quiet).published.map Publication.value = [[10], [11]] ∧
      Newest (.singleKey [1]) (M.exec M.init quiet) := by
  refine ⟨⟨rfl, nofun, rfl⟩, rfl, newest_of_orderly (.exec .init ?_)⟩
  refine ⟨trivial, trivial, ?_, ?_, trivial, trivial, ?_, trivial⟩
  · intro kvs ha key kv hsel hkey
    obtain rfl : key = [1] := of_decide_eq_true hsel
    obtain rfl := Option.some.inj ha
    obtain rfl := Option.some.inj hkey
    exact List.mem_cons_self
  · exact fun _ _ _ _ _ he => nomatch he
  · intro _ kvs ha
    obtain rfl := Option.some.inj ha
    decide

/-- The key is put when the range has been read, and before there is a watch. -/
def missed : List Act :=
  [.readRange, .commit [.put [1] [10]], .createWatch, .handleInit]

/-- The answer waits in the queue, while the watch tells of a newer value. -/
def overtaken : List Act :=
  [.commit [.put [1] [10]], .readRange, .createWatch, .commit [.put [1] [11]], .handleWatch 1,
    .handleInit]

theorem not_newest_missed_overtaken :
    (¬ ∀ s, (machine (.singleKey [1])).Reach (fun _ _ => True) s → Newest (.singleKey [1]) s) ∧
      ¬ ∀ s, (machine (.keyRange [1] [2])).Reach (fun _ _ => True) s →
        s.published.Pairwise fun p p' => p.key = p'.key → p.modRevision ≤ p'.modRevision := by
  constructor
  · intro h
    have hlast := (h ((machine (.singleKey [1])).exec (machine _).init missed)
      (Machine.Reach.init.exec (.of_forall (fun _ _ => trivial) _ _))).last ⟨rfl, nofun, rfl⟩ [1]
        ⟨[10], 1, 2⟩ rfl rfl
    cases hlast
  · intro h
    have hordered := h ((machine (.keyRange [1] [2])).exec (machine _).init overtaken)
      (Machine.Reach.init.exec (.of_forall (fun _ _ => trivial) _ _))
    have hle : 3 ≤ 2 := List.rel_of_pairwise_cons hordered List.mem_cons_self rfl
    omega

end EtcdLocalImporter
