import TMTransport.EtcdChain.Records

/-!
# What a watch thread has heard of

`latestModRevision_` of a chain object is written by its watch thread and by its
own appends. The invariant: whatever has been written to the chain since the last
event that was delivered is still to be delivered.

This needs nothing of the chain itself, so that it is a contract of its own, next
to the one for the list. Its history remembers the appends of C++ clients, which
of these have stored their revision, and each time `fetchNext` returned without
asking.
-/

namespace EtcdChain

open Etcd Interleave

variable {T : Type}

/-- An append that a C++ client has committed. -/
structure Committed where
  call : Nat
  chain : Nat
  revision : Nat

/-- `fetchNext` on the object `chain` returned none for `current` without reading etcd. -/
structure Shortcut (T : Type) where
  chain : Nat
  current : ChainItem T
  state : State
  commits : List Committed

structure WatchGhost (T : Type) where
  commits : List Committed := []
  /-- The calls that have stored a revision in `latestModRevision_`. -/
  stored : Nat → Prop := fun _ => False
  shortcuts : List (Shortcut T) := []

/-- Has a C++ append gone through with the answer `r`? -/
def Req.commits (c : Req T) (r : Option TxnResponse) : Bool :=
  c.isCpp && c.appends.isSome && (r.map TxnResponse.succeeded).getD false

def watchNote (n : Nat) (c : Req T) :
    (o : Op) → o.Res → State → State → WatchGhost T → WatchGhost T
  | .txn _, r, _, s', g =>
    if c.commits r then { g with commits := g.commits ++ [⟨n, c.chain, s'.etcd.revision⟩] } else g
  | .loadLatestModRevision chain, r, s, _, g =>
    match c with
    | .fetchNext _ cur =>
      if isUpToDate r cur.revision then
        { g with shortcuts := ⟨chain, cur, s, g.commits⟩ :: g.shortcuts }
      else g
    | _ => g
  | .storeLatestModRevision _ _, _, _, _, g => { g with stored := fun m => g.stored m ∨ m = n }
  | _, _, _, _, g => g

/-- Some client came by the item `it`, in C++ or not as `cpp` says. -/
def HeldIn (cpp : Bool) (h : History T) (it : ChainItem T) : Prop :=
  ∃ e ∈ h, e.2.1.isCpp = cpp ∧
    (e.2.1.current = some it ∨ ∃ r, e.2.2 = .ok r ∧ r.current = some it)

/-- All clients of all languages. The items of C++ clients stay with C++ clients. -/
def watchSystem [Inhabited T] (cfg : Config) (opts : Nat → Options) (cd : Codecs T) :
    System Op Op.Res State (WatchGhost T) (Req T) String (Reply T) where
  step := State.step cfg
  note := watchNote
  body := body cfg opts cd
  env := Env opts
  may := fun h c => ∀ cur, c.current = some cur → HeldIn c.isCpp h cur

/--
The steps in which a watch thread does its work: its stream does not end, and is
up before the object appends; `latestModRevision_` is never set back; it is not
read while an append of the object has still to store its revision. Nothing with
an empty link goes to the cache.
-/
def watched (opts : Nat → Options) (cd : Codecs T) : Guard Op State (WatchGhost T) (Req T) where
  op := fun c o st =>
    (∀ t resp, o = .txn t → (opts c.chain).useWatchThread = true →
      (st.1.etcd.txn t).1 = some resp → c.commits (some resp) = true →
      ∃ evs, st.1.watch c.chain = .alive evs) ∧
    (∀ chain rev, o = .storeLatestModRevision chain rev → st.1.latestModRevision chain ≤ rev) ∧
    (∀ chain, o = .loadLatestModRevision chain → ∀ e ∈ st.2.commits, e.chain = chain →
      st.2.stored e.call) ∧
    (∀ arg key v ttl r, o = .redisSet arg key v ttl → cd.redis.parse v = some r → r.nextID ≠ "")
  env := fun st s' => ∀ c, (opts c).useWatchThread = true →
    s'.watch c ≠ .ended ∧ st.1.latestModRevision c ≤ s'.latestModRevision c

/-! ## What is still to be delivered -/

/-- The item `id` has a successor in etcd, whose link was written under revision `rev`. -/
def HasNext (cfg : Config) (cd : Codecs T) (s : Store) (id : String) (rev : Nat) : Prop :=
  ∃ kv next, s.kvs (cfg.chainKey id) = some kv ∧ kv.modRevision = rev ∧
    nextOf cfg cd kv.value = some next ∧ next ≠ ""

/--
The shortcut was right: nothing follows the item, or an event is on its way that
makes the next test fail, and what follows was not appended through the object.
-/
def Shortcut.Sound (cfg : Config) (cd : Codecs T) (x : Shortcut T) : Prop :=
  ∀ rev, HasNext cfg cd x.state.etcd x.current.id rev →
    (∃ evs ev, x.state.watch x.chain = .alive evs ∧ ev ∈ evs ∧
      ∀ latestRev, ev ≤ latestRev → isUpToDate latestRev x.current.revision = false) ∧
    ∀ e ∈ x.commits, e.revision = rev → e.chain ≠ x.chain

/--
Of an object that has heard of `latest`: each link that has been written since the
last event, `seen`, is among the events on their way.
-/
def Tracked (cfg : Config) (s : Store) (latest : Nat) (evs : List Nat) : Prop :=
  ∃ seen, seen ≤ s.revision ∧ evs.Pairwise (· < ·) ∧ (∀ ev ∈ evs, seen < ev ∧ ev ≤ s.revision) ∧
    (latest = 0 ∨ seen ≤ latest) ∧
    ∀ id kv, s.kvs (cfg.chainKey id) = some kv → seen < kv.modRevision → kv.modRevision ∈ evs

/-- An item whose link was empty when it was read: if it is not now, it is newer than the item. -/
def Fresh (cfg : Config) (cd : Codecs T) (it : ChainItem T) (s : Store) : Prop :=
  it.nextID = "" → it.revision ≤ s.revision ∧
    ∀ rev, HasNext cfg cd s it.id rev → it.revision < rev

structure WatchInv (cfg : Config) (opts : Nat → Options) (cd : Codecs T)
    (st : State × WatchGhost T) : Prop where
  sound : st.1.etcd.Sound
  cache : ∀ key v r, st.1.redis key = some v → cd.redis.parse v = some r → r.nextID ≠ ""
  tracked : ∀ c, (opts c).useWatchThread = true →
    (st.1.watch c = .notCreated ∧ st.1.latestModRevision c = 0) ∨
    ∃ evs, st.1.watch c = .alive evs ∧ Tracked cfg st.1.etcd (st.1.latestModRevision c) evs
  stored : ∀ e ∈ st.2.commits, st.2.stored e.call → (opts e.chain).useWatchThread = true →
    e.revision ≤ st.1.latestModRevision e.chain
  shortcuts : ∀ x ∈ st.2.shortcuts, x.Sound cfg cd

/-- How things may change at all. -/
structure Grows (opts : Nat → Options) (s s' : State) : Prop where
  rev : s.etcd.revision ≤ s'.etcd.revision
  kept : ∀ k, s'.etcd.kvs k = s.etcd.kvs k ∨
    ∃ kv, s'.etcd.kvs k = some kv ∧ s.etcd.revision < kv.modRevision
  latest : ∀ c, (opts c).useWatchThread = true → s.latestModRevision c ≤ s'.latestModRevision c
  /-- An event does not get lost. -/
  alive : ∀ c evs, (opts c).useWatchThread = true → s.watch c = .alive evs →
    ∃ evs', s'.watch c = .alive evs' ∧ ∀ ev ∈ evs, ev ∈ evs' ∨ 0 < s'.latestModRevision c

/-- How things may change under call number `n` while it is waiting. -/
structure Watches (opts : Nat → Options) (n : Nat) (st st' : State × WatchGhost T) : Prop where
  grows : Grows opts st.1 st'.1
  commits : ∀ e ∈ st'.2.commits, e.call = n → e ∈ st.2.commits
  stored : st'.2.stored n → st.2.stored n

theorem Grows.refl (opts : Nat → Options) (s : State) : Grows opts s s :=
  ⟨Nat.le_refl _, fun _ => Or.inl rfl, fun _ _ => Nat.le_refl _,
    fun _ evs _ h => ⟨evs, h, fun _ h => Or.inl h⟩⟩

theorem Grows.trans {opts : Nat → Options} {s s' s'' : State} (h : Grows opts s s')
    (h' : Grows opts s' s'') : Grows opts s s'' := by
  refine ⟨h.rev.trans h'.rev, fun k => ?_, fun c hc => (h.latest c hc).trans (h'.latest c hc), ?_⟩
  · have := h.rev
    rcases h'.kept k with hk | ⟨kv, hk, hlt⟩
    · rcases h.kept k with hk' | ⟨kv, hk', hlt⟩
      · exact Or.inl (hk.trans hk')
      · exact Or.inr ⟨kv, hk.trans hk', hlt⟩
    · exact Or.inr ⟨kv, hk, by omega⟩
  · intro c evs hc he
    obtain ⟨evs', h1, h2⟩ := h.alive c evs hc he
    obtain ⟨evs'', h3, h4⟩ := h'.alive c evs' hc h1
    refine ⟨evs'', h3, fun ev hev => ?_⟩
    rcases h2 ev hev with h5 | h5
    · exact h4 ev h5
    · exact Or.inr (Nat.lt_of_lt_of_le h5 (h'.latest c hc))

theorem Watches.refl (opts : Nat → Options) (n : Nat) (st : State × WatchGhost T) :
    Watches opts n st st :=
  ⟨Grows.refl opts _, fun _ h _ => h, fun h => h⟩

theorem Watches.trans {opts : Nat → Options} {n : Nat} {st st' st'' : State × WatchGhost T}
    (h : Watches opts n st st') (h' : Watches opts n st' st'') : Watches opts n st st'' :=
  ⟨h.grows.trans h'.grows, fun e he hn => h.commits e (h'.commits e he hn) hn,
    fun hs => h.stored (h'.stored hs)⟩

def watchContract (cfg : Config) (opts : Nat → Options) (cd : Codecs T) :
    Contract State (WatchGhost T) where
  inv := WatchInv cfg opts cd
  rely := Watches opts
  rely_refl := Watches.refl opts
  rely_trans := fun _ _ _ _ => Watches.trans

section Lemmas

variable {cfg : Config} {opts : Nat → Options} {cd : Codecs T} {s s' : State}

theorem Fresh.stable {it : ChainItem T} (h : Fresh cfg cd it s.etcd) (hm : Grows opts s s') :
    Fresh cfg cd it s'.etcd := by
  intro hn
  obtain ⟨h1, h2⟩ := h hn
  refine ⟨h1.trans hm.rev, ?_⟩
  rintro rev ⟨kv, next, hkv, rfl, hnext⟩
  rcases hm.kept (cfg.chainKey it.id) with hk | ⟨kv', hk, hlt⟩
  · exact h2 _ ⟨kv, next, hk ▸ hkv, rfl, hnext⟩
  · obtain rfl := Option.some.inj (hkv.symm.trans hk)
    omega

/-- An item read together with its record. -/
theorem fresh_of_record {it : ChainItem T} {st : Store} (hrev : it.revision ≤ st.revision)
    (h : ∀ kv, st.kvs (cfg.chainKey it.id) = some kv →
      ∀ next, nextOf cfg cd kv.value = some next → next = it.nextID) : Fresh cfg cd it st := by
  refine fun hn => ⟨hrev, ?_⟩
  rintro rev ⟨kv, next, hkv, -, hnext, hne⟩
  exact absurd ((h kv hkv next hnext).trans hn) hne

theorem fresh_of_next {it : ChainItem T} {st : Store} (h : it.nextID ≠ "") : Fresh cfg cd it st :=
  fun hn => absurd hn h

/-- A shortcut is right for an item that is fresh. -/
theorem shortcut_sound {chain : Nat} {cur : ChainItem T} {g : WatchGhost T}
    (hi : WatchInv cfg opts cd (s, g)) (hw : (opts chain).useWatchThread = true)
    (hcur : Fresh cfg cd cur s.etcd) (hn : cur.nextID = "")
    (hown : ∀ e ∈ g.commits, e.chain = chain → g.stored e.call)
    (hup : isUpToDate (s.latestModRevision chain) cur.revision = true) :
    Shortcut.Sound cfg cd ⟨chain, cur, s, g.commits⟩ := by
  simp only [isUpToDate, Bool.and_eq_true, decide_eq_true_eq] at hup
  intro rev hrev
  have hlt := (hcur hn).2 rev hrev
  rcases hi.tracked chain hw with ⟨-, h0⟩ | ⟨evs, halive, seen, -, -, -, hseen, hall⟩
  · have h0' : s.latestModRevision chain = 0 := h0
    omega
  · have hseen' : seen ≤ s.latestModRevision chain := by
      rcases hseen with h | h
      · have h' : s.latestModRevision chain = 0 := h
        omega
      · exact h
    refine ⟨⟨evs, rev, halive, ?_, fun latestRev hle => ?_⟩, ?_⟩
    · obtain ⟨kv, -, hkv, rfl, -⟩ := hrev
      exact hall cur.id kv hkv (by omega)
    · simp [isUpToDate]; omega
    · rintro e he rfl rfl
      have : e.revision ≤ s.latestModRevision e.chain := hi.stored e he (hown e he rfl) hw
      omega

end Lemmas

end EtcdChain
