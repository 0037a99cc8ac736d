import TMTransport.EtcdChain.AppendOnly

/-!
# One chain for all languages

C++, C#, TypeScript and Python clients of one chain build one list, and each of
them reads it.

The exception is the head of a chain without separate storage. C++ and C# make it
with a record that carries the default data and an empty link; TypeScript and
Python make it empty. The empty record is read as a head by TypeScript and Python
only: C# throws at once, and C++ returns a head from which `fetchNext` throws.
-/

namespace EtcdChain

open Etcd Interleave LinkedStore

variable {T : Type}

/-- Every call of every client, but for a batch append of nothing. -/
def AnyCalls (c : Req T) : Prop := ∀ cur l, c.kind = .append cur l → l ≠ []

/-- Is the call the `start` of a TypeScript or Python client? -/
def Req.isStart : Req T → Bool
  | .start _ _ _ => true
  | _ => false

/-- Is the call the `LoadUntil` of a C# client? -/
def Req.isDotNetLoad : Req T → Bool
  | .dotNetLoadUntil _ _ _ => true
  | _ => false

/--
The steps in which the clients agree on the format: appends are whole, `start`
finds the head there or need not put data in it, and an id that is loaded is not
mistaken for something else.
-/
def oneFormat (cfg : Config) : Guard Op State (Ghost T) (Req T) where
  op := fun c o st => AppendsWhole cfg c o st ∧ KeysWhole o ∧
    (c.isStart = true →
      cfg.saveDataOnSeparateStorage = true ∨ st.1.etcd.kvs cfg.headKeyStr ≠ none) ∧
    (∀ id, c.kind = .load id → LoadsItem cfg id st.2.log ∧
      (c.isDotNetLoad = true → LoadsExact cfg id st.1.etcd))
  env := fun _ _ => True

/-- What the clients have built is one list, and each of them reads it. -/
structure OneChain [Inhabited T] (cfg : Config) (cd : Codecs T)
    (w : World Op Op.Res State (Ghost T) (Req T) String (Reply T)) : Prop where
  built : BuiltList cfg w
  /-- Whoever asked for the head got it. -/
  heads : ∀ n c r, (n, c, r) ∈ w.returned → c.kind = .head →
    ∃ it, r = .ok (.item it) ∧ it.id = cfg.headKey
  /-- Whoever asked for the next item got that one or none. -/
  nexts : ∀ n c r cur, (n, c, r) ∈ w.returned → c.kind = .next cur → ∃ o, r = .ok (.next o) ∧
    ∀ it, o = some it → [cur.id, it.id] <:+: ids cfg w.st.2.log ∧
      ∃ d, it.data = some d ∧ (it.id, d) ∈ appended w.st.2.log
  /-- Whoever loaded an id got that item. -/
  loads : ∀ n c rep id it, (n, c, .ok rep) ∈ w.returned → c.kind = .load id →
    rep.current = some it → it.id = id ∧
      (it.id ≠ cfg.headKey → ∃ d, it.data = some d ∧ (it.id, d) ∈ appended w.st.2.log)
  /-- Left alone, a reader in any language walks exactly the list. -/
  walk : ∀ opt fuel, opt.useWatchThread = false → opt.duplicateFromRedis = false →
    (appended w.st.2.log).length < fuel → ∀ r : Reader T,
    ((∃ chain, r = cppReader cfg opt cd chain) ∨ (∃ d, r = dotNetReader cfg opt cd d) ∨
      (∃ lang d, r = scriptReader lang cfg opt cd d ∧
        (cfg.saveDataOnSeparateStorage = true ∨ w.st.1.etcd.kvs cfg.headKeyStr ≠ none))) →
    ∃ its, ((r.walk fuel).run (State.step cfg) w.st.1).1 = .ok (some its) ∧
      its.map (fun it => (it.id, it.data)) = (appended w.st.2.log).map (fun x => (x.1, some x.2))
  /-- Left alone, a reader in any language loads any item of the list. -/
  load : ∀ opt id d, opt.duplicateFromRedis = false → (id, d) ∈ appended w.st.2.log →
    (∃ it, ((loadUntil cfg opt cd id).run (State.step cfg) w.st.1).1 = .ok it ∧ it.id = id ∧
      it.data = some d) ∧
    (∀ d', ∃ it, ((DotNet.loadUntil cfg opt cd id d').run (State.step cfg) w.st.1).1 = .ok it ∧
      it.id = id ∧ it.data = some d) ∧
    (∀ lang, ∃ it, ((Script.tryLoadUntil lang cfg opt cd id).run (State.step cfg) w.st.1).1 =
      .ok (some it) ∧ it.id = id ∧ it.data = some d)

variable [Inhabited T]

/-- The setting of all clients: the head may have any data. -/
abbrev anySetting (cfg : Config) (opts : Nat → Options) (cd : Codecs T)
    (G : Guard Op State (Ghost T) (Req T)) : Setting T :=
  ⟨cfg, opts, cd, fun _ => True, AnyCalls, G⟩

theorem anyCalls_guarded (cfg : Config) (opts : Nat → Options) (cd : Codecs T) :
    (anySetting cfg opts cd (oneFormat cfg)).Guarded where
  appends := fun c o st _ hg => hg.1
  keys := fun c o st _ hg => hg.2.1
  loads := fun c id o st _ hk hg => (hg.2.2.2 id hk).1
  exact := fun _ id _ _ _ hid _ hg => (hg.2.2.2 id (if_neg hid)).2 rfl
  starts := fun lang chain d st _ hg => hg.2.2.1 rfl
  headData := ⟨trivial, fun _ _ _ _ => trivial⟩
  loops := fun lang chain cur cur' id d _ cur'' l hk => by cases hk; simp

/-- **One chain for all languages**, in every run that keeps to one format. -/
theorem oneChain_of_oneFormat (cfg : Config) (opts : Nat → Options) (cd : Codecs T)
    {w : World Op Op.Res State (Ghost T) (Req T) String (Reply T)}
    (hr : Runs cfg opts cd AnyCalls (oneFormat cfg) w) : OneChain cfg cd w := by
  have hs := settled (anyCalls_guarded cfg opts cd) hr
  have hi : ChainInv cfg cd (fun _ => True) w.st.1.etcd w.st.2.log := hs.inv.1
  have hany : ∀ G : Guard Op State (Ghost T) (Req T), (anySetting cfg opts cd G).Inv w.st :=
    fun _ => hs.inv
  refine ⟨builtList_of_settled hs (fun c cur l hc hk => hc cur l hk), ?_, ?_, ?_, ?_, ?_⟩
  · exact fun n c r he hk => (hs.post _ he).head hk
  · intro n c r cur he hk
    obtain ⟨o, rfl, h2⟩ := (hs.post _ he).next cur hk
    refine ⟨o, rfl, fun it hit => ⟨h2 it hit, ?_⟩⟩
    obtain ⟨d, hd, hdata⟩ := ((hs.post _ he).known _ it rfl hit).data
    have hne := (mem_of_adjacent hi.ids_nodup (h2 it hit)).2
    exact ⟨d, hd, (hdata.resolve_left (fun h => hne h.1)).2⟩
  · intro n c rep id it he hk hit
    refine ⟨(hs.post _ he).load id hk rep it rfl hit, fun hne => ?_⟩
    obtain ⟨d, hd, hdata⟩ := ((hs.post _ he).known rep it rfl hit).data
    exact ⟨d, hd, (hdata.resolve_left (fun h => hne h.1)).2⟩
  · intro opt fuel hwatch hdup hfuel r hr'
    have hw : ∀ P : Prop, opt.duplicateFromRedis = true → P := fun P h => by
      rw [hdup] at h; cases h
    rcases hr' with ⟨chain, rfl⟩ | ⟨d, rfl⟩ | ⟨lang, d, rfl, hhead⟩
    · exact walk_run (Γ := anySetting cfg opts cd Guard.any) (n := 0) (c := .head chain)
        (cppReader_good trivial opt chain 0 _ hwatch (hw _)) rfl (hany _)
        (fun _ _ _ _ => trivial) hfuel
    · exact walk_run (Γ := anySetting cfg opts cd Guard.any) (n := 0) (c := .head 0)
        (dotNetReader_good (fun _ => trivial) opt d 0 _ (hw _)) rfl (hany _)
        (fun _ _ _ _ => trivial) hfuel
    · exact walk_run (Γ := anySetting cfg opts cd
          ⟨fun _ _ st => cfg.saveDataOnSeparateStorage = true ∨
            st.1.etcd.kvs cfg.headKeyStr ≠ none, fun _ _ => True⟩) (n := 0) (c := .head 0)
        (scriptReader_good (fun _ => trivial) lang opt d 0 _ (hw _) (fun _ h => h)) rfl (hany _)
        (fun _ _ _ hm => hhead.imp_right (hm 1 (by simp)).bound) hfuel
  · intro opt id d hdup hx
    have hw : ∀ P : Prop, opt.duplicateFromRedis = true → P := fun P h => by
      rw [hdup] at h; cases h
    have hmem : id ∈ (appended w.st.2.log).map Prod.fst := List.mem_map.mpr ⟨_, hx, rfl⟩
    have hne : id ≠ "" := by
      obtain ⟨hd, -, hh⟩ := holds_of_there hi (List.mem_cons_of_mem _ hmem)
        (there_of_appended hi hmem)
      exact hh.named _ hx
    refine ⟨?_, fun d' => ?_, fun lang => ?_⟩
    · exact load_run (Γ := anySetting cfg opts cd Guard.any) (n := 0) (c := .head 0) rfl (hany _)
        (fun _ _ => trivial) hx
        (loadUntil_meets hne (hw _) (Or.inr hmem) (List.prefix_refl _) (hany _))
    · exact load_run (Γ := anySetting cfg opts cd Guard.any) (n := 0) (c := .head 0) rfl (hany _)
        (fun _ _ => trivial) hx
        (DotNet.loadUntil_meets hne (hw _) (Or.inr hmem) (List.prefix_refl _) (hany _))
    · exact tryLoad_run (Γ := anySetting cfg opts cd Guard.any) (n := 0) (c := .head 0) rfl
        (hany _) (fun _ _ => trivial) hx
        (Script.tryLoadUntil_meets lang (hw _) (Or.inr hmem) (List.prefix_refl _) (hany _))

/-! ## Two runs -/

/-- What a C++ client started and a Python client appended to, all clients can read. -/
theorem oneChain_single :
    ∃ w, Runs inlineConfig (fun _ => {}) Codecs.unit AnyCalls (oneFormat inlineConfig) w ∧
      (1, .tryAppend .python 0 inlineHead "a" (),
        .ok (.appended true (some ⟨3, "a", some (), ""⟩))) ∈ w.returned ∧
      OneChain inlineConfig Codecs.unit w := by
  have hr : Runs inlineConfig (fun _ => {}) Codecs.unit AnyCalls (oneFormat inlineConfig)
      (oneByOne {} AnyCalls [.head 0, .tryAppend .python 0 inlineHead "a" ()]) := by
    refine reachable_solos .init ⟨⟨?_, ?_⟩, ⟨⟨?_, keysWhole_txn _, ?_, ?_⟩, trivial⟩, ⟨?_, ?_⟩,
      ⟨⟨?_, ?_, ?_, ?_⟩, ⟨?_, keysWhole_txn _, ?_, ?_⟩, trivial⟩, trivial⟩
    · rintro _ _ ⟨⟩
    · rintro _ ⟨⟩
    · rintro t cur l ⟨⟩ ⟨⟩
    · rintro ⟨⟩
    · rintro id ⟨⟩
    · rintro cur l ⟨⟩; simp
    · rintro _ ⟨⟩
      exact ⟨(0, .head 0, .ok (.item inlineHead)), List.Mem.head _, Or.inr ⟨_, rfl, rfl⟩⟩
    · rintro t cur l ⟨⟩
    · rintro arg key (⟨⟨⟩⟩ | ⟨v, ttl, ⟨⟩⟩)
    · rintro ⟨⟩
    · rintro id ⟨⟩
    · rintro t cur l ⟨⟩ ⟨⟩ _ _ _ _; simp
    · rintro ⟨⟩
    · rintro id ⟨⟩
  exact ⟨_, hr, List.Mem.head _, oneChain_of_oneFormat _ _ _ hr⟩

/--
Without separate storage, a TypeScript client starts the chain with an empty head
record. A C++ client takes that for a head and throws when it asks for what follows.
-/
theorem not_oneChain_start :
    ∃ w, Runs inlineConfig (fun _ => {}) Codecs.unit AnyCalls Guard.any w ∧
      (0, .start .typeScript 0 (), .ok (.item inlineHead)) ∈ w.returned ∧
      (2, .fetchNext 0 inlineHead,
        .error "FetchNext Error! Bad record for shared_chain_test:") ∈ w.returned ∧
      ¬ OneChain inlineConfig Codecs.unit w := by
  have hr : Runs inlineConfig (fun _ => {}) Codecs.unit AnyCalls Guard.any
      (oneByOne {} AnyCalls [.start .typeScript 0 (), .head 0, .fetchNext 0 inlineHead]) := by
    refine reachable_solos .init ⟨⟨?_, ?_⟩, along_any .., ⟨?_, ?_⟩, along_any .., ⟨?_, ?_⟩,
      along_any .., trivial⟩
    · rintro _ _ ⟨⟩
    · rintro _ ⟨⟩
    · rintro _ _ ⟨⟩
    · rintro _ ⟨⟩
    · rintro _ _ ⟨⟩
    · rintro _ ⟨⟩
      exact ⟨(1, .head 0, .ok (.item inlineHead)), List.Mem.head _, Or.inr ⟨_, rfl, rfl⟩⟩
  refine ⟨_, hr, List.Mem.tail _ (List.Mem.tail _ (List.Mem.head _)), List.Mem.head _, fun h => ?_⟩
  obtain ⟨o, ho, -⟩ := h.nexts 2 (.fetchNext 0 inlineHead) _ inlineHead (List.Mem.head _) rfl
  cases ho

end EtcdChain
