import TMTransport.EtcdChain.Walk

/-!
# The C++ chain as an append-only list

What the clients build together is one list. Each append that returned true put
its items on it in one piece, right after its tail; each that returned false
changed no key; and whoever follows `fetchNext` from the head sees exactly that
list.

This needs two things of the appends. A batch must have one item or go to
separate storage: otherwise `appendAfter` adds a single operation for the whole
batch, and only the last item is stored. And no item may have the empty id, which
in a link means that nothing follows.
-/

namespace EtcdChain

open Etcd Interleave LinkedStore

variable {T : Type}

/-- `head`, `fetchNext`, and appends of at least one item, by C++ clients. -/
def ListCalls : Req T → Prop
  | .head _ => True
  | .fetchNext _ _ => True
  | .appendAfter _ _ _ _ => True
  | .appendAfterBatch _ _ l => l ≠ []
  | _ => False

/--
Appends that go through are whole: to separate storage, or of a single item, and
of items with ids. A client that uses the cache has no NUL in its keys.
-/
def wholeAppends (cfg : Config) : Guard Op State (Ghost T) (Req T) where
  op := fun c o st => AppendsWhole cfg c o st ∧ KeysWhole o
  env := fun _ _ => True

/-- The list that the clients have built, and what each call has done to it or seen of it. -/
structure AppendOnlyList [Inhabited T] (cfg : Config) (cd : Codecs T)
    (w : World Op Op.Res State (Ghost T) (Req T) String (Reply T)) : Prop where
  built : BuiltList cfg w
  /-- A reader with neither a watch thread nor a cache walks exactly the list. -/
  walk : ∀ opt chain fuel, opt.useWatchThread = false → opt.duplicateFromRedis = false →
    (appended w.st.2.log).length < fuel →
    ∃ its, (((cppReader cfg opt cd chain).walk fuel).run (State.step cfg) w.st.1).1 =
        .ok (some its) ∧
      its.map (fun it => (it.id, it.data)) = (appended w.st.2.log).map (fun x => (x.1, some x.2))
  /-- What `fetchNext` returned is the next item. -/
  fetched : ∀ n chain cur it, (n, .fetchNext chain cur, .ok (.next (some it))) ∈ w.returned →
    [cur.id, it.id] <:+: ids cfg w.st.2.log ∧
      ∃ d, it.data = some d ∧ (it.id, d) ∈ appended w.st.2.log

variable [Inhabited T]

/-- The setting of the C++ clients: they make the head with default data. -/
abbrev cppSetting (cfg : Config) (opts : Nat → Options) (cd : Codecs T) (calls : Req T → Prop)
    (G : Guard Op State (Ghost T) (Req T)) : Setting T :=
  ⟨cfg, opts, cd, (· = default), calls, G⟩

theorem listCalls_guarded (cfg : Config) (opts : Nat → Options) (cd : Codecs T) :
    (cppSetting cfg opts cd ListCalls (wholeAppends cfg)).Guarded where
  appends := fun c o st _ hg => hg.1
  keys := fun c o st _ hg => hg.2
  loads := fun c id o st hc hk => by cases c <;> first | exact hc.elim | cases hk
  exact := fun _ _ _ _ _ _ hc => hc.elim
  starts := fun _ _ _ _ hc => hc.elim
  headData := ⟨rfl, fun c hc h => by cases c <;> first | exact hc.elim | cases h⟩
  loops := fun _ _ _ _ _ _ hc => hc.elim

/-- **The C++ chain is an append-only list** in every run whose appends are whole. -/
theorem appendOnly_of_wholeAppends (cfg : Config) (opts : Nat → Options) (cd : Codecs T)
    {w : World Op Op.Res State (Ghost T) (Req T) String (Reply T)}
    (hr : Runs cfg opts cd ListCalls (wholeAppends cfg) w) : AppendOnlyList cfg cd w := by
  have hs := settled (listCalls_guarded cfg opts cd) hr
  have hi : ChainInv cfg cd (· = default) w.st.1.etcd w.st.2.log := hs.inv.1
  refine ⟨builtList_of_settled hs ?_, ?_, ?_⟩
  · intro c cur l hc hk
    cases c <;> first | exact hc.elim | cases hk
    · simp
    · exact hc
  · intro opt chain fuel hwatch hdup hfuel
    exact walk_run (Γ := cppSetting cfg opts cd ListCalls Guard.any) (n := 0) (c := .head chain)
      (cppReader_good rfl opt chain 0 _ hwatch (fun h => by rw [hdup] at h; cases h)) rfl hs.inv
      (fun _ _ _ _ => trivial) hfuel
  · intro n chain cur it he
    obtain ⟨o, h1, h2⟩ := (hs.post _ he).next cur rfl
    cases h1
    obtain ⟨d, hd, hdata⟩ := ((hs.post _ he).known _ it rfl rfl).data
    have hne := (mem_of_adjacent hi.ids_nodup (h2 it rfl)).2
    exact ⟨h2 it rfl, d, hd, (hdata.resolve_left (fun h => hne h.1)).2⟩

/-! ## Two runs -/

/-- A chain without separate storage. -/
def inlineConfig : Config := { saveDataOnSeparateStorage := false }

/-- The clients of `inlineConfig`, all with the same options. -/
abbrev inlineSystem (opt : Options) (calls : Req Unit → Prop) :
    System Op Op.Res State (Ghost Unit) (Req Unit) String (Reply Unit) :=
  system inlineConfig (fun _ => opt) Codecs.unit calls

/-- The head item of that chain, as it is when the head has just been made. -/
def inlineHead : ChainItem Unit := ⟨2, "", some (), ""⟩

/-- The calls `cs`, one after the other, on that chain. -/
abbrev oneByOne (opt : Options) (calls : Req Unit → Prop) (cs : List (Req Unit)) :
    World Op Op.Res State (Ghost Unit) (Req Unit) String (Reply Unit) :=
  (World.mk (State.init, {}) 0 (fun _ => none) []).solos (inlineSystem opt calls) cs

/-- What any of the calls does is within no guard at all. -/
theorem along_any {opt : Options} {calls : Req Unit → Prop} (n : Nat) (c : Req Unit)
    (p : Call (Req Unit ⊕ Reply Unit)) (st : State × Ghost Unit) :
    p.Along ((inlineSystem opt calls).exec n c) (Guard.any.op c) st :=
  Prog.Along.of_forall _ (fun _ _ => trivial) p st

/-- A single item is appended whole. -/
theorem appendOnly_single :
    ∃ w, Runs inlineConfig (fun _ => {}) Codecs.unit ListCalls (wholeAppends inlineConfig) w ∧
      (1, .appendAfterBatch 0 inlineHead [("a", ())], .ok (.appended true none)) ∈ w.returned ∧
      AppendOnlyList inlineConfig Codecs.unit w := by
  have hr : Runs inlineConfig (fun _ => {}) Codecs.unit ListCalls (wholeAppends inlineConfig)
      (oneByOne {} ListCalls [.head 0, .appendAfterBatch 0 inlineHead [("a", ())]]) := by
    refine reachable_solos .init ⟨⟨trivial, ?_⟩, ⟨⟨?_, keysWhole_txn _⟩, trivial⟩,
      ⟨by simp [ListCalls], ?_⟩, ⟨⟨?_, keysWhole_txn _⟩, trivial⟩, trivial⟩
    · rintro _ ⟨⟩
    · rintro t cur l ⟨⟩ ⟨⟩
    · rintro _ ⟨⟩
      exact ⟨(0, .head 0, .ok (.item inlineHead)), List.Mem.head _, Or.inr ⟨_, rfl, rfl⟩⟩
    · rintro t cur l ⟨⟩ ⟨⟩ _ _ _ _
      simp
  exact ⟨_, hr, List.Mem.head _, appendOnly_of_wholeAppends _ _ _ hr⟩

/--
Without separate storage, a batch of two goes through and returns true, but its
first item is not stored: who follows the links from the head is thrown out.
-/
theorem not_appendOnly_batch :
    ∃ w, Runs inlineConfig (fun _ => {}) Codecs.unit ListCalls Guard.any w ∧
      (1, .appendAfterBatch 0 inlineHead [("a", ()), ("b", ())], .ok (.appended true none)) ∈
        w.returned ∧ ¬ AppendOnlyList inlineConfig Codecs.unit w := by
  have hr : Runs inlineConfig (fun _ => {}) Codecs.unit ListCalls Guard.any
      (oneByOne {} ListCalls [.head 0, .appendAfterBatch 0 inlineHead [("a", ()), ("b", ())]]) := by
    refine reachable_solos .init
      ⟨⟨trivial, by rintro _ ⟨⟩⟩, along_any .., ⟨by simp [ListCalls], ?_⟩,
      along_any .., trivial⟩
    rintro _ ⟨⟩
    exact ⟨(0, .head 0, .ok (.item inlineHead)), List.Mem.head _, Or.inr ⟨_, rfl, rfl⟩⟩
  refine ⟨_, hr, List.Mem.head _, fun h => ?_⟩
  obtain ⟨its, hwalk, -⟩ := h.walk {} 0 3 rfl rfl (by decide)
  have herr : (((cppReader inlineConfig {} Codecs.unit 0).walk 3).run (State.step inlineConfig)
      (oneByOne {} ListCalls
        [.head 0, .appendAfterBatch 0 inlineHead [("a", ()), ("b", ())]]).st.1).1 =
      .error "FetchNext Error! No record for shared_chain_test:a" := rfl
  rw [herr] at hwalk
  cases hwalk

end EtcdChain
