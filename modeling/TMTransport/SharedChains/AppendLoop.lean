import TMTransport.EtcdChain.AppendLoop
import TMTransport.RedisChain.AppendLoop

/-!
# Where `append` ends

The loops of `append` over etcd and over Redis, each left alone in any store that the clients
can have made.
-/

open Interleave

namespace EtcdChain

/-- The first item of a chain that a TypeScript client has started, and the second. -/
def firstItem : ChainItem Unit := ⟨3, "a", some (), ""⟩

@[inherit_doc firstItem] def secondItem : ChainItem Unit := ⟨4, "b", some (), ""⟩

/-- The calls that have made them. -/
abbrev startedRun : World Op Op.Res State (Ghost Unit) (Req Unit) String (Reply Unit) :=
  oneByOne {} (fun _ => True) [.start .typeScript 0 (),
    .tryAppend .typeScript 0 inlineHead "a" (), .tryAppend .typeScript 0 firstItem "b" ()]

/-- The steps of `tryAppend` at the end of that chain. -/
theorem oneRecord_tryAppend (cur : ChainItem Unit) {id : String} {o : Op}
    (st : State × Ghost Unit) (hid : id ≠ "") (ho : KeysWhole o) :
    (oneRecord inlineConfig).op (.tryAppend .typeScript 0 cur id ()) o st := by
  refine ⟨?_, ho, ?_⟩
  · intro t cur' l _ hc _ resp _ _
    cases hc
    simpa using hid
  · intro id' hk
    cases hk

theorem keysWhole_range (key : String) : KeysWhole (.range key) := by
  intro arg key hk
  rcases hk with hk | ⟨v, ttl, hk⟩
  all_goals cases hk

theorem startedRun_runs :
    Runs inlineConfig (fun _ => {}) Codecs.unit (fun _ => True) (oneRecord inlineConfig)
      startedRun := by
  refine reachable_solos .init ⟨⟨trivial, ?_⟩, ⟨⟨?_, keysWhole_txn _, ?_⟩, trivial⟩,
    ⟨trivial, ?_⟩, ⟨oneRecord_tryAppend _ _ (by decide) (keysWhole_range _),
      oneRecord_tryAppend _ _ (by decide) (keysWhole_txn _), trivial⟩,
    ⟨trivial, ?_⟩, ⟨oneRecord_tryAppend _ _ (by decide) (keysWhole_range _),
      oneRecord_tryAppend _ _ (by decide) (keysWhole_txn _), trivial⟩, trivial⟩
  · intro cur hcur
    cases hcur
  · intro t cur l ho hc
    cases hc
  · intro id hk
    cases hk
  · intro cur hcur
    cases hcur
    exact ⟨(0, .start .typeScript 0 (), .ok (.item inlineHead)), List.Mem.head _,
      .inr ⟨_, rfl, rfl⟩⟩
  · intro cur hcur
    cases hcur
    exact ⟨_, List.Mem.head _, .inr ⟨_, rfl, rfl⟩⟩

end EtcdChain

namespace RedisChain

/-- A TypeScript client has appended an item to the list. -/
abbrev startedRun : World Op Op.Res Redis.Store (Ghost String) (Req String) String
    (Reply String) :=
  oneByOne anyHeldCalls [.start .typeScript "", .tryAppend .typeScript emptyHead "a" "1"]

theorem startedRun_runs : Runs {} .text anyHeldCalls (wholeKeys {}) startedRun := by
  refine reachable_solos .init ⟨⟨?_, ?_⟩, ⟨wholeKeys_of_head rfl (by decide), trivial⟩,
    ⟨?_, ?_⟩, ⟨wholeKeys_of_append rfl ?_ rfl, wholeKeys_of_append rfl ?_ rfl, trivial⟩, trivial⟩
  · intro cur items hk
    cases hk
  · intro cur hcur
    cases hcur
  · intro cur items hk
    cases hk
    simp
  · intro cur hcur
    cases hcur
    exact ⟨_, List.Mem.head _, .inr (.inl ⟨_, rfl, rfl⟩)⟩
  · exact ⟨by decide, by decide⟩
  · exact ⟨by decide, by decide⟩

end RedisChain

namespace SharedChains

section Loops

variable {T : Type} [Inhabited T]

/--
**The loop of `append`**, left alone, ends with the item appended or with an exception that
has changed nothing, just if there is something left to append it with; over etcd also where
the transaction is one that etcd rejects.
-/
theorem append_ends_iff :
    (∀ (cfg : EtcdChain.Config) (opts : Nat → EtcdChain.Options) (cd : EtcdChain.Codecs T)
        (w : World EtcdChain.Op EtcdChain.Op.Res EtcdChain.State (EtcdChain.Ghost T)
          (EtcdChain.Req T) String (EtcdChain.Reply T)),
      cd.mapData.parse "" = none →
      EtcdChain.Runs cfg opts cd (fun _ => True) (EtcdChain.oneRecord cfg) w →
      ∀ (lang : EtcdChain.Lang) (opt : EtcdChain.Options) (gone : Nat → String → Bool)
        (newID : String) (newData : T) (cur : EtcdChain.ChainItem T),
        EtcdChain.Held w.returned cur →
        (EtcdChain.AppendEnds lang cfg opt cd gone w.st.2.log newID newData cur (w.st.1, 0) ↔
          EtcdChain.PutsTwice cfg (EtcdChain.lastID cfg w.st.2.log) newID ∨
            EtcdChain.Appendable cfg w.st.1.etcd w.st.2.log cur newID)) ∧
    ∀ (cfg : RedisChain.Config) (cd : RedisChain.DataCodec T)
        (w : World RedisChain.Op RedisChain.Op.Res Redis.Store (RedisChain.Ghost T)
          (RedisChain.Req T) String (RedisChain.Reply T)),
      RedisChain.Runs cfg cd RedisChain.anyHeldCalls (RedisChain.wholeKeys cfg) w →
      ∀ (newID : String) (newData : T) (cur : RedisChain.ChainItem T),
        RedisChain.Held w.returned cur →
        (RedisChain.AppendEnds cfg cd w.st.2.log newID newData cur w.st.1 ↔
          RedisChain.Appendable cfg w.st.1 newID) :=
  ⟨fun _ _ _ _ hparse hr lang opt gone newID newData _ hcur =>
      EtcdChain.append_ends_of_runs hparse hr lang opt gone newID newData hcur,
    fun _ _ _ hr newID newData _ hcur => RedisChain.append_ends_of_runs hr newID newData hcur⟩

end Loops

/-- A new item, from the last one on over etcd and from the head on over Redis. -/
theorem append_ends_new :
    EtcdChain.AppendEnds .typeScript EtcdChain.inlineConfig {} EtcdChain.Codecs.unit
      (fun _ _ => false) EtcdChain.startedRun.st.2.log "c" () EtcdChain.secondItem
      (EtcdChain.startedRun.st.1, 0) ∧
    RedisChain.AppendEnds {} .text RedisChain.startedRun.st.2.log "b" "2" RedisChain.emptyHead
      RedisChain.startedRun.st.1 := by
  constructor
  · refine (append_ends_iff.1 _ _ _ _ rfl EtcdChain.startedRun_runs .typeScript {} _ "c" () _
      ⟨_, List.Mem.head _, .inr ⟨_, rfl, rfl⟩⟩).mpr (.inr ⟨by decide, ⟨?_, ?_⟩, ?_⟩)
    · decide +kernel
    · intro hsep
      cases hsep
    · intro _ kv hkv
      obtain rfl := Option.some.inj hkv
      rfl
  · refine (append_ends_iff.2 _ _ _ RedisChain.startedRun_runs "b" "2" _
      ⟨_, List.Mem.tail _ (List.Mem.head _), .inr (.inl ⟨_, rfl, rfl⟩)⟩).mpr
      ⟨by decide, by decide, ?_, ?_⟩
    · decide +kernel
    · decide +kernel

/--
The first item once more, which is on the chain: no number of turns is enough, over etcd from
the last item on and over Redis from the head on.
-/
theorem append_first_forever :
    (EtcdChain.Held EtcdChain.startedRun.returned EtcdChain.secondItem ∧
      ¬ Prog.LoopEnds (EtcdChain.State.stepAlone EtcdChain.inlineConfig fun _ _ => false)
        (EtcdChain.Script.appendTurn .typeScript EtcdChain.inlineConfig {} EtcdChain.Codecs.unit
          "a" ()) EtcdChain.secondItem (EtcdChain.startedRun.st.1, 0)
        (fun _ _ => True) fun _ _ => True) ∧
    RedisChain.Held RedisChain.startedRun.returned RedisChain.emptyHead ∧
      ¬ Prog.LoopEnds RedisChain.step (RedisChain.Script.appendTurn {} .text "a" "1")
        RedisChain.emptyHead RedisChain.startedRun.st.1 (fun _ _ => True) fun _ _ => True := by
  refine ⟨⟨?_, ?_⟩, ?_, ?_⟩
  · exact ⟨_, List.Mem.head _, .inr ⟨_, rfl, rfl⟩⟩
  · refine Prog.not_loopEnds (P := fun c s => c = EtcdChain.secondItem ∧
      s.1 = EtcdChain.startedRun.st.1) ?_ ⟨rfl, rfl⟩
    rintro c ⟨s, n⟩ ⟨rfl, rfl⟩
    exact ⟨EtcdChain.secondItem, (EtcdChain.startedRun.st.1, n + 2), rfl, rfl, rfl⟩
  · exact ⟨_, List.Mem.tail _ (List.Mem.head _), .inr (.inl ⟨_, rfl, rfl⟩)⟩
  · refine Prog.not_loopEnds (P := fun c s => (c = RedisChain.emptyHead ∨
      c = ⟨"a", some "1", ""⟩) ∧ s = RedisChain.startedRun.st.1) ?_ ⟨.inl rfl, rfl⟩
    rintro c s ⟨rfl | rfl, rfl⟩
    · exact ⟨⟨"a", some "1", ""⟩, _, rfl, .inr rfl, rfl⟩
    · exact ⟨⟨"a", some "1", ""⟩, _, rfl, .inr rfl, rfl⟩

end SharedChains
