import TMTransport.Library.Pointers
import TMTransport.RedisChain.Runs

/-!
# The C++ chain as an append-only list

What the C++ clients build together is one list. Each append that returned true has
its items on it, right after the item that was the last; each other one changed
nothing, the batch included that is too long for its script.

This needs two things of the appends. Their items must have ids, and no two records
of a batch may have the same key: the script of a batch looks for its keys in the
store as it was before. And a single append is only right about keys and ids
without a NUL, as it gives them to redis as C strings.
-/

namespace RedisChain

open Interleave Redis LinkedStore Pointers

variable {T : Type}

/-- The calls of C++ clients, on any item; appends of at least one. -/
def CppCalls : Req T → Prop
  | .head => True
  | .fetchNext _ => True
  | .appendAfter _ _ _ => True
  | .appendAfterBatch _ l => l ≠ []
  | _ => False

/-- The steps in which appends that go through have ids and keys that differ and are whole. -/
def wellAppends (cfg : Config) : Guard Op Store (Ghost T) (Req T) where
  op := fun c o st => AppendsWell cfg c o st ∧ HeadWell cfg c
  env := fun _ _ => True

/-- Where the link under an id leads. -/
def follow (cfg : Config) (s : Store) (id : String) : Option String :=
  (s (cfg.chainKey id)).filter (· ≠ "")

/-- The store holds the list of what has been appended, and each append knows what it did. -/
structure RefinesList (cfg : Config) (cd : DataCodec T)
    (w : World Op Op.Res Store (Ghost T) (Req T) String (Reply T)) : Prop where
  /-- From the head the links lead to the items, in order, and end. -/
  linked : Spine (follow cfg w.st.1) cfg.headKey ((appended w.st.2.log).map Prod.fst)
  /-- No item is there twice. -/
  once : (ids cfg w.st.2.log).Nodup
  /-- Each item has its own data. -/
  data : ∀ x ∈ appended w.st.2.log, w.st.1 (cfg.dataKey x.1) = some (cd.serialize x.2)
  /-- Each append went right behind the last item of the list before it. -/
  linear : ∀ pre e post, w.st.2.log = pre ++ e :: post → (ids cfg pre).getLast? = some e.tail
  /-- The appends that returned true are those that are on the list, each once. -/
  returned : ∀ n c r cur items, (n, c, r) ∈ w.returned → c.kind = .append cur items →
    ((∃ it, r = .ok (.appended true it)) ↔ ⟨n, cur.id, items⟩ ∈ w.st.2.log)
  calls : (w.st.2.log.map Commit.call).Nodup
  /-- The others have changed nothing. -/
  untouched : ∀ n c r cur items, (n, c, r) ∈ w.returned → c.kind = .append cur items →
    (∀ it, r ≠ .ok (.appended true it)) → ¬ w.st.2.touched n

/-- The setting of the C++ clients, which may hand over any item. -/
abbrev cppSetting (cfg : Config) (cd : DataCodec T) : Setting T :=
  ⟨cfg, cd, CppCalls, fun _ c => CppCalls c, False, wellAppends cfg⟩

theorem cppCalls_guarded (cfg : Config) (cd : DataCodec T) : (cppSetting cfg cd).Guarded where
  calls _ _ hc := hc
  held hf := hf.elim
  nonempty c cur items hc hk := by
    cases c with
    | appendAfter cur id d =>
        cases hk
        exact List.cons_ne_nil _ _
    | appendAfterBatch cur l =>
        cases hk
        exact hc
    | head => cases hk
    | fetchNext => cases hk
    | _ => exact hc.elim
  loops _ _ _ _ _ hc := hc.elim
  appends _ _ _ hg := hg.1
  heads _ _ _ hg := hg.2
  next hf := hf.elim

/-- The links of a list that is held, from any of its items on. -/
theorem spine_of_links {cfg : Config} {s : Store} {a : String × T} {l : List (String × T)}
    (hnamed : ∀ b ∈ l, b.1 ≠ "")
    (hlinks : ∀ pre x post, a :: l = pre ++ x :: post →
      s (cfg.chainKey x.1) = some ((post.head?.map Prod.fst).getD "")) :
    Spine (follow cfg s) a.1 (l.map Prod.fst) := by
  induction l generalizing a with
  | nil =>
      show (s (cfg.chainKey a.1)).filter _ = none
      rw [hlinks [] a [] rfl]
      rfl
  | cons b l ih =>
      refine ⟨?_, ih (fun x hx => hnamed x (List.mem_cons_of_mem _ hx)) fun pre x post hsplit => ?_⟩
      · rw [follow, hlinks [] a (b :: l) rfl]
        simp [hnamed b List.mem_cons_self]
      · exact hlinks (a :: pre) x post (congrArg (List.cons a) hsplit)

theorem returned_of_ended {n : Nat} {cur : ChainItem T} {items : List (String × T)}
    {r : Except String (Reply T)} {st : Store × Ghost T} (h : AppendEnded n cur items r st) :
    ((∃ it, r = .ok (.appended true it)) ↔ ⟨n, cur.id, items⟩ ∈ st.2.log) ∧
      ((∀ it, r ≠ .ok (.appended true it)) → ¬ st.2.touched n) := by
  have hidle : Idle n st → ⟨n, cur.id, items⟩ ∉ st.2.log := fun hi hmem => hi.log _ hmem rfl
  cases r with
  | error e =>
      refine ⟨⟨fun ⟨it, hit⟩ => (by cases hit), fun hmem => absurd hmem (hidle h)⟩, fun _ => ?_⟩
      exact Idle.touched h
  | ok rep =>
      cases rep with
      | item it => exact h.elim
      | next it => exact h.elim
      | appended ok it =>
          cases ok with
          | true => exact ⟨⟨fun _ => h, fun _ => ⟨it, rfl⟩⟩, fun hne => absurd rfl (hne it)⟩
          | false =>
              refine ⟨⟨fun ⟨_, hit'⟩ => (by cases hit'),
                fun hmem => absurd hmem (hidle h)⟩, fun _ => ?_⟩
              exact Idle.touched h

variable [Inhabited T]

theorem ListInv.linked {cfg : Config} {cd : DataCodec T} {s : Store} {log : List (Commit T)}
    (h : ListInv cfg cd s log) :
    Spine (follow cfg s) cfg.headKey ((appended log).map Prod.fst) := by
  rcases h.chain with ⟨hnone, rfl⟩ | hh
  · show (s (cfg.chainKey cfg.headKey)).filter _ = none
    rw [hnone]
    rfl
  · refine spine_of_links (a := headEntry cfg) hh.named fun pre x post hsplit => ?_
    rw [show cfg.chainKey x.1 = (layout cfg cd).linkKey x.1 from rfl, hh.link hsplit]
    cases post <;> rfl

theorem refinesList_of_settled {Γ : Setting T}
    {w : World Op Op.Res Store (Ghost T) (Req T) String (Reply T)}
    (hs : Settled (system Γ.cfg Γ.cd Γ.may) Γ.guard (contract Γ.cfg Γ.cd)
      (fun n st => Idle n st ∧ st.2.first n = none) Γ.Ready Γ.Answered w) :
    RefinesList Γ.cfg Γ.cd w := by
  have hi : ListInv Γ.cfg Γ.cd w.st.1 w.st.2.log := hs.inv
  refine ⟨hi.linked, hi.ids_nodup, fun x hx => (hi.data_of_appended hx).1, hi.tails, ?_, hi.calls,
    ?_⟩
  · intro n c r cur items he hk
    exact (returned_of_ended ((hs.post _ he).append cur items hk)).1
  · intro n c r cur items he hk
    exact (returned_of_ended ((hs.post _ he).append cur items hk)).2

/--
**The C++ chain is an append-only list** in every run whose appends have ids and keys that differ
and are whole, of batches of any length.
-/
theorem refinesList_of_wellAppends (cfg : Config) (cd : DataCodec T)
    {w : World Op Op.Res Store (Ghost T) (Req T) String (Reply T)}
    (hr : Runs cfg cd (fun _ c => CppCalls c) (wellAppends cfg) w) : RefinesList cfg cd w :=
  refinesList_of_settled (settled (cppCalls_guarded cfg cd) hr)

/-! ## Two runs -/

/-- The head of the chain with the default configuration, when it has just been made. -/
def emptyHead : ChainItem String := ⟨"", some "", ""⟩

/-- The calls `cs`, one after the other. -/
abbrev oneByOne (may : History String → Req String → Prop) (cs : List (Req String)) :
    World Op Op.Res Store (Ghost String) (Req String) String (Reply String) :=
  (World.mk (fun _ => none, {}) 0 (fun _ => none) []).solos (system {} .text may) cs

theorem refinesList_batch :
    ∃ w, Runs {} .text (fun _ c => CppCalls c) (wellAppends {}) w ∧
      (1, .appendAfterBatch emptyHead [("a", "1"), ("b", "2")], .ok (.appended true none)) ∈
        w.returned ∧ RefinesList {} .text w := by
  have hr : Runs {} .text (fun _ c => CppCalls c) (wellAppends {})
      (oneByOne (fun _ c => CppCalls c)
        [.head, .appendAfterBatch emptyHead [("a", "1"), ("b", "2")]]) := by
    refine reachable_solos .init ⟨trivial, ⟨⟨?_, fun _ _ => ?_⟩, trivial⟩,
      List.cons_ne_nil _ _, ⟨⟨?_, fun hk => by cases hk⟩, trivial⟩, trivial⟩
    · intro script k ks argv cur items _ hk
      cases hk
    · exact cStr_of_noNul (by decide)
    · intro script k ks argv cur items _ hk _
      cases hk
      refine ⟨⟨by decide, by decide⟩, fun htext => ?_⟩
      cases htext
  exact ⟨_, hr, List.Mem.head _, refinesList_of_wellAppends _ _ hr⟩

/-- A batch with the same id twice goes through and returns true, but the first of the two is
lost. -/
theorem not_refinesList_duplicate :
    ∃ w, Runs {} .text (fun _ c => CppCalls c) Guard.any w ∧
      (1, .appendAfterBatch emptyHead [("a", "1"), ("a", "2")], .ok (.appended true none)) ∈
        w.returned ∧
      w.st.1 "shared_chain_test_data:a" = some "d2" ∧ ¬ RefinesList {} .text w := by
  have hr : Runs {} .text (fun _ c => CppCalls c) Guard.any
      (oneByOne (fun _ c => CppCalls c)
        [.head, .appendAfterBatch emptyHead [("a", "1"), ("a", "2")]]) :=
    reachable_solos .init ⟨trivial, Prog.Along.of_forall _ (fun _ _ => trivial) _ _,
      List.cons_ne_nil _ _, Prog.Along.of_forall _ (fun _ _ => trivial) _ _, trivial⟩
  refine ⟨_, hr, List.Mem.head _, by decide +kernel, fun h => ?_⟩
  exact absurd h.once (by decide +kernel)

end RedisChain
