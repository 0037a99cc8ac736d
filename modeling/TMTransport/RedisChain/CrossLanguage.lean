import TMTransport.RedisChain.AppendList

/-!
# One list for all languages

C++, C#, TypeScript and Python clients of one chain, each appending one item at a
time, build one list, and whoever walks from the head sees a prefix of it.

They need not agree about every key, though. The C++ client gives redis its keys,
and the id that it appends, as C strings. The others give theirs with their
lengths, and so does the batch append of the C++ client itself. An id with a NUL is
therefore one item for the others and another one for C++.
-/

namespace RedisChain

open Interleave Redis LinkedStore

variable {T : Type}

/-- Calls of all clients; the appends are of one item, and it has an id. -/
def SingleCalls (c : Req T) : Prop :=
  ∀ cur items, c.kind = .append cur items → ∃ x, items = [x] ∧ x.1 ≠ ""

/-- Clients hand over items that they have. -/
def heldCalls (h : History T) (c : Req T) : Prop :=
  SingleCalls c ∧ ∀ cur, c.current = some cur → Held h cur

/--
The steps in which redis is given the keys that are meant: those of the head, those
that a read looks at, and those of an append that goes through, which differ.
-/
def wholeKeys (cfg : Config) : Guard Op Store (Ghost T) (Req T) where
  op := fun c o st => AppendsWell cfg c o st ∧ HeadWell cfg c ∧ ReadsWell cfg c st
  env := fun _ _ => True

/-- Some client has walked from the head over `its` and has come to `it`. -/
inductive Walked (h : History T) : ChainItem T → List (ChainItem T) → Prop
  | head {n : Nat} {c : Req T} {it : ChainItem T} (he : (n, c, .ok (.item (some it))) ∈ h)
      (hk : c.kind = .head) : Walked h it []
  | next {cur it : ChainItem T} {its : List (ChainItem T)} {n : Nat} {c : Req T}
      (hw : Walked h cur its) (he : (n, c, .ok (.next (some it))) ∈ h) (hk : c.kind = .next cur) :
      Walked h it (its ++ [it])

/-- What the clients have built is one list, and each of them reads it. -/
structure OneList (cfg : Config) (cd : DataCodec T)
    (w : World Op Op.Res Store (Ghost T) (Req T) String (Reply T)) : Prop
    extends RefinesList cfg cd w where
  /-- Whoever asked for the head got it. -/
  heads : ∀ n c r, (n, c, r) ∈ w.returned → c.kind = .head →
    ∃ it, r = .ok (.item (some it)) ∧ it.id = cfg.headKey
  /-- Whoever asked for the next item got it, or asked at the end of the list. -/
  nexts : ∀ n c r cur, (n, c, r) ∈ w.returned → c.kind = .next cur →
    ∃ o, r = .ok (.next o) ∧ (o = none → BeganAtEnd cfg n cur.id w.st) ∧
      ∀ it, o = some it → [cur.id, it.id] <:+: ids cfg w.st.2.log
  /-- Whoever walked from the head has seen a prefix of the list. -/
  walks : ∀ it its, Walked w.returned it its →
    its.map (fun it => (it.id, it.data)) <+:
      (appended w.st.2.log).map fun x => (x.1, some x.2)

section Guards

variable {cfg : Config} {c : Req T} {o : Op} {st : Store × Ghost T}

theorem wholeKeys_of_head (hk : c.kind = .head) (hw : cStr cfg.headKeyStr = cfg.headKeyStr) :
    (wholeKeys cfg).op c o st := by
  refine ⟨?_, fun _ _ => hw, ?_⟩
  · intro script k ks argv cur items _ ha
    rw [Req.appends, hk] at ha
    cases ha
  · intro cur hk'
    cases hk.symm.trans hk'

theorem wholeKeys_of_next {cur : ChainItem T} (hk : c.kind = .next cur)
    (hw : ∀ id, id = cur.id ∨ [cur.id, id] <:+: ids cfg st.2.log → Whole cfg id) :
    (wholeKeys cfg).op c o st := by
  refine ⟨?_, fun hk' _ => (by cases hk.symm.trans hk'), ?_⟩
  · intro script k ks argv cur' items _ ha
    rw [Req.appends, hk] at ha
    cases ha
  · intro cur' hk' _
    cases hk.symm.trans hk'
    exact hw

theorem wholeKeys_of_append {cur : ChainItem T} {items : List (String × T)}
    (hk : c.kind = .append cur items) (hfresh : Fresh cfg items) (htext : c.textual = false) :
    (wholeKeys cfg).op c o st := by
  refine ⟨?_, fun hk' _ => (by cases hk.symm.trans hk'),
    fun cur' hk' htrue => absurd (htext.symm.trans htrue) (by decide)⟩
  intro script k ks argv cur' items' _ ha _
  cases (appends_of_append hk).symm.trans ha
  exact ⟨hfresh, fun htrue => absurd (htext.symm.trans htrue) (by decide)⟩

end Guards

theorem singleCalls_one {c : Req T} {cur : ChainItem T} {id : String} {d : T}
    (hk : c.kind = .append cur [(id, d)]) (hid : id ≠ "") : SingleCalls c := by
  intro cur' items hk'
  cases hk.symm.trans hk'
  exact ⟨_, rfl, hid⟩

theorem singleCalls_other {c : Req T} (hk : ∀ cur items, c.kind ≠ .append cur items) :
    SingleCalls c :=
  fun cur items hk' => absurd hk' (hk cur items)

/-- The setting of all clients. -/
abbrev heldSetting (cfg : Config) (cd : DataCodec T) : Setting T :=
  ⟨cfg, cd, SingleCalls, heldCalls, True, wholeKeys cfg⟩

theorem heldCalls_guarded (cfg : Config) (cd : DataCodec T) : (heldSetting cfg cd).Guarded where
  calls _ _ hc := hc.1
  held _ _ _ cur hc hcur := hc.2 cur hcur
  nonempty c cur items hc hk := by
    have hkind : c.kind = .append cur items := by
      unfold Req.appends at hk
      split at hk
      · next hkind => cases hk; exact hkind
      · cases hk
    obtain ⟨x, rfl, -⟩ := hc cur items hkind
    exact List.cons_ne_nil _ _
  loops _ cur _ id d hc cur' items hk := by
    cases hk
    exact hc cur _ rfl
  appends _ _ _ hg := hg.1
  heads _ _ _ hg := hg.2.1
  next _ _ _ _ hg := hg.2.2

/-- An item that follows another one has the data that was appended with it. -/
theorem Known.appended {cfg : Config} {cd : DataCodec T} [Inhabited T] {st : Store × Ghost T}
    {id : String} {it : ChainItem T} (hi : ListInv cfg cd st.1 st.2.log) (h : Known cfg it st)
    (hadj : [id, it.id] <:+: ids cfg st.2.log) :
    ∃ d, it.data = some d ∧ (it.id, d) ∈ appended st.2.log :=
  h.data (hi.appended_of_adjacent hadj).1

section Walk

variable [Inhabited T] {Γ : Setting T} {h : History T} {st : Store × Ghost T}

/-- A walk from the head goes over the ids of the list in order. -/
theorem ids_of_walked (hi : ListInv Γ.cfg Γ.cd st.1 st.2.log) (hreads : Γ.reads)
    (hp : ∀ e ∈ h, Γ.Answered e.1 e.2.1 e.2.2 st) {it : ChainItem T} {its : List (ChainItem T)}
    (hw : Walked h it its) :
    (∃ pre, Γ.cfg.headKey :: its.map ChainItem.id = pre ++ [it.id]) ∧
      Γ.cfg.headKey :: its.map ChainItem.id <+: ids Γ.cfg st.2.log ∧
      ∀ x ∈ its, ∃ d, x.data = some d ∧ (x.id, d) ∈ appended st.2.log := by
  induction hw with
  | head he hk =>
      obtain ⟨it, hit, hid⟩ := (hp _ he).head hk
      cases hit
      refine ⟨⟨[], by rw [hid]; rfl⟩, ?_, fun x hx => by cases hx⟩
      exact ⟨(appended st.2.log).map Prod.fst, rfl⟩
  | @next cur it its n c hw he hk ih =>
      obtain ⟨⟨pre, hpre⟩, hids, hdata⟩ := ih
      obtain ⟨o, ho, hfollowed⟩ := (hp _ he).next hreads cur hk
      cases ho
      obtain ⟨hknown, hadj⟩ := hfollowed.item it rfl
      have hstep : Γ.cfg.headKey :: (its ++ [it]).map ChainItem.id = pre ++ [cur.id, it.id] := by
        rw [List.map_append, ← List.cons_append, hpre]
        simp
      refine ⟨⟨pre ++ [cur.id], by rw [hstep]; simp⟩, ?_, fun x hx => ?_⟩
      · rw [hstep]
        exact prefix_of_adjacent hi.ids_nodup (hpre ▸ hids) hadj
      · rcases List.mem_append.mp hx with hx | hx
        · exact hdata x hx
        · obtain rfl := List.mem_singleton.mp hx
          exact hknown.appended hi hadj

end Walk

/-- Items with ids of the list, and the data that was appended under them, are on the list. -/
theorem prefix_of_ids {l : List (String × T)} {its : List (ChainItem T)}
    (hnd : (l.map Prod.fst).Nodup) (hids : its.map ChainItem.id <+: l.map Prod.fst)
    (hdata : ∀ x ∈ its, ∃ d, x.data = some d ∧ (x.id, d) ∈ l) :
    its.map (fun it => (it.id, it.data)) <+: l.map fun x => (x.1, some x.2) := by
  induction its generalizing l with
  | nil => exact List.nil_prefix
  | cons it its ih =>
      cases l with
      | nil => simp at hids
      | cons x l =>
          obtain ⟨hid, hrest⟩ := List.cons_prefix_cons.mp hids
          obtain ⟨hx, hnd'⟩ := List.nodup_cons.mp hnd
          obtain ⟨d, hd, hmem⟩ := hdata it List.mem_cons_self
          have hxd : x = (it.id, d) := by
            rcases List.mem_cons.mp hmem with heq | hmem
            · exact heq.symm
            · exact absurd (List.mem_map_of_mem hmem) (hid ▸ hx)
          refine List.cons_prefix_cons.mpr ⟨?_, ih hnd' hrest fun y hy => ?_⟩
          · rw [hxd]
            exact congrArg (Prod.mk it.id) hd
          · obtain ⟨d', hd', hmem'⟩ := hdata y (List.mem_cons_of_mem _ hy)
            refine ⟨d', hd', (List.mem_cons.mp hmem').resolve_left fun heq => ?_⟩
            refine hx (hrest.subset ?_)
            rw [← heq]
            exact List.mem_map_of_mem hy

variable [Inhabited T]

/-- **One list for all languages**, in every run in which redis is given the keys that are meant. -/
theorem oneList_of_wholeKeys (cfg : Config) (cd : DataCodec T)
    {w : World Op Op.Res Store (Ghost T) (Req T) String (Reply T)}
    (hr : Runs cfg cd heldCalls (wholeKeys cfg) w) : OneList cfg cd w := by
  have hs := settled (heldCalls_guarded cfg cd) hr
  have hi : ListInv cfg cd w.st.1 w.st.2.log := hs.inv
  refine ⟨refinesList_of_settled hs, fun n c r he hk => (hs.post _ he).head hk, ?_, ?_⟩
  · intro n c r cur he hk
    obtain ⟨o, ho, hfollowed⟩ := (hs.post _ he).next trivial cur hk
    exact ⟨o, ho, fun hnone => hfollowed.last hnone trivial, fun it hit =>
      (hfollowed.item it hit).2⟩
  · intro it its hw
    obtain ⟨-, hids, hdata⟩ := ids_of_walked (Γ := heldSetting cfg cd) hi trivial hs.post hw
    obtain ⟨-, hrest⟩ := List.cons_prefix_cons.mp hids
    exact prefix_of_ids (List.nodup_cons.mp hi.ids_nodup).2 hrest hdata

/-! ## Two runs -/

/-- The names of a short chain are whole. -/
theorem whole_short {id : String} (h : id = "" ∨ ["", id] <:+: ["", "a"]) : Whole {} id := by
  have hmem : id ∈ ["", "a"] := by
    rcases h with rfl | h
    · exact List.mem_cons_self
    · exact h.subset (List.mem_cons_of_mem _ List.mem_cons_self)
  rcases List.mem_cons.mp hmem with rfl | hmem
  · exact ⟨by decide, by decide, by decide⟩
  · obtain rfl := List.mem_singleton.mp hmem
    exact ⟨by decide, by decide, by decide⟩

/-- What a C# client has appended to the head of a C++ client, the C++ client reads. -/
theorem oneList_append :
    ∃ w, Runs {} .text heldCalls (wholeKeys {}) w ∧
      (2, .fetchNext emptyHead, .ok (.next (some ⟨"a", some "1", ""⟩))) ∈ w.returned ∧
      OneList {} .text w := by
  have hheld : Held [(0, .head, .ok (.item (some emptyHead)))] emptyHead :=
    ⟨_, List.Mem.head _, .inr (.inl ⟨_, rfl, rfl⟩)⟩
  have hr : Runs {} .text heldCalls (wholeKeys {})
      (oneByOne heldCalls [.head, .dotNetAppendAfter emptyHead "a" "1", .fetchNext emptyHead]) := by
    refine reachable_solos .init ⟨⟨?_, ?_⟩, ⟨wholeKeys_of_head rfl (by decide), trivial⟩,
      ⟨singleCalls_one rfl (by decide), ?_⟩, ⟨wholeKeys_of_append rfl ?_ rfl, trivial⟩, ⟨?_, ?_⟩,
      ⟨wholeKeys_of_next rfl fun id => whole_short, wholeKeys_of_next rfl fun id => whole_short,
        wholeKeys_of_next rfl fun id => whole_short, trivial⟩, trivial⟩
    · exact singleCalls_other fun cur items hk => by cases hk
    · intro cur hcur
      cases hcur
    · intro cur hcur
      cases hcur
      exact hheld
    · exact ⟨by decide, by decide⟩
    · exact singleCalls_other fun cur items hk => by cases hk
    · intro cur hcur
      cases hcur
      exact ⟨_, List.Mem.head _, .inl rfl⟩
  exact ⟨_, hr, List.Mem.head _, oneList_of_wholeKeys _ _ hr⟩

/-- An item of a C# client whose id has a NUL, the C++ client does not find. -/
theorem not_oneList_nul :
    ∃ w, Runs {} .text heldCalls Guard.any w ∧
      (1, .dotNetAppendAfter emptyHead "a\x00b" "1", .ok (.appended true none)) ∈ w.returned ∧
      (2, .fetchNext emptyHead,
        .error "fetchNext: Redis chain fetch error for shared_chain_test_data:a\x00b") ∈
          w.returned ∧
      ¬ OneList {} .text w := by
  have hheld : Held [(0, .head, .ok (.item (some emptyHead)))] emptyHead :=
    ⟨_, List.Mem.head _, .inr (.inl ⟨_, rfl, rfl⟩)⟩
  have hr : Runs {} .text heldCalls Guard.any
      (oneByOne heldCalls
        [.head, .dotNetAppendAfter emptyHead "a\x00b" "1", .fetchNext emptyHead]) := by
    refine reachable_solos .init ⟨⟨?_, ?_⟩, Prog.Along.of_forall _ (fun _ _ => trivial) _ _,
      ⟨singleCalls_one rfl (by decide), ?_⟩, Prog.Along.of_forall _ (fun _ _ => trivial) _ _,
      ⟨?_, ?_⟩, Prog.Along.of_forall _ (fun _ _ => trivial) _ _, trivial⟩
    · exact singleCalls_other fun cur items hk => by cases hk
    · intro cur hcur
      cases hcur
    · intro cur hcur
      cases hcur
      exact hheld
    · exact singleCalls_other fun cur items hk => by cases hk
    · intro cur hcur
      cases hcur
      exact ⟨_, List.Mem.head _, .inl rfl⟩
  refine ⟨_, hr, List.Mem.tail _ (List.Mem.head _), List.Mem.head _, fun h => ?_⟩
  obtain ⟨o, ho, -⟩ := h.nexts 2 (.fetchNext emptyHead) _ emptyHead (List.Mem.head _) rfl
  cases ho

end RedisChain
