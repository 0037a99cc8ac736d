import Mathlib.Data.Fintype.EquivFin
import TMTransport.Library.Loop
import TMTransport.RedisChain.CrossLanguage

/-!
# `append` of TypeScript and Python

As over etcd, the loop starts over whenever `tryAppend` says no, also where the new id is
taken. Redis rejects nothing here: where the two new keys are the same the script puts the
link over the data, and says yes.
-/

namespace RedisChain

open Interleave Redis LinkedStore

variable {T : Type}

namespace Script

/-- A turn of the loop of `append`: to the next item, or to the end of a `tryAppend`, after
which it starts over unless that has appended the item. -/
def appendTurn [Inhabited T] (cfg : Config) (cd : DataCodec T) (newID : String) (newData : T)
    (current : ChainItem T) : Call (ChainItem T ⊕ ChainItem T) := do
  match ← tryAppend cfg cd current newID newData with
  | .inl item => return .inl item
  | .inr (true, item) => return .inr item
  | .inr (false, item) => return .inl item

/-- `append`, for a number of turns at most. It leaves the client at the item it returns. -/
def append [Inhabited T] (cfg : Config) (cd : DataCodec T) (fuel : Nat) (current : ChainItem T)
    (newID : String) (newData : T) : Call (Option (ChainItem T)) :=
  Prog.loop (appendTurn cfg cd newID newData) fuel current

end Script

/-- Calls of all clients, but for a batch append of nothing, on items that they have. -/
def anyHeldCalls (h : History T) (c : Req T) : Prop :=
  (∀ cur items, c.kind = .append cur items → items ≠ []) ∧
    ∀ cur, c.current = some cur → Held h cur

/-- The setting of these calls. -/
abbrev anyHeldSetting (cfg : Config) (cd : DataCodec T) : Setting T :=
  ⟨cfg, cd, fun c => ∀ cur items, c.kind = .append cur items → items ≠ [], anyHeldCalls, True,
    wholeKeys cfg⟩

theorem kind_of_appends {c : Req T} {cur : ChainItem T} {items : List (String × T)}
    (h : c.appends = some (cur, items)) : c.kind = .append cur items := by
  unfold Req.appends at h
  split at h
  · next hkind =>
    cases h
    exact hkind
  · cases h

theorem anyHeldCalls_guarded (cfg : Config) (cd : DataCodec T) :
    (anyHeldSetting cfg cd).Guarded where
  calls _ _ hc := hc.1
  held _ _ _ cur hc hcur := hc.2 cur hcur
  nonempty _ cur items hc hk := hc cur items (kind_of_appends hk)
  loops _ cur _ id d hc cur' items hk := by
    cases hk
    exact hc cur _ rfl
  appends _ _ _ hg := hg.1
  heads _ _ _ hg := hg.2.1
  next _ _ _ _ hg := hg.2.2

variable [Inhabited T] {cfg : Config} {cd : DataCodec T}

/-- The item has been appended to the list. -/
def Added (cfg : Config) (cd : DataCodec T) (log : List (Commit T)) (newID : String) (newData : T)
    (s : Store) : Prop :=
  Holds (layout cfg cd) s (headEntry cfg) (appended log ++ [(newID, newData)])

/-- The loop of `append` ends, with the item appended or with an exception that has changed
nothing. -/
def AppendEnds (cfg : Config) (cd : DataCodec T) (log : List (Commit T)) (newID : String)
    (newData : T) (cur : ChainItem T) (s : Store) : Prop :=
  Prog.LoopEnds step (Script.appendTurn cfg cd newID newData) cur s
    (fun _ s' => Added cfg cd log newID newData s') fun _ s' => s' = s

/-- What `append` needs of the store: an id, two keys for it, and neither of them taken. -/
structure Appendable (cfg : Config) (s : Store) (newID : String) : Prop where
  named : newID ≠ ""
  distinct : cfg.dataKey newID ≠ cfg.chainKey newID
  data : s (cfg.dataKey newID) = none
  link : s (cfg.chainKey newID) = none

section Alone

variable {st : Store × Ghost T} {cur : ChainItem T} {newID : String} {newData : T}

/-- A client that is left alone finds the next item, or that there is none. -/
theorem Script.next_alone (hi : ListInv cfg cd st.1 st.2.log) (hcur : Known cfg cur st) :
    (Script.next cfg cd cur).Ends step st.1
      (fun r s' => s' = st.1 ∧ (∀ it, r = some it → Known cfg it st ∧
          [cur.id, it.id] <:+: ids cfg st.2.log) ∧
        (r = none → (ids cfg st.2.log).getLast? = some cur.id)) fun _ _ => False := by
  refine Prog.ends_bind (R := fun next s' => s' = st.1 ∧
    (next = "" → (ids cfg st.2.log).getLast? = some cur.id) ∧
    (next ≠ "" → [cur.id, next] <:+: ids cfg st.2.log)) ?_ ?_
  · unfold Script.nextIDOf
    split
    · obtain ⟨next, hget, hlast, hadj⟩ := hi.link_of_known hcur
      refine Prog.ends_act ?_
      simp only [step, hget, Prog.ret_bind, Prog.pure_eq]
      exact ⟨rfl, hlast, hadj⟩
    · next hne => exact ⟨rfl, fun hnil => absurd hnil hne, hcur.next⟩
  · rintro next s' ⟨rfl, hlast, hadj⟩
    by_cases hn : next = ""
    · rw [if_pos hn]
      exact ⟨rfl, fun _ hit => (by cases hit), fun _ => hlast hn⟩
    · rw [if_neg hn]
      obtain ⟨-, d, hd⟩ := hi.appended_of_adjacent (hadj hn)
      have hknown := known_of_appended hi hd
      obtain ⟨next', hget, -, hadj'⟩ := hi.link_of_known hknown
      have hdata : st.1 (cfg.dataKey next) = some (cd.serialize d) := (hi.data_of_appended hd).1
      have hlink : st.1 (cfg.chainKey next) = some next' := hget
      refine Prog.ends_act ?_
      simp only [step, hdata, Prog.ret_bind]
      refine Prog.ends_act ?_
      simp only [step, hlink, Prog.ret_bind, cd.parse_serialize, Prog.pure_eq]
      refine ⟨rfl, fun it hit => ?_, fun hnil => by cases hnil⟩
      obtain rfl := Option.some.inj hit
      exact ⟨hknown.withNext hadj', hadj hn⟩

variable (newID newData)

/-- `append` goes round from `cur` to the item after it. -/
theorem Script.appendTurn_next (hi : ListInv cfg cd st.1 st.2.log) (hcur : Known cfg cur st)
    {next : String} (hadj : [cur.id, next] <:+: ids cfg st.2.log) :
    ∃ it, (Script.appendTurn cfg cd newID newData cur).run step st.1 = (.ok (.inl it), st.1) ∧
      Known cfg it st ∧ it.id = next := by
  obtain ⟨r, s', hrun, rfl, hsome, hnone⟩ := (Script.next_alone hi hcur).returns
  cases r with
  | none =>
      refine absurd ?_ (not_last_of_adjacent hi.ids_nodup hadj)
      exact List.getLast?_eq_some_iff.mp (hnone rfl)
  | some it =>
      obtain ⟨hknown, hadj'⟩ := hsome it rfl
      refine ⟨it, ?_, hknown, adjacent_unique hi.ids_nodup hadj' hadj⟩
      simp only [Script.appendTurn, Script.tryAppend, Prog.bind_eq, Prog.run_bind, hrun,
        Prog.pure_eq, Prog.run_ret]

/-- At the end of the list `append` puts the item, if its keys are free, and says so. -/
theorem Script.appendTurn_last (hi : ListInv cfg cd st.1 st.2.log) (hcur : Known cfg cur st)
    (hlast : ∃ pre, ids cfg st.2.log = pre ++ [cur.id]) :
    (Script.appendTurn cfg cd newID newData cur).run step st.1 =
      if Free st.1 (cfg.chainKey cur.id) [cfg.dataKey newID, cfg.chainKey newID] then
        (.ok (.inr ⟨newID, some newData, ""⟩), putAll [(cfg.chainKey cur.id, newID),
          (cfg.dataKey newID, cd.serialize newData), (cfg.chainKey newID, "")] st.1)
      else (.ok (.inl cur), st.1) := by
  obtain ⟨r, s', hrun, rfl, hsome, -⟩ := (Script.next_alone hi hcur).returns
  cases r with
  | some it => exact absurd hlast (not_last_of_adjacent hi.ids_nodup (hsome it rfl).2)
  | none =>
      simp only [Script.appendTurn, Script.tryAppend, Prog.bind_eq, Prog.run_bind, hrun]
      simp only [eval, Prog.run_act, step, eval_appendScript]
      by_cases hfree : Free st.1 (cfg.chainKey cur.id) [cfg.dataKey newID, cfg.chainKey newID]
      · simp [if_pos hfree]
      · simp [if_neg hfree]

variable {newID newData}

theorem added_of_free (hi : ListInv cfg cd st.1 st.2.log) (hname : newID ≠ "")
    (hne : cfg.dataKey newID ≠ cfg.chainKey newID)
    (hfree : Free st.1 (cfg.chainKey cur.id) [cfg.dataKey newID, cfg.chainKey newID]) :
    Added cfg cd st.2.log newID newData (putAll [(cfg.chainKey cur.id, newID),
      (cfg.dataKey newID, cd.serialize newData), (cfg.chainKey newID, "")] st.1) := by
  obtain ⟨n, hn⟩ := Infinite.exists_notMem_finset ((st.2.log.map Commit.call).toFinset)
  have hfresh : Fresh cfg [(newID, newData)] := by
    refine ⟨fun x hx => ?_, ?_⟩
    · obtain rfl := List.mem_singleton.mp hx
      exact hname
    · simpa [newKeys] using hne
  have hcalls : ∀ e ∈ st.2.log, e.call ≠ n := fun e he heq =>
    hn (List.mem_toFinset.mpr (heq ▸ List.mem_map_of_mem he))
  have happ := (hi.append hcalls hfresh hfree).chain
  rw [appended_append] at happ
  rcases happ with ⟨-, hnil⟩ | hh
  · exact absurd hnil (List.append_ne_nil_of_right_ne_nil _ (List.cons_ne_nil _ _))
  · simpa [Added, appended, newPairs, formChainItems, formChainItem] using hh

/-- An item without an id, or with one key for two records, is not on the list afterwards. -/
theorem not_added {s : Store} {c : String}
    (h : newID = "" ∨ cfg.dataKey newID = cfg.chainKey newID) (log : List (Commit T)) :
    ¬ Added cfg cd log newID newData (putAll [(c, newID),
      (cfg.dataKey newID, cd.serialize newData), (cfg.chainKey newID, "")] s) := by
  intro hadded
  have hmem : (newID, newData) ∈ appended log ++ [(newID, newData)] :=
    List.mem_append_right _ (List.mem_singleton_self _)
  rcases h with hnil | heq
  · exact hadded.named _ hmem hnil
  · have hdata := hadded.extra hmem (List.mem_singleton_self _)
    dsimp only at hdata
    rw [heq] at hdata
    simp [putAll, cd.serialize_ne] at hdata

theorem append_ends_last (hi : ListInv cfg cd st.1 st.2.log) (hcur : Known cfg cur st)
    (hlast : ∃ pre, ids cfg st.2.log = pre ++ [cur.id]) :
    AppendEnds cfg cd st.2.log newID newData cur st.1 ↔ Appendable cfg st.1 newID := by
  have hempty : st.1 (cfg.chainKey cur.id) = some "" := by
    obtain ⟨next, hget, -, hadj⟩ := hi.link_of_known hcur
    by_cases hn : next = ""
    · rw [hget, hn]
    · exact absurd hlast (not_last_of_adjacent hi.ids_nodup (hadj hn))
  have hfree : Free st.1 (cfg.chainKey cur.id) [cfg.dataKey newID, cfg.chainKey newID] ↔
      st.1 (cfg.dataKey newID) = none ∧ st.1 (cfg.chainKey newID) = none := by
    simp [Free, hempty]
  have hrun := Script.appendTurn_last newID newData hi hcur hlast
  by_cases hfr : Free st.1 (cfg.chainKey cur.id) [cfg.dataKey newID, cfg.chainKey newID]
  · rw [if_pos hfr] at hrun
    refine (Prog.loopEnds_done hrun).trans ⟨fun hadded => ?_, fun happ => ?_⟩
    · refine ⟨fun hnil => ?_, fun heq => ?_, (hfree.mp hfr).1, (hfree.mp hfr).2⟩
      · exact not_added (.inl hnil) _ hadded
      · exact not_added (.inr heq) _ hadded
    · exact added_of_free hi happ.named happ.distinct hfr
  · rw [if_neg hfr] at hrun
    refine iff_of_false (Prog.not_loopEnds (P := fun c s => c = cur ∧ s = st.1) ?_ ⟨rfl, rfl⟩)
      fun happ => hfr (hfree.mpr ⟨happ.data, happ.link⟩)
    -- the next turn is as this one
    rintro c s ⟨rfl, rfl⟩
    exact ⟨c, st.1, hrun, rfl, rfl⟩

/-- **The loop of `append`**, left alone: it ends just if the item can be appended. -/
theorem append_ends (hi : ListInv cfg cd st.1 st.2.log) (hcur : Known cfg cur st) :
    AppendEnds cfg cd st.2.log newID newData cur st.1 ↔ Appendable cfg st.1 newID := by
  obtain ⟨pre, post, hids⟩ := List.append_of_mem hcur.on
  induction post generalizing cur pre with
  | nil => exact append_ends_last hi hcur ⟨pre, hids⟩
  | cons y post ih =>
      have hadj : [cur.id, y] <:+: ids cfg st.2.log := ⟨pre, post, by rw [hids]; simp⟩
      obtain ⟨it, hrun, hknown, rfl⟩ := Script.appendTurn_next newID newData hi hcur hadj
      have hids' : ids cfg st.2.log = (pre ++ [cur.id]) ++ it.id :: post := by
        rw [hids, List.append_assoc]
        rfl
      exact (Prog.loopEnds_turn hrun).trans (ih hknown _ hids')

end Alone

/-- **`append` of TypeScript and Python, left alone** after any run whose steps are right, ends
just if the item can be appended. -/
theorem append_ends_of_runs
    {w : World Op Op.Res Store (Ghost T) (Req T) String (Reply T)}
    (hr : Runs cfg cd anyHeldCalls (wholeKeys cfg) w) (newID : String) (newData : T)
    {cur : ChainItem T} (hcur : Held w.returned cur) :
    AppendEnds cfg cd w.st.2.log newID newData cur w.st.1 ↔ Appendable cfg w.st.1 newID := by
  have hs := settled (anyHeldCalls_guarded cfg cd) hr
  have hi : ListInv cfg cd w.st.1 w.st.2.log := hs.inv
  exact append_ends hi (known_of_held trivial hi hs.post hcur)

end RedisChain
