import TMTransport.Library.Linked
import TMTransport.RedisChain.Scripts
import TMTransport.RedisChain.System

/-!
# What redis holds

`ListInv` says that redis holds exactly the list that the appends add up to. As every
link is the id that follows and no data is the empty string, the empty string stands
under the key of the last item only. So a script that finds it there appends to the
list, whatever item its caller took for the last one.
-/

namespace RedisChain

open Interleave Redis LinkedStore

variable {T : Type} (cfg : Config) (cd : DataCodec T)

/-- The records of the chain. -/
def layout : Layout String String String T where
  nil := ""
  linkKey := cfg.chainKey
  linkVal := fun _ next => next
  extra := fun id d => [(cfg.dataKey id, cd.serialize d)]

@[simp] theorem layout_nil : (layout cfg cd).nil = "" := rfl

@[simp] theorem layout_linkKey (id : String) : (layout cfg cd).linkKey id = cfg.chainKey id := rfl

@[simp] theorem layout_linkVal (d : T) (next : String) : (layout cfg cd).linkVal d next = next :=
  rfl

variable {cfg} in
theorem chainKey_inj {id id' : String} (h : cfg.chainKey id = cfg.chainKey id') : id = id' :=
  (String.append_right_inj _).mp h

theorem appended_append (log log' : List (Commit T)) :
    appended (log ++ log') = appended log ++ appended log' := by
  simp [appended]

theorem ids_append (log log' : List (Commit T)) :
    ids cfg (log ++ log') = ids cfg log ++ (appended log').map Prod.fst := by
  simp [ids, appended_append]

variable [Inhabited T]

/-- The head, which has no data of its own. -/
def headEntry : String × T := (cfg.headKey, default)

structure ListInv (s : Store) (log : List (Commit T)) : Prop where
  /-- Either nobody has made the head yet, or the list hangs after it. -/
  chain : ((∀ k, s k = none) ∧ log = []) ∨
    Holds (layout cfg cd) s (headEntry cfg) (appended log)
  /-- There are no other keys. -/
  only : ∀ k, s k ≠ none →
    k ∈ ((layout cfg cd).records (headEntry cfg) (appended log)).map Prod.fst
  /-- Each append put its items right after its tail. -/
  tails : ∀ pre e post, log = pre ++ e :: post → (ids cfg pre).getLast? = some e.tail
  nonempty : ∀ e ∈ log, e.items ≠ []
  calls : (log.map Commit.call).Nodup

variable {cfg cd} {s : Store} {log : List (Commit T)}

theorem listInv_init : ListInv cfg cd (fun _ => none) ([] : List (Commit T)) where
  chain := .inl ⟨fun _ => rfl, rfl⟩
  only k hk := absurd rfl hk
  tails pre e post hsplit := by simp at hsplit
  nonempty e he := by cases he
  calls := .nil

namespace ListInv

theorem ids_nodup (h : ListInv cfg cd s log) : (ids cfg log).Nodup := by
  rcases h.chain with ⟨-, rfl⟩ | hh
  · simp [ids, appended]
  · exact hh.ids_nodup

/-- A key that is there: the list is there. -/
theorem holds_of_ne_none (h : ListInv cfg cd s log) {k : String} (hk : s k ≠ none) :
    Holds (layout cfg cd) s (headEntry cfg) (appended log) := by
  rcases h.chain with ⟨hnone, -⟩ | hh
  · exact absurd (hnone k) hk
  · exact hh

/-- The last id of the chain. -/
theorem last_split (cfg : Config) (log : List (Commit T)) :
    ∃ pre, ids cfg log = pre ++ [(lastOf (headEntry cfg) (appended log)).1] := by
  obtain ⟨pre, hpre⟩ := lastOf_split (headEntry cfg) (appended log)
  exact ⟨pre.map Prod.fst, by simpa [ids, headEntry] using congrArg (List.map Prod.fst) hpre⟩

/-- The empty string is the link of the last item. -/
theorem eq_last_of_empty (h : ListInv cfg cd s log) {k : String} (hk : s k = some "") :
    k = cfg.chainKey (lastOf (headEntry cfg) (appended log)).1 := by
  have hne : s k ≠ none := by simp [hk]
  have hh := h.holds_of_ne_none hne
  obtain ⟨r, hr, rfl⟩ := List.mem_map.mp (h.only k hne)
  have hval : r.2 = "" := Option.some.inj ((hh.stored r hr).symm.trans hk)
  rcases List.mem_append.mp hr with hlink | hextra
  · have hlink' : r.1 ∈ ((layout cfg cd).linksTo (headEntry cfg) (appended log) "").map Prod.fst :=
      List.mem_map_of_mem hlink
    rw [linksTo_keys] at hlink'
    obtain ⟨x, hx, hxk⟩ := List.mem_map.mp hlink'
    obtain ⟨pre, post, hs⟩ := List.append_of_mem hx
    have hfront : (layout cfg cd).frontId post = "" := by
      have := (hh.link hs).symm.trans ((congrArg s hxk).trans hk)
      exact Option.some.inj this
    rw [← hxk, hh.last_of_nil hs hfront]
    rfl
  · obtain ⟨x, -, hx⟩ := List.mem_flatMap.mp hextra
    rw [List.mem_singleton.mp hx] at hval
    exact absurd hval (cd.serialize_ne x.2)

end ListInv

/-! ## An append -/

/-- The keys of the new items, in the order in which the scripts look at them. -/
def newKeys (cfg : Config) (items : List (String × T)) : List String :=
  items.flatMap fun x => [cfg.dataKey x.1, cfg.chainKey x.1]

/-- What the scripts put for them. -/
def newPairs (cfg : Config) (cd : DataCodec T) (items : List (String × T)) :
    List (String × String) :=
  (formChainItems items).flatMap fun x =>
    [(cfg.dataKey x.id, cd.serialize (x.data.getD default)), (cfg.chainKey x.id, x.nextID)]

/-- The items have ids, and no two of their records have the same key. -/
structure Fresh (cfg : Config) (items : List (String × T)) : Prop where
  named : ∀ x ∈ items, x.1 ≠ ""
  distinct : (newKeys cfg items).Nodup

theorem newPairs_perm (b : String × T) (m : List (String × T)) :
    (newPairs cfg cd (b :: m)).Perm ((layout cfg cd).batch b m) := by
  induction m generalizing b with
  | nil =>
      refine List.Perm.trans ?_ (List.Perm.swap _ _ _)
      exact List.Perm.refl _
  | cons x m ih =>
      have hpairs : newPairs cfg cd (b :: x :: m) =
          (cfg.dataKey b.1, cd.serialize b.2) :: (cfg.chainKey b.1, x.1) ::
            newPairs cfg cd (x :: m) := rfl
      have hbatch : (layout cfg cd).batch b (x :: m) =
          (cfg.chainKey b.1, x.1) :: ((layout cfg cd).linksTo x m "" ++
            ((cfg.dataKey b.1, cd.serialize b.2) :: (layout cfg cd).extras (x :: m))) := rfl
      rw [hpairs, hbatch]
      refine (List.Perm.swap _ _ _).trans (List.Perm.cons _ ?_)
      refine (List.Perm.cons _ (ih x)).trans ?_
      exact List.perm_middle.symm

theorem newPairs_keys (cd : DataCodec T) (items : List (String × T)) :
    (newPairs cfg cd items).map Prod.fst = newKeys cfg items := by
  induction items with
  | nil => rfl
  | cons b m ih =>
      cases m with
      | nil => rfl
      | cons x m =>
          have hpairs : newPairs cfg cd (b :: x :: m) =
              (cfg.dataKey b.1, cd.serialize b.2) :: (cfg.chainKey b.1, x.1) ::
                newPairs cfg cd (x :: m) := rfl
          rw [hpairs, List.map_cons, List.map_cons, ih]
          rfl

/-- **A script that finds its keys free appends**, whatever the caller took for the last item. -/
theorem ListInv.append (h : ListInv cfg cd s log) {n : Nat} {tail : String} {b : String × T}
    {m : List (String × T)} (hn : ∀ e ∈ log, e.call ≠ n) (hfresh : Fresh cfg (b :: m))
    (hfree : Free s (cfg.chainKey tail) (newKeys cfg (b :: m))) :
    ListInv cfg cd (putAll ((cfg.chainKey tail, b.1) :: newPairs cfg cd (b :: m)) s)
      (log ++ [⟨n, tail, b :: m⟩]) := by
  obtain ⟨hempty, hnew⟩ := hfree
  have hh := h.holds_of_ne_none (k := cfg.chainKey tail) (by simp [hempty])
  have hkey := h.eq_last_of_empty hempty
  have hlast : tail = (lastOf (headEntry cfg) (appended log)).1 := chainKey_inj hkey
  have hperm : (newPairs cfg cd (b :: m)).Perm ((layout cfg cd).batch b m) := newPairs_perm b m
  have hkeys : ∀ r, r ∈ (layout cfg cd).batch b m → r.1 ∈ newKeys cfg (b :: m) := by
    intro r hr
    rw [← newPairs_keys cd]
    exact List.mem_map_of_mem (hperm.mem_iff.mpr hr)
  have htail : cfg.chainKey tail ∉ newKeys cfg (b :: m) := by
    intro hmem
    have := hnew _ hmem
    rw [hempty] at this
    cases this
  have hnodup : (((cfg.chainKey tail, b.1) :: newPairs cfg cd (b :: m)).map Prod.fst).Nodup := by
    rw [List.map_cons, newPairs_keys]
    exact List.nodup_cons.mpr ⟨htail, hfresh.distinct⟩
  have hput : ∀ r ∈ (cfg.chainKey tail, b.1) :: newPairs cfg cd (b :: m),
      putAll ((cfg.chainKey tail, b.1) :: newPairs cfg cd (b :: m)) s r.1 = some r.2 :=
    fun r hr => putAll_of_mem hnodup hr
  have hrest : ∀ k, k ≠ cfg.chainKey tail → k ∉ newKeys cfg (b :: m) →
      putAll ((cfg.chainKey tail, b.1) :: newPairs cfg cd (b :: m)) s k = s k := by
    intro k hk hk'
    refine putAll_of_notMem ?_
    rw [List.map_cons, newPairs_keys, List.mem_cons, not_or]
    exact ⟨hk, hk'⟩
  have happended : appended (log ++ [⟨n, tail, b :: m⟩]) = appended log ++ b :: m := by
    rw [appended_append]
    simp [appended]
  have hnamed : ∀ x ∈ b :: m, x.1 ≠ (layout cfg cd).nil := hfresh.named
  have hholds : Holds (layout cfg cd)
      (putAll ((cfg.chainKey tail, b.1) :: newPairs cfg cd (b :: m)) s) (headEntry cfg)
      (appended log ++ b :: m) := by
    refine hh.append hnamed ?_ ?_ ?_ ?_ ?_
    · have := (hperm.map Prod.fst).nodup_iff
      rw [newPairs_keys] at this
      exact this.mp hfresh.distinct
    · exact fun r hr => hnew _ (hkeys r hr)
    · rw [← hlast]
      exact hput _ List.mem_cons_self
    · exact fun r hr => hput r (List.mem_cons_of_mem _ (hperm.mem_iff.mpr hr))
    · intro k hk hne
      refine hrest k (by rw [hlast]; exact hne) fun hmem => hk (hnew k hmem)
  refine ⟨.inr (by rw [happended]; exact hholds), ?_, ?_, ?_, ?_⟩
  · intro k hk
    rw [happended]
    by_cases hold : k = cfg.chainKey tail ∨ k ∉ newKeys cfg (b :: m)
    · have hsk : s k ≠ none := by
        rcases hold with rfl | hold
        · rw [hempty]
          exact Option.some_ne_none _
        · by_cases heq : k = cfg.chainKey tail
          · rw [heq, hempty]
            exact Option.some_ne_none _
          · rwa [hrest k heq hold] at hk
      have hmem := h.only k hsk
      rw [records_keys] at hmem ⊢
      simp only [Layout.extras_append, List.map_append, List.mem_append, List.cons_append,
        List.map_cons, List.mem_cons] at hmem ⊢
      tauto
    · obtain ⟨-, hmem⟩ := not_or.mp hold
      rw [not_not, newKeys] at hmem
      obtain ⟨x, hx, hkx⟩ := List.mem_flatMap.mp hmem
      rw [records_keys, List.mem_append]
      rcases List.mem_cons.mp hkx with rfl | hkx
      · refine .inr (List.mem_map.mpr ⟨(cfg.dataKey x.1, cd.serialize x.2), ?_, rfl⟩)
        exact List.mem_flatMap.mpr ⟨x, List.mem_append_right _ hx, List.mem_singleton.mpr rfl⟩
      · rw [List.mem_singleton.mp hkx]
        refine .inl (List.mem_map.mpr ⟨x, ?_, rfl⟩)
        exact List.mem_cons_of_mem _ (List.mem_append_right _ hx)
  · intro pre e post hsplit
    rcases List.eq_nil_or_concat post with rfl | ⟨post, e', rfl⟩
    · obtain ⟨rfl, heq⟩ := List.append_inj' hsplit rfl
      obtain rfl := (List.cons.inj heq).1
      obtain ⟨pre, hpre⟩ := ListInv.last_split cfg log
      rw [hpre, List.getLast?_append, hlast]
      rfl
    · have hsplit' : log ++ [⟨n, tail, b :: m⟩] = (pre ++ e :: post) ++ [e'] := by
        simpa using hsplit
      exact h.tails pre e post (List.append_inj' hsplit' rfl).1
  · intro e he
    rcases List.mem_append.mp he with hold | hnew'
    · exact h.nonempty e hold
    · rw [List.mem_singleton.mp hnew']
      exact List.cons_ne_nil _ _
  · rw [List.map_append, List.nodup_append]
    refine ⟨h.calls, List.nodup_singleton _, ?_⟩
    intro k hk k' hk' heq
    obtain ⟨e, he, rfl⟩ := List.mem_map.mp hk
    exact hn e he (heq.trans (List.mem_singleton.mp hk'))

/-- The head is made where there is none. -/
theorem ListInv.head (h : ListInv cfg cd s log) (hnone : s cfg.headKeyStr = none) :
    ListInv cfg cd (Function.update s cfg.headKeyStr (some "")) log := by
  rcases h.chain with ⟨hno, rfl⟩ | hh
  · refine ⟨.inr (Holds.empty (Function.update_self _ _ _)), ?_, ?_, ?_, .nil⟩
    · intro k hk
      by_cases heq : k = cfg.headKeyStr
      · rw [heq]
        exact List.mem_map.mpr ⟨(cfg.headKeyStr, ""), List.mem_cons_self, rfl⟩
      · rw [Function.update_of_ne heq] at hk
        exact absurd (hno k) hk
    · intro pre e post hsplit
      simp at hsplit
    · intro e he
      cases he
  · have hthere : s cfg.headKeyStr ≠ none :=
      hh.linkKey_bound (x := headEntry cfg) List.mem_cons_self
    exact absurd hnone hthere

end RedisChain
