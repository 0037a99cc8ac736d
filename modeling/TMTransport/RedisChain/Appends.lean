import TMTransport.RedisChain.Calls

/-!
# What the appends do

Each append either finds its keys free and puts its items at the end of the list,
or it changes nothing. The batch of the C++ client does so for any number of items
for which its script is compiled.
-/

namespace RedisChain

open Interleave Redis LinkedStore

variable {T : Type} {cfg : Config} {cd : DataCodec T} {n : Nat} {st : Store × Ghost T}
  {cur : ChainItem T}

/-- What an append of `items` after `cur` has done when it returns `ok`. -/
def AppendDone (n : Nat) (cur : ChainItem T) (items : List (String × T)) (ok : Bool)
    (st : Store × Ghost T) : Prop :=
  if ok = true then Appended n cur items st else Idle n st

theorem AppendDone.stable {items : List (String × T)} {ok : Bool} {st' : Store × Ghost T}
    (h : AppendDone n cur items ok st) (hm : Moves n st st') : AppendDone n cur items ok st' := by
  unfold AppendDone at h ⊢
  split
  · next hok =>
    rw [if_pos hok] at h
    exact h.later hm.later
  · next hok =>
    rw [if_neg hok] at h
    exact h.stable hm

theorem formChainItems_keys (items : List (String × T)) :
    ((formChainItems items).flatMap fun x => [cfg.dataKey x.id, cfg.chainKey x.id]) =
      newKeys cfg items := by
  induction items with
  | nil => rfl
  | cons x l ih =>
      cases l with
      | nil => rfl
      | cons y l =>
          rw [formChainItems, List.flatMap_cons, ih]
          rfl

theorem batchKeys_formChainItems (cur : ChainItem T) (items : List (String × T)) :
    batchKeys cfg cur (formChainItems items) = cfg.chainKey cur.id :: newKeys cfg items := by
  rw [batchKeys, formChainItems_keys]

theorem formChainItems_length (items : List (String × T)) :
    (formChainItems items).length = items.length := by
  induction items with
  | nil => rfl
  | cons x l ih =>
      cases l with
      | nil => rfl
      | cons y l =>
          rw [formChainItems, List.length_cons, ih]
          rfl

theorem formChainItems_last (x : String × T) (l : List (String × T)) :
    (((formChainItems (x :: l)).getLast?.map ChainItem.nextID).getD "") = "" := by
  induction l generalizing x with
  | nil => rfl
  | cons y l ih =>
      have hne : formChainItems (y :: l) ≠ [] := by
        intro heq
        have := formChainItems_length (y :: l)
        rw [heq] at this
        cases this
      rw [formChainItems, List.getLast?_cons_of_ne_nil hne]
      exact ih y

variable [Inhabited T]

section Appends

variable {Γ : Setting T} {c : Req T}

theorem appendDone_ret {items : List (String × T)} {ok : Bool} {E : String → Store × Ghost T → Prop}
    (h : AppendDone n cur items ok st) :
    Γ.Meets n c (AppendDone n cur items) E (.ret ok) st :=
  Safe.ret h fun _ _ hm _ h => h.stable hm

/-- C++ -/
theorem appendAfter_meets {id : String} {d : T} (hc : c.appends = some (cur, [(id, d)]))
    (htext : c.textual = true) (hidle : Idle n st)
    (hwell : ∀ o st', Γ.guard.op c o st' → AppendsWell Γ.cfg c o st') :
    Γ.Meets n c (AppendDone n cur [(id, d)]) (fun _ st' => Idle n st')
      (appendAfter Γ.cfg Γ.cd cur (formChainItem id d)) st := by
  unfold appendAfter
  split
  · exact appendDone_ret hidle
  · refine meets_append hc hidle (eval_appendScript _ _ _ _ _) ?_ ?_ ?_
    · intro st' hg hfree
      obtain ⟨hfresh, hwhole⟩ := hwell _ st' hg _ _ _ _ _ _ rfl hc hfree
      obtain ⟨hcur, hitems⟩ := hwhole htext
      have hitem := hitems (id, d) (List.mem_singleton.mpr rfl)
      have hdata : cStr (Γ.cfg.dataKey id) = Γ.cfg.dataKey id := hitem.dataKey
      have hchain : cStr (Γ.cfg.chainKey id) = Γ.cfg.chainKey id := hitem.chainKey
      have hid : cStr id = id := hitem.id
      refine ⟨hcur.chainKey, ?_, ?_, hfresh⟩
      · simp [formChainItem, hdata, hchain, newKeys]
      · simp [formChainItem, hdata, hchain, hid, newPairs, formChainItems]
    · intro st' _ _ hidle'
      exact appendDone_ret hidle'
    · intro st' _ _ happended
      exact appendDone_ret happended

/-- The script for a batch, with its arguments. -/
theorem eval_batch {b : String × T} {m : List (String × T)} (hlen : (b :: m).length < 100)
    (s : Store) :
    (batchScript (formChainItems (b :: m)).length).eval
        (cfg.chainKey cur.id :: newKeys cfg (b :: m)) (batchArgv cd (formChainItems (b :: m))) s =
      if Free s (cfg.chainKey cur.id) (newKeys cfg (b :: m)) then
        (.integer 1, putAll ((cfg.chainKey cur.id, b.1) :: newPairs cfg cd (b :: m)) s)
      else (.integer 0, s) := by
  have hhead : ((formChainItems (b :: m)).head?.map ChainItem.id).getD "" = b.1 := by
    cases m <;> rfl
  have hlen' : (formChainItems (b :: m)).length < 100 := by
    rwa [formChainItems_length]
  rw [batchArgv, hhead, ← formChainItems_keys]
  exact eval_batchScript hlen'

theorem appendAfterBatch_meets {items : List (String × T)} (hc : c.appends = some (cur, items))
    (hne : items ≠ []) (htext : items.length = 1 → c.textual = true) (hidle : Idle n st)
    (hwell : ∀ o st', Γ.guard.op c o st' → AppendsWell Γ.cfg c o st') :
    Γ.Meets n c (AppendDone n cur items) (fun _ st' => Idle n st')
      (appendAfterBatch Γ.cfg Γ.cd cur (formChainItems items)) st := by
  match items, hne with
  | [x], _ => exact appendAfter_meets hc (htext rfl) hidle hwell
  | x :: y :: l, _ =>
    obtain ⟨first, second, rest, hform, hfirst⟩ : ∃ first second rest,
        formChainItems (x :: y :: l) = first :: second :: rest ∧ first.data.isNone = false := by
      cases l <;> exact ⟨_, _, _, rfl, rfl⟩
    have hlast := formChainItems_last x (y :: l)
    rw [hform] at hlast
    simp only [appendAfterBatch, hform]
    split
    · exact appendDone_ret hidle
    · rw [if_neg (by rw [hfirst]; exact Bool.false_ne_true), if_neg (not_not.mpr hlast), ← hform,
        batchKeys_formChainItems]
      by_cases hlen : (x :: y :: l).length < 100
      · refine meets_append hc hidle (eval_batch hlen) ?_ ?_ ?_
        · intro st' hg hfree
          obtain ⟨hfresh, -⟩ := hwell _ st' hg _ _ _ _ _ _ rfl hc hfree
          exact ⟨rfl, rfl, rfl, hfresh⟩
        · intro st' _ _ hidle'
          exact appendDone_ret hidle'
        · intro st' _ _ happended
          exact appendDone_ret happended
      · refine meets_still fun st' hr _ _ => ⟨.error, ?_, ?_, ?_⟩
        · refine eval_batchScript_long ?_ _ _ _
          rw [formChainItems_length]
          exact Nat.le_of_not_lt hlen
        · simp [logOf]
        · exact fun st'' hr' _ => ((hidle.stable hr).started).stable hr'

theorem DotNet.appendAfter_meets {id : String} {d : T} (hc : c.appends = some (cur, [(id, d)]))
    (hidle : Idle n st) (hwell : ∀ o st', Γ.guard.op c o st' → AppendsWell Γ.cfg c o st') :
    Γ.Meets n c (AppendDone n cur [(id, d)]) (fun _ st' => Idle n st')
      (DotNet.appendAfter Γ.cfg Γ.cd cur ⟨id, some d, ""⟩) st := by
  unfold DotNet.appendAfter
  split
  · exact appendDone_ret hidle
  · refine meets_append hc hidle (eval_appendScript _ _ _ _ _) ?_ ?_ ?_
    · intro st' hg hfree
      obtain ⟨hfresh, -⟩ := hwell _ st' hg _ _ _ _ _ _ rfl hc hfree
      exact ⟨rfl, rfl, rfl, hfresh⟩
    · intro st' _ _ hidle'
      exact appendDone_ret hidle'
    · intro st' _ _ happended
      exact appendDone_ret happended

/-- What one turn of `tryAppend` has done. -/
def Tried (cfg : Config) (n : Nat) (cur : ChainItem T) (items : List (String × T)) (reads : Prop)
    (r : ChainItem T ⊕ (Bool × ChainItem T)) (st : Store × Ghost T) : Prop :=
  match r with
  | .inl it => Idle n st ∧ (reads → Known cfg it st)
  | .inr (ok, it) => AppendDone n cur items ok st ∧ (reads → Known cfg it st)

omit [Inhabited T] in
theorem Tried.stable {items : List (String × T)} {reads : Prop}
    {r : ChainItem T ⊕ (Bool × ChainItem T)} {st' : Store × Ghost T}
    (h : Tried cfg n cur items reads r st) (hm : Moves n st st') :
    Tried cfg n cur items reads r st' := by
  cases r with
  | inl it => exact ⟨h.1.stable hm, fun hr => (h.2 hr).later hm.later⟩
  | inr r => exact ⟨h.1.stable hm, fun hr => (h.2 hr).later hm.later⟩

/-- `next` is idle, and finds what follows an item that is known. -/
theorem Script.next_tried (hi : ListInv Γ.cfg Γ.cd st.1 st.2.log) (hidle : Idle n st)
    (hcur : Γ.reads → Known Γ.cfg cur st) :
    Γ.Meets n c (fun o st' => Idle n st' ∧ (Γ.reads → ∀ it, o = some it → Known Γ.cfg it st'))
      (fun _ st' => Idle n st') (Script.next Γ.cfg Γ.cd cur) st := by
  by_cases hreads : Γ.reads
  · have hmeets := Script.next_meets (Γ := Γ) (n := n) (c := c) (hcur hreads) hi
    have hframe := hmeets.frame_own (Script.next_gets cur) hidle
      (fun o st' ho h => by rw [exec_of_gets ho]; exact h.started) (fun _ _ hr h => h.stable hr)
    exact hframe.mono (fun o st' _ h => ⟨h.2, fun _ it hit => (h.1.item it hit).1⟩)
      (fun e st' _ h => h.2)
  · exact (idle_of_gets (Script.next_gets cur) hidle).mono
      (fun o st' _ h => ⟨h, fun hr => absurd hr hreads⟩) (fun e st' _ h => h)

theorem Script.tryAppend_meets {id : String} {d : T} (hc : c.appends = some (cur, [(id, d)]))
    (hi : ListInv Γ.cfg Γ.cd st.1 st.2.log) (hidle : Idle n st)
    (hcur : Γ.reads → Known Γ.cfg cur st)
    (hwell : ∀ o st', Γ.guard.op c o st' → AppendsWell Γ.cfg c o st') :
    Γ.Meets n c (Tried Γ.cfg n cur [(id, d)] Γ.reads) (fun _ st' => Idle n st')
      (Script.tryAppend Γ.cfg Γ.cd cur id d) st := by
  refine Safe.bind (((Script.next_tried hi hidle hcur).frame (F := fun st' => Γ.reads →
    Known Γ.cfg cur st') hcur (fun _ _ _ hr h hreads => (h hreads).later hr.later)).mono
    (fun _ _ _ h => h) (fun _ _ _ h => h.1)) ?_ hi
  rintro o st₁ hi₁ ⟨⟨hidle₁, hitem⟩, hcur₁⟩
  cases o with
  | some it =>
      have hdone : Tried Γ.cfg n cur [(id, d)] Γ.reads (.inl it) st₁ :=
        ⟨hidle₁, fun hreads => hitem hreads it rfl⟩
      exact Safe.ret hdone fun _ _ hm _ h => h.stable hm
  | none =>
      refine meets_append hc hidle₁ (eval_appendScript _ _ _ _ _) ?_ ?_ ?_
      · intro st' hg hfree
        obtain ⟨hfresh, -⟩ := hwell _ st' hg _ _ _ _ _ _ rfl hc hfree
        exact ⟨rfl, rfl, rfl, hfresh⟩
      · intro st' hl _ hidle'
        have hdone : Tried Γ.cfg n cur [(id, d)] Γ.reads (.inr (false, cur)) st' :=
          ⟨hidle', fun hreads => (hcur₁ hreads).later hl⟩
        exact Safe.ret hdone fun _ _ hm _ h => h.stable hm
      · intro st' hl hi' happended
        have hd : (id, d) ∈ appended st'.2.log :=
          List.mem_flatMap.mpr ⟨_, happended, List.mem_singleton.mpr rfl⟩
        have hdone : Tried Γ.cfg n cur [(id, d)] Γ.reads (.inr (true, ⟨id, some d, ""⟩)) st' :=
          ⟨happended, fun _ => known_of_appended hi' hd⟩
        exact Safe.ret hdone fun _ _ hm _ h => h.stable hm

end Appends

end RedisChain
