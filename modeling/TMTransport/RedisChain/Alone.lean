import TMTransport.RedisChain.Appends
import TMTransport.RedisChain.Objects

/-!
# Chain objects that leave each other alone

Each command of an object stays with the object's keys: those are made from its
prefixes and from names that its user gives, or that a link of its own chain gives.
So an object does not see what the others do, as long as `head` looks under the key
of the object that it is called on.
-/

namespace RedisChain

open Interleave Redis

variable {T X ι : Type}

/-! ## What a command sees -/

theorem step_congr {o : Op} {s t : Store} (h : ∀ k ∈ o.keys, s k = t k) :
    (step o s).1 = (step o t).1 ∧ ∀ k, s k = t k → (step o s).2 k = (step o t).2 k := by
  cases o with
  | get key => exact ⟨h key (List.mem_singleton.mpr rfl), fun k hk => hk⟩
  | set key value =>
      refine ⟨rfl, fun k hk => ?_⟩
      by_cases heq : k = key
      · simp [step, heq]
      · simp [step, heq, hk]
  | eval script keys argv => exact Script.eval_congr h

theorem step_of_notMem {o : Op} {s : Store} {k : String} (h : k ∉ o.keys) :
    (step o s).2 k = s k := by
  cases o with
  | get key => rfl
  | set key value => exact Function.update_of_ne (List.ne_of_not_mem_cons h) _ _
  | eval script keys argv => exact Script.eval_of_notMem h

namespace KeySet

variable {cfg : Config} {K : KeySet cfg} {x key v : String}

/-! ## The object's keys -/

theorem owns_chainKey (h : K.ids x) : K.Owns (cfg.chainKey x) := .inl ⟨x, h, .inl rfl⟩

theorem owns_dataKey (h : K.ids x) : K.Owns (cfg.dataKey x) := .inl ⟨x, h, .inr rfl⟩

theorem cStr_under {pre : String} (h : '\x00' ∉ pre.toList) (name : String) :
    cStr (pre ++ ":" ++ name) = pre ++ ":" ++ cStr name := by
  refine cStr_append ?_
  rw [String.toList_append, List.mem_append]
  exact not_or.mpr ⟨h, by decide⟩

theorem owns_cStr_chainKey (h : K.ids x) : K.Owns (cStr (cfg.chainKey x)) := by
  rw [show cStr (cfg.chainKey x) = cfg.chainKey (cStr x) from cStr_under K.whole.1 x]
  exact owns_chainKey (K.cut.1 x h)

/-- Redis is given the data key of an id of the object. -/
theorem cStr_dataKey (h : K.ids x) : ∃ y, K.ids y ∧ cStr (cfg.dataKey x) = cfg.dataKey y :=
  ⟨cStr x, K.cut.1 x h, cStr_under K.whole.2.1 x⟩

theorem owns_cStr_dataKey (h : K.ids x) : K.Owns (cStr (cfg.dataKey x)) := by
  obtain ⟨y, hy, heq⟩ := cStr_dataKey h
  rw [heq]
  exact owns_dataKey hy

theorem cStr_extraDataKey (h : K.extras key) :
    ∃ y, K.extras y ∧ cStr (cfg.extraDataKey key) = cfg.extraDataKey y :=
  ⟨cStr key, K.cut.2 key h, cStr_under K.whole.2.2 key⟩

theorem owns_cStr_extraDataKey (h : K.extras key) : K.Owns (cStr (cfg.extraDataKey key)) := by
  obtain ⟨y, hy, heq⟩ := cStr_extraDataKey h
  rw [heq]
  exact .inr ⟨y, hy, rfl⟩

theorem linkOk_dataKey (h : K.ids x) (v : String) : K.LinkOk (cfg.dataKey x) v := by
  intro y hy heq
  rcases K.apart with hall | hapart
  · exact .inr (hall v)
  · exact absurd heq.symm ((hapart y hy).1 x h)

theorem linkOk_extraDataKey (h : K.extras key) (v : String) :
    K.LinkOk (cfg.extraDataKey key) v := by
  intro y hy heq
  rcases K.apart with hall | hapart
  · exact .inr (hall v)
  · exact absurd heq.symm ((hapart y hy).2 key h)

theorem linkOk_link (h : v = "" ∨ K.ids v) (k : String) : K.LinkOk k v := fun _ _ _ => h

/-! ## The object's view -/

variable (K) in
/-- The object sees the same under its keys. -/
def mirror : Mirror Op Op.Res Store where
  step := step
  allowed := fun _ _ => True
  own := fun o _ => ∀ k ∈ o.keys, K.Owns k
  view := fun s t => (∀ k, K.Owns k → s k = t k) ∧ K.Closed s

variable (K) in
/-- The call stays with the keys of the object, and sees nothing else. -/
abbrev Stays {α : Type} (Q : α → Prop) (p : Call α) : Prop := K.mirror.Copies id Q p p

variable {α : Type} {Q : α → Prop}

theorem stays_act {o : Op} {k : o.Res → Call α} (hown : ∀ key ∈ o.keys, K.Owns key)
    (hclosed : ∀ s, K.Closed s → K.Closed (step o s).2)
    (hk : ∀ s, K.Closed s → K.Stays Q (k (step o s).1)) : K.Stays Q (.act o k) := by
  refine Mirror.Copies.act fun s t hv _ => ?_
  obtain ⟨hanswer, hstores⟩ := step_congr fun key hkey => hv.1 key (hown key hkey)
  refine ⟨hown, ⟨fun key hkey => hstores key (hv.1 key hkey), hclosed s hv.2⟩, ?_⟩
  have hk' := hk s hv.2
  show K.mirror.Copies id Q (k (step o s).1) (k (step o t).1)
  rwa [← hanswer]

theorem stays_get {k : Option String → Call α} (hown : K.Owns key)
    (hk : ∀ r, (∀ v, r = some v → K.LinkOk key v) → K.Stays Q (k r)) :
    K.Stays Q (.act (.get key) k) := by
  refine stays_act (fun key' h => ?_) (fun s hs => hs) fun s hs => hk _ fun v hv => hs key v hv
  rwa [List.mem_singleton.mp h]

theorem stays_set {value : String} {k : Unit → Call α} (hown : K.Owns key)
    (hlink : K.LinkOk key value) (hk : K.Stays Q (k ())) : K.Stays Q (.act (.set key value) k) := by
  refine stays_act (fun key' h => ?_) (fun s hs key' v hv => ?_) fun _ _ => hk
  · rwa [List.mem_singleton.mp h]
  · by_cases heq : key' = key
    · have hvalue : value = v := by simpa [step, heq] using hv
      rwa [heq, ← hvalue]
    · refine hs key' v ?_
      simpa [step, heq] using hv

/-- A script is given the object's keys, and writes links to its ids. -/
theorem stays_eval {script : Script Var} {keys argv : List String} {k : Redis.Reply → Call α}
    (hown : ∀ key ∈ keys, K.Owns key)
    (hlink : ∀ w ∈ script.yes.writes ++ script.no.writes, ∀ key v,
      nth keys w.key = some key → w.value.get argv = some v → K.LinkOk key v)
    (hk : ∀ r, K.Stays Q (k r)) : K.Stays Q (.act (.eval script keys argv) k) := by
  refine stays_act hown (fun s hs key v hv => ?_) fun _ _ => hk _
  rcases Script.eval_cases hv with hv | ⟨w, hw, hkey, hvalue⟩
  · exact hs key v hv
  · exact hlink w hw key v hkey hvalue

theorem stays_ret {a : α} (h : Q a) : K.Stays Q (.ret a) := Mirror.Copies.ret rfl h

theorem stays_fail (e : String) : K.Stays Q (.fail e) := Mirror.Copies.fail e

/-! ## The calls -/

variable {cd : DataCodec T} {cx : Codec X}

theorem stays_head [Inhabited T] : K.Stays (fun _ : ChainItem T => True)
    (headAt cfg.headKeyStr cfg) := by
  have hown : K.Owns (cStr cfg.headKeyStr) := owns_cStr_chainKey K.head
  refine stays_eval (fun key hkey => ?_) (fun w hw key v _ hv => ?_) fun r => ?_
  · rwa [List.mem_singleton.mp hkey]
  · obtain rfl : w = ⟨1, .empty⟩ := List.mem_singleton.mp hw
    exact linkOk_link (.inl (Option.some.inj hv).symm) _
  · cases r with
    | string nextID => exact stays_ret trivial
    | _ => exact stays_fail _

theorem stays_readItem (who : String) (h : K.ids x) :
    K.Stays (fun _ : ChainItem T => True) (readItem cfg cd who x) := by
  refine stays_get (owns_cStr_dataKey h) fun r _ => ?_
  cases r with
  | none => exact stays_fail _
  | some r =>
      refine stays_get (owns_cStr_chainKey h) fun r' _ => ?_
      cases r' with
      | none => exact stays_fail _
      | some next => exact stays_ret trivial

theorem stays_nextIDOf {cur : ChainItem T} (hid : K.ids cur.id)
    (hnext : cur.nextID = "" ∨ K.ids cur.nextID) :
    K.Stays (fun next => next = "" ∨ K.ids next) (nextIDOf cfg cur) := by
  unfold nextIDOf
  split
  · refine stays_get (owns_cStr_chainKey hid) fun r hr => ?_
    cases r with
    | none => exact stays_fail _
    | some next =>
        exact stays_ret (hr next rfl (cStr cur.id) (K.cut.1 _ hid) (cStr_under K.whole.1 _))
  · exact stays_ret hnext

theorem stays_fetchNext {cur : ChainItem T} (hid : K.ids cur.id)
    (hnext : cur.nextID = "" ∨ K.ids cur.nextID) :
    K.Stays (fun _ => True) (fetchNext cfg cd cur) := by
  refine Mirror.Copies.bind (stays_nextIDOf hid hnext) fun next hok => ?_
  show K.Stays _ (if next = "" then _ else _)
  split
  · exact stays_ret trivial
  · next hne =>
    refine Mirror.Copies.bind (stays_readItem "fetchNext" (hok.resolve_left hne)) fun it _ => ?_
    exact stays_ret trivial

theorem owns_newKeys {items : List (String × T)} (h : ∀ x ∈ items, K.ids x.1) :
    ∀ key ∈ newKeys cfg items, K.Owns key := by
  intro key hkey
  obtain ⟨x, hx, hmem⟩ := List.mem_flatMap.mp hkey
  simp only [List.mem_cons, List.not_mem_nil, or_false] at hmem
  rcases hmem with rfl | rfl
  · exact owns_dataKey (h x hx)
  · exact owns_chainKey (h x hx)

variable [Inhabited T]

theorem stays_appendAfter {cur toBeWritten : ChainItem T} (hid : K.ids cur.id)
    (hnew : K.ids toBeWritten.id) :
    K.Stays (fun _ => True) (appendAfter cfg cd cur toBeWritten) := by
  unfold appendAfter
  split
  · exact stays_ret trivial
  split
  · exact stays_fail _
  split
  · exact stays_fail _
  refine stays_eval (fun key hkey => ?_) (fun w hw key v hkey hv => ?_) fun r => ?_
  · simp only [List.mem_cons, List.not_mem_nil, or_false] at hkey
    rcases hkey with rfl | rfl | rfl
    · exact owns_cStr_chainKey hid
    · exact owns_cStr_dataKey hnew
    · exact owns_cStr_chainKey hnew
  · simp only [appendScript, List.append_nil, List.mem_cons, List.not_mem_nil, or_false] at hw
    rcases hw with rfl | rfl | rfl
    · obtain rfl : cStr toBeWritten.id = v := Option.some.inj hv
      exact linkOk_link (.inr (K.cut.1 _ hnew)) _
    · obtain ⟨y, hy, heq⟩ := cStr_dataKey hnew
      obtain rfl : cStr (cfg.dataKey toBeWritten.id) = key := Option.some.inj hkey
      rw [heq]
      exact linkOk_dataKey hy v
    · exact linkOk_link (.inl (Option.some.inj hv).symm) _
  · cases r with
    | integer n => exact stays_ret trivial
    | _ => exact stays_fail _

/-- What a batch puts: data, and links to its items. -/
theorem linkOk_newPairs {items : List (String × T)} (h : ∀ x ∈ items, K.ids x.1) :
    ∀ p ∈ newPairs cfg cd items, K.LinkOk p.1 p.2 := by
  induction items with
  | nil =>
      intro p hp
      cases hp
  | cons b m ih =>
      have hb := h b List.mem_cons_self
      have hm := ih fun x hx => h x (List.mem_cons_of_mem _ hx)
      intro p hp
      cases m with
      | nil =>
          rcases List.mem_cons.mp hp with rfl | hp
          · exact linkOk_dataKey hb _
          · obtain rfl := List.mem_singleton.mp hp
            exact linkOk_link (.inl rfl) _
      | cons x m =>
          have hpairs : newPairs cfg cd (b :: x :: m) =
              (cfg.dataKey b.1, cd.serialize b.2) :: (cfg.chainKey b.1, x.1) ::
                newPairs cfg cd (x :: m) := rfl
          rw [hpairs] at hp
          rcases List.mem_cons.mp hp with rfl | hp
          · exact linkOk_dataKey hb _
          rcases List.mem_cons.mp hp with rfl | hp
          · exact linkOk_link (.inr (h x (List.mem_cons_of_mem _ List.mem_cons_self))) _
          · exact hm p hp

/-- The positions in the script of a batch are those of what it puts. -/
theorem batch_writes (cur : ChainItem T) (b : String × T) (m : List (String × T)) :
    (batchScript (formChainItems (b :: m)).length).yes.writes.map (fun w =>
        (nth (cfg.chainKey cur.id :: newKeys cfg (b :: m)) w.key,
          w.value.get (batchArgv cd (formChainItems (b :: m))))) =
      ((cfg.chainKey cur.id, b.1) :: newPairs cfg cd (b :: m)).map
        fun p => (some p.1, some p.2) := by
  have hhead : ((formChainItems (b :: m)).head?.map ChainItem.id).getD "" = b.1 := by
    cases m <;> rfl
  rw [batchArgv, hhead, ← formChainItems_keys]
  exact batchScript_writes

theorem stays_appendAfterBatch {cur : ChainItem T} {items : List (String × T)}
    (hid : K.ids cur.id) (hnew : ∀ x ∈ items, K.ids x.1) :
    K.Stays (fun _ => True) (appendAfterBatch cfg cd cur (formChainItems items)) := by
  match items with
  | [] => exact stays_ret trivial
  | [x] => exact stays_appendAfter hid (hnew x List.mem_cons_self)
  | b :: y :: m =>
    obtain ⟨first, second, rest, hform⟩ : ∃ first second rest,
        formChainItems (b :: y :: m) = first :: second :: rest := by
      cases m <;> exact ⟨_, _, _, rfl⟩
    simp only [appendAfterBatch, hform]
    split
    · exact stays_ret trivial
    split
    · exact stays_fail _
    split
    · exact stays_fail _
    rw [← hform, batchKeys_formChainItems]
    refine stays_eval (fun key hkey => ?_) (fun w hw key v hkey hv => ?_) fun r => ?_
    · rcases List.mem_cons.mp hkey with rfl | hkey
      · exact owns_chainKey hid
      · exact owns_newKeys hnew key hkey
    · -- the positions of the writes are those of the pairs
      have hmem := List.mem_map_of_mem (f := fun w : Write =>
        (nth (cfg.chainKey cur.id :: newKeys cfg (b :: y :: m)) w.key,
          w.value.get (batchArgv cd (formChainItems (b :: y :: m))))) (List.append_nil _ ▸ hw)
      rw [batch_writes] at hmem
      obtain ⟨p, hp, heq⟩ := List.mem_map.mp hmem
      rw [hkey, hv] at heq
      obtain ⟨hk, hvalue⟩ := Prod.mk.inj heq
      rw [← Option.some.inj hk, ← Option.some.inj hvalue]
      rcases List.mem_cons.mp hp with rfl | hp
      · exact linkOk_link (.inr (hnew b List.mem_cons_self)) _
      · exact linkOk_newPairs hnew p hp
    · cases r with
      | integer n => exact stays_ret trivial
      | _ => exact stays_fail _

theorem stays_saveExtraData (h : K.extras key) (data : X) :
    K.Stays (fun _ => True) (saveExtraData cfg cx key data) := by
  obtain ⟨y, hy, heq⟩ := cStr_extraDataKey h
  refine stays_set (owns_cStr_extraDataKey h) ?_ (stays_ret trivial)
  rw [heq]
  exact linkOk_extraDataKey hy _

theorem stays_loadExtraData (h : K.extras key) :
    K.Stays (fun _ => True) (loadExtraData cfg cx key) :=
  stays_get (owns_cStr_extraDataKey h) fun _ _ => stays_ret trivial

end KeySet

/-! ## Runs -/

/-- What an object initialises its statics with. -/
def Object.initial (o : Object T X) : Static → String
  | .headKeyStr => o.cfg.headKeyStr

section Runs

variable [Inhabited T]

theorem head_copies (o : Object T X) (K : KeySet o.cfg) :
    (K.mirror.withStatics o.initial).Copies id (fun _ => True) o.head o.head := by
  refine Mirror.Copies.bind (Mirror.Copies.static Static.headKeyStr) fun headKeyStr hkey => ?_
  obtain rfl := hkey
  exact KeySet.stays_head.shared

theorem perform_copies (o : Object T X) (K : KeySet o.cfg) {c : Task T X} (hc : K.Names c) :
    (K.mirror.withStatics o.initial).Copies id (fun _ => True) (o.perform c) (o.perform c) := by
  have hret : ∀ {α : Type} (g : α → Outcome T X) (a : α), True →
      (K.mirror.withStatics o.initial).Copies id (fun _ => True)
        (.ret (g a) : Prog _ _ String (Outcome T X)) (.ret (g a)) :=
    fun g a _ => Mirror.Copies.ret rfl trivial
  cases c with
  | head => exact (head_copies o K).bind (hret .item)
  | loadUntil x =>
      refine Mirror.Copies.bind (Q := fun _ => True) (f := id) ?_ (hret .item)
      unfold Object.loadUntil
      split
      · exact head_copies o K
      · next hne => exact (KeySet.stays_readItem _ (hc.resolve_left hne)).shared
  | fetchNext cur => exact (KeySet.stays_fetchNext hc.1 hc.2).shared.bind (hret .next)
  | appendAfter cur x => exact (KeySet.stays_appendAfter hc.1 hc.2).shared.bind (hret .appended)
  | appendAfterBatch cur l =>
      exact (KeySet.stays_appendAfterBatch hc.1 hc.2).shared.bind (hret .appended)
  | saveExtraData key data =>
      exact (KeySet.stays_saveExtraData hc data).shared.bind (hret fun _ => .saved)
  | loadExtraData key => exact (KeySet.stays_loadExtraData hc).shared.bind (hret .loaded)

variable [DecidableEq ι] {objs : ι → Object T X} {K : ∀ i, KeySet (objs i).cfg}

/-- What object `i` sees of the process is what it sees of the one in which it is alone. -/
structure Sees (objs : ι → Object T X) (K : ∀ i, KeySet (objs i).cfg) (i : ι)
    (p q : Process T X ι) : Prop where
  shared : ((K i).mirror.withStatics (objs i).initial).view p.shared q.shared
  answers : (p.answers.filter fun r => decide (r.1 = i)) = q.answers

/-- A call of the object does the same in both. -/
theorem sees_own (s₀ : Store) {p q : Process T X ι} {i : ι} {c : Task T X}
    (h : Sees objs K i p q) (hn : (K i).Names c) (hs : OwnStatics objs p (i, c)) :
    OwnKeys objs K p (i, c) ∧ Sees objs K i (((process objs s₀).step p (i, c)).getD p)
      (((process objs s₀).step q (i, c)).getD q) := by
  have hallowed : ((objs i).perform c).Along (StaticOp.step step)
      ((K i).mirror.withStatics (objs i).initial).allowed p.shared :=
    Prog.Along.mono hs fun o s ho => by cases o <;> exact ho
  obtain ⟨halong, hview, hanswer, -⟩ := perform_copies (objs i) (K i) hn _ _ h.shared hallowed
  refine ⟨halong.mono fun o s ho => by cases o <;> exact ho, hview, ?_⟩
  have hanswer' : (((objs i).perform c).run (StaticOp.step step) q.shared).1 =
      (((objs i).perform c).run (StaticOp.step step) p.shared).1 := by
    rw [show (((objs i).perform c).run (StaticOp.step step) q.shared).1 = _ from hanswer,
      Except.map_id]
    rfl
  show ((i, _) :: p.answers).filter _ = (i, _) :: q.answers
  rw [List.filter_cons_of_pos (by simp), h.answers, hanswer']

/-- A call of another object does not touch what the object sees. -/
theorem sees_other {p q : Process T X ι} {i j : ι} {c : Task T X} {s₀ : Store}
    (hd : Disjoint objs K) (hne : i ≠ j) (h : Sees objs K j p q) (hk : OwnKeys objs K p (i, c)) :
    Sees objs K j (((process objs s₀).step p (i, c)).getD p) q := by
  have hkeeps := hk.keeps
    (I := fun s => ((K j).mirror.withStatics (objs j).initial).view s q.shared)
    (fun o s ho hs => ?_) h.shared
  · refine ⟨hkeeps, ?_⟩
    show ((i, _) :: p.answers).filter _ = q.answers
    rw [List.filter_cons_of_neg (by simpa using hne), h.answers]
  · cases o with
    | static x init =>
        refine ⟨?_, hs.2⟩
        simp only [StaticOp.step]
        split <;> exact hs.1
    | shared o =>
        have hsame : ∀ k, (K j).Owns k → (step o s.1).2 k = s.1 k := fun k hk =>
          step_of_notMem fun hmem => hne (hd i j k (ho k hmem) hk)
        refine ⟨⟨fun k hk => (hsame k hk).trans (hs.1.1 k hk), fun k v hv x hx heq => ?_⟩, hs.2⟩
        have hown : (K j).Owns k := heq ▸ KeySet.owns_chainKey hx
        exact hs.1.2 k v ((hsame k hown).symm.trans hv) x hx heq

/--
**The chain objects do not interfere** in calls whose statics are their own.
-/
theorem apart_of_ownStatics (objs : ι → Object T X) (K : ∀ i, KeySet (objs i).cfg) {s₀ : Store}
    {as : List (ι × Task T X)} (hd : Disjoint objs K) (hclosed : ∀ i, (K i).Closed s₀)
    (hnames : ∀ a ∈ as, (K a.1).Names a.2)
    (hw : (process objs s₀).Within (OwnStatics objs) (process objs s₀).init as) :
    Apart objs K s₀ as := by
  have hown : ∀ (p : Process T X ι) (q : ι → Process T X ι) (a : ι × Task T X) (i : ι),
      OwnStatics objs p a ∧ (K a.1).Names a.2 → (∀ i, Sees objs K i p (q i)) →
      decide (a.1 = i) = true → Sees objs K i (((process objs s₀).step p a).getD p)
        (((process objs s₀).step (q i) a).getD (q i)) := by
    intro p q a i hg hv hmine
    obtain rfl : a.1 = i := of_decide_eq_true hmine
    exact (sees_own s₀ (hv a.1) hg.2 hg.1).2
  have hother : ∀ (p : Process T X ι) (q : ι → Process T X ι) (a : ι × Task T X) (i : ι),
      OwnStatics objs p a ∧ (K a.1).Names a.2 → (∀ i, Sees objs K i p (q i)) →
      decide (a.1 = i) = false → Sees objs K i (((process objs s₀).step p a).getD p) (q i) := by
    intro p q a i hg hv hmine
    exact sees_other hd (of_decide_eq_false hmine) (hv i)
      (sees_own s₀ (hv a.1) hg.2 hg.1).1
  have hinit : ∀ i, Sees objs K i (process objs s₀).init (process objs s₀).init := fun i =>
    ⟨⟨⟨fun k _ => rfl, hclosed i⟩, fun x => .inl rfl⟩, rfl⟩
  have hg := hw.and (Machine.Within.of_mem hnames)
  obtain ⟨hsees, hend⟩ := Machine.unwind hown hother hg hinit
  have halone : ∀ i, Machine.alone (fun i (a : ι × Task T X) => decide (a.1 = i))
      (fun _ a => a) i as = as.filter fun a => decide (a.1 = i) := fun i => List.map_id' _
  refine ⟨(hg.and hsees).mono fun p a h => ?_, fun i k hk => ?_, fun i => ?_⟩
  · obtain ⟨⟨hs, hn⟩, q, hv⟩ := h
    exact (sees_own s₀ (hv a.1) hn hs).1
  · rw [← halone i]
    exact (hend i).shared.1.1 k hk
  · rw [← halone i]
    exact (hend i).answers

end Runs

end RedisChain
