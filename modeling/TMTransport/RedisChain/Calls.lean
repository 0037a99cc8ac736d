import TMTransport.RedisChain.Contract

/-!
# What the calls do

One specification for each call of each client. The reads are only right for an
item that is known; an append keeps the list whatever item it is handed.
-/

namespace RedisChain

open Interleave Redis LinkedStore

variable {T : Type} {cfg : Config} {cd : DataCodec T} {s : Store}
  {log : List (Commit T)} {n : Nat} {st : Store × Ghost T}

theorem Known.withNext {it : ChainItem T} (h : Known cfg it st) {next : String}
    (hnext : next ≠ "" → [it.id, next] <:+: ids cfg st.2.log) :
    Known cfg { it with nextID := next } st :=
  ⟨h.on, h.there, h.data, hnext⟩

variable [Inhabited T]

/-! ## What is under the keys -/

namespace ListInv

/-- The link of an item that is known is the id after it, or says that it is the last. -/
theorem link_of_known (h : ListInv cfg cd st.1 st.2.log) {it : ChainItem T} (hk : Known cfg it st) :
    ∃ next, st.1 (cfg.chainKey it.id) = some next ∧
      (next = "" → (ids cfg st.2.log).getLast? = some it.id) ∧
      (next ≠ "" → [it.id, next] <:+: ids cfg st.2.log) := by
  have hh := h.holds_of_ne_none hk.there
  have hids : ids cfg st.2.log = (headEntry cfg :: appended st.2.log).map Prod.fst := rfl
  have hon := hk.on
  rw [hids] at hon
  obtain ⟨x, hx, hid⟩ := List.mem_map.mp hon
  obtain ⟨pre, post, hsplit⟩ := List.append_of_mem hx
  have hlink := hh.link hsplit
  rw [hid] at hlink
  refine ⟨_, hlink, fun hnil => ?_, fun hne => ?_⟩
  · obtain rfl : post = [] := by
      cases post with
      | nil => rfl
      | cons y post =>
          have hy : y ∈ appended st.2.log := by
            cases pre with
            | nil => rw [(List.cons.inj hsplit).2]; simp
            | cons z pre => rw [(List.cons.inj hsplit).2]; simp
          exact absurd hnil (hh.named y hy)
    rw [hids, hsplit, ← hid]
    simp
  · cases post with
    | nil => exact absurd rfl hne
    | cons y post =>
        refine ⟨pre.map Prod.fst, post.map Prod.fst, ?_⟩
        rw [hids, hsplit, ← hid]
        simp [layout]

/-- The item that follows one on the list has been appended. -/
theorem appended_of_adjacent (h : ListInv cfg cd s log) {id id' : String}
    (hadj : [id, id'] <:+: ids cfg log) : id' ≠ cfg.headKey ∧ ∃ d, (id', d) ∈ appended log := by
  obtain ⟨pre, post, hsplit⟩ := hadj
  have hnd := h.ids_nodup
  obtain ⟨hhead, -⟩ := List.nodup_cons.mp hnd
  have hmem : id' ∈ (appended log).map Prod.fst := by
    cases pre with
    | nil => rw [← (List.cons.inj hsplit).2]; simp
    | cons z pre => rw [← (List.cons.inj hsplit).2]; simp
  refine ⟨fun heq => hhead (heq ▸ hmem), ?_⟩
  obtain ⟨x, hx, rfl⟩ := List.mem_map.mp hmem
  exact ⟨x.2, hx⟩

/-- The data of an item that has been appended. -/
theorem data_of_appended (h : ListInv cfg cd s log) {x : String × T} (hx : x ∈ appended log) :
    s (cfg.dataKey x.1) = some (cd.serialize x.2) ∧ s (cfg.chainKey x.1) ≠ none := by
  rcases h.chain with ⟨-, rfl⟩ | hh
  · cases hx
  · exact ⟨hh.extra hx (List.mem_singleton.mpr rfl), hh.linkKey_bound (List.mem_cons_of_mem _ hx)⟩

end ListInv

/-- An item as it has been appended is known. -/
theorem known_of_appended (h : ListInv cfg cd st.1 st.2.log) {id : String} {d : T}
    (hx : (id, d) ∈ appended st.2.log) : Known cfg ⟨id, some d, ""⟩ st where
  on := List.mem_cons_of_mem _ (List.mem_map_of_mem hx)
  there := (h.data_of_appended hx).2
  data _ := ⟨d, rfl, hx⟩
  next hne := absurd rfl hne

section Calls

variable {Γ : Setting T} {c : Req T} {β : Type} {Q : β → Store × Ghost T → Prop}
  {E : String → Store × Ghost T → Prop}

/-! ## Reads -/

/-- A call reads the link of an item that is known. -/
theorem meets_link {it : ChainItem T} {key : String} {k : Option String → Call β}
    (hit : Known Γ.cfg it st)
    (hkey : ∀ st', Later st st' → Γ.guard.op c (.get key) st' → key = Γ.cfg.chainKey it.id)
    (hk : ∀ st' next, Later st st' → ListInv Γ.cfg Γ.cd st'.1 st'.2.log →
      (next = "" → st.2.first n = none → BeganAtEnd Γ.cfg n it.id st') →
      (next ≠ "" → [it.id, next] <:+: ids Γ.cfg st'.2.log) →
      Γ.Meets n c Q E (k (some next)) st') :
    Γ.Meets n c Q E (.act (.get key) k) st := by
  refine meets_get fun st' hr hi hg => ?_
  obtain rfl := hkey st' hr.later hg
  obtain ⟨next, hget, hlast, hadj⟩ := hi.link_of_known (hit.later hr.later)
  rw [hget]
  refine hk _ next (hr.later.trans (later_started n st'.1 st'.2)) hi (fun hnil hfirst => ?_) hadj
  exact beganAtEnd_started (hr.first.trans hfirst) (hlast hnil)

/-- A call reads the data of an item that has been appended. -/
theorem meets_data {id : String} {d : T} {key : String} {k : Option String → Call β}
    (hd : (id, d) ∈ appended st.2.log)
    (hkey : ∀ st', Later st st' → Γ.guard.op c (.get key) st' → key = Γ.cfg.dataKey id)
    (hk : ∀ st', Later st st' → ListInv Γ.cfg Γ.cd st'.1 st'.2.log →
      Γ.Meets n c Q E (k (some (Γ.cd.serialize d))) st') :
    Γ.Meets n c Q E (.act (.get key) k) st := by
  refine meets_get fun st' hr hi hg => ?_
  obtain rfl := hkey st' hr.later hg
  rw [(hi.data_of_appended ((appended_extend hr.later.log).subset hd)).1]
  exact hk _ (hr.later.trans (later_started n st'.1 st'.2)) hi

/-- What a call may find to follow `cur`; `fresh` says that it had not begun before. -/
structure NextFound (cfg : Config) (n : Nat) (cur : ChainItem T) (fresh : Prop) (next : String)
    (st : Store × Ghost T) : Prop where
  last : next = "" → fresh → BeganAtEnd cfg n cur.id st
  adjacent : next ≠ "" → [cur.id, next] <:+: ids cfg st.2.log

/-- What a call for the item after `cur` may come back with. -/
structure Followed (cfg : Config) (n : Nat) (cur : ChainItem T) (fresh : Prop)
    (o : Option (ChainItem T)) (st : Store × Ghost T) : Prop where
  last : o = none → fresh → BeganAtEnd cfg n cur.id st
  item : ∀ it, o = some it → Known cfg it st ∧ [cur.id, it.id] <:+: ids cfg st.2.log

omit [Inhabited T] in
theorem NextFound.stable {cur : ChainItem T} {fresh : Prop} {next : String} {st' : Store × Ghost T}
    (h : NextFound cfg n cur fresh next st) (hm : Moves n st st') :
    NextFound cfg n cur fresh next st' :=
  ⟨fun hnil hfresh => (h.last hnil hfresh).stable hm,
    fun hne => (h.adjacent hne).trans (ids_extend hm.later.log).isInfix⟩

omit [Inhabited T] in
theorem Followed.stable {cur : ChainItem T} {fresh : Prop} {o : Option (ChainItem T)}
    {st' : Store × Ghost T} (h : Followed cfg n cur fresh o st) (hm : Moves n st st') :
    Followed cfg n cur fresh o st' :=
  ⟨fun hnone hfresh => (h.last hnone hfresh).stable hm, fun it hit =>
    ⟨(h.item it hit).1.later hm.later, (h.item it hit).2.trans (ids_extend hm.later.log).isInfix⟩⟩

variable {cur : ChainItem T}

/-- A call returns the id that it remembers, or the one that redis has. -/
theorem nextFound_ret {fresh : Prop} {next : String} (h : NextFound Γ.cfg n cur fresh next st) :
    Γ.Meets n c (NextFound Γ.cfg n cur fresh) (fun _ _ => False) (.ret next) st :=
  Safe.ret h fun _ _ hm _ h => h.stable hm

/-- The item with the link that the call has just read. -/
theorem followed_ret {fresh : Prop} {id next : String} {d : T}
    (hi : ListInv Γ.cfg Γ.cd st.1 st.2.log) (hd : (id, d) ∈ appended st.2.log)
    (hadj : [cur.id, id] <:+: ids Γ.cfg st.2.log)
    (hnext : next ≠ "" → [id, next] <:+: ids Γ.cfg st.2.log) :
    Γ.Meets n c (Followed Γ.cfg n cur fresh) (fun _ _ => False)
      (.ret (some ⟨id, some d, next⟩)) st := by
  refine Safe.ret ⟨fun hnone => (by cases hnone), fun it hit => ?_⟩ fun _ _ hm _ h => h.stable hm
  obtain rfl := Option.some.inj hit
  exact ⟨(known_of_appended hi hd).withNext hnext, hadj⟩

theorem followed_none {fresh : Prop} (h : NextFound Γ.cfg n cur fresh "" st) :
    Γ.Meets n c (Followed Γ.cfg n cur fresh) (fun _ _ => False) (.ret none) st :=
  Safe.ret ⟨fun _ => h.last rfl, fun it hit => by cases hit⟩ fun _ _ hm _ h => h.stable hm

/-- C++ -/
theorem nextIDOf_meets (hcur : Known Γ.cfg cur st)
    (hwell : ∀ o st', Γ.guard.op c o st' → Whole Γ.cfg cur.id) :
    Γ.Meets n c (NextFound Γ.cfg n cur (st.2.first n = none)) (fun _ _ => False)
      (nextIDOf Γ.cfg cur) st := by
  unfold nextIDOf
  split
  · refine meets_link hcur (fun st' _ hg => (hwell _ st' hg).chainKey) ?_
    intro st' next _ _ hlast hadj
    exact nextFound_ret ⟨hlast, hadj⟩
  · next hne => exact nextFound_ret ⟨fun hnil => absurd hnil hne, fun _ => hcur.next hne⟩

theorem fetchNext_meets (hcur : Known Γ.cfg cur st) (hi : ListInv Γ.cfg Γ.cd st.1 st.2.log)
    (hwell : ∀ o st', Γ.guard.op c o st' → ∀ id, id = cur.id ∨
      [cur.id, id] <:+: ids Γ.cfg st'.2.log → Whole Γ.cfg id) :
    Γ.Meets n c (Followed Γ.cfg n cur (st.2.first n = none)) (fun _ _ => False)
      (fetchNext Γ.cfg Γ.cd cur) st := by
  refine Safe.bind (nextIDOf_meets hcur fun o st' hg => hwell o st' hg _ (.inl rfl)) ?_ hi
  intro nextID st₁ hi₁ hfound
  split
  · next hnil => exact followed_none (hnil ▸ hfound)
  · next hne =>
    have hadj := hfound.adjacent hne
    obtain ⟨-, d, hd⟩ := hi₁.appended_of_adjacent hadj
    have hwhole : ∀ o st', Later st₁ st' → Γ.guard.op c o st' → Whole Γ.cfg nextID :=
      fun o st' hl hg => hwell o st' hg _ (.inr (hadj.trans (ids_extend hl.log).isInfix))
    refine meets_data hd (fun st' hl hg => (hwhole _ st' hl hg).dataKey) ?_
    intro st₂ hl₂ hi₂
    have hd₂ := (appended_extend hl₂.log).subset hd
    refine meets_link (known_of_appended hi₂ hd₂)
      (fun st' hl hg => (hwhole _ st' (hl₂.trans hl) hg).chainKey) ?_
    intro st₃ next hl₃ hi₃ _ hnext
    have hl := hl₂.trans hl₃
    simp only [Prog.ret_bind, Prog.pure_eq, Γ.cd.parse_serialize]
    exact followed_ret hi₃ ((appended_extend hl.log).subset hd)
      (hadj.trans (ids_extend hl.log).isInfix) hnext

namespace DotNet

theorem nextIDOf_meets (hcur : Known Γ.cfg cur st) :
    Γ.Meets n c (NextFound Γ.cfg n cur (st.2.first n = none)) (fun _ _ => False)
      (nextIDOf Γ.cfg cur) st := by
  unfold nextIDOf
  split
  · refine meets_link hcur (fun _ _ _ => rfl) ?_
    intro st' next _ _ hlast hadj
    exact nextFound_ret ⟨hlast, hadj⟩
  · next hne => exact nextFound_ret ⟨fun hnil => absurd hnil hne, fun _ => hcur.next hne⟩

theorem fetchNext_meets (hcur : Known Γ.cfg cur st) (hi : ListInv Γ.cfg Γ.cd st.1 st.2.log) :
    Γ.Meets n c (Followed Γ.cfg n cur (st.2.first n = none)) (fun _ _ => False)
      (fetchNext Γ.cfg Γ.cd cur) st := by
  refine Safe.bind (nextIDOf_meets hcur) ?_ hi
  intro nextID st₁ hi₁ hfound
  split
  · next hnil => exact followed_none (hnil ▸ hfound)
  · next hne =>
    have hadj := hfound.adjacent hne
    obtain ⟨-, d, hd⟩ := hi₁.appended_of_adjacent hadj
    refine meets_data hd (fun _ _ _ => rfl) ?_
    intro st₂ hl₂ hi₂
    have hd₂ := (appended_extend hl₂.log).subset hd
    simp only [Prog.bind_eq, Prog.ret_bind, Γ.cd.parse_serialize]
    refine meets_link (known_of_appended hi₂ hd₂) (fun _ _ _ => rfl) ?_
    intro st₃ next hl₃ hi₃ _ hnext
    have hl := hl₂.trans hl₃
    exact followed_ret hi₃ ((appended_extend hl.log).subset hd)
      (hadj.trans (ids_extend hl.log).isInfix) hnext

end DotNet

namespace Script

theorem nextIDOf_meets (hcur : Known Γ.cfg cur st) :
    Γ.Meets n c (NextFound Γ.cfg n cur (st.2.first n = none)) (fun _ _ => False)
      (nextIDOf Γ.cfg cur) st := by
  unfold nextIDOf
  split
  · refine meets_link hcur (fun _ _ _ => rfl) ?_
    intro st' next _ _ hlast hadj
    exact nextFound_ret ⟨hlast, hadj⟩
  · next hne => exact nextFound_ret ⟨fun hnil => absurd hnil hne, fun _ => hcur.next hne⟩

theorem next_meets (hcur : Known Γ.cfg cur st) (hi : ListInv Γ.cfg Γ.cd st.1 st.2.log) :
    Γ.Meets n c (Followed Γ.cfg n cur (st.2.first n = none)) (fun _ _ => False)
      (next Γ.cfg Γ.cd cur) st := by
  refine Safe.bind (nextIDOf_meets hcur) ?_ hi
  intro nextID st₁ hi₁ hfound
  split
  · next hnil => exact followed_none (hnil ▸ hfound)
  · next hne =>
    have hadj := hfound.adjacent hne
    obtain ⟨-, d, hd⟩ := hi₁.appended_of_adjacent hadj
    refine meets_data hd (fun _ _ _ => rfl) ?_
    intro st₂ hl₂ hi₂
    have hd₂ := (appended_extend hl₂.log).subset hd
    refine meets_link (known_of_appended hi₂ hd₂) (fun _ _ _ => rfl) ?_
    intro st₃ next hl₃ hi₃ _ hnext
    have hl := hl₂.trans hl₃
    simp only [Prog.ret_bind, Prog.pure_eq, Γ.cd.parse_serialize]
    exact followed_ret hi₃ ((appended_extend hl.log).subset hd)
      (hadj.trans (ids_extend hl.log).isInfix) hnext

end Script

/-! ## The head -/

/-- The item that a call for the head comes back with. -/
def HeadFound (cfg : Config) (it : ChainItem T) (st : Store × Ghost T) : Prop :=
  it.id = cfg.headKey ∧ Known cfg it st

theorem headFound (hi : ListInv cfg cd st.1 st.2.log) {next : String} {data : Option T}
    (hnext : st.1 cfg.headKeyStr = some next) : HeadFound cfg ⟨cfg.headKey, data, next⟩ st := by
  have hthere : st.1 (cfg.chainKey cfg.headKey) ≠ none := by
    rw [show cfg.chainKey cfg.headKey = cfg.headKeyStr from rfl, hnext]
    exact Option.some_ne_none _
  have hknown : Known cfg ⟨cfg.headKey, data, ""⟩ st :=
    ⟨List.mem_cons_self, hthere, fun hne => absurd rfl hne, fun hne => absurd rfl hne⟩
  obtain ⟨next', hget, -, hadj⟩ := hi.link_of_known hknown
  obtain rfl : next = next' := Option.some.inj (hnext.symm.trans hget)
  exact ⟨rfl, hknown.withNext hadj⟩

omit [Inhabited T] in
theorem HeadFound.later {it : ChainItem T} {st' : Store × Ghost T} (h : HeadFound cfg it st)
    (hl : Later st st') : HeadFound cfg it st' :=
  ⟨h.1, h.2.later hl⟩

/-- C++ -/
theorem head_meets (hc : c.appends = none)
    (hwell : ∀ o st', Γ.guard.op c o st' → cStr Γ.cfg.headKeyStr = Γ.cfg.headKeyStr) :
    Γ.Meets n c (HeadFound Γ.cfg) (fun _ _ => False) (head Γ.cfg) st := by
  refine meets_head hc (fun st' hg => hwell _ st' hg) ?_
  intro st' next _ hi hnext
  exact Safe.ret (headFound hi hnext) fun _ _ hm _ h => h.later hm.later

theorem DotNet.head_meets (hc : c.appends = none) (d : T) :
    Γ.Meets n c (fun o st' => ∃ it, o = some it ∧ HeadFound Γ.cfg it st') (fun _ _ => False)
      (DotNet.head Γ.cfg d) st := by
  refine meets_head hc (fun _ _ => rfl) ?_
  intro st' next _ hi hnext
  refine Safe.ret ⟨_, rfl, headFound hi hnext⟩ ?_
  intro st₁ st₂ hm _ h
  exact h.imp fun it hit => ⟨hit.1, hit.2.later hm.later⟩

theorem Script.start_meets (hc : c.appends = none) (d : T) :
    Γ.Meets n c (fun o st' => ∃ it, o = some it ∧ HeadFound Γ.cfg it st') (fun _ _ => False)
      (Script.start Γ.cfg d) st := by
  refine meets_head hc (fun _ _ => rfl) ?_
  intro st' next _ hi hnext
  refine Safe.ret ⟨_, rfl, headFound hi hnext⟩ ?_
  intro st₁ st₂ hm _ h
  exact h.imp fun it hit => ⟨hit.1, hit.2.later hm.later⟩

/-! ## Calls that only read -/

/-- The command is a `GET`. -/
def Op.Gets (o : Op) : Prop := ∃ key, o = .get key

theorem exec_of_gets {o : Op} (h : o.Gets) (st : Store × Ghost T) :
    ((system Γ.cfg Γ.cd Γ.may).exec n c o st).2 = (st.1, st.2.started n) := by
  obtain ⟨key, rfl⟩ := h
  show (st.1, note n c (.get key) (st.1 key) st.1 st.1 st.2) = _
  rw [note_started rfl]

/-- A call that only reads is idle, whatever item it is handed. -/
theorem idle_of_gets {p : Call β} (hp : p.Only Op.Gets) (hidle : Idle n st) :
    Γ.Meets n c (fun _ st' => Idle n st') (fun _ st' => Idle n st') p st := by
  induction p generalizing st with
  | ret a => exact fun st' hr _ => hidle.stable hr
  | fail e => exact fun st' hr _ => hidle.stable hr
  | act o k ih =>
      intro st' hr hi _
      obtain ⟨key, rfl⟩ := hp.1
      have hexec := exec_of_gets (Γ := Γ) (n := n) (c := c) ⟨key, rfl⟩ st'
      rw [hexec]
      refine ⟨hi, fun u hu => ?_, ih _ (hp.2 _) (hidle.stable hr).started⟩
      have := moves_note (n := n) hu (c := c) (o := .get key) (r := st'.1 key) (g := st'.2)
        (fun k (hk : st'.1 k ≠ none) => hk)
      rwa [note_started rfl] at this

omit [Inhabited T] in
theorem readItem_gets (who id : String) : (readItem cfg cd who id).Only Op.Gets := by
  refine ⟨⟨_, rfl⟩, fun r => ?_⟩
  cases r with
  | none => trivial
  | some r =>
      refine ⟨⟨_, rfl⟩, fun r' => ?_⟩
      cases r' <;> trivial

omit [Inhabited T] in
theorem fetchNext_gets (cur : ChainItem T) : (fetchNext cfg cd cur).Only Op.Gets := by
  refine Prog.Only.bind ?_ fun nextID => ?_
  · unfold nextIDOf
    split
    · refine ⟨⟨_, rfl⟩, fun r => ?_⟩
      cases r <;> trivial
    · trivial
  · split
    · trivial
    · exact Prog.Only.bind (readItem_gets _ _) fun _ => trivial

omit [Inhabited T] in
theorem DotNet.fetchNext_gets (cur : ChainItem T) : (DotNet.fetchNext cfg cd cur).Only Op.Gets := by
  refine Prog.Only.bind ?_ fun nextID => ?_
  · unfold DotNet.nextIDOf
    split
    · refine ⟨⟨_, rfl⟩, fun r => ?_⟩
      cases r <;> trivial
    · trivial
  · split
    · trivial
    · refine ⟨⟨_, rfl⟩, fun r => ?_⟩
      cases r with
      | none => trivial
      | some r =>
          simp only [Prog.ret_bind]
          split
          · trivial
          · refine ⟨⟨_, rfl⟩, fun r' => ?_⟩
            cases r' <;> trivial

omit [Inhabited T] in
theorem Script.next_gets (cur : ChainItem T) : (Script.next cfg cd cur).Only Op.Gets := by
  refine Prog.Only.bind ?_ fun nextID => ?_
  · unfold Script.nextIDOf
    split
    · exact ⟨⟨_, rfl⟩, fun r => trivial⟩
    · trivial
  · split
    · trivial
    · refine ⟨⟨_, rfl⟩, fun r => ?_⟩
      cases r with
      | none => trivial
      | some r =>
          refine ⟨⟨_, rfl⟩, fun r' => ?_⟩
          cases r' with
          | none => trivial
          | some r' =>
              simp only [Prog.ret_bind]
              split <;> trivial

end Calls

end RedisChain
