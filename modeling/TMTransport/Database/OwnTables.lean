import TMTransport.Database.Statements

/-!
# Objects that write to their own tables

Several objects of one instantiation, and calls of any of them in any order. Whatever
the database does with a statement, each statement names the table of the object that
issues it, and each table ends up as it would without the others, if and only if the
objects that issue a statement of one kind all write it the same way
(`ownTables_iff_alike`). So there can be one table for each kind of statement.
-/

namespace Database

/-- Objects with different tables or sessions. -/
structure Objects (I S : Type) where
  object : I → Object S
  apart : ∀ i j, i ≠ j → (object i).session ≠ (object j).session ∨
    (object i).tableName ≠ (object j).tableName

section Calls

variable {I S C K D T : Type} [DecidableEq K] [DecidableEq S]

variable (layout : Layout) (backend : S → Backend) (order : HashOrder K D)

/-- What an object issues in a call, if nothing fails. -/
def Object.plan (o : Object S) (c : Call K D T) : List (Slot × Bound K D T) :=
  if o.accepts c.account ∧ o.session.isSome then statements order c else []

/-- How an object writes a statement. -/
def Object.ownText (o : Object S) (slot : Slot) : Template :=
  slot.template layout ((o.session.map backend).getD .other) o.tableName

/-- The calls of objects, one after the other. -/
def Process.run (engine : Engine S C K D T) (objects : Objects I S) (p : Process S C)
    (calls : List (I × Call K D T)) : Process S C :=
  calls.foldl
    (fun p x => (p.call layout engine backend order (objects.object x.1) x.2).1) p

/-- What an object's statements do to its table, if each has the text that the object writes. -/
def effect (engine : Engine S C K D T) (session : S) (tableName : String) :
    C → List (Slot × Bound K D T) → C × Bool
  | c, [] => (c, true)
  | c, st :: sts =>
    match engine.execute session (st.1.template layout (backend session) tableName) st.2 c with
    | (c', true) => effect engine session tableName c' sts
    | (c', false) => (c', false)

/-- A process in which nothing has been called. -/
def fresh (tables : S → String → C) : Process S C where
  kept := fun _ => none
  tables := tables
  issued := []

/-- Whatever the database does, the objects write to their own tables. -/
structure OwnTables [DecidableEq I] (objects : Objects I S) (calls : List (I × Call K D T)) :
    Prop where
  names : ∀ (C : Type) (engine : Engine S C K D T) (tables : S → String → C), ∀ st ∈
    ((fresh tables).run layout backend order engine objects calls).issued, st.2.table = st.1
  /-- The table of an object is as if there were no other. -/
  alone : ∀ (C : Type) (engine : Engine S C K D T) (tables : S → String → C) (i : I) (session : S),
    (objects.object i).session = some session →
      ((fresh tables).run layout backend order engine objects calls).tables session
          (objects.object i).tableName =
        ((fresh tables).run layout backend order engine objects
          (calls.filter fun x => x.1 = i)).tables session (objects.object i).tableName

/-- The objects that issue a statement of one kind write it the same way. -/
def Alike (objects : Objects I S) (calls : List (I × Call K D T)) : Prop :=
  ∀ x ∈ calls, ∀ y ∈ calls, ∀ st ∈ (objects.object x.1).plan order x.2,
    ∀ st' ∈ (objects.object y.1).plan order y.2, st.1 = st'.1 →
      (objects.object x.1).ownText layout backend st.1 =
        (objects.object y.1).ownText layout backend st'.1

end Calls

section Lemmas

variable {I S C K D T : Type} [DecidableEq K] [DecidableEq S]

variable {layout : Layout} {backend : S → Backend} {order : HashOrder K D}
  {engine : Engine S C K D T} {objects : Objects I S} {calls : List (I × Call K D T)}
  {p q : Process S C} {session : S} {tableName : String} {sts : List (Slot × Bound K D T)}

@[simp]
theorem table_template (b : Backend) (t : String) (slot : Slot) :
    (slot.template layout b t).table = t := by
  cases slot <;> rfl

theorem writeTable_self (tables : S → String → C) (session : S) (table : String) (c : C) :
    writeTable tables session table c session table = c := by
  rw [writeTable, Function.update_self, Function.update_self]

theorem writeTable_of_ne (tables : S → String → C) {session session' : S} {table table' : String}
    (c : C) (h : session' ≠ session ∨ table' ≠ table) :
    writeTable tables session table c session' table' = tables session' table' := by
  rw [writeTable]
  by_cases hs : session' = session
  · subst hs
    rw [Function.update_self, Function.update_of_ne (h.resolve_left (fun h => h rfl))]
  · rw [Function.update_of_ne hs]

/-- What a call does to the process is what its plan does. -/
theorem call_of_session {o : Object S} (h : o.session = some session) (c : Call K D T) :
    (p.call layout engine backend order o c).1 =
      (p.issueAll layout engine backend session o.tableName (o.plan order c)).1 := by
  unfold Process.call Object.plan
  rw [h]
  cases o.accepts c.account with
  | false => rfl
  | true => rfl

theorem call_of_accepts {o : Object S} {c : Call K D T} (haccepts : o.accepts c.account = true)
    (h : o.session = some session) :
    p.call layout engine backend order o c =
      ((p.issueAll layout engine backend session o.tableName (o.plan order c)).1,
        if (p.issueAll layout engine backend session o.tableName (o.plan order c)).2 then .success
          else .threw) := by
  have hplan : o.plan order c = statements order c := if_pos ⟨haccepts, by rw [h]; rfl⟩
  rw [hplan, Process.call, if_pos haccepts, h]

theorem call_of_none {o : Object S} (h : o.session = none) (c : Call K D T) :
    (p.call layout engine backend order o c).1 = p := by
  unfold Process.call
  rw [h]
  split <;> rfl

omit [DecidableEq S] in
theorem ownText_of_session {o : Object S} (h : o.session = some session) (slot : Slot) :
    o.ownText layout backend slot = slot.template layout (backend session) o.tableName := by
  rw [Object.ownText, h]
  rfl

theorem run_cons (x : I × Call K D T) (l : List (I × Call K D T)) :
    p.run layout backend order engine objects (x :: l) =
      (p.call layout engine backend order (objects.object x.1) x.2).1.run layout backend order
        engine objects l :=
  rfl

/-! ## Texts that are settled -/

/-- All kept texts are what each of these calls would write. -/
def Settled (layout : Layout) (backend : S → Backend) (order : HashOrder K D)
    (objects : Objects I S) (calls : List (I × Call K D T)) (p : Process S C) : Prop :=
  ∀ slot text, p.kept slot = some text → ∀ x ∈ calls,
    ∀ st ∈ (objects.object x.1).plan order x.2, st.1 = slot →
      text = (objects.object x.1).ownText layout backend slot

omit [DecidableEq S] in
theorem Settled.text (h : Settled layout backend order objects calls p) {x : I × Call K D T}
    (hx : x ∈ calls) (hsession : (objects.object x.1).session = some session)
    {st : Slot × Bound K D T} (hst : st ∈ (objects.object x.1).plan order x.2) :
    p.text (st.1.template layout (backend session) (objects.object x.1).tableName) st.1 =
      st.1.template layout (backend session) (objects.object x.1).tableName := by
  rw [Process.text]
  cases hkept : p.kept st.1 with
  | none => rfl
  | some text =>
      rw [Option.getD_some, h _ _ hkept x hx st hst rfl]
      exact ownText_of_session hsession _

/-- What has been done for one object: its table has become `c`. -/
structure DoneFor (session : S) (tableName : String) (c : C) (p p' : Process S C) : Prop where
  names : ∀ st ∈ p'.issued, st ∈ p.issued ∨ st.2.table = st.1
  own : p'.tables session tableName = c
  others : ∀ session' table', session' ≠ session ∨ table' ≠ tableName →
    p'.tables session' table' = p.tables session' table'

/-- A statement, with the text settled. -/
theorem Settled.issue (engine : Engine S C K D T)
    (halike : Alike layout backend order objects calls)
    (h : Settled layout backend order objects calls p) {x : I × Call K D T} (hx : x ∈ calls)
    (hsession : (objects.object x.1).session = some session) {st : Slot × Bound K D T}
    (hst : st ∈ (objects.object x.1).plan order x.2) {c : C} {ok : Bool}
    (hexecute : engine.execute session
      (st.1.template layout (backend session) (objects.object x.1).tableName) st.2
        (p.tables session (objects.object x.1).tableName) = (c, ok)) :
    ∃ p', p.issue layout engine backend session (objects.object x.1).tableName st = (p', ok) ∧
      Settled layout backend order objects calls p' ∧
      DoneFor session (objects.object x.1).tableName c p p' := by
  rw [Process.issue, h.text hx hsession hst, table_template, hexecute]
  refine ⟨_, rfl, ?_, ⟨?_, writeTable_self _ _ _ _, fun _ _ hne => writeTable_of_ne _ _ hne⟩⟩
  · intro slot text hkept y hy st' hst' hslot
    dsimp only at hkept
    by_cases hs : slot = st.1
    · subst hs
      rw [Function.update_self] at hkept
      obtain rfl := Option.some.inj hkept
      rw [← ownText_of_session hsession, halike x hx y hy st hst st' hst' hslot.symm, hslot]
    · rw [Function.update_of_ne hs] at hkept
      exact h slot text hkept y hy st' hst' hslot
  · intro st' hst'
    rcases List.mem_append.mp hst' with hst' | hst'
    · exact .inl hst'
    · obtain rfl := List.mem_singleton.mp hst'
      exact .inr (table_template _ _ _)

/-- The statements of one object, with the texts settled. -/
theorem Settled.issueAll (engine : Engine S C K D T)
    (halike : Alike layout backend order objects calls)
    (h : Settled layout backend order objects calls p) {x : I × Call K D T} (hx : x ∈ calls)
    (hsession : (objects.object x.1).session = some session)
    (hsts : ∀ st ∈ sts, st ∈ (objects.object x.1).plan order x.2) :
    ∃ p', p.issueAll layout engine backend session (objects.object x.1).tableName sts =
        (p', (effect layout backend engine session (objects.object x.1).tableName
          (p.tables session (objects.object x.1).tableName) sts).2) ∧
      Settled layout backend order objects calls p' ∧
      DoneFor session (objects.object x.1).tableName
        (effect layout backend engine session (objects.object x.1).tableName
          (p.tables session (objects.object x.1).tableName) sts).1 p p' := by
  induction sts generalizing p with
  | nil => exact ⟨p, rfl, h, fun _ hst => .inl hst, rfl, fun _ _ _ => rfl⟩
  | cons st sts ih =>
      obtain ⟨hst, hsts⟩ := List.forall_mem_cons.mp hsts
      rw [Process.issueAll, effect]
      cases hexecute : engine.execute session
          (st.1.template layout (backend session) (objects.object x.1).tableName) st.2
          (p.tables session (objects.object x.1).tableName) with
      | mk c ok =>
          obtain ⟨p', hp', hsettled, hdone⟩ := h.issue engine halike hx hsession hst hexecute
          rw [hp']
          cases ok with
          | false => exact ⟨p', rfl, hsettled, hdone⟩
          | true =>
              obtain ⟨p'', hp'', hsettled', hdone'⟩ := ih hsettled hsts
              rw [hdone.own] at hp'' hdone'
              refine ⟨p'', hp'', hsettled', fun st' hst' => ?_, hdone'.own,
                fun session' table' hne => ?_⟩
              · rcases hdone'.names st' hst' with hst' | hst'
                · exact hdone.names st' hst'
                · exact .inr hst'
              · exact (hdone'.others _ _ hne).trans (hdone.others _ _ hne)

/-- A call of an object with a session. -/
theorem Settled.call (engine : Engine S C K D T)
    (halike : Alike layout backend order objects calls)
    (h : Settled layout backend order objects calls p) {x : I × Call K D T} (hx : x ∈ calls)
    (hsession : (objects.object x.1).session = some session) :
    let p' := (p.call layout engine backend order (objects.object x.1) x.2).1
    Settled layout backend order objects calls p' ∧
      DoneFor session (objects.object x.1).tableName
        (effect layout backend engine session (objects.object x.1).tableName
          (p.tables session (objects.object x.1).tableName)
          ((objects.object x.1).plan order x.2)).1 p p' := by
  obtain ⟨p', hp', hsettled, hdone⟩ := h.issueAll engine halike hx hsession fun _ hst => hst
  dsimp only
  rw [call_of_session hsession, hp']
  exact ⟨hsettled, hdone⟩

omit [DecidableEq S] in
theorem settled_fresh (tables : S → String → C) :
    Settled layout backend order objects calls (fresh tables) := by
  intro slot text hkept
  cases hkept

theorem Settled.run (engine : Engine S C K D T)
    (halike : Alike layout backend order objects calls)
    (h : Settled layout backend order objects calls p) {l : List (I × Call K D T)}
    (hl : ∀ x ∈ l, x ∈ calls) :
    Settled layout backend order objects calls
        (p.run layout backend order engine objects l) ∧
      ∀ st ∈ (p.run layout backend order engine objects l).issued,
        st ∈ p.issued ∨ st.2.table = st.1 := by
  induction l generalizing p with
  | nil => exact ⟨h, fun _ hst => .inl hst⟩
  | cons x l ih =>
      obtain ⟨hx, hl⟩ := List.forall_mem_cons.mp hl
      rw [run_cons]
      cases hsession : (objects.object x.1).session with
      | none =>
          rw [call_of_none hsession]
          exact ih h hl
      | some session =>
          obtain ⟨hsettled, hdone⟩ := h.call engine halike hx hsession
          refine ⟨(ih hsettled hl).1, fun st hst => ?_⟩
          rcases (ih hsettled hl).2 st hst with hst | hst
          · exact hdone.names st hst
          · exact .inr hst

/-- The calls of the others can be left out. -/
theorem Settled.run_alone [DecidableEq I] (halike : Alike layout backend order objects calls)
    {i : I} (hsession : (objects.object i).session = some session) {l : List (I × Call K D T)}
    (hl : ∀ x ∈ l, x ∈ calls) (h : Settled layout backend order objects calls p)
    (h' : Settled layout backend order objects calls q)
    (hsame : p.tables session (objects.object i).tableName =
      q.tables session (objects.object i).tableName) :
    (p.run layout backend order engine objects l).tables session (objects.object i).tableName =
      (q.run layout backend order engine objects (l.filter fun x => x.1 = i)).tables session
        (objects.object i).tableName := by
  induction l generalizing p q with
  | nil => exact hsame
  | cons x l ih =>
      obtain ⟨hx, hl⟩ := List.forall_mem_cons.mp hl
      rw [run_cons]
      by_cases hi : x.1 = i
      · -- both processes take the step
        rw [List.filter_cons_of_pos (by simpa using hi), run_cons]
        subst hi
        obtain ⟨hsettled, hdone⟩ := h.call engine halike hx hsession
        obtain ⟨hsettled', hdone'⟩ := h'.call engine halike hx hsession
        refine ih hl hsettled hsettled' ?_
        rw [hdone.own, hdone'.own, hsame]
      · -- the other one does not touch the table
        rw [List.filter_cons_of_neg (by simpa using hi)]
        cases hsession' : (objects.object x.1).session with
        | none =>
            rw [call_of_none hsession']
            exact ih hl h h' hsame
        | some session' =>
            obtain ⟨hsettled, hdone⟩ := h.call engine halike hx hsession'
            refine ih hl hsettled h' ((hdone.others session _ ?_).trans hsame)
            rcases objects.apart i x.1 (Ne.symm hi) with hne | hne
            · exact .inl fun heq => hne (by rw [hsession, hsession', heq])
            · exact .inr hne

theorem ownTables_of_alike [DecidableEq I] (halike : Alike layout backend order objects calls) :
    OwnTables layout backend order objects calls where
  names := fun _ _ tables st hst =>
    (((settled_fresh tables).run _ halike fun _ hx => hx).2 st hst).resolve_left List.not_mem_nil
  alone := fun _ _ tables _ _ hsession =>
    Settled.run_alone halike hsession (fun _ hx => hx) (settled_fresh tables)
      (settled_fresh tables) rfl

/-! ## A database that tells texts apart -/

/-- It takes down what it is asked to do. -/
def ledger (S K D T : Type) : Engine S (List (Template × Bound K D T)) K D T where
  execute := fun _ text bound c => (c ++ [(text, bound)], true)

/-- What is bound to a statement of each kind. -/
def Slot.Takes : Slot → Bound K D T → Prop
  | .itemInsert, .rows _ => True
  | .itemUpdate, .rows _ => True
  | .itemDelete, .keys _ => True
  | .collectionDelete, .keys _ => True
  | .collectionInsert, .rows _ => True
  | .exporter, .records _ => True
  | .exporterWithDuplicateCheck, .rows _ => True
  | .batchExporter, .records _ => True
  | _, _ => False

omit [DecidableEq S] in
theorem takes_of_mem_plan {o : Object S} {c : Call K D T} {st : Slot × Bound K D T}
    (h : st ∈ o.plan order c) : st.1.Takes st.2 := by
  unfold Object.plan at h
  split at h
  · cases c with
    | handleCollectionUpdate account delta =>
        simp only [statements, List.mem_append] at h
        rcases h with h | h
        · split at h
          · cases h
          · rw [List.mem_singleton.mp h]
            trivial
        · split at h
          · cases h
          · rw [List.mem_singleton.mp h]
            trivial
    | exportBatch data =>
        simp only [statements] at h
        split at h
        · cases h
        · rw [List.mem_singleton.mp h]
          trivial
    | _ =>
        rw [List.mem_singleton.mp h]
        trivial
  · cases h

omit [DecidableEq K] [DecidableEq S] in
/-- One object writes statements for the same values the same way, if it writes one of them as
another object does. -/
theorem template_eq {b b' : Backend} {t t' : String} {slot slot' : Slot}
    {bound : Bound K D T} (h : slot.Takes bound) (h' : slot'.Takes bound)
    (heq : slot.template layout b' t' = slot'.template layout b t) :
    slot.template layout b' t' = slot.template layout b t := by
  obtain rfl : t' = t := by simpa using congrArg Template.table heq
  cases slot with
  | exporter =>
      cases bound with
      | records ts =>
          cases slot' with
          | exporter => exact heq
          | batchExporter => exact heq
          | _ => exact h'.elim
      | _ => exact h.elim
  | batchExporter =>
      cases bound with
      | records ts =>
          cases slot' with
          | exporter => exact heq
          | batchExporter => exact heq
          | _ => exact h'.elim
      | _ => exact h.elim
  | exporterWithDuplicateCheck =>
      cases slot' with
      | exporterWithDuplicateCheck => exact heq
      | _ => cases heq
  | _ => rfl

/-- What is in the ledger after some statements of objects, and how it has come there. -/
structure Kept (layout : Layout) (backend : S → Backend)
    (done : List (Object S × Slot × Bound K D T))
    (p : Process S (List (Template × Bound K D T))) : Prop where
  /-- All that has been asked for is there, with the text that is kept. -/
  asked : ∀ e ∈ done, ∀ session, e.1.session = some session → ∃ text,
    p.kept e.2.1 = some text ∧ (text, e.2.2) ∈ p.tables session text.table ∧
      (e.1.tableName, text) ∈ p.issued
  /-- Nothing else is there. -/
  only : ∀ session table text bound, (text, bound) ∈ p.tables session table →
    ∃ e ∈ done, e.2.2 = bound ∧ p.kept e.2.1 = some text
  own : ∀ slot text, p.kept slot = some text →
    ∃ e ∈ done, text = e.1.ownText layout backend slot

omit [DecidableEq K] [DecidableEq S] in
theorem kept_fresh : Kept (K := K) (D := D) (T := T) layout backend [] (fresh fun _ _ => []) where
  asked := fun e he => by cases he
  only := fun session table text bound h => by cases h
  own := fun slot text h => by cases h

omit [DecidableEq K] in
theorem Kept.issue {done : List (Object S × Slot × Bound K D T)}
    {p : Process S (List (Template × Bound K D T))} (h : Kept layout backend done p)
    {o : Object S} (hsession : o.session = some session) (st : Slot × Bound K D T) :
    Kept layout backend (done ++ [(o, st)])
      (p.issue layout (ledger S K D T) backend session o.tableName st).1 := by
  have hown : o.ownText layout backend st.1 =
      st.1.template layout (backend session) o.tableName := ownText_of_session hsession st.1
  have htext : p.text (st.1.template layout (backend session) o.tableName) st.1 =
      (p.kept st.1).getD (o.ownText layout backend st.1) := by
    rw [Process.text, hown]
  rw [Process.issue, htext]
  generalize hgot : (p.kept st.1).getD (o.ownText layout backend st.1) = got
  -- a text that is kept stays
  have hkept : ∀ slot text, p.kept slot = some text →
      Function.update p.kept st.1 (some got) slot = some text := by
    intro slot text hslot
    by_cases hs : slot = st.1
    · subst hs
      rw [Function.update_self, ← hgot, hslot]
      rfl
    · rw [Function.update_of_ne hs, hslot]
  have hmem : ∀ session' table text bound, (text, bound) ∈ p.tables session' table →
      (text, bound) ∈ writeTable p.tables session got.table
        (p.tables session got.table ++ [(got, st.2)]) session' table := by
    intro session' table text bound hin
    by_cases hs : session' = session ∧ table = got.table
    · obtain ⟨rfl, rfl⟩ := hs
      rw [writeTable_self]
      exact List.mem_append_left _ hin
    · rw [writeTable_of_ne _ _ (Decidable.not_and_iff_or_not.mp hs)]
      exact hin
  refine ⟨fun e he session' hsession' => ?_, fun session' table text bound hin => ?_,
    fun slot text hslot => ?_⟩
  · rcases List.mem_append.mp he with he | he
    · obtain ⟨text, hslot, hin, hissued⟩ := h.asked e he session' hsession'
      exact ⟨text, hkept _ _ hslot, hmem _ _ _ _ hin, List.mem_append_left _ hissued⟩
    · obtain rfl := List.mem_singleton.mp he
      obtain rfl := Option.some.inj (hsession'.symm.trans hsession)
      refine ⟨got, Function.update_self _ _ _, ?_,
        List.mem_append_right _ (List.mem_singleton.mpr rfl)⟩
      dsimp only [ledger]
      rw [writeTable_self]
      exact List.mem_append_right _ (List.mem_singleton.mpr rfl)
  · dsimp only [ledger] at hin
    by_cases hs : session' = session ∧ table = got.table
    · obtain ⟨rfl, rfl⟩ := hs
      rw [writeTable_self] at hin
      rcases List.mem_append.mp hin with hin | hin
      · obtain ⟨e, he, hbound, hslot⟩ := h.only _ _ _ _ hin
        exact ⟨e, List.mem_append_left _ he, hbound, hkept _ _ hslot⟩
      · obtain ⟨rfl, rfl⟩ := Prod.mk.inj (List.mem_singleton.mp hin)
        exact ⟨(o, st), List.mem_append_right _ (List.mem_singleton.mpr rfl), rfl,
          Function.update_self _ _ _⟩
    · rw [writeTable_of_ne _ _ (Decidable.not_and_iff_or_not.mp hs)] at hin
      obtain ⟨e, he, hbound, hslot⟩ := h.only _ _ _ _ hin
      exact ⟨e, List.mem_append_left _ he, hbound, hkept _ _ hslot⟩
  · dsimp only at hslot
    by_cases hs : slot = st.1
    · subst hs
      rw [Function.update_self] at hslot
      obtain rfl := Option.some.inj hslot
      cases hold : p.kept st.1 with
      | none =>
          refine ⟨(o, st), List.mem_append_right _ (List.mem_singleton.mpr rfl), ?_⟩
          rw [← hgot, hold]
          rfl
      | some text =>
          obtain ⟨e, he, htext⟩ := h.own _ _ hold
          refine ⟨e, List.mem_append_left _ he, ?_⟩
          rw [← hgot, hold]
          exact htext
    · rw [Function.update_of_ne hs] at hslot
      obtain ⟨e, he, htext⟩ := h.own _ _ hslot
      exact ⟨e, List.mem_append_left _ he, htext⟩

omit [DecidableEq K] in
theorem Kept.issueAll {done : List (Object S × Slot × Bound K D T)}
    {p : Process S (List (Template × Bound K D T))} (h : Kept layout backend done p)
    {o : Object S} (hsession : o.session = some session) (sts : List (Slot × Bound K D T)) :
    Kept layout backend (done ++ sts.map fun st => (o, st))
      (p.issueAll layout (ledger S K D T) backend session o.tableName sts).1 := by
  induction sts generalizing done p with
  | nil =>
      rw [List.map_nil, List.append_nil]
      exact h
  | cons st sts ih =>
      have hone := ih (h.issue hsession st)
      rw [List.append_assoc] at hone
      exact hone

theorem Kept.call {done : List (Object S × Slot × Bound K D T)}
    {p : Process S (List (Template × Bound K D T))} (h : Kept layout backend done p)
    (order : HashOrder K D) (o : Object S) (c : Call K D T) :
    Kept layout backend (done ++ (o.plan order c).map fun st => (o, st))
      (p.call layout (ledger S K D T) backend order o c).1 := by
  cases hsession : o.session with
  | none =>
      have hplan : o.plan order c = [] := if_neg fun h => by
        rw [hsession] at h
        exact Bool.false_ne_true h.2
      rw [call_of_none hsession, hplan, List.map_nil, List.append_nil]
      exact h
  | some session =>
      rw [call_of_session hsession]
      exact h.issueAll hsession _

/-- The statements that are issued in the calls, when nothing fails. -/
def askedFor (order : HashOrder K D) (objects : Objects I S) (calls : List (I × Call K D T)) :
    List (Object S × Slot × Bound K D T) :=
  calls.flatMap fun x =>
    ((objects.object x.1).plan order x.2).map fun st => (objects.object x.1, st)

theorem Kept.run {done : List (Object S × Slot × Bound K D T)}
    {p : Process S (List (Template × Bound K D T))} (h : Kept layout backend done p)
    (calls : List (I × Call K D T)) :
    Kept layout backend (done ++ askedFor order objects calls)
      (p.run layout backend order (ledger S K D T) objects calls) := by
  induction calls generalizing done p with
  | nil =>
      rw [askedFor, List.flatMap_nil, List.append_nil]
      exact h
  | cons x calls ih =>
      have hone := ih (h.call order (objects.object x.1) x.2)
      rw [List.append_assoc] at hone
      exact hone

omit [DecidableEq S] in
theorem mem_askedFor {e : Object S × Slot × Bound K D T} :
    e ∈ askedFor order objects calls ↔ ∃ x ∈ calls, e.1 = objects.object x.1 ∧
      e.2 ∈ (objects.object x.1).plan order x.2 := by
  rw [askedFor, List.mem_flatMap]
  refine exists_congr fun x => and_congr_right fun _ => ?_
  rw [List.mem_map]
  constructor
  · rintro ⟨st, hst, rfl⟩
    exact ⟨rfl, hst⟩
  · intro h
    exact ⟨e.2, h.2, Prod.ext h.1.symm rfl⟩

theorem kept_run (layout : Layout) (backend : S → Backend) (order : HashOrder K D)
    (objects : Objects I S) (calls : List (I × Call K D T)) :
    Kept layout backend (askedFor order objects calls)
      ((fresh fun _ _ => []).run layout backend order (ledger S K D T) objects calls) :=
  kept_fresh.run calls

theorem alike_of_ownTables [DecidableEq I] (h : OwnTables layout backend order objects calls) :
    Alike layout backend order objects calls := by
  have hall := kept_run layout backend order objects calls
  -- each statement is kept as its object writes it
  have hwrites : ∀ x ∈ calls, ∀ st ∈ (objects.object x.1).plan order x.2,
      ((fresh fun _ _ => []).run layout backend order (ledger S K D T) objects calls).kept st.1 =
        some ((objects.object x.1).ownText layout backend st.1) := by
    intro x hx st hst
    cases hsession : (objects.object x.1).session with
    | none =>
        rw [Object.plan, if_neg (fun h => by rw [hsession] at h; exact Bool.false_ne_true h.2)]
          at hst
        cases hst
    | some session =>
        obtain ⟨text, hslot, hin, hissued⟩ := hall.asked (objects.object x.1, st)
          (mem_askedFor.mpr ⟨x, hx, rfl, hst⟩) session hsession
        have htable : text.table = (objects.object x.1).tableName :=
          h.names _ (ledger S K D T) (fun _ _ => []) _ hissued
        rw [htable, h.alone _ (ledger S K D T) (fun _ _ => []) x.1 session hsession] at hin
        -- the object alone writes the text, too, for the same values
        have halone := kept_run layout backend order objects (calls.filter fun y => y.1 = x.1)
        obtain ⟨e, he, hbound, hslot'⟩ := halone.only _ _ _ _ hin
        obtain ⟨y, -, -, hst'⟩ := mem_askedFor.mp he
        obtain ⟨e', he', htext'⟩ := halone.own _ _ hslot'
        obtain ⟨y', hy', hobject', -⟩ := mem_askedFor.mp he'
        obtain ⟨e'', -, htext⟩ := hall.own _ _ hslot
        have hy' : y'.1 = x.1 := by simpa using (List.mem_filter.mp hy').2
        rw [hobject', hy'] at htext'
        rw [hslot, htext]
        exact congrArg some (template_eq (takes_of_mem_plan hst)
          (hbound ▸ takes_of_mem_plan hst') (htext.symm.trans htext'))
  intro x hx y hy st hst st' hst' hslot
  have hx' := hwrites x hx st hst
  rw [hslot, hwrites y hy st' hst'] at hx'
  rw [hslot]
  exact (Option.some.inj hx').symm

/--
**Each object writes to its own table**, whatever the database does with the statements, if and
only if the objects that issue a statement of one kind in these calls write it the same way: all
for the same table, and for backends that write dates the same way where there are dates.
-/
theorem ownTables_iff_alike [DecidableEq I] (layout : Layout) (backend : S → Backend)
    (order : HashOrder K D) (objects : Objects I S) (calls : List (I × Call K D T)) :
    OwnTables layout backend order objects calls ↔ Alike layout backend order objects calls :=
  ⟨alike_of_ownTables, ownTables_of_alike⟩

end Lemmas

/-! ## Two servers in one process -/

/-- Two tables of one database. -/
def twoTables : Objects Bool Unit where
  object := fun i => ⟨some (), if i then "b" else "a", none⟩
  apart := by
    intro i j hij
    right
    revert hij
    cases i <;> cases j <;> decide

def oneField : Layout := ⟨[⟨"k", false⟩], [⟨"d", false⟩], []⟩

def anyOrder : HashOrder Nat Nat := ⟨id, id, fun _ => .refl _, fun _ => .refl _⟩

/-- Each of the two servers is given an item. What the second one inserts goes to the table of the
first one. -/
theorem not_ownTables_twoTables :
    ¬ OwnTables (T := Unit) oneField (fun _ => .sqlite3) anyOrder twoTables
      [(false, .handleInsert "al" 1 10), (true, .handleInsert "al" 2 20)] := by
  intro h
  have hname := h.names Unit ⟨fun _ _ _ _ => ((), true)⟩ (fun _ _ => ())
    ("b", insertTemplate oneField "a") (by decide)
  exact absurd hname (by decide)

end Database
