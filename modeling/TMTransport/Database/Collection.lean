import Mathlib.Data.List.Induction
import TMTransport.Database.OwnTables

/-!
# The collection server

A delta becomes two statements: all its keys are deleted, and then the rows are inserted,
each key with its last value. The collection in memory follows by a callback when both
have gone through. There is no transaction around the two, so what has been done stays
done when one fails: the collection in memory is untouched then, and the table has
lost keys of the delta (`inStep_after`).
-/

namespace Database

section Deltas

variable {K D : Type} [DecidableEq K]

def without (f : K → Option D) (ks : List K) : K → Option D :=
  fun k => if k ∈ ks then none else f k

def withRows (f : K → Option D) (rs : List (K × D)) : K → Option D :=
  rs.foldl (fun f r => Function.update f r.1 (some r.2)) f

/-- The content after a delta: first the deletions, and then the rows in their order. -/
def applied (f : K → Option D) (delta : Delta K D) : K → Option D :=
  withRows (without f delta.deletes) delta.inserts_updates

variable {f g : K → Option D} {rs : List (K × D)}

/-- What the rows write over does not matter. -/
theorem withRows_congr (h : ∀ k, k ∉ rs.map Prod.fst → f k = g k) :
    withRows f rs = withRows g rs := by
  induction rs generalizing f g with
  | nil => exact funext fun k => h k List.not_mem_nil
  | cons r rs ih =>
      refine ih fun k hk => ?_
      dsimp only
      by_cases hr : k = r.1
      · rw [hr, Function.update_self, Function.update_self]
      · rw [Function.update_of_ne hr, Function.update_of_ne hr]
        exact h k (by simpa [hr] using hk)

/-- Only the last value of a key counts. -/
theorem withRows_lastValues (f : K → Option D) (rs : List (K × D)) :
    withRows f (lastValues rs) = withRows f rs := by
  induction rs generalizing f with
  | nil => rfl
  | cons r rs ih =>
      rw [lastValues]
      split
      · next hr =>
        rw [ih]
        refine withRows_congr fun k hk => ?_
        have hne : k ≠ r.1 := by
          rintro rfl
          exact hk hr
        exact (Function.update_of_ne hne _ _).symm
      · exact ih _

theorem mem_lastValues_keys {k : K} (rs : List (K × D)) :
    k ∈ (lastValues rs).map Prod.fst ↔ k ∈ rs.map Prod.fst := by
  induction rs with
  | nil => exact Iff.rfl
  | cons r rs ih =>
      rw [lastValues]
      split
      · next hr =>
        rw [ih, List.map_cons, List.mem_cons]
        constructor
        · exact .inr
        · rintro (rfl | hk)
          · exact hr
          · exact hk
      · rw [List.map_cons, List.map_cons, List.mem_cons, List.mem_cons, ih]

theorem lastValues_nodup (rs : List (K × D)) : ((lastValues rs).map Prod.fst).Nodup := by
  induction rs with
  | nil => exact List.nodup_nil
  | cons r rs ih =>
      rw [lastValues]
      split
      · exact ih
      · next hr =>
        rw [List.map_cons, List.nodup_cons]
        exact ⟨fun h => hr ((mem_lastValues_keys rs).mp h), ih⟩

/-- The order of rows with different keys does not matter. -/
theorem withRows_perm {rs' : List (K × D)} (hperm : rs.Perm rs') (h : (rs.map Prod.fst).Nodup)
    (f : K → Option D) : withRows f rs = withRows f rs' := by
  refine hperm.foldl_eq' (fun r hr r' hr' f => ?_) f
  by_cases hkey : r.1 = r'.1
  · rw [List.inj_on_of_nodup_map h hr hr' hkey]
  · exact (Function.update_comm hkey _ _ _)

variable {order : HashOrder K D} {delta : Delta K D}

theorem mem_keysToDelete {k : K} : k ∈ order.keysToDelete delta ↔
    k ∈ delta.deletes ∨ k ∈ delta.inserts_updates.map Prod.fst := by
  rw [HashOrder.keysToDelete, (order.keys_perm _).mem_iff, List.mem_dedup, List.mem_append]

theorem rowsToInsert_nodup : ((order.rowsToInsert delta).map Prod.fst).Nodup :=
  ((order.rows_perm _).map _).nodup_iff.mpr (lastValues_nodup _)

theorem mem_rowsToInsert_keys {k : K} : k ∈ (order.rowsToInsert delta).map Prod.fst ↔
    k ∈ delta.inserts_updates.map Prod.fst := by
  rw [HashOrder.rowsToInsert, ((order.rows_perm _).map _).mem_iff, mem_lastValues_keys]

theorem rowsToInsert_eq_nil (h : order.keysToDelete delta = []) :
    order.rowsToInsert delta = [] := by
  refine List.eq_nil_iff_forall_not_mem.mpr fun r hr => ?_
  have hin : r.1 ∈ order.keysToDelete delta :=
    mem_keysToDelete.mpr (.inr (mem_rowsToInsert_keys.mp (List.mem_map_of_mem hr)))
  rw [h] at hin
  cases hin

/-- **The two statements make the delta.** -/
theorem withRows_without (f : K → Option D) (order : HashOrder K D) (delta : Delta K D) :
    withRows (without f (order.keysToDelete delta)) (order.rowsToInsert delta) =
      applied f delta := by
  calc withRows (without f (order.keysToDelete delta)) (order.rowsToInsert delta)
      = withRows (without f (order.keysToDelete delta)) (lastValues delta.inserts_updates) :=
        withRows_perm (order.rows_perm _) rowsToInsert_nodup _
    _ = withRows (without f (order.keysToDelete delta)) delta.inserts_updates :=
        withRows_lastValues _ _
    _ = applied f delta := withRows_congr fun k hk => by
        -- a key that is not written again is deleted in the delta, or it is not
        rw [without, without]
        exact if_congr (mem_keysToDelete.trans (or_iff_left hk)) rfl rfl

end Deltas

/-! ## The server -/

/-- A database with a row for each key. A statement that fails has been carried out for a part of
the values that are bound to it. -/
structure KeyedDatabase (S C K D : Type) [DecidableEq K] extends Engine S C K D Unit where
  rows : C → K → Option D
  delete_rows : ∀ session table wheres ks c, ∃ n,
    rows (execute session (.delete table wheres) (.keys ks) c).1 = without (rows c) (ks.take n) ∧
      ((execute session (.delete table wheres) (.keys ks) c).2 = true → ks.take n = ks)
  insert_rows : ∀ session table columns values rs c, (rs.map Prod.fst).Nodup →
    (∀ r ∈ rs, rows c r.1 = none) → ∃ n,
      rows (execute session (.insert table columns values) (.rows rs) c).1 =
          withRows (rows c) (rs.take n) ∧
        ((execute session (.insert table columns values) (.rows rs) c).2 = true → rs.take n = rs)

/-- What keeps the collection in memory: it applies a delta as it says. -/
structure DataModel (K D : Type) [DecidableEq K] where
  apply : (K → Option D) → Delta K D → K → Option D
  apply_eq : ∀ f delta, apply f delta = applied f delta

/-- The process of the server, and its collection in memory. -/
structure ServerState (S C K D : Type) where
  process : Process S C
  collection : K → Option D

section Server

variable {S C K D : Type} [DecidableEq K] [DecidableEq S]

variable (layout : Layout) (backend : S → Backend) (order : HashOrder K D)
  (db : KeyedDatabase S C K D) (model : DataModel K D) (o : Object S)

/-- `handleUpdate`, with `triggerCallback` -/
def handleUpdate (s : ServerState S C K D) (account : String) (delta : Delta K D) :
    ServerState S C K D × Outcome :=
  match s.process.call layout db.toEngine backend order o
      (.handleCollectionUpdate account delta) with
  | (p, .success) => (⟨p, model.apply s.collection delta⟩, .success)
  | (p, r) => (⟨p, s.collection⟩, r)

/-- The server after some updates, whatever has become of them. -/
def after (tables : S → String → C) (collection : K → Option D)
    (history : List (String × Delta K D)) : ServerState S C K D :=
  history.foldl (fun s u => (handleUpdate layout backend order db model o s u.1 u.2).1)
    ⟨fresh tables, collection⟩

/-- The rows of the server's table. -/
def tableOf (s : ServerState S C K D) (session : S) : K → Option D :=
  db.rows (s.process.tables session o.tableName)

/-- What an update does. -/
structure InStep (s s' : ServerState S C K D) (delta : Delta K D) (r : Outcome) : Prop where
  /-- Success is reported when both have become what the delta says. -/
  both : r = .success → s'.collection = applied s.collection delta ∧
    ∀ session, o.session = some session →
      tableOf db o s' session = applied (tableOf db o s session) delta
  /-- The collection is as before otherwise. -/
  collection : r ≠ .success → s'.collection = s.collection
  /-- The table is, too, if no statement has been issued. -/
  refused : r = .failurePermission → ∀ session, o.session = some session →
    tableOf db o s' session = tableOf db o s session
  /-- What has been done when a statement fails stays done. -/
  threw : r = .threw → ∀ session, o.session = some session → ∃ n,
    tableOf db o s' session =
        without (tableOf db o s session) ((order.keysToDelete delta).take n) ∨
      tableOf db o s' session =
        withRows (without (tableOf db o s session) (order.keysToDelete delta))
          ((order.rowsToInsert delta).take n)

end Server

section Steps

variable {S C K D : Type} [DecidableEq K] [DecidableEq S]

variable {layout : Layout} {backend : S → Backend} {order : HashOrder K D}
  {db : KeyedDatabase S C K D} {model : DataModel K D} {o : Object S}
  {s : ServerState S C K D} {session : S} {delta : Delta K D}

/-- The server is the only object of its kind. -/
def single (o : Object S) : Objects Unit S where
  object := fun _ => o
  apart := fun _ _ h => absurd rfl h

omit [DecidableEq S] in
theorem alike_single (calls : List (Unit × Call K D Unit)) :
    Alike layout backend order (single o) calls :=
  fun _ _ _ _ _ _ _ _ hslot => congrArg (o.ownText layout backend) hslot

omit [DecidableEq S] in
/-- What the statements of an update do to the table. -/
theorem effect_update (layout : Layout) (backend : S → Backend) (order : HashOrder K D)
    (db : KeyedDatabase S C K D) (delta : Delta K D) (c : C) (account : String)
    (haccepts : o.accepts (some account) = true) (hsession : o.session = some session) :
    let result := effect layout backend db.toEngine session o.tableName c
      (o.plan order (.handleCollectionUpdate account delta))
    (result.2 = true → db.rows result.1 = applied (db.rows c) delta) ∧
      (result.2 = false → ∃ n,
        db.rows result.1 = without (db.rows c) ((order.keysToDelete delta).take n) ∨
          db.rows result.1 = withRows (without (db.rows c) (order.keysToDelete delta))
            ((order.rowsToInsert delta).take n)) := by
  have hplan : o.plan order (.handleCollectionUpdate (T := Unit) account delta) =
      statements order (.handleCollectionUpdate account delta) :=
    if_pos ⟨haccepts, by rw [hsession]; rfl⟩
  rw [hplan, statements]
  by_cases hkeys : order.keysToDelete delta = []
  · -- nothing to delete, so nothing to insert
    rw [if_pos hkeys, rowsToInsert_eq_nil hkeys]
    refine ⟨fun _ => ?_, fun h => by cases h⟩
    rw [← withRows_without _ order, hkeys, rowsToInsert_eq_nil hkeys]
    funext k
    rfl
  · rw [if_neg hkeys]
    obtain ⟨n, hdelete, hwhole⟩ := db.delete_rows session o.tableName (fieldNames layout.key)
      (order.keysToDelete delta) c
    rw [List.singleton_append, effect]
    cases hexecute : db.execute session
        (Slot.collectionDelete.template layout (backend session) o.tableName)
        (.keys (order.keysToDelete delta)) c with
    | mk c' ok =>
        have hexecute' : db.execute session (.delete o.tableName (fieldNames layout.key))
            (.keys (order.keysToDelete delta)) c = (c', ok) := hexecute
        rw [hexecute'] at hdelete hwhole
        dsimp only
        cases ok with
        | false => exact ⟨fun h => (by cases h), fun _ => ⟨n, .inl hdelete⟩⟩
        | true =>
            -- the keys are gone
            rw [hwhole rfl] at hdelete
            dsimp only
            cases hrows : order.rowsToInsert delta with
            | nil =>
                refine ⟨fun _ => ?_, fun h => by cases h⟩
                rw [← withRows_without _ order, hrows]
                exact hdelete
            | cons r rs =>
                have hfree : ∀ r ∈ order.rowsToInsert delta, db.rows c' r.1 = none := by
                  intro r hr
                  have hin : r.1 ∈ order.keysToDelete delta :=
                    mem_keysToDelete.mpr (.inr (mem_rowsToInsert_keys.mp
                      (List.mem_map_of_mem hr)))
                  rw [hdelete]
                  exact if_pos hin
                obtain ⟨m, hinsert, hwhole'⟩ := db.insert_rows session o.tableName
                  (fieldNames layout.key ++ fieldNames layout.data)
                  (params layout.key ++ params layout.data) (order.rowsToInsert delta) c'
                  rowsToInsert_nodup hfree
                rw [hrows] at hinsert hwhole'
                rw [if_neg (by rw [List.isEmpty_cons]; exact Bool.false_ne_true), effect]
                cases hexecute₂ : db.execute session
                    (Slot.collectionInsert.template layout (backend session) o.tableName)
                    (.rows (r :: rs)) c' with
                | mk c'' ok' =>
                    have hexecute₂' : db.execute session (.insert o.tableName
                        (fieldNames layout.key ++ fieldNames layout.data)
                        (params layout.key ++ params layout.data)) (.rows (r :: rs)) c' =
                          (c'', ok') := hexecute₂
                    rw [hexecute₂'] at hinsert hwhole'
                    rw [hdelete] at hinsert
                    cases ok' with
                    | false => exact ⟨fun h => (by cases h), fun _ => ⟨m, .inr hinsert⟩⟩
                    | true =>
                        refine ⟨fun _ => ?_, fun h => by cases h⟩
                        rw [hwhole' rfl, ← hrows] at hinsert
                        rw [← withRows_without _ order]
                        exact hinsert

/-- The texts that are kept are those of the server, which is alone. -/
def OwnTexts (layout : Layout) (backend : S → Backend) (order : HashOrder K D) (o : Object S)
    (s : ServerState S C K D) : Prop :=
  ∀ calls : List (Unit × Call K D Unit), Settled layout backend order (single o) calls s.process

/-- One update. -/
theorem OwnTexts.handleUpdate (hs : OwnTexts layout backend order o s) (account : String)
    (delta : Delta K D) :
    OwnTexts layout backend order o
        (handleUpdate layout backend order db model o s account delta).1 ∧
      InStep order db o s (handleUpdate layout backend order db model o s account delta).1 delta
        (handleUpdate layout backend order db model o s account delta).2 := by
  -- an update that is refused changes nothing
  have hrefused : s.process.call layout db.toEngine backend order o
      (.handleCollectionUpdate account delta) = (s.process, .failurePermission) →
      OwnTexts layout backend order o
          (Database.handleUpdate layout backend order db model o s account delta).1 ∧
        InStep order db o s
          (Database.handleUpdate layout backend order db model o s account delta).1 delta
          (Database.handleUpdate layout backend order db model o s account delta).2 := by
    intro hcall
    rw [Database.handleUpdate, hcall]
    exact ⟨hs, fun h => (by cases h), fun _ => rfl, fun _ _ _ => rfl, fun h => (by cases h)⟩
  cases haccepts : o.accepts (some account) with
  | false =>
      refine hrefused ?_
      rw [Process.call, Call.account, haccepts, if_neg Bool.false_ne_true]
  | true =>
      cases hsession : o.session with
      | none =>
          refine hrefused ?_
          rw [Process.call, Call.account, haccepts, if_pos rfl, hsession]
      | some session =>
          have hissue : ∀ calls, ∃ p', s.process.issueAll layout db.toEngine backend session
              o.tableName (o.plan order (.handleCollectionUpdate account delta)) =
                (p', (effect layout backend db.toEngine session o.tableName
                  (s.process.tables session o.tableName)
                  (o.plan order (.handleCollectionUpdate account delta))).2) ∧
              Settled layout backend order (single o)
                (((), .handleCollectionUpdate account delta) :: calls) p' ∧
              DoneFor session o.tableName
                (effect layout backend db.toEngine session o.tableName
                  (s.process.tables session o.tableName)
                  (o.plan order (.handleCollectionUpdate account delta))).1 s.process p' :=
            fun calls => (hs _).issueAll db.toEngine (alike_single _) List.mem_cons_self hsession
              fun _ hst => hst
          obtain ⟨p', hp', -, hdone⟩ := hissue []
          have hown : OwnTexts layout backend order o ⟨p', s.collection⟩ := by
            intro calls slot text hkept x hx
            obtain ⟨p'', hp'', hsettled, -⟩ := hissue calls
            obtain rfl : p' = p'' := congrArg Prod.fst (hp'.symm.trans hp'')
            exact hsettled slot text hkept x (List.mem_cons_of_mem _ hx)
          obtain ⟨hdid, hthrew⟩ := effect_update layout backend order db delta
            (s.process.tables session o.tableName) account haccepts hsession
          rw [← hdone.own] at hdid hthrew
          rw [Database.handleUpdate, call_of_accepts haccepts hsession, hp']
          dsimp only
          cases hok : (effect layout backend db.toEngine session o.tableName
              (s.process.tables session o.tableName)
              (o.plan order (.handleCollectionUpdate account delta))).2 with
          | true =>
              refine ⟨hown, fun _ => ⟨model.apply_eq _ _, fun session' hs' => ?_⟩,
                fun h => absurd rfl h, fun h => (by cases h), fun h => (by cases h)⟩
              obtain rfl := Option.some.inj (hsession.symm.trans hs')
              exact hdid hok
          | false =>
              refine ⟨hown, fun h => (by cases h), fun _ => rfl, fun h => (by cases h),
                fun _ session' hs' => ?_⟩
              obtain rfl := Option.some.inj (hsession.symm.trans hs')
              exact hthrew hok

/--
**The collection server, when nothing protects the two statements.** After any updates, an update
reports success only when the table and the collection have both become what the delta says of
them. If it does not, the collection is exactly as before; so is the table if the update was
refused; and if a statement failed, the table has lost some keys of the delta, or all of them when
it was the insertion that failed, and it has some of the new rows then.
-/
theorem inStep_after (layout : Layout) (backend : S → Backend) (order : HashOrder K D)
    (db : KeyedDatabase S C K D) (model : DataModel K D) (o : Object S) (tables : S → String → C)
    (collection : K → Option D) (history : List (String × Delta K D)) (account : String)
    (delta : Delta K D) :
    let s := after layout backend order db model o tables collection history
    InStep order db o s (handleUpdate layout backend order db model o s account delta).1 delta
      (handleUpdate layout backend order db model o s account delta).2 := by
  suffices hs : OwnTexts layout backend order o
      (after layout backend order db model o tables collection history) from
    (hs.handleUpdate account delta).2
  induction history using List.reverseRecOn with
  | nil => exact fun calls => settled_fresh tables
  | append_singleton history u ih =>
      rw [after, List.foldl_append]
      exact (ih.handleUpdate u.1 u.2).1

end Steps

/-! ## A failure between the two -/

/-- A database that deletes, and then cannot insert. -/
def deletesOnly : KeyedDatabase Unit (Nat → Option Nat) Nat Nat where
  execute := fun _ text bound f =>
    match text, bound with
    | .delete _ _, .keys ks => (without f ks, true)
    | _, _ => (f, false)
  rows := id
  delete_rows := fun _ _ _ ks f =>
    ⟨ks.length, by rw [List.take_length]; rfl, fun _ => List.take_length⟩
  insert_rows := fun _ _ _ _ _ _ _ _ => ⟨0, rfl, fun h => (by cases h)⟩

/-- What a transaction would give. -/
def AllOrNothing (db : KeyedDatabase Unit (Nat → Option Nat) Nat Nat) (o : Object Unit)
    (s s' : ServerState Unit (Nat → Option Nat) Nat Nat) (delta : Delta Nat Nat) (r : Outcome) :
    Prop :=
  if r = .success then
    s'.collection = applied s.collection delta ∧
      tableOf db o s' () = applied (tableOf db o s ()) delta
  else s'.collection = s.collection ∧ tableOf db o s' () = tableOf db o s ()

/-- The update of a key fails, and its row is gone. -/
theorem not_allOrNothing_deletesOnly :
    let model : DataModel Nat Nat := ⟨applied, fun _ _ => rfl⟩
    let o : Object Unit := ⟨some (), "a", none⟩
    let old : Nat → Option Nat := fun k => if k = 1 then some 10 else none
    let s := after oneField (fun _ => .sqlite3) anyOrder deletesOnly model o (fun _ _ => old) old []
    let result := handleUpdate oneField (fun _ => .sqlite3) anyOrder deletesOnly model o s "al"
      ⟨[], [(1, 20)]⟩
    ¬ AllOrNothing deletesOnly o s result.1 ⟨[], [(1, 20)]⟩ result.2 := by
  intro model o old s result h
  rw [AllOrNothing, if_neg (by decide)] at h
  exact absurd (congrFun h.2 1) (by decide)

end Database
