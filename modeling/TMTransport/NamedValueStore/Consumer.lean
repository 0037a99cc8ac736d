import TMTransport.NamedValueStore.DataModel

/-!
# `consumerCombination`

The handler turns what a subscription brings into changes of single keys. Of an item
that says what the whole collection is, it passes on what is in it, and nothing of
what is not. So a consumer keeps a key that such an item leaves out, unless a later
item of the same update is about that key.
-/

namespace NamedValueStore

open ChangeLog

variable {κ α ι : Type}

inductive ConsumerUpdate (κ α : Type) where
  /-- `ConsumerDeleteKey` -/
  | deleteKey (key : κ)
  /-- `ConsumerInsertOrUpdateKey` -/
  | insertOrUpdateKey (key : κ) (data : α)
  deriving DecidableEq

/-- `GS::Output`, with one case for the answers that the handler has no use for. -/
inductive Output (κ α : Type) where
  | subscription
  | unsubscription
  | subscriptionUpdate (u : Update κ α)
  | other

/-- What the handler keeps, and does. -/
structure Handler (ι : Type) where
  idRecord : Option ι := none
  /-- How often it has called `exit`. -/
  exits : Nat := 0
  deriving DecidableEq

/-- What one item of an update is turned into. -/
def OneUpdateItem.changes : OneUpdateItem κ α → List (ConsumerUpdate κ α)
  | .full _ data =>
    match data with
    | some c => c.entries.map fun dataPiece => .insertOrUpdateKey dataPiece.1 dataPiece.2
    | none => []
  | .delta _ d =>
    d.deletes.map .deleteKey ++
      d.insertsUpdates.map fun update => .insertOrUpdateKey update.1 update.2

/-- What the handler emits for the answer `x` with the id `id`, and what it is then. -/
def Handler.handle (hasExitDataSource : Bool) (h : Handler ι) (id : ι) :
    Output κ α → List (ConsumerUpdate κ α) × Handler ι
  | .subscriptionUpdate x => (x.data.flatMap OneUpdateItem.changes, h)
  | .subscription => ([], if hasExitDataSource then { h with idRecord := some id } else h)
  | .unsubscription =>
    ([], if hasExitDataSource then { h with idRecord := none, exits := h.exits + 1 } else h)
  | .other => ([], h)

/-- All that the handler emits. -/
def Handler.emitted (hasExitDataSource : Bool) : Handler ι → List (ι × Output κ α) →
    List (ConsumerUpdate κ α)
  | _, [] => []
  | h, (id, out) :: outs =>
    (h.handle hasExitDataSource id out).1 ++
      Handler.emitted hasExitDataSource (h.handle hasExitDataSource id out).2 outs

/-- What a consumer does to its map. -/
def ConsumerUpdate.entry : ConsumerUpdate κ α → Entry κ α
  | .deleteKey key => ⟨key, none⟩
  | .insertOrUpdateKey key data => ⟨key, some data⟩

/-- The updates among the answers. -/
def updatesOf : List (ι × Output κ α) → List (Update κ α)
  | [] => []
  | (_, .subscriptionUpdate u) :: outs => u :: updatesOf outs
  | _ :: outs => updatesOf outs

/-! ## What a consumer sees of an item -/

/-- What an item says of single keys. -/
def OneUpdateItem.entries : OneUpdateItem κ α → List (Entry κ α)
  | .full _ data => puts (data.getD .empty).entries
  | .delta _ d => d.entries

theorem changes_entry (item : OneUpdateItem κ α) :
    item.changes.map ConsumerUpdate.entry = item.entries := by
  cases item with
  | full version data =>
      cases data with
      | none => rfl
      | some c =>
          simp only [OneUpdateItem.changes, OneUpdateItem.entries, puts, List.map_map]
          rfl
  | delta version d =>
      simp only [OneUpdateItem.changes, OneUpdateItem.entries, CollectionDelta.entries, puts,
        List.map_append, List.map_map]
      rfl

variable [DecidableEq κ]

/-- The item is about the key. -/
def OneUpdateItem.Names (item : OneUpdateItem κ α) (k : κ) : Prop := ¬ Untouched k item.entries

/-- The item says what the whole collection is, and leaves the key out. -/
def OneUpdateItem.LeavesOut (k : κ) : OneUpdateItem κ α → Prop
  | .full _ data => (data.getD .empty).get k = none
  | .delta _ _ => False

/-- Of each key that the collection has and an item leaves out, a later one of the same update says
something. -/
def Covered : (κ → Option α) → List (OneUpdateItem κ α) → Prop
  | _, [] => True
  | m, item :: rest =>
    (∀ k, m k ≠ none → item.LeavesOut k → ∃ later ∈ rest, later.Names k) ∧
      Covered (item.apply m) rest

/-- So it is in each update, for the collection that is described before. -/
def EachCovered : (κ → Option α) → List (Update κ α) → Prop
  | _, [] => True
  | m, u :: us => Covered m u.data ∧ EachCovered (u.apply m) us

variable {m m' copy : κ → Option α} {item : OneUpdateItem κ α} {items : List (OneUpdateItem κ α)}
  {k : κ}

theorem get_eq_none_of_untouched {c : Collection κ α} (h : Untouched k (puts c.entries)) :
    c.get k = none :=
  replay_of_untouched h _

theorem get_eq_some_of_touched {c : Collection κ α} (h : ¬ Untouched k (puts c.entries)) :
    c.get k ≠ none := by
  intro hnone
  have hvalues : ∀ (l : List (κ × α)) (m : κ → Option α), ¬ Untouched k (puts l) →
      replay m (puts l) k ≠ none := by
    intro l
    induction l with
    | nil => exact fun m h => absurd (untouched_nil k) h
    | cons kv l ih =>
        intro m h
        by_cases hrest : Untouched k (puts l)
        · have hkey : kv.1 = k := by
            by_contra hne
            exact h (untouched_cons.mpr ⟨hne, hrest⟩)
          show replay (Entry.apply m ⟨kv.1, some kv.2⟩) (puts l) k ≠ none
          rw [replay_of_untouched hrest, ← hkey, Entry.apply, Function.update_self]
          exact Option.some_ne_none _
        · exact ih _ hrest
  exact hvalues _ _ h hnone

/-- Of a key that an item is about, both copies have what it says. -/
theorem apply_of_names (h : item.Names k) (copy m : κ → Option α) :
    replay copy item.entries k = item.apply m k := by
  cases item with
  | full version data => exact replay_of_touched h _ _
  | delta version d => exact replay_of_touched h _ _

/-- Of another key, the consumer's copy is as it was. -/
theorem replay_of_not_names (h : ¬ item.Names k) : replay copy item.entries k = copy k :=
  replay_of_untouched (not_not.mp h) _

theorem apply_of_leavesOut (h : item.LeavesOut k) : item.apply m k = none := by
  cases item with
  | full version data => exact h
  | delta version d => exact h.elim

theorem not_names_of_leavesOut (h : item.LeavesOut k) : ¬ item.Names k := by
  cases item with
  | full version data => exact fun hnames => get_eq_some_of_touched hnames h
  | delta version d => exact h.elim

theorem apply_of_not_names (h : ¬ item.Names k) (hleaves : ¬ item.LeavesOut k) :
    item.apply m k = m k := by
  cases item with
  | full version data => exact absurd (get_eq_none_of_untouched (not_not.mp h)) hleaves
  | delta version d => exact replay_of_untouched (not_not.mp h) _

/-! ## What it sees of an update -/

/-- The consumer's copy after some items. -/
def follow (copy : κ → Option α) (items : List (OneUpdateItem κ α)) : κ → Option α :=
  items.foldl (fun copy item => replay copy item.entries) copy

theorem follow_eq_replay (copy : κ → Option α) (items : List (OneUpdateItem κ α)) :
    follow copy items =
      replay copy ((items.flatMap OneUpdateItem.changes).map ConsumerUpdate.entry) := by
  induction items generalizing copy with
  | nil => rfl
  | cons item items ih =>
      rw [List.flatMap_cons, List.map_append, replay_append, changes_entry, ← ih]
      rfl

theorem follow_congr (h : copy k = m k) (items : List (OneUpdateItem κ α)) :
    follow copy items k = follow m items k := by
  rw [follow_eq_replay, follow_eq_replay]
  exact replay_congr h _

theorem follow_of_not_names (h : ∀ item ∈ items, ¬ item.Names k) :
    follow copy items k = copy k := by
  induction items generalizing copy with
  | nil => rfl
  | cons item items ih =>
      obtain ⟨hitem, hrest⟩ := List.forall_mem_cons.mp h
      exact (ih hrest).trans (replay_of_not_names hitem)

theorem follow_of_names (h : ∃ item ∈ items, item.Names k) (copy m : κ → Option α) :
    follow copy items k = follow m items k := by
  induction items generalizing copy m with
  | nil =>
      obtain ⟨item, hmem, -⟩ := h
      cases hmem
  | cons item items ih =>
      by_cases hrest : ∃ later ∈ items, later.Names k
      · exact ih hrest _ _
      · obtain ⟨item', hmem, hnames⟩ := h
        have hitem : item.Names k := by
          rcases List.mem_cons.mp hmem with rfl | hmem
          · exact hnames
          · exact absurd ⟨item', hmem, hnames⟩ hrest
        refine follow_congr ?_ items
        exact replay_of_touched hitem _ _

/-- Items that are not about the key do not bring it back. -/
theorem apply_eq_none (h : ∀ item ∈ items, ¬ item.Names k) (hm : m k = none) :
    items.foldl OneUpdateItem.apply m k = none := by
  induction items generalizing m with
  | nil => exact hm
  | cons item items ih =>
      obtain ⟨hitem, hrest⟩ := List.forall_mem_cons.mp h
      refine ih hrest ?_
      by_cases hleaves : item.LeavesOut k
      · exact apply_of_leavesOut hleaves
      · rw [apply_of_not_names hitem hleaves, hm]

/-- The step: one item, after which the consumer may be behind. -/
theorem follow_cons (hm : copy = m) :
    follow copy (item :: items) = items.foldl OneUpdateItem.apply (item.apply m) ↔
      (∀ k, m k ≠ none → item.LeavesOut k → ∃ later ∈ items, later.Names k) ∧
        follow (item.apply m) items = items.foldl OneUpdateItem.apply (item.apply m) := by
  subst hm
  have hsame : ∀ k, (item.LeavesOut k → copy k ≠ none → ∃ later ∈ items, later.Names k) →
      follow copy (item :: items) k = follow (item.apply copy) items k := by
    intro k h
    by_cases hleaves : item.LeavesOut k
    · by_cases hcopy : copy k = none
      · refine follow_congr ?_ items
        dsimp only
        rw [replay_of_not_names (not_names_of_leavesOut hleaves), apply_of_leavesOut hleaves, hcopy]
      · exact follow_of_names (h hleaves hcopy) _ _
    · refine follow_congr ?_ items
      by_cases hnames : item.Names k
      · exact apply_of_names hnames _ _
      · dsimp only
        rw [replay_of_not_names hnames, apply_of_not_names hnames hleaves]
  constructor
  · intro heq
    have hlater : ∀ k, copy k ≠ none → item.LeavesOut k → ∃ later ∈ items, later.Names k := by
      intro k hcopy hleaves
      by_contra hnone
      have hquiet : ∀ later ∈ items, ¬ later.Names k := fun later hmem hnames =>
        hnone ⟨later, hmem, hnames⟩
      -- the consumer keeps what the collection has lost
      have hkept : follow copy (item :: items) k = copy k :=
        (follow_of_not_names hquiet).trans
          (replay_of_not_names (not_names_of_leavesOut hleaves))
      rw [heq, apply_eq_none hquiet (apply_of_leavesOut hleaves)] at hkept
      exact hcopy hkept.symm
    refine ⟨hlater, ?_⟩
    rw [← heq]
    funext k
    exact (hsame k fun hleaves hcopy => hlater k hcopy hleaves).symm
  · rintro ⟨hlater, heq⟩
    rw [← heq]
    funext k
    exact hsame k fun hleaves hcopy => hlater k hcopy hleaves

theorem follow_eq_iff (m : κ → Option α) (items : List (OneUpdateItem κ α)) :
    follow m items = items.foldl OneUpdateItem.apply m ↔ Covered m items := by
  induction items generalizing m with
  | nil => exact iff_of_true rfl trivial
  | cons item items ih =>
      rw [List.foldl_cons, follow_cons rfl, ih]
      rfl

/-! ## All answers -/

/-- What a consumer has that starts with nothing. -/
def consumerCopy (hasExitDataSource : Bool) (outs : List (ι × Output κ α)) : κ → Option α :=
  replay (fun _ => none)
    ((Handler.emitted hasExitDataSource {} outs).map ConsumerUpdate.entry)

/-- The consumer's copy, one update after the other. -/
theorem replay_emitted (hasExitDataSource : Bool) (h : Handler ι) (outs : List (ι × Output κ α))
    (copy : κ → Option α) :
    replay copy ((h.emitted hasExitDataSource outs).map ConsumerUpdate.entry) =
      (updatesOf outs).foldl (fun copy u => follow copy u.data) copy := by
  induction outs generalizing h copy with
  | nil => rfl
  | cons out outs ih =>
      obtain ⟨id, out⟩ := out
      rw [Handler.emitted, List.map_append, replay_append, ih]
      cases out with
      | subscriptionUpdate u =>
          rw [Handler.handle, ← follow_eq_replay]
          rfl
      | subscription => rfl
      | unsubscription => rfl
      | other => rfl

omit [DecidableEq κ] in
theorem updatesOf_append (outs outs' : List (ι × Output κ α)) :
    updatesOf (outs ++ outs') = updatesOf outs ++ updatesOf outs' := by
  induction outs with
  | nil => rfl
  | cons out outs ih =>
      obtain ⟨id, out⟩ := out
      cases out with
      | subscriptionUpdate u => exact congrArg (u :: ·) ih
      | subscription => exact ih
      | unsubscription => exact ih
      | other => exact ih

omit [DecidableEq κ] in
/-- Some of the updates are those of some of the answers. -/
theorem exists_of_prefix_updatesOf (outs : List (ι × Output κ α)) (us : List (Update κ α))
    (h : us <+: updatesOf outs) : ∃ outs', outs' <+: outs ∧ updatesOf outs' = us := by
  induction outs generalizing us with
  | nil => exact ⟨[], List.nil_prefix, (List.prefix_nil.mp h).symm⟩
  | cons out outs ih =>
      obtain ⟨id, out⟩ := out
      have hskip : updatesOf ((id, out) :: outs) = updatesOf outs →
          (∀ outs', updatesOf ((id, out) :: outs') = updatesOf outs') →
            ∃ outs', outs' <+: (id, out) :: outs ∧ updatesOf outs' = us := by
        intro heq hsame
        obtain ⟨outs', hfirst, hus⟩ := ih us (heq ▸ h)
        exact ⟨(id, out) :: outs', List.cons_prefix_cons.mpr ⟨rfl, hfirst⟩,
          (hsame outs').trans hus⟩
      cases out with
      | subscriptionUpdate u =>
          cases us with
          | nil => exact ⟨[], List.nil_prefix, rfl⟩
          | cons u' us =>
              obtain ⟨rfl, hrest⟩ := List.cons_prefix_cons.mp h
              obtain ⟨outs', hfirst, hus⟩ := ih us hrest
              exact ⟨(id, .subscriptionUpdate u') :: outs',
                List.cons_prefix_cons.mpr ⟨rfl, hfirst⟩, congrArg (u' :: ·) hus⟩
      | subscription => exact hskip rfl fun _ => rfl
      | unsubscription => exact hskip rfl fun _ => rfl
      | other => exact hskip rfl fun _ => rfl

theorem each_prefix_iff (m : κ → Option α) (us : List (Update κ α)) :
    (∀ us', us' <+: us →
      us'.foldl (fun copy u => follow copy u.data) m = us'.foldl Update.apply m) ↔
        EachCovered m us := by
  induction us generalizing m with
  | nil =>
      refine iff_of_true (fun us' h => ?_) trivial
      rw [List.prefix_nil.mp h]
      rfl
  | cons u us ih =>
      rw [EachCovered, ← follow_eq_iff, ← ih]
      constructor
      · intro h
        have hfirst : follow m u.data = u.apply m := h [u] ⟨us, rfl⟩
        refine ⟨hfirst, fun us' hus' => ?_⟩
        have hmore := h (u :: us') (List.cons_prefix_cons.mpr ⟨rfl, hus'⟩)
        rw [List.foldl_cons, List.foldl_cons, hfirst] at hmore
        exact hmore
      · rintro ⟨hfirst, hrest⟩ us' hus'
        cases us' with
        | nil => rfl
        | cons u' us' =>
            obtain ⟨rfl, htail⟩ := List.cons_prefix_cons.mp hus'
            rw [List.foldl_cons, List.foldl_cons, show follow m u'.data = u'.apply m from hfirst]
            exact hrest us' htail

/-- **A consumer's copy is the collection** after each answer, if and only if each key that an item
leaves out is spoken of later in the same update. -/
theorem consumerCopy_iff (hasExitDataSource : Bool) (outs : List (ι × Output κ α)) :
    (∀ outs', outs' <+: outs →
      consumerCopy hasExitDataSource outs' = described (updatesOf outs')) ↔
        EachCovered (fun _ => none) (updatesOf outs) := by
  rw [← each_prefix_iff]
  constructor
  · intro h us' hus'
    obtain ⟨outs', hfirst, rfl⟩ := exists_of_prefix_updatesOf outs us' hus'
    rw [← replay_emitted hasExitDataSource {} outs']
    exact h outs' hfirst
  · intro h outs' ⟨rest, hrest⟩
    rw [consumerCopy, replay_emitted]
    refine h (updatesOf outs') ⟨updatesOf rest, ?_⟩
    rw [← updatesOf_append, hrest]

/-! ## A key that vanishes between two full items -/

/-- One key, which is then left out. -/
def vanishing : List (Unit × Output Bool Unit) :=
  [((), .subscriptionUpdate ⟨1, [.full 1 (some ⟨[(true, ())], (by decide)⟩)]⟩),
    ((), .subscriptionUpdate ⟨2, [.full 2 none]⟩)]

/-- The consumer keeps it. -/
theorem not_consumerCopy_vanishing :
    ¬ ∀ outs', outs' <+: vanishing →
      consumerCopy false outs' = described (updatesOf outs') := by
  intro h
  have hkept := congrFun (h vanishing List.prefix_rfl) true
  exact absurd hkept (by decide +kernel)

end NamedValueStore
