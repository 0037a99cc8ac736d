import Mathlib.Data.List.Induction
import Mathlib.Data.List.Nodup
import Mathlib.Data.Sigma.Basic
import Mathlib.Logic.Function.Basic

/-!
# The repeated importer with key check

`DBTableImporterFactory::createRepeatedImporterWithKeyCheck` reads a table again and again,
and publishes the rows whose keys it has not seen. What it has seen is a static variable of
the function that does the poll: there is one for each instantiation with a row type and a
type of key extractor, and it gets each key when the row is read.

A poll fails when something throws after some number of rows. The wait before each poll but
the first is not in the model, which has no time.
-/

namespace RepeatedImporter

/-- The rows to publish, and the keys that have been seen then. -/
def readRows {α κ : Type} [DecidableEq κ] (keyExtractor : α → κ) :
    List κ → List α → List α × List κ
  | seen, [] => ([], seen)
  | seen, d :: rows =>
    if keyExtractor d ∈ seen then readRows keyExtractor seen rows
    else
      let r := readRows keyExtractor (keyExtractor d :: seen) rows
      (d :: r.1, r.2)

/-- One call of the importer. A poll that fails returns no data. -/
def poll {α κ : Type} [DecidableEq κ] (keyExtractor : α → κ) (seen : List κ) (rows : List α)
    (failsAfter : Option Nat) : List κ × Bool × Option (List α) :=
  match failsAfter with
  | none => ((readRows keyExtractor seen rows).2, true, some (readRows keyExtractor seen rows).1)
  | some n => ((readRows keyExtractor seen (rows.take n)).2, true, none)

section ReadRows

variable {α κ : Type} [DecidableEq κ] {keyExtractor : α → κ} {seen : List κ} {rows : List α}

theorem mem_seen_readRows {k : κ} :
    k ∈ (readRows keyExtractor seen rows).2 ↔ k ∈ seen ∨ k ∈ rows.map keyExtractor := by
  induction rows generalizing seen with
  | nil => exact (or_iff_left List.not_mem_nil).symm
  | cons d rows ih =>
      rw [readRows, List.map_cons, List.mem_cons]
      split
      · next hmem =>
        rw [ih]
        constructor
        · exact Or.imp_right .inr
        · rintro (h | rfl | h)
          · exact .inl h
          · exact .inl hmem
          · exact .inr h
      · rw [ih, List.mem_cons, or_assoc, or_left_comm]

theorem readRows_sublist : (readRows keyExtractor seen rows).1.Sublist rows := by
  induction rows generalizing seen with
  | nil => exact .slnil
  | cons d rows ih =>
      rw [readRows]
      split
      · exact ih.cons _
      · exact ih.cons_cons _

theorem mem_keys_readRows {k : κ} :
    k ∈ (readRows keyExtractor seen rows).1.map keyExtractor ↔
      k ∈ rows.map keyExtractor ∧ k ∉ seen := by
  induction rows generalizing seen with
  | nil => exact iff_of_false List.not_mem_nil fun h => nomatch h.1
  | cons d rows ih =>
      rw [readRows, List.map_cons, List.mem_cons]
      split
      · next hmem =>
        rw [ih, or_and_right, or_iff_right]
        rintro ⟨rfl, hnot⟩
        exact hnot hmem
      · next hnot =>
        rw [List.map_cons, List.mem_cons, ih, List.mem_cons, not_or]
        constructor
        · rintro (rfl | ⟨hk, -, hseen⟩)
          · exact ⟨.inl rfl, hnot⟩
          · exact ⟨.inr hk, hseen⟩
        · rintro ⟨rfl | hk, hseen⟩
          · exact .inl rfl
          · by_cases heq : k = keyExtractor d
            · exact .inl heq
            · exact .inr ⟨hk, heq, hseen⟩

theorem nodup_keys_readRows : ((readRows keyExtractor seen rows).1.map keyExtractor).Nodup := by
  induction rows generalizing seen with
  | nil => exact List.nodup_nil
  | cons d rows ih =>
      rw [readRows]
      split
      · exact ih
      · refine List.nodup_cons.mpr ⟨fun hmem => ?_, ih⟩
        exact (mem_keys_readRows.mp hmem).2 List.mem_cons_self

end ReadRows

/-! ## Importers in a process -/

/-- Importers, with the types they are instantiated for, and their key extractors. -/
structure Importers (ι : Type) {τ : Type} (T K : τ → Type) where
  types : ι → τ
  keyExtractor : ∀ i, T (types i) → K (types i)

section History

variable {ι τ : Type} {T K : τ → Type}

/-- A poll, with what is in the table at the time, and after how many rows it fails. -/
structure Poll (imps : Importers ι T K) where
  importer : ι
  rows : List (T (imps.types importer))
  failsAfter : Option Nat

structure Process (imps : Importers ι T K) where
  /-- The static variables. -/
  seen : ∀ t, List (K t)
  published : List (Σ i, T (imps.types i))

variable [DecidableEq τ] [∀ t, DecidableEq (K t)] (imps : Importers ι T K)

def Process.init : Process imps := ⟨fun _ => [], []⟩

variable {imps}

/-- What the importer returns, and what there is then. -/
def Process.poll (s : Process imps) (p : Poll imps) :
    Process imps × Bool × Option (List (T (imps.types p.importer))) :=
  match RepeatedImporter.poll (imps.keyExtractor p.importer) (s.seen (imps.types p.importer))
      p.rows p.failsAfter with
  | (seen, again, data) =>
    -- what was seen is kept even where nothing is returned
    ({ seen := Function.update s.seen (imps.types p.importer) seen
       published := s.published ++ (data.getD []).map fun d => ⟨p.importer, d⟩ }, again, data)

def Process.run (s : Process imps) (polls : List (Poll imps)) : Process imps :=
  polls.foldl (fun s p => (s.poll p).1) s

/-- The importer has published a row with the key. -/
def Process.Has (s : Process imps) (i : ι) (k : K (imps.types i)) : Prop :=
  ∃ d, ⟨i, d⟩ ∈ s.published ∧ imps.keyExtractor i d = k

/-- Of the rows, those with new keys are published, one for each key. -/
structure PublishesNew {α κ : Type} (keyExtractor : α → κ) (old : κ → Prop) (rows data : List α) :
    Prop where
  sublist : data.Sublist rows
  new : ∀ d ∈ data, ¬ old (keyExtractor d)
  once : (data.map keyExtractor).Nodup
  all : ∀ d ∈ rows, ¬ old (keyExtractor d) → keyExtractor d ∈ data.map keyExtractor

/-- In each poll that does not fail, the importer publishes what it has not published. -/
def Faithful (polls : List (Poll imps)) : Prop :=
  ∀ before p after, polls = before ++ p :: after → p.failsAfter = none →
    ∃ data, (((Process.init imps).run before).poll p).2.2 = some data ∧
      PublishesNew (imps.keyExtractor p.importer) (((Process.init imps).run before).Has p.importer)
        p.rows data

/-- The rows that a poll gets to read. -/
def Poll.read (p : Poll imps) : List (T (imps.types p.importer)) :=
  match p.failsAfter with
  | none => p.rows
  | some n => p.rows.take n

def Poll.keys (p : Poll imps) : List (Σ t, K t) :=
  p.read.map fun d => ⟨imps.types p.importer, imps.keyExtractor p.importer d⟩

/-- The first poll that sees a key. -/
def firstPoll (polls : List (Poll imps)) (k : Σ t, K t) : Option (Poll imps) :=
  polls.find? fun p => k ∈ p.keys

/-- If a key in a poll that does not fail was seen before, the first such poll was alike. -/
def SeenByOwn (polls : List (Poll imps)) : Prop :=
  ∀ before p after, polls = before ++ p :: after → p.failsAfter = none → ∀ d ∈ p.rows,
    ∀ q, firstPoll before ⟨imps.types p.importer, imps.keyExtractor p.importer d⟩ = some q →
      q.importer = p.importer ∧ q.failsAfter = none

/-! ## What has been seen, and what published -/

variable {s : Process imps} {p : Poll imps} {polls : List (Poll imps)}

omit [DecidableEq τ] [∀ t, DecidableEq (K t)] in
theorem mem_keys_self {k : K (imps.types p.importer)} :
    ⟨imps.types p.importer, k⟩ ∈ p.keys ↔ k ∈ p.read.map (imps.keyExtractor p.importer) := by
  constructor
  · intro h
    obtain ⟨d, hd, heq⟩ := List.mem_map.mp h
    exact List.mem_map.mpr ⟨d, hd, eq_of_heq (Sigma.mk.inj heq).2⟩
  · intro h
    obtain ⟨d, hd, rfl⟩ := List.mem_map.mp h
    exact List.mem_map.mpr ⟨d, hd, rfl⟩

omit [DecidableEq τ] [∀ t, DecidableEq (K t)] in
theorem types_of_mem_keys {t : τ} {k : K t} (h : ⟨t, k⟩ ∈ p.keys) : t = imps.types p.importer := by
  obtain ⟨d, -, heq⟩ := List.mem_map.mp h
  exact (Sigma.mk.inj heq).1.symm

theorem mem_seen_poll {t : τ} {k : K t} :
    k ∈ (s.poll p).1.seen t ↔ k ∈ s.seen t ∨ ⟨t, k⟩ ∈ p.keys := by
  by_cases ht : t = imps.types p.importer
  · subst ht
    rw [mem_keys_self, Poll.read]
    unfold Process.poll RepeatedImporter.poll
    cases p.failsAfter with
    | none =>
        dsimp only
        rw [Function.update_self, mem_seen_readRows]
    | some n =>
        dsimp only
        rw [Function.update_self, mem_seen_readRows]
  · have hsame : (s.poll p).1.seen t = s.seen t := Function.update_of_ne ht _ _
    rw [hsame]
    exact (or_iff_left fun h => ht (types_of_mem_keys h)).symm

theorem poll_of_none (h : p.failsAfter = none) :
    (s.poll p).2.2 = some (readRows (imps.keyExtractor p.importer)
      (s.seen (imps.types p.importer)) p.rows).1 := by
  unfold Process.poll RepeatedImporter.poll
  rw [h]

theorem has_poll {i : ι} {k : K (imps.types i)} :
    (s.poll p).1.Has i k ↔ s.Has i k ∨
      (p.importer = i ∧ p.failsAfter = none ∧ ⟨imps.types i, k⟩ ∈ p.keys ∧
        k ∉ s.seen (imps.types i)) := by
  have hsplit : (s.poll p).1.Has i k ↔ s.Has i k ∨ ∃ d,
      ⟨i, d⟩ ∈ (((s.poll p).2.2.getD []).map fun d => (⟨p.importer, d⟩ : Σ i, T (imps.types i))) ∧
        imps.keyExtractor i d = k := by
    unfold Process.Has
    rw [← exists_or]
    refine exists_congr fun d => ?_
    rw [← or_and_right]
    exact and_congr_left fun _ => List.mem_append
  rw [hsplit]
  refine or_congr_right ?_
  cases hfails : p.failsAfter with
  | some n =>
      have hnone : (s.poll p).2.2 = none := by
        unfold Process.poll RepeatedImporter.poll
        rw [hfails]
      rw [hnone]
      exact iff_of_false (fun ⟨_, h, _⟩ => nomatch h) fun h => nomatch h.2.1
  | none =>
      have hread : p.read = p.rows := by
        unfold Poll.read
        rw [hfails]
      rw [poll_of_none hfails, Option.getD_some]
      constructor
      · rintro ⟨d, hd, rfl⟩
        obtain ⟨d', hd', heq⟩ := List.mem_map.mp hd
        obtain ⟨rfl, heq⟩ := Sigma.mk.inj heq
        obtain rfl := eq_of_heq heq
        have hk := mem_keys_readRows.mp (List.mem_map_of_mem hd')
        exact ⟨rfl, rfl, mem_keys_self.mpr (hread ▸ hk.1), hk.2⟩
      · rintro ⟨rfl, -, hk, hseen⟩
        have hk := mem_keys_self.mp hk
        rw [hread] at hk
        obtain ⟨d, hd, rfl⟩ := List.mem_map.mp (mem_keys_readRows.mpr ⟨hk, hseen⟩)
        exact ⟨d, List.mem_map_of_mem hd, rfl⟩

theorem run_concat : s.run (polls ++ [p]) = ((s.run polls).poll p).1 := List.foldl_concat ..

theorem firstPoll_concat {k : Σ t, K t} :
    firstPoll (polls ++ [p]) k = (firstPoll polls k).or (if k ∈ p.keys then some p else none) := by
  unfold firstPoll
  rw [List.find?_append, List.find?_singleton]
  simp only [decide_eq_true_eq]

/-- The keys that have been seen are those with a first poll. -/
theorem mem_seen_run {t : τ} {k : K t} :
    k ∈ ((Process.init imps).run polls).seen t ↔ (firstPoll polls ⟨t, k⟩).isSome := by
  induction polls using List.reverseRecOn with
  | nil => exact iff_of_false List.not_mem_nil nofun
  | append_singleton polls p ih =>
      rw [run_concat, mem_seen_poll, ih, firstPoll_concat, Option.isSome_or, Bool.or_eq_true]
      refine or_congr_right ?_
      by_cases hk : (⟨t, k⟩ : Σ t, K t) ∈ p.keys
      · rw [if_pos hk]
        exact iff_of_true hk rfl
      · rw [if_neg hk]
        exact iff_of_false hk nofun

/-- An importer has published a key if the first poll with it was its own, and did not fail. -/
theorem has_run {i : ι} {k : K (imps.types i)} :
    ((Process.init imps).run polls).Has i k ↔
      ∃ q, firstPoll polls ⟨imps.types i, k⟩ = some q ∧ q.importer = i ∧ q.failsAfter = none := by
  induction polls using List.reverseRecOn with
  | nil => exact iff_of_false (fun ⟨_, h, _⟩ => nomatch h) fun ⟨_, h, _⟩ => nomatch h
  | append_singleton polls p ih =>
      rw [run_concat, has_poll, ih, mem_seen_run, firstPoll_concat]
      -- a key with a first poll has been seen, and is not published any more
      cases firstPoll polls ⟨imps.types i, k⟩ with
      | some q =>
          refine or_iff_left fun h => h.2.2.2 rfl
      | none =>
          by_cases hk : (⟨imps.types i, k⟩ : Σ t, K t) ∈ p.keys
          · rw [if_pos hk]
            constructor
            · rintro (⟨_, h, -⟩ | ⟨hi, hfails, -⟩)
              · cases h
              · exact ⟨p, rfl, hi, hfails⟩
            · rintro ⟨q, hq, hi, hfails⟩
              obtain rfl : p = q := Option.some.inj hq
              exact .inr ⟨hi, hfails, hk, nofun⟩
          · rw [if_neg hk]
            refine iff_of_false ?_ fun ⟨_, h, _⟩ => nomatch h
            rintro (⟨_, h, -⟩ | h)
            · cases h
            · exact hk h.2.2.1

/-- One poll is right if what was seen of its keys has been published. -/
theorem publishesNew_iff {α κ : Type} [DecidableEq κ] {keyExtractor : α → κ} {seen : List κ}
    {rows : List α} {old : κ → Prop} (hold : ∀ k, old k → k ∈ seen) :
    PublishesNew keyExtractor old rows (readRows keyExtractor seen rows).1 ↔
      ∀ d ∈ rows, keyExtractor d ∈ seen → old (keyExtractor d) := by
  constructor
  · intro h d hd hseen
    by_contra hnot
    exact (mem_keys_readRows.mp (h.all d hd hnot)).2 hseen
  · intro h
    refine ⟨readRows_sublist, fun d hd hd' => ?_, nodup_keys_readRows, fun d hd hnot => ?_⟩
    · exact (mem_keys_readRows.mp (List.mem_map_of_mem hd)).2 (hold _ hd')
    · exact mem_keys_readRows.mpr ⟨List.mem_map_of_mem hd, fun hseen => hnot (h d hd hseen)⟩

/--
**Each importer publishes each new row once** exactly in the histories in which a key was first
seen by the importer that comes to it later, and in a poll that did not fail.
-/
theorem faithful_iff (polls : List (Poll imps)) : Faithful polls ↔ SeenByOwn polls := by
  refine forall_congr' fun before => forall_congr' fun p => forall_congr' fun after =>
    forall_congr' fun _ => forall_congr' fun hfails => ?_
  rw [poll_of_none hfails]
  have hold : ∀ k, ((Process.init imps).run before).Has p.importer k →
      k ∈ ((Process.init imps).run before).seen (imps.types p.importer) := fun k hk => by
    obtain ⟨q, hq, -⟩ := has_run.mp hk
    rw [mem_seen_run, hq]
    rfl
  have hkey : ∀ d, (imps.keyExtractor p.importer d ∈
      ((Process.init imps).run before).seen (imps.types p.importer) →
        ((Process.init imps).run before).Has p.importer (imps.keyExtractor p.importer d)) ↔
      ∀ q, firstPoll before ⟨imps.types p.importer, imps.keyExtractor p.importer d⟩ = some q →
        q.importer = p.importer ∧ q.failsAfter = none := by
    intro d
    rw [mem_seen_run, has_run]
    cases firstPoll before ⟨imps.types p.importer, imps.keyExtractor p.importer d⟩ with
    | none => exact iff_of_true nofun nofun
    | some q =>
        constructor
        · intro h q' hq'
          obtain ⟨q'', hq'', hown⟩ := h rfl
          rw [← Option.some.inj hq', Option.some.inj hq'']
          exact hown
        · exact fun h _ => ⟨q, rfl, h q rfl⟩
  rw [← forall₂_congr fun d _ => hkey d, ← publishesNew_iff hold]
  constructor
  · rintro ⟨data, hdata, hp⟩
    rwa [Option.some.inj hdata]
  · exact fun hp => ⟨_, rfl, hp⟩

end History

/-! ## Rows that get lost -/

/-- Importers for rows that are their own keys. -/
def numbers : Importers Bool (fun _ : Unit => Nat) (fun _ => Nat) where
  types := fun _ => ()
  keyExtractor := fun _ d => d

/-- A poll fails when it has read the row 7, which the next poll reads again. -/
def failing : List (Poll numbers) := [⟨false, [7, 8], some 1⟩, ⟨false, [7, 8], none⟩]

/-- Two importers of one instantiation read the same row. -/
def together : List (Poll numbers) := [⟨false, [7], none⟩, ⟨true, [7], none⟩]

theorem not_faithful_failing_together : ¬ Faithful failing ∧ ¬ Faithful together := by
  constructor
  · intro h
    obtain ⟨data, hdata, hp⟩ := h [⟨false, [7, 8], some 1⟩] _ [] rfl rfl
    obtain rfl : [8] = data := Option.some.inj hdata
    have hmem : 7 ∈ [8] := hp.all 7 List.mem_cons_self fun ⟨_, h, _⟩ => nomatch h
    cases List.mem_singleton.mp hmem
  · intro h
    obtain ⟨data, hdata, hp⟩ := h [⟨false, [7], none⟩] _ [] rfl rfl
    obtain rfl : [] = data := Option.some.inj hdata
    refine List.not_mem_nil (hp.all 7 List.mem_cons_self fun ⟨d, h, _⟩ => ?_)
    cases List.mem_singleton.mp h

end RepeatedImporter
