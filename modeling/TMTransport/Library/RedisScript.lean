import Mathlib.Data.List.Nodup
import Mathlib.Logic.Function.Basic

/-!
# Redis strings, and scripts over them

Redis keeps strings under strings, and runs a script as one command. The scripts
here read some keys into local variables, make one test, and write. Reads and writes
name their keys by position in `KEYS`, and values by position in `ARGV`; positions
start at 1.

A Lua function has at most 200 local variables. A script with more of them is not
compiled, and `EVAL` answers with an error.
-/

namespace Redis

abbrev Store := String → Option String

/-- `local var = redis.call('GET',KEYS[key])` -/
structure Read (V : Type) where
  var : V
  key : Nat

inductive Test (V : Type) where
  /-- `v`, which is false if there was no value. -/
  | present (v : V)
  /-- `v == ''` -/
  | isEmpty (v : V)
  /-- `not v` -/
  | absent (v : V)

inductive Value where
  | argv (n : Nat)
  | empty

/-- `redis.call('SET',KEYS[key],value)` -/
structure Write where
  key : Nat
  value : Value

inductive Result (V : Type) where
  | var (v : V)
  | text (s : String)
  | number (n : Nat)

structure Branch (V : Type) where
  writes : List Write
  result : Result V

/-- The reads, one test (its parts joined by `and`), and what follows if it holds or not. -/
structure Script (V : Type) where
  reads : List (Read V)
  tests : List (Test V)
  yes : Branch V
  no : Branch V

inductive Reply where
  | string (s : String)
  | integer (n : Nat)
  | nil
  | error
  deriving DecidableEq

def maxLocals : Nat := 200

/-- The element at a position that starts at 1. -/
def nth (l : List String) (n : Nat) : Option String := if n = 0 then none else l[n - 1]?

@[simp] theorem nth_zero (l : List String) : nth l 0 = none := rfl

@[simp] theorem nth_cons_one (a : String) (l : List String) : nth (a :: l) 1 = some a := rfl

theorem nth_succ (l : List String) (n : Nat) : nth l (n + 1) = l[n]? := rfl

def Test.holds {V : Type} (env : V → Option String) : Test V → Bool
  | .present v => (env v).isSome
  | .isEmpty v => env v = some ""
  | .absent v => (env v).isNone

def Result.reply {V : Type} (env : V → Option String) : Result V → Reply
  | .var v => match env v with
    | some s => .string s
    | none => .nil
  | .text s => .string s
  | .number n => .integer n

def Value.get (argv : List String) : Value → Option String
  | .argv n => nth argv n
  | .empty => some ""

/-- The writes, up to one that fails because an argument is missing. -/
def writeAll (keys argv : List String) : List Write → Store → Store × Bool
  | [], s => (s, true)
  | w :: ws, s =>
    match nth keys w.key, w.value.get argv with
    | some k, some v => writeAll keys argv ws (Function.update s k (some v))
    | _, _ => (s, false)

/-- Put values under keys, one after the other. -/
def putAll : List (String × String) → Store → Store
  | [], s => s
  | p :: ps, s => putAll ps (Function.update s p.1 (some p.2))

namespace Script

variable {V : Type} [DecidableEq V]

/-- What a variable holds. A later declaration hides an earlier one. -/
def env (script : Script V) (s : Store) (keys : List String) (v : V) : Option String :=
  match script.reads.reverse.find? (·.var = v) with
  | none => none
  | some r => (nth keys r.key).bind s

def passes (script : Script V) (s : Store) (keys : List String) : Bool :=
  script.tests.all (·.holds (script.env s keys))

/-- `EVAL` -/
def eval (script : Script V) (keys argv : List String) (s : Store) : Reply × Store :=
  if script.reads.length > maxLocals ∨ script.reads.any fun r => (nth keys r.key).isNone then
    (.error, s)
  else
    let branch := if script.passes s keys then script.yes else script.no
    match writeAll keys argv branch.writes s with
    | (s', true) => (branch.result.reply (script.env s keys), s')
    | (s', false) => (.error, s')

theorem find?_reverse_of_nodup {reads : List (Read V)} {r : Read V}
    (hnd : (reads.map Read.var).Nodup) (hr : r ∈ reads) :
    reads.reverse.find? (·.var = r.var) = some r := by
  cases hfind : reads.reverse.find? (·.var = r.var) with
  | none =>
      have := List.find?_eq_none.mp hfind r (List.mem_reverse.mpr hr)
      simp at this
  | some r' =>
      have hvar : r'.var = r.var := by simpa using List.find?_some hfind
      have hmem : r' ∈ reads := List.mem_reverse.mp (List.mem_of_find?_eq_some hfind)
      rw [List.inj_on_of_nodup_map hnd hmem hr hvar]

/-- A variable that is declared once holds what its key has. -/
theorem env_of_mem {script : Script V} {s : Store} {keys : List String} {r : Read V} {k : String}
    (hnd : (script.reads.map Read.var).Nodup) (hr : r ∈ script.reads)
    (hk : nth keys r.key = some k) : script.env s keys r.var = s k := by
  rw [env, find?_reverse_of_nodup hnd hr]
  simp [hk]

end Script

theorem writeAll_eq_putAll {keys argv : List String} {ws : List Write}
    {ps : List (String × String)}
    (h : ws.map (fun w => (nth keys w.key, w.value.get argv)) =
      ps.map fun p => (some p.1, some p.2)) (s : Store) :
    writeAll keys argv ws s = (putAll ps s, true) := by
  induction ws generalizing ps s with
  | nil =>
      cases ps with
      | nil => rfl
      | cons p ps => simp at h
  | cons w ws ih =>
      cases ps with
      | nil => simp at h
      | cons p ps =>
          simp only [List.map_cons, List.cons.injEq, Prod.mk.injEq] at h
          simp only [writeAll, h.1.1, h.1.2]
          exact ih h.2 _

/-- A script that compiles, and writes in one of its branches at most. -/
theorem Script.eval_eq {V : Type} [DecidableEq V] {script : Script V} {keys argv : List String}
    (ps : List (String × String)) (hlen : script.reads.length ≤ maxLocals)
    (hkeys : ∀ r ∈ script.reads, (nth keys r.key).isSome = true)
    (hyes : script.yes.writes.map (fun w => (nth keys w.key, w.value.get argv)) =
      ps.map fun p => (some p.1, some p.2))
    (hno : script.no.writes = []) (s : Store) :
    script.eval keys argv s = if script.passes s keys = true then
      (script.yes.result.reply (script.env s keys), putAll ps s)
    else (script.no.result.reply (script.env s keys), s) := by
  have hcompiles : ¬ (script.reads.length > maxLocals ∨
      (script.reads.any fun r => (nth keys r.key).isNone) = true) := by
    rw [List.any_eq_true, not_or]
    refine ⟨by omega, fun ⟨r, hr, hnone⟩ => ?_⟩
    have := hkeys r hr
    rw [Option.isNone_iff_eq_none.mp hnone] at this
    cases this
  rw [eval, if_neg hcompiles]
  by_cases hpasses : script.passes s keys = true
  · simp only [if_pos hpasses, writeAll_eq_putAll hyes]
  · simp only [if_neg hpasses, hno, writeAll]

/-! ## What a script touches -/

theorem mem_of_nth {l : List String} {n : Nat} {k : String} (h : nth l n = some k) : k ∈ l := by
  cases n with
  | zero => cases h
  | succ n => exact List.mem_of_getElem? h

theorem writeAll_of_notMem {keys argv : List String} {ws : List Write} {s : Store} {k : String}
    (h : k ∉ keys) : (writeAll keys argv ws s).1 k = s k := by
  induction ws generalizing s with
  | nil => rfl
  | cons w ws ih =>
      rw [writeAll]
      split
      · next k' v hk hv =>
        have hne : k ≠ k' := fun heq => h (heq ▸ mem_of_nth hk)
        rw [ih, Function.update_of_ne hne]
      · rfl

/-- What is there after the writes was there before, or has been written. -/
theorem writeAll_cases {keys argv : List String} {ws : List Write} {s : Store} {k v : String}
    (h : (writeAll keys argv ws s).1 k = some v) :
    s k = some v ∨ ∃ w ∈ ws, nth keys w.key = some k ∧ w.value.get argv = some v := by
  induction ws generalizing s with
  | nil => exact .inl h
  | cons w ws ih =>
      rw [writeAll] at h
      split at h
      · next k' v' hk hv =>
        rcases ih h with hs | ⟨w', hw', hwrite⟩
        · by_cases heq : k = k'
          · rw [heq, Function.update_self] at hs
            exact .inr ⟨w, List.mem_cons_self, heq ▸ hk, hs ▸ hv⟩
          · rw [Function.update_of_ne heq] at hs
            exact .inl hs
        · exact .inr ⟨w', List.mem_cons_of_mem _ hw', hwrite⟩
      · exact .inl h

theorem writeAll_congr {keys argv : List String} {ws : List Write} {s t : Store} :
    (writeAll keys argv ws s).2 = (writeAll keys argv ws t).2 ∧
      ∀ k, s k = t k → (writeAll keys argv ws s).1 k = (writeAll keys argv ws t).1 k := by
  induction ws generalizing s t with
  | nil => exact ⟨rfl, fun k hk => hk⟩
  | cons w ws ih =>
      rw [writeAll, writeAll]
      split
      · next k' v' _ _ =>
        refine ⟨ih.1, fun k hk => ih.2 k ?_⟩
        by_cases heq : k = k'
        · rw [heq, Function.update_self, Function.update_self]
        · rw [Function.update_of_ne heq, Function.update_of_ne heq, hk]
      · exact ⟨rfl, fun k hk => hk⟩

namespace Script

variable {V : Type} [DecidableEq V] {script : Script V} {keys argv : List String} {s t : Store}

theorem eval_of_notMem {k : String} (h : k ∉ keys) : (script.eval keys argv s).2 k = s k := by
  unfold eval
  split
  · rfl
  · have hw (ws : List Write) : (writeAll keys argv ws s).1 k = s k := writeAll_of_notMem h
    dsimp only
    split
    · next s' heq => exact (congrArg (fun r => r.1 k) heq).symm.trans (hw _)
    · next s' heq => exact (congrArg (fun r => r.1 k) heq).symm.trans (hw _)

theorem eval_cases {k v : String} (h : (script.eval keys argv s).2 k = some v) :
    s k = some v ∨ ∃ w ∈ script.yes.writes ++ script.no.writes,
      nth keys w.key = some k ∧ w.value.get argv = some v := by
  have hw : ∀ b, b = script.yes ∨ b = script.no →
      (writeAll keys argv b.writes s).1 k = some v →
      s k = some v ∨ ∃ w ∈ script.yes.writes ++ script.no.writes,
        nth keys w.key = some k ∧ w.value.get argv = some v := by
    intro b hb hk
    refine (writeAll_cases hk).imp_right fun ⟨w, hmem, hwrite⟩ => ⟨w, ?_, hwrite⟩
    rcases hb with rfl | rfl
    · exact List.mem_append_left _ hmem
    · exact List.mem_append_right _ hmem
  unfold eval at h
  split at h
  · exact .inl h
  · dsimp only at h
    refine hw (if script.passes s keys = true then script.yes else script.no) (by split <;> simp) ?_
    split at h
    · next s' heq => rwa [heq]
    · next s' heq => rwa [heq]

/-- A script sees its `KEYS` only. -/
theorem eval_congr (h : ∀ k ∈ keys, s k = t k) :
    (script.eval keys argv s).1 = (script.eval keys argv t).1 ∧
      ∀ k, s k = t k → (script.eval keys argv s).2 k = (script.eval keys argv t).2 k := by
  have henv : script.env s keys = script.env t keys := by
    funext v
    unfold env
    split
    · rfl
    · next r _ =>
      cases hk : nth keys r.key with
      | none => rfl
      | some k => exact h k (mem_of_nth hk)
  have hpasses : script.passes s keys = script.passes t keys := by
    rw [passes, passes, henv]
  unfold eval
  split
  · exact ⟨rfl, fun k hk => hk⟩
  · rw [hpasses, henv]
    dsimp only
    generalize (if script.passes t keys = true then script.yes else script.no) = b
    have hw : (writeAll keys argv b.writes s).2 = (writeAll keys argv b.writes t).2 ∧
        ∀ k, s k = t k →
          (writeAll keys argv b.writes s).1 k = (writeAll keys argv b.writes t).1 k :=
      writeAll_congr
    cases hs : writeAll keys argv b.writes s with
    | mk s' ok =>
        cases ht : writeAll keys argv b.writes t with
        | mk t' ok' =>
            rw [hs, ht] at hw
            obtain ⟨rfl, hstores⟩ := hw
            cases ok with
            | true => exact ⟨rfl, hstores⟩
            | false => exact ⟨rfl, hstores⟩

end Script

theorem putAll_of_notMem {ps : List (String × String)} {s : Store} {k : String}
    (h : k ∉ ps.map Prod.fst) : putAll ps s k = s k := by
  induction ps generalizing s with
  | nil => rfl
  | cons p ps ih =>
      simp only [List.map_cons, List.mem_cons, not_or] at h
      rw [putAll, ih h.2, Function.update_of_ne h.1]

/-- No key goes away. -/
theorem putAll_ne_none {ps : List (String × String)} {s : Store} {k : String} (h : s k ≠ none) :
    putAll ps s k ≠ none := by
  induction ps generalizing s with
  | nil => exact h
  | cons p ps ih =>
      refine ih ?_
      by_cases heq : k = p.1
      · rw [heq, Function.update_self]
        exact Option.some_ne_none _
      · rwa [Function.update_of_ne heq]

/-- Under keys that differ, all values are there. -/
theorem putAll_of_mem {ps : List (String × String)} {s : Store} {p : String × String}
    (hnd : (ps.map Prod.fst).Nodup) (hp : p ∈ ps) : putAll ps s p.1 = some p.2 := by
  induction ps generalizing s with
  | nil => cases hp
  | cons q ps ih =>
      rw [List.map_cons, List.nodup_cons] at hnd
      rcases List.mem_cons.mp hp with rfl | hp
      · rw [putAll, putAll_of_notMem hnd.1, Function.update_self]
      · exact ih hnd.2 hp

/-! ## Two for each element of a list -/

section Pairs

variable {α β : Type}

theorem flatMap_pair_perm (f g : α → β) (l : List α) :
    (l.flatMap fun a => [f a, g a]).Perm (l.map f ++ l.map g) := by
  induction l with
  | nil => rfl
  | cons a l ih =>
      refine List.Perm.cons (f a) ?_
      exact (List.Perm.cons (g a) ih).trans List.perm_middle.symm

theorem getElem?_flatMap_pair (f g : α → β) (l : List α) (i : Nat) :
    (l.flatMap fun a => [f a, g a])[2 * i]? = l[i]?.map f ∧
      (l.flatMap fun a => [f a, g a])[2 * i + 1]? = l[i]?.map g := by
  induction l generalizing i with
  | nil => simp
  | cons a l ih =>
      cases i with
      | zero => simp
      | succ i => simpa [Nat.mul_succ] using ih i

/-- The elements behind the first one, by their positions. -/
theorem nth_pair (f g : α → String) (c : String) (l : List α) (i : Nat) :
    nth (c :: l.flatMap fun a => [f a, g a]) ((i + 1) * 2) = l[i]?.map f ∧
      nth (c :: l.flatMap fun a => [f a, g a]) ((i + 1) * 2 + 1) = l[i]?.map g := by
  have heven : (i + 1) * 2 = 2 * i + 1 + 1 := by omega
  rw [heven, nth_succ, nth_succ, List.getElem?_cons_succ, List.getElem?_cons_succ]
  exact getElem?_flatMap_pair f g l i

/-- A loop over the positions is a loop over the elements. -/
theorem flatMap_range {F : Nat → List β} {G : α → List β} (l : List α)
    (h : ∀ i a, l[i]? = some a → F i = G a) : (List.range l.length).flatMap F = l.flatMap G := by
  induction l generalizing F with
  | nil => rfl
  | cons a l ih =>
      rw [List.length_cons, List.range_succ_eq_map, List.flatMap_cons, List.flatMap_map,
        List.flatMap_cons, h 0 a rfl, ih fun i b hi => h (i + 1) b hi]

end Pairs

end Redis
