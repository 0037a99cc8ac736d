import TMTransport.RedisChain.Model

/-!
# What the scripts do

Each of the append scripts tests that the current item is the last one and that the
new keys are free, and then puts all records. The positions in the script that is
made for a batch are those of the arguments that are made for it, whatever its
length; but with 100 items it has too many local variables.
-/

namespace RedisChain

open Redis

theorem eval_headScript (key : String) (s : Store) :
    headScript.eval [key] [] s =
      (.string ((s key).getD ""), if s key = none then Function.update s key (some "") else s) := by
  cases h : s key <;>
    simp [Script.eval, headScript, maxLocals, Script.passes, Test.holds, Script.env, h, writeAll,
      Value.get, Result.reply]

/-- The current item is the last one, and no new key is in use. -/
def Free (s : Store) (current : String) (keys : List String) : Prop :=
  s current = some "" ∧ ∀ k ∈ keys, s k = none

instance (s : Store) (current : String) (keys : List String) : Decidable (Free s current keys) :=
  inferInstanceAs (Decidable (_ ∧ _))

theorem eval_appendScript (c d k id data : String) (s : Store) :
    appendScript.eval [c, d, k] [id, data] s =
      if Free s c [d, k] then (.integer 1, putAll [(c, id), (d, data), (k, "")] s)
      else (.integer 0, s) := by
  have hpasses : appendScript.passes s [c, d, k] = true ↔ Free s c [d, k] := by
    simp [Script.passes, appendScript, Test.holds, Script.env, nth_succ, Free]
  rw [Script.eval_eq [(c, id), (d, data), (k, "")] (by simp [appendScript, maxLocals])
    (by simp [appendScript, nth_succ]) rfl rfl]
  simp only [hpasses]
  rfl

section Batch

variable {α : Type} {dk ck data next : α → String} {c id : String} {l : List α} {s : Store}

theorem batchScript_vars_nodup (n : Nat) : ((batchScript n).reads.map Read.var).Nodup := by
  have hperm := flatMap_pair_perm Var.y Var.z (List.range n)
  have hvars : (batchScript n).reads.map Read.var =
      .x :: (List.range n).flatMap fun ii => [Var.y ii, Var.z ii] := by
    simp [batchScript, List.map_flatMap]
  rw [hvars, List.nodup_cons]
  refine ⟨by simp, hperm.nodup_iff.mpr (List.nodup_append.mpr ⟨?_, ?_, ?_⟩)⟩
  · exact List.nodup_range.map fun _ _ h => Var.y.inj h
  · exact List.nodup_range.map fun _ _ h => Var.z.inj h
  · rintro v hv w hw rfl
    obtain ⟨i, -, rfl⟩ := List.mem_map.mp hv
    obtain ⟨j, -, hj⟩ := List.mem_map.mp hw
    cases hj

theorem batchScript_length (n : Nat) : (batchScript n).reads.length = 2 * n + 1 := by
  simp [batchScript, List.length_flatMap, Nat.mul_comm]

/-- Every position in the script is one of the arguments. -/
theorem batchScript_reads (r : Read Var) (hr : r ∈ (batchScript l.length).reads) :
    (nth (c :: l.flatMap fun a => [dk a, ck a]) r.key).isSome = true := by
  simp only [batchScript, List.mem_cons, List.mem_flatMap, List.mem_range, List.not_mem_nil,
    or_false] at hr
  rcases hr with rfl | ⟨i, hi, rfl | rfl⟩
  · rfl
  · rw [(nth_pair dk ck c l i).1]
    simp [hi]
  · rw [(nth_pair dk ck c l i).2]
    simp [hi]

theorem batchScript_passes :
    (batchScript l.length).passes s (c :: l.flatMap fun a => [dk a, ck a]) = true ↔
      Free s c (l.flatMap fun a => [dk a, ck a]) := by
  have hnd := batchScript_vars_nodup l.length
  have hx : (batchScript l.length).env s (c :: l.flatMap fun a => [dk a, ck a]) .x = s c :=
    Script.env_of_mem (r := ⟨.x, 1⟩) hnd (by simp [batchScript]) rfl
  have hyz : ∀ i a, l[i]? = some a →
      (batchScript l.length).env s (c :: l.flatMap fun a => [dk a, ck a]) (.y i) = s (dk a) ∧
      (batchScript l.length).env s (c :: l.flatMap fun a => [dk a, ck a]) (.z i) = s (ck a) := by
    intro i a ha
    have hi : i < l.length := (List.getElem?_eq_some_iff.mp ha).1
    constructor
    · refine Script.env_of_mem (r := ⟨.y i, (i + 1) * 2⟩) hnd ?_ ?_
      · exact List.mem_cons_of_mem _ (List.mem_flatMap.mpr ⟨i, List.mem_range.mpr hi, by simp⟩)
      · rw [(nth_pair dk ck c l i).1, ha]
        rfl
    · refine Script.env_of_mem (r := ⟨.z i, (i + 1) * 2 + 1⟩) hnd ?_ ?_
      · exact List.mem_cons_of_mem _ (List.mem_flatMap.mpr ⟨i, List.mem_range.mpr hi, by simp⟩)
      · rw [(nth_pair dk ck c l i).2, ha]
        rfl
  simp only [Script.passes, List.all_eq_true]
  constructor
  · intro h
    refine ⟨?_, fun k hk => ?_⟩
    · have := h (.isEmpty .x) (by simp [batchScript])
      simpa [Test.holds, hx] using this
    · obtain ⟨a, ha, hka⟩ := List.mem_flatMap.mp hk
      obtain ⟨i, hi⟩ := List.mem_iff_getElem?.mp ha
      have hlt : i ∈ List.range l.length :=
        List.mem_range.mpr (List.getElem?_eq_some_iff.mp hi).1
      have hy := h (.absent (.y i))
        (List.mem_cons_of_mem _ (List.mem_flatMap.mpr ⟨i, hlt, by simp⟩))
      have hz := h (.absent (.z i))
        (List.mem_cons_of_mem _ (List.mem_flatMap.mpr ⟨i, hlt, by simp⟩))
      simp only [Test.holds, hyz i a hi, Option.isNone_iff_eq_none] at hy hz
      rcases List.mem_cons.mp hka with rfl | hka
      · exact hy
      · rwa [List.mem_singleton.mp hka]
  · rintro ⟨hempty, hfree⟩ t ht
    simp only [batchScript, List.mem_cons, List.mem_flatMap, List.mem_range, List.not_mem_nil,
      or_false] at ht
    rcases ht with rfl | ⟨i, hi, rfl | rfl⟩
    · simp [Test.holds, hx, hempty]
    · have ha : l[i]? = some l[i] := List.getElem?_eq_getElem hi
      have := hfree (dk l[i]) (List.mem_flatMap.mpr ⟨l[i], List.getElem_mem hi, by simp⟩)
      simp [Test.holds, (hyz i _ ha).1, this]
    · have ha : l[i]? = some l[i] := List.getElem?_eq_getElem hi
      have := hfree (ck l[i]) (List.mem_flatMap.mpr ⟨l[i], List.getElem_mem hi, by simp⟩)
      simp [Test.holds, (hyz i _ ha).2, this]

theorem batchScript_writes :
    (batchScript l.length).yes.writes.map (fun w =>
        (nth (c :: l.flatMap fun a => [dk a, ck a]) w.key,
          w.value.get (id :: l.flatMap fun a => [data a, next a]))) =
      ((c, id) :: l.flatMap fun a => [(dk a, data a), (ck a, next a)]).map
        fun p => (some p.1, some p.2) := by
  simp only [batchScript, List.map_cons, List.map_flatMap, List.map_nil, nth_cons_one, Value.get]
  refine congrArg _ (flatMap_range l fun i a ha => ?_)
  rw [(nth_pair dk ck c l i).1, (nth_pair dk ck c l i).2, (nth_pair data next id l i).1,
    (nth_pair data next id l i).2, ha]
  rfl

/-- **The script for a batch** of at most 99 items. -/
theorem eval_batchScript (hl : l.length < 100) :
    (batchScript l.length).eval (c :: l.flatMap fun a => [dk a, ck a])
        (id :: l.flatMap fun a => [data a, next a]) s =
      if Free s c (l.flatMap fun a => [dk a, ck a]) then
        (.integer 1, putAll ((c, id) :: l.flatMap fun a => [(dk a, data a), (ck a, next a)]) s)
      else (.integer 0, s) := by
  have hlen : (batchScript l.length).reads.length ≤ maxLocals := by
    rw [batchScript_length, maxLocals]
    omega
  rw [Script.eval_eq _ hlen batchScript_reads batchScript_writes rfl]
  simp only [batchScript_passes]
  rfl

/-- A script for 100 items is not compiled. -/
theorem eval_batchScript_long {n : Nat} (hn : 100 ≤ n) (keys argv : List String) (s : Store) :
    (batchScript n).eval keys argv s = (.error, s) := by
  refine if_pos (.inl ?_)
  rw [batchScript_length, maxLocals]
  omega

end Batch

end RedisChain
