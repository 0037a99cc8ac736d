import Mathlib.Data.List.Basic
import TMTransport.Library.Splitting

/-!
# Paths as texts

A path of POSIX is a text with slashes. Here is what it means to append one, what its
names are, and when a path lies under another one by its text alone: both are written
in normal form, and the one goes on where the other ends.
-/

namespace PosixPath

/-- A path, byte by byte. -/
abbrev Path := List UInt8

def slash : UInt8 := 47

def dot : UInt8 := 46

def isAbsolute (p : Path) : Bool := p.head? == some slash

/-- What stands behind the last slash. -/
def filename (p : Path) : Path := (p.splitOn slash).getLastD []

/-- `operator/`. An absolute path replaces what it is appended to. -/
def append (p q : Path) : Path :=
  if isAbsolute q then q
  else if filename p ≠ [] then p ++ slash :: q
  else p ++ q

/-- From the last dot of the filename on, unless it is the first character. -/
def extension (p : Path) : Path :=
  if filename p = [dot] ∨ filename p = [dot, dot] then []
  else
    match ((filename p).splitOn dot).reverse with
    | last :: [] :: [] => if last = [] then [dot] else []
    | last :: _ :: _ => dot :: last
    | _ => []

/-- The names between the slashes. -/
def names (p : Path) : List Path := (p.splitOn slash).filter (· ≠ [])

/-- One more name behind those of a normal form. -/
def push (absolute : Bool) (stack : List Path) (name : Path) : List Path :=
  if name = [dot] then stack
  else if name = [dot, dot] then
    if stack = [] then
      if absolute then [] else [name]
    else if stack.getLast? = some [dot, dot] then stack ++ [name]
    else stack.dropLast
  else stack ++ [name]

/-- The names of `lexically_normal`. -/
def normal (p : Path) : List Path := (names p).foldl (push (isAbsolute p)) []

/-- `p` lies under `root`, by their texts. -/
def Under (p root : Path) : Prop :=
  isAbsolute p = isAbsolute root ∧
    ∃ rest, normal p = normal root ++ rest ∧ [dot, dot] ∉ rest

/-- The text `pattern` occurs in a text. -/
def occurs (pattern : List UInt8) : List UInt8 → Bool
  | [] => pattern.isEmpty
  | c :: s => pattern.isPrefixOf (c :: s) || occurs pattern s

variable {p q : Path}

/-! ## The names of what is appended -/

theorem names_append_cons (p q : Path) : names (p ++ slash :: q) = names p ++ names q := by
  rw [names, List.splitOn_append_cons_self, List.filter_append]
  rfl

/-- Without a filename, a path is empty or ends in a slash. -/
theorem eq_of_filename_nil (h : filename p = []) : p = [] ∨ ∃ front, p = front ++ [slash] := by
  induction hn : p.length using Nat.strongRecOn generalizing p with
  | ind n ih =>
    rcases Splitting.splitOn_cases slash p with ⟨-, hsplit⟩ | ⟨first, ys, -, hp, hsplit⟩
    · left
      rw [filename, hsplit] at h
      exact h
    · right
      have hne : ys.splitOn slash ≠ [] := List.splitOn_ne_nil _ _
      have hys : filename ys = [] := by
        rw [filename, hsplit] at h
        obtain ⟨z, zs, hzs⟩ := List.exists_cons_of_ne_nil hne
        rw [hzs] at h
        rw [filename, hzs]
        exact h
      have hlt : ys.length < n := by
        rw [← hn, hp, List.length_append, List.length_cons]
        omega
      rcases ih ys.length hlt hys rfl with rfl | ⟨front, rfl⟩
      · exact ⟨first, hp⟩
      · exact ⟨first ++ slash :: front, by rw [hp, List.append_assoc, List.cons_append]⟩

theorem names_append (hq : isAbsolute q = false) : names (append p q) = names p ++ names q := by
  unfold append
  rw [if_neg (by rw [hq]; exact Bool.false_ne_true)]
  split
  · exact names_append_cons p q
  · next h =>
    rcases eq_of_filename_nil (not_not.mp h) with rfl | ⟨front, rfl⟩
    · rfl
    · rw [List.append_assoc, List.singleton_append, names_append_cons, names_append_cons front []]
      rw [show names [] = [] from rfl, List.append_nil]

theorem isAbsolute_append (hq : isAbsolute q = false) :
    isAbsolute (append p q) = isAbsolute p := by
  unfold append
  rw [if_neg (by rw [hq]; exact Bool.false_ne_true)]
  cases p with
  | nil =>
      rw [if_neg (by simp [filename])]
      exact hq
  | cons c p => split <;> rfl

/-! ## Normal forms -/

/-- Names that do not go up. -/
theorem foldl_push (absolute : Bool) (stack ns : List Path) (h : [dot, dot] ∉ ns) :
    ns.foldl (push absolute) stack = stack ++ ns.filter (· ≠ [dot]) := by
  induction ns generalizing stack with
  | nil => exact (List.append_nil stack).symm
  | cons name ns ih =>
      obtain ⟨hname, hns⟩ := not_or.mp (mt List.mem_cons.mpr h)
      rw [List.foldl_cons, ih _ hns]
      by_cases hdot : name = [dot]
      · rw [push, if_pos hdot, List.filter_cons_of_neg (by simpa using hdot)]
      · rw [push, if_neg hdot, if_neg (Ne.symm hname),
          List.filter_cons_of_pos (by simpa using hdot), List.append_assoc, List.singleton_append]

/-- **What is appended lies under**, if it is not absolute and does not go up. -/
theorem under_append (hq : isAbsolute q = false) (hup : [dot, dot] ∉ names q) :
    Under (append p q) p := by
  refine ⟨isAbsolute_append hq, (names q).filter (· ≠ [dot]), ?_, fun hmem => ?_⟩
  · rw [normal, names_append hq, List.foldl_append, isAbsolute_append hq, foldl_push _ _ _ hup]
    rfl
  · exact hup (List.mem_of_mem_filter hmem)

/-! ## Texts without two dots -/

theorem not_occurs_cons {pattern s : List UInt8} {c : UInt8} (h : occurs pattern (c :: s) = false) :
    occurs pattern s = false := by
  rw [occurs, Bool.or_eq_false_iff] at h
  exact h.2

theorem occurs_of_append (pattern front back : List UInt8) :
    occurs pattern (front ++ (pattern ++ back)) = true := by
  induction front with
  | nil =>
      cases hpattern : pattern ++ back with
      | nil =>
          obtain ⟨rfl, -⟩ := List.append_eq_nil_iff.mp hpattern
          rfl
      | cons c s =>
          rw [List.nil_append, occurs, Bool.or_eq_true, List.isPrefixOf_iff_prefix]
          exact .inl ⟨back, hpattern⟩
  | cons c front ih =>
      rw [List.cons_append, occurs, ih, Bool.or_true]

/-- A name is a part of the text. -/
theorem exists_of_mem_splitOn {name : Path} (h : name ∈ p.splitOn slash) :
    ∃ front back, p = front ++ (name ++ back) := by
  induction hn : p.length using Nat.strongRecOn generalizing p with
  | ind n ih =>
    rcases Splitting.splitOn_cases slash p with ⟨-, hsplit⟩ | ⟨first, ys, -, hp, hsplit⟩
    · rw [hsplit, List.mem_singleton] at h
      exact ⟨[], [], by rw [h, List.append_nil, List.nil_append]⟩
    · rw [hsplit] at h
      rcases List.mem_cons.mp h with rfl | h
      · exact ⟨[], slash :: ys, by rw [hp, List.nil_append]⟩
      · have hlt : ys.length < n := by
          rw [← hn, hp, List.length_append, List.length_cons]
          omega
        obtain ⟨front, back, hys⟩ := ih ys.length hlt h rfl
        exact ⟨first ++ slash :: front, back, by rw [hp, hys, List.append_assoc, List.cons_append]⟩

theorem not_mem_names_of_not_occurs {name : Path} (h : occurs name p = false) : name ∉ names p := by
  intro hmem
  obtain ⟨front, back, hp⟩ := exists_of_mem_splitOn (List.mem_of_mem_filter hmem)
  rw [hp, occurs_of_append] at h
  cases h

end PosixPath
