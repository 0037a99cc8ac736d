import Mathlib.Data.List.TakeWhile

/-!
# Wire formats that round-trip
-/

/-- A wire format for `X`: whatever is written reads back. -/
structure Codec (X : Type) where
  serialize : X → String
  parse : String → Option X
  parse_serialize : ∀ x, parse (serialize x) = some x

namespace Codec

variable {X : Type}

/-- A format for `X` by way of one for `Y`. -/
def comap {Y : Type} (c : Codec Y) (f : X → Y) (g : Y → X) (h : ∀ x, g (f x) = x) : Codec X where
  serialize := fun x => c.serialize (f x)
  parse := fun s => (c.parse s).map g
  parse_serialize := fun x => by simp [c.parse_serialize, h]

/-- A string behind a tag. -/
def tagged (t : Char) : Codec String where
  serialize := fun s => String.ofList (t :: s.toList)
  parse := fun s => match s.toList with
    | c :: rest => if c = t then some (String.ofList rest) else none
    | [] => none
  parse_serialize := fun s => by simp

/-- A string behind a number in unary. -/
def counted : Codec (Nat × String) where
  serialize := fun x => String.ofList (List.replicate x.1 '1' ++ '0' :: x.2.toList)
  parse := fun s => match s.toList.dropWhile (· = '1') with
    | _ :: rest => some ((s.toList.takeWhile (· = '1')).length, String.ofList rest)
    | [] => none
  parse_serialize := fun x => by
    simp

end Codec

/-- What a callee sees of a string that is passed as a `char const *`: it ends at the first NUL. -/
def cStr (s : String) : String := String.ofList (s.toList.takeWhile (· ≠ '\x00'))

theorem cStr_of_noNul {s : String} (h : '\x00' ∉ s.toList) : cStr s = s := by
  have : s.toList.takeWhile (· ≠ '\x00') = s.toList := by
    rw [List.takeWhile_eq_self_iff]
    intro c hc
    simp only [ne_eq, decide_not, Bool.not_eq_true', decide_eq_false_iff_not]
    intro he
    exact h (he ▸ hc)
  rw [cStr, this, String.ofList_toList]

theorem cStr_append {a b : String} (h : '\x00' ∉ a.toList) : cStr (a ++ b) = a ++ cStr b := by
  have htake : (a.toList ++ b.toList).takeWhile (· ≠ '\x00') =
      a.toList ++ b.toList.takeWhile (· ≠ '\x00') := by
    refine List.takeWhile_append_of_pos fun c hc => ?_
    simp only [ne_eq, decide_not, Bool.not_eq_true', decide_eq_false_iff_not]
    intro he
    exact h (he ▸ hc)
  rw [cStr, cStr, String.toList_append, htake, String.ofList_append, String.ofList_toList]
