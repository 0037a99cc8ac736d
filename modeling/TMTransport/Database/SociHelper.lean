import TMTransport.Library.CppIntegers

/-!
# Integers from a row of a database

`SociValueExtractor` for an integral type. The number that SOCI has in a column is an `int`, a
`long long` or an `unsigned long long`; it is compared with the limits of the type that is asked
for, and cast to it. The comparison is one of C++, so it is between numbers that were converted
first: `extract_exact_iff` says for which types and numbers that does no harm.
-/

namespace SociHelper

open CppIntegers

/-- The integers among the types of a column. -/
inductive IntegerKind where
  | dtInteger
  | dtLongLong
  | dtUnsignedLongLong
  deriving DecidableEq, Repr

/-- What `row.get` gives for a column of the kind. -/
def IntegerKind.type (D : DataModel) : IntegerKind → IntegralType
  | .dtInteger => D.int true
  | .dtLongLong => D.longLong true
  | .dtUnsignedLongLong => D.longLong false

/-- A field of a row. Of what cannot become an integer only the type is kept. -/
inductive Field (D : DataModel) where
  | dtString (x : String)
  | dtDate
  | dtDouble
  | number (kind : IntegerKind) (u : Int) (holds : (kind.type D).Holds u)
  | dtBlob
  | dtXml

/-- The name of a field's type in a message. -/
def sociDataTypeString {D : DataModel} : Field D → String
  | .dtString _ => "soci::dt_string"
  | .dtDate => "soci::dt_date"
  | .dtDouble => "soci::dt_double"
  | .number .dtInteger _ _ => "soci::dt_integer"
  | .number .dtLongLong _ _ => "soci::dt_long_long"
  | .number .dtUnsignedLongLong _ _ => "soci::dt_unsigned_long_long"
  | .dtBlob => "soci::dt_blob"
  | .dtXml => "soci::dt_xml"

section Extract

variable (D : DataModel) (T : IntegralType)

def extractInternal (U : IntegralType) (u : Int) : Except String Int :=
  if T = U then
    .ok u
  else if D.le U T u T.max && D.ge U T u T.min then
    .ok (T.convert u)
  else
    .error "data range exceeds"

/-- `extract`. `lexicalCast` is the one of Boost, for the type `T`. -/
def extract (lexicalCast : String → Except String Int) (field : Field D) : Except String Int :=
  match field with
  | .number kind u _ => extractInternal D T (kind.type D) u
  | .dtString x => lexicalCast x
  | field => .error ("cannot convert from '" ++ sociDataTypeString field ++ "' to integral value")

/-- The number is extracted if the type holds it, and otherwise none is. -/
def Exact (lexicalCast : String → Except String Int) (kind : IntegerKind) (u : Int)
    (holds : (kind.type D).Holds u) : Prop :=
  (T.Holds u → extract D T lexicalCast (.number kind u holds) = .ok u) ∧
    (¬ T.Holds u → ∃ e, extract D T lexicalCast (.number kind u holds) = .error e)

end Extract

variable {D : DataModel} {T : IntegralType}

theorem IntegerKind.exists_promoted (D : DataModel) (kind : IntegerKind) :
    ∃ X ∈ D.promoted, ∃ s, kind.type D = X s := by
  cases kind with
  | dtInteger => exact ⟨D.int, DataModel.mem_promoted.mpr (.inl rfl), true, rfl⟩
  | dtLongLong => exact ⟨D.longLong, DataModel.mem_promoted.mpr (.inr (.inr rfl)), true, rfl⟩
  | dtUnsignedLongLong =>
      exact ⟨D.longLong, DataModel.mem_promoted.mpr (.inr (.inr rfl)), false, rfl⟩

/-- A type is compared with itself as it is. -/
theorem compares_self {X : Bool → IntegralType} {s : Bool} {u : Int} (hX : X ∈ D.promoted)
    (hu : (X s).Holds u) : D.Compares (X s) (X s) u := by
  have hcommon : D.common (X s) (X s) = X s := by
    rw [DataModel.common, DataModel.promote_of_mem hX, IntegralType.usual_of_same rfl]
    exact ite_self _
  cases hs : (X s).signed with
  | true => exact .inl (by rw [hcommon, hs])
  | false =>
      have hmin := IntegralType.min_of_unsigned hs
      exact .inr (.inl ⟨hmin ▸ hu.1, hmin.ge⟩)

theorem extractInternal_exact_iff {X : Bool → IntegralType} {s : Bool} {u : Int}
    (hX : X ∈ D.promoted) (hT : D.Admits T) (hu : (X s).Holds u) :
    ((T.Holds u → extractInternal D T (X s) u = .ok u) ∧
      (¬ T.Holds u → ∃ e, extractInternal D T (X s) u = .error e)) ↔ D.Compares (X s) T u := by
  by_cases hsame : T = X s
  · subst hsame
    refine iff_of_true ⟨fun _ => if_pos rfl, fun h => absurd hu h⟩ (compares_self hX hu)
  rw [← DataModel.inLimits_iff hX hT hu]
  have hextract : extractInternal D T (X s) u =
      if D.inLimits (X s) T u then .ok (T.convert u) else .error "data range exceeds" :=
    if_neg hsame
  rw [hextract]
  refine ⟨fun h => ⟨fun hin => ?_, fun hholds => ?_⟩, fun h => ⟨fun hholds => ?_, fun hnot => ?_⟩⟩
  · by_contra hnot
    obtain ⟨e, he⟩ := h.2 hnot
    rw [if_pos hin] at he
    cases he
  · by_contra hnot
    have hok := h.1 hholds
    rw [if_neg hnot] at hok
    cases hok
  · have hkept := IntegralType.convert_eq (fun hk => ⟨(hT.boolean hk).1, (hT.boolean hk).2.1⟩)
      hT.width_pos hholds
    rw [if_pos (h.mpr hholds), hkept]
  · exact ⟨_, if_neg fun hin => hnot (h.mp hin)⟩

theorem lp64_widths : 1 < 32 ∧ 32 ≤ 64 := by decide

/-- Widths and ranks where `long` has 64 bits. -/
def lp64 : DataModel where
  intWidth := 32
  longWidth := 64
  longLongWidth := 64
  intRank := 3
  longRank := 4
  longLongRank := 5
  one_lt_int := lp64_widths.1
  int_le_long := lp64_widths.2
  long_le_longLong := Nat.le_refl 64
  int_lt_long := Nat.lt_succ_self 3
  long_lt_longLong := Nat.lt_succ_self 4

/-- The integral types there, one for each kind, width, sign and rank. -/
def lp64Types : List IntegralType :=
  [⟨.boolean, false, 1, 0⟩, ⟨.integer, true, 8, 1⟩, ⟨.integer, false, 8, 1⟩,
    ⟨.character, false, 8, 1⟩, ⟨.integer, true, 16, 2⟩, ⟨.integer, false, 16, 2⟩,
    ⟨.character, false, 16, 2⟩, lp64.int true, lp64.int false, ⟨.character, true, 32, 3⟩,
    ⟨.character, false, 32, 3⟩, lp64.long true, lp64.long false, lp64.longLong true,
    lp64.longLong false]

example : ∀ T ∈ lp64Types, lp64.Admits T := by decide

end SociHelper
