import Mathlib.Data.Char
import Mathlib.Data.List.Lex

/-!
# Connection locators

The text form is `host:port:userName:password:identifier[name=value,...]`, where
all parts after the host may be left out. The text is kept as a list of
characters; everything that the parser looks for is ASCII.
-/

namespace ConnectionLocator

abbrev Text := List Char

/-! ## Text, as the parser's library has it -/

/-- What `boost::trim` takes off, in the classic locale. -/
def isSpace (c : Char) : Bool :=
  c = ' ' ∨ c = '\t' ∨ c = '\n' ∨ c = '\x0b' ∨ c = '\x0c' ∨ c = '\r'

def trim (s : Text) : Text :=
  ((s.dropWhile isSpace).reverse.dropWhile isSpace).reverse

/-- What is before and after the last `c`. -/
def splitAtLast (c : Char) (s : Text) : Option (Text × Text) :=
  if c ∈ s then
    some (((s.reverse.dropWhile (· ≠ c)).drop 1).reverse, (s.reverse.takeWhile (· ≠ c)).reverse)
  else none

def digitsToNat (s : Text) : Option Nat :=
  if s = [] ∨ ¬ s.all Char.isDigit then none
  else some (s.foldl (fun n c => 10 * n + (c.toNat - '0'.toNat)) 0)

/-- `boost::lexical_cast<int>`. Nothing may stand around the number. -/
def lexicalCastInt (s : Text) : Option Int :=
  match s with
  | '-' :: ds => (digitsToNat ds).bind fun n => if n ≤ 2147483648 then some (-n) else none
  | '+' :: ds => (digitsToNat ds).bind fun n => if n ≤ 2147483647 then some n else none
  | ds => (digitsToNat ds).bind fun n => if n ≤ 2147483647 then some n else none

/-! ## Properties -/

/-- `std::map<std::string, std::string>`: the names increase. -/
structure Properties where
  entries : List (Text × Text)
  sorted : entries.Pairwise fun a b => a.1 < b.1

namespace Properties

@[ext]
theorem ext {p q : Properties} (h : p.entries = q.entries) : p = q := by
  cases p
  cases q
  cases h
  rfl

instance : DecidableEq Properties := fun p q =>
  decidable_of_iff (p.entries = q.entries) ⟨ext, congrArg _⟩

def empty : Properties := ⟨[], .nil⟩

instance : Inhabited Properties := ⟨empty⟩

def find (p : Properties) (name : Text) : Option Text := p.entries.lookup name

/-- `std::map::insert`, which leaves a name that is there alone. -/
def insertEntry (name value : Text) : List (Text × Text) → List (Text × Text)
  | [] => [(name, value)]
  | e :: es =>
    if name < e.1 then (name, value) :: e :: es
    else if name = e.1 then e :: es
    else e :: insertEntry name value es

theorem mem_insertEntry {name value : Text} {e : Text × Text} {es : List (Text × Text)}
    (h : e ∈ insertEntry name value es) : e = (name, value) ∨ e ∈ es := by
  induction es with
  | nil => exact .inl (List.mem_singleton.mp h)
  | cons d es ih =>
      simp only [insertEntry] at h
      split at h
      · exact List.mem_cons.mp h
      · split at h
        · exact .inr h
        · rcases List.mem_cons.mp h with h | h
          · exact .inr (h ▸ List.mem_cons_self)
          · exact (ih h).imp id (List.mem_cons_of_mem d)

theorem sorted_insertEntry (name value : Text) {es : List (Text × Text)}
    (h : es.Pairwise fun a b => a.1 < b.1) :
    (insertEntry name value es).Pairwise fun a b => a.1 < b.1 := by
  induction es with
  | nil => exact List.pairwise_singleton _ _
  | cons d es ih =>
      obtain ⟨hd, hes⟩ := List.pairwise_cons.mp h
      simp only [insertEntry]
      split
      case isTrue hlt =>
        refine List.pairwise_cons.mpr ⟨fun b hb => ?_, h⟩
        rcases List.mem_cons.mp hb with rfl | hb
        · exact hlt
        · exact lt_trans hlt (hd b hb)
      case isFalse hlt =>
        split
        case isTrue => exact h
        case isFalse hne =>
          refine List.pairwise_cons.mpr ⟨fun b hb => ?_, ih hes⟩
          rcases mem_insertEntry hb with rfl | hb
          · exact lt_of_le_of_ne (not_lt.mp hlt) (Ne.symm hne)
          · exact hd b hb

def insert (p : Properties) (name value : Text) : Properties :=
  ⟨insertEntry name value p.entries, sorted_insertEntry name value p.sorted⟩

end Properties

/-! ## Locators -/

/-- `ConnectionLocator` -/
structure Locator where
  host : Text
  port : Int
  userName : Text
  password : Text
  identifier : Text
  properties : Properties
  deriving DecidableEq, Inhabited

def reservedNames : List Text :=
  ["HOST".toList, "PORT".toList, "USERNAME".toList, "USER".toList, "PASSWORD".toList,
    "PASSWD".toList, "IDENTIFIER".toList]

/-- `ConnectionLocatorParseError`, with the end of its message. -/
def parseError {α : Type} (input reason : Text) : Except Text α :=
  .error ('\'' :: input ++ "' is not a valid remote resource descriptor, ".toList ++ reason)

/-- The text up to the bracket, and what is between the brackets. -/
def splitProperties (input : Text) : Except Text (Text × Text) :=
  let x := trim input
  if x.getLast? = some ']' then
    match splitAtLast '[' x with
    | none => parseError input "it ends with ']' but there is no '['".toList
    | some (main, props) => .ok (trim main, trim props.dropLast)
  else .ok (x, [])

/-- The identifier may have colons in it. -/
def splitMain (mainPortion : Text) : List Text :=
  let parts := mainPortion.splitOn ':'
  if parts.length > 5 then
    parts.take 4 ++ [[':'].intercalate (parts.drop 4)]
  else parts

def parsePort (input part : Text) : Except Text Int :=
  let x := trim part
  if x = [] then .ok 0
  else match lexicalCastInt x with
    | some n => .ok n
    | none => parseError input ('\'' :: part ++ "' is not a valid port".toList)

/-- One turn of the loop over the properties. -/
def parseProperty (input : Text) (ps : Properties) (p : Text) : Except Text Properties :=
  let nameAndValue := p.splitOn '='
  if nameAndValue.length > 2 then
    parseError input ('\'' :: p ++ "' is not a valid property definition".toList)
  else
    let name := trim (nameAndValue.headD [])
    let value := trim (nameAndValue.getD 1 [])
    if name.map Char.toUpper ∈ reservedNames then
      parseError input
        ("trying to specify a property with reserved name '".toList ++ name ++ ['\''])
    else if (ps.find name).isSome then
      parseError input ("trying to specify duplicate property '".toList ++ name ++ ['\''])
    else .ok (ps.insert name value)

def parseProperties (input propertyPortion : Text) : Except Text Properties :=
  if propertyPortion = [] then .ok .empty
  else (propertyPortion.splitOn ',').foldlM (parseProperty input) .empty

/-- `ConnectionLocator::parse` -/
def parse (input : Text) : Except Text Locator := do
  let (mainPortion, propertyPortion) ← splitProperties input
  let parts := splitMain mainPortion
  let port ← parsePort input (parts.getD 1 [])
  let properties ← parseProperties input propertyPortion
  return {
    host := trim (parts.getD 0 [])
    port := port
    userName := trim (parts.getD 2 [])
    password := parts.getD 3 []
    identifier := trim (parts.getD 4 [])
    properties := properties }

end ConnectionLocator
