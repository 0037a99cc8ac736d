import Mathlib.Data.List.Nodup
import TMTransport.JsonREST.Requests

/-!
# Queries, as the client writes them

The client writes names and values with escapes, and the server reads them. A byte
above 127 does not survive: the client takes it for a negative number, prints that with
eight digits, and the server reads two. What it makes of the rest is `mangle`.
-/

namespace RestClient

open RestServer
open Documents (questionMark)
open Tokens (Bytes ascii)

/-! ## Writing -/

/-- `unreservedCharacters` -/
def unreserved (c : UInt8) : Bool :=
  ('0'.toUInt8 ≤ c && c ≤ '9'.toUInt8) || ('A'.toUInt8 ≤ c && c ≤ 'Z'.toUInt8) ||
    ('a'.toUInt8 ≤ c && c ≤ 'z'.toUInt8) || (ascii "-._~").contains c

def hexDigit (n : Nat) : UInt8 :=
  if n < 10 then '0'.toUInt8 + UInt8.ofNat n else 'A'.toUInt8 + UInt8.ofNat (n - 10)

def twoDigits (c : UInt8) : Bytes := [hexDigit (c.toNat / 16), hexDigit (c.toNat % 16)]

/-- One turn of the loop of `urlEscape`. From 128 on `(unsigned) c` is `0xFFFFFF00 + c`. -/
def escapeByte (c : UInt8) : Bytes :=
  if c = space then [plus]
  else if 128 ≤ c then percent :: (ascii "FFFFFF" ++ twoDigits c)
  else if unreserved c then [c]
  else percent :: twoDigits c

def urlEscape (s : Bytes) : Bytes := s.flatMap escapeByte

def formPart (p : Bytes × Bytes) : Bytes := urlEscape p.1 ++ equals :: urlEscape p.2

/-- What the callback of `outputNameValuePairs` has written to `oss`. -/
def form (ps : List (Bytes × Bytes)) : Bytes := [ampersand].intercalate (ps.map formPart)

/-! ## Reading it back -/

/-- What the server reads for a byte. -/
def mangleByte (c : UInt8) : Bytes :=
  if 128 ≤ c then 255 :: (ascii "FFFF" ++ twoDigits c) else [c]

def mangle (s : Bytes) : Bytes := s.flatMap mangleByte

/-- There is no byte above 127. -/
def plain (s : Bytes) : Bool := s.all fun c => c < 128

variable {c d : UInt8} {s t : Bytes}

/-- What holds of the 256 bytes. -/
theorem forall_byte {p : UInt8 → Bool}
    (h : ((List.range 256).all fun n => p (UInt8.ofNat n)) = true) (c : UInt8) : p c = true := by
  have hc := List.all_eq_true.mp h c.toNat (List.mem_range.mpr c.toNat_lt_size)
  rwa [UInt8.ofNat_toNat] at hc

theorem hexValue_hexDigit : ∀ n < 16, hexValue (hexDigit n) = some n := by decide

theorem hexDigit_apart : ∀ n < 16, hexDigit n ≠ plus ∧ hexDigit n ≠ percent := by decide

theorem twoDigits_injective (h : twoDigits c = twoDigits d) : c = d := by
  have hlt : c.toNat < 256 := c.toNat_lt_size
  have hlt' : d.toNat < 256 := d.toNat_lt_size
  have hdigit : ∀ m < 16, ∀ n < 16, hexDigit m = hexDigit n → m = n := by
    intro m hm n hn h
    have hv := hexValue_hexDigit m hm
    rw [h, hexValue_hexDigit n hn] at hv
    exact (Option.some.inj hv).symm
  obtain ⟨hhi, hlo⟩ := List.cons.inj h
  have h1 := hdigit _ (by omega) _ (by omega) hhi
  have h2 := hdigit _ (by omega) _ (by omega) (List.cons.inj hlo).1
  exact UInt8.toNat_inj.mp (by omega)

/-- What is neither a plus nor a percent sign stands for itself. -/
theorem unescape_cons (h : c ≠ plus) (h' : c ≠ percent) (t : Bytes) :
    unescape (c :: t) = c :: unescape t := by
  rcases t with _ | ⟨a, _ | ⟨b, t⟩⟩ <;> simp [unescape, h, h']

theorem unescape_plus (t : Bytes) : unescape (plus :: t) = space :: unescape t := by
  rcases t with _ | ⟨a, _ | ⟨b, t⟩⟩ <;> simp [unescape]

theorem unescape_twoDigits (c : UInt8) (t : Bytes) :
    unescape (percent :: (twoDigits c ++ t)) = c :: unescape t := by
  have hlt : c.toNat < 256 := c.toNat_lt_size
  have hback : c.toNat / 16 * 16 + c.toNat % 16 = c.toNat := by omega
  rw [twoDigits, List.cons_append, List.cons_append, List.nil_append, unescape,
    if_neg (by decide), if_pos rfl]
  rw [hexValue_hexDigit _ (by omega), hexValue_hexDigit _ (by omega)]
  show UInt8.ofNat _ :: _ = _
  rw [hback, UInt8.ofNat_toNat]

theorem unescape_escapeByte (c : UInt8) (t : Bytes) :
    unescape (escapeByte c ++ t) = mangleByte c ++ unescape t := by
  have hlt : c.toNat < 256 := c.toNat_lt_size
  rw [escapeByte, mangleByte]
  split
  · next hspace =>
    rw [hspace, if_neg (by decide)]
    exact unescape_plus t
  · split
    · -- the first two digits are an escape, and the others are text
      obtain ⟨hhi, hhi'⟩ := hexDigit_apart (c.toNat / 16) (by omega)
      obtain ⟨hlo, hlo'⟩ := hexDigit_apart (c.toNat % 16) (by omega)
      have hF : ('F'.toUInt8) ≠ plus ∧ ('F'.toUInt8) ≠ percent := by decide
      show unescape (percent :: (twoDigits 255 ++ ('F'.toUInt8 :: 'F'.toUInt8 :: 'F'.toUInt8 ::
        'F'.toUInt8 :: hexDigit (c.toNat / 16) :: hexDigit (c.toNat % 16) :: t))) = _
      rw [unescape_twoDigits, unescape_cons hF.1 hF.2, unescape_cons hF.1 hF.2,
        unescape_cons hF.1 hF.2, unescape_cons hF.1 hF.2, unescape_cons hhi hhi',
        unescape_cons hlo hlo']
      rfl
    · split
      · next hres =>
        have happart : ∀ d, (!unreserved d || decide (d ≠ plus ∧ d ≠ percent)) = true :=
          forall_byte (by decide +kernel)
        have hc := happart c
        rw [hres, Bool.not_true, Bool.false_or] at hc
        exact unescape_cons (of_decide_eq_true hc).1 (of_decide_eq_true hc).2 t
      · exact unescape_twoDigits c t

/-- **What the server reads.** -/
theorem unescape_urlEscape (s : Bytes) : unescape (urlEscape s) = mangle s := by
  induction s with
  | nil => rfl
  | cons c s ih =>
      rw [urlEscape, List.flatMap_cons, unescape_escapeByte]
      exact congrArg (mangleByte c ++ ·) ih

/-! ### What is lost -/

theorem mangle_plain (h : plain s = true) : mangle s = s := by
  induction s with
  | nil => rfl
  | cons c s ih =>
      obtain ⟨hc, hs⟩ := Bool.and_eq_true_iff.mp h
      have hlt : c < 128 := of_decide_eq_true hc
      rw [mangle, List.flatMap_cons, mangleByte, if_neg (UInt8.not_le.mpr hlt)]
      exact congrArg (c :: ·) (ih hs)

theorem plain_mangle (h : plain s = true) : plain (mangle s) = true := by
  rw [mangle_plain h]
  exact h

theorem length_mangleByte (c : UInt8) : (mangleByte c).length = if 128 ≤ c then 7 else 1 := by
  rw [mangleByte]
  split <;> rfl

theorem length_le_mangle (s : Bytes) : s.length ≤ (mangle s).length := by
  induction s with
  | nil => exact Nat.le_refl _
  | cons c s ih =>
      rw [mangle, List.flatMap_cons, List.length_append, List.length_cons, length_mangleByte]
      unfold mangle at ih
      split <;> omega

/-- Such a text gets longer. -/
theorem length_lt_mangle (h : plain s = false) : s.length < (mangle s).length := by
  induction s with
  | nil => cases h
  | cons c s ih =>
      have hle := length_le_mangle s
      rw [mangle, List.flatMap_cons, List.length_append, List.length_cons, length_mangleByte]
      unfold mangle at hle ih
      split
      · omega
      · next hc =>
        have hs : plain s = false := by
          rw [plain, List.all_cons, decide_eq_true (UInt8.not_le.mp hc), Bool.true_and] at h
          exact h
        have := ih hs
        omega

theorem mangle_eq_self : mangle s = s ↔ plain s = true := by
  refine ⟨fun h => ?_, mangle_plain⟩
  by_contra hplain
  have hlt := length_lt_mangle (Bool.eq_false_iff.mpr hplain)
  rw [h] at hlt
  omega

theorem mangleByte_append_inj (h : mangleByte c ++ s = mangleByte d ++ t) : c = d ∧ s = t := by
  unfold mangleByte at h
  split at h <;> split at h
  · obtain ⟨hhead, htail⟩ := List.append_inj h rfl
    have hdigits := List.append_cancel_left (List.cons.inj hhead).2
    exact ⟨twoDigits_injective hdigits, htail⟩
  · next hd =>
    -- 255 is no byte that has been left as it was
    have hhead : (255 : UInt8) = d := (List.cons.inj h).1
    exact absurd (by decide) (hhead ▸ hd)
  · next hc _ =>
    have hhead : c = (255 : UInt8) := (List.cons.inj h).1
    exact absurd (by decide) (hhead ▸ hc)
  · obtain ⟨hhead, htail⟩ := List.cons.inj h
    exact ⟨hhead, htail⟩

theorem mangle_injective : Function.Injective mangle := by
  intro s
  induction s with
  | nil =>
      intro t h
      cases t with
      | nil => rfl
      | cons d t =>
          have hle := length_le_mangle (d :: t)
          rw [← h] at hle
          exact absurd hle (Nat.not_succ_le_zero _)
  | cons c s ih =>
      intro t h
      cases t with
      | nil =>
          have hle := length_le_mangle (c :: s)
          rw [h] at hle
          exact absurd hle (Nat.not_succ_le_zero _)
      | cons d t =>
          obtain ⟨rfl, htail⟩ := mangleByte_append_inj h
          rw [ih htail]

/-! ### Forms -/

/-- What stands between 33 and 126 and is no separator. -/
def Clean (c : UInt8) : Prop :=
  33 ≤ c ∧ c ≤ 126 ∧ c ≠ ampersand ∧ c ≠ equals ∧ c ≠ questionMark ∧ c ≠ '#'.toUInt8 ∧
    c ≠ '"'.toUInt8

instance (c : UInt8) : Decidable (Clean c) := inferInstanceAs (Decidable (_ ∧ _))

theorem clean_urlEscape (hc : c ∈ urlEscape s) : Clean c := by
  have hall : ∀ d, ((escapeByte d).all fun c => decide (Clean c)) = true :=
    forall_byte (by decide +kernel)
  obtain ⟨d, -, hcd⟩ := List.mem_flatMap.mp hc
  exact of_decide_eq_true (List.all_eq_true.mp (hall d) c hcd)

theorem form_cons (p : Bytes × Bytes) (ps : List (Bytes × Bytes)) :
    form (p :: ps) = formPart p ++ if ps = [] then [] else ampersand :: form ps := by
  cases ps with
  | nil => exact List.intercalate_singleton.trans (List.append_nil _).symm
  | cons q ps =>
      rw [form, List.map_cons, List.map_cons, List.intercalate_cons_cons, if_neg (by simp)]
      exact List.append_assoc ..

theorem equals_mem_form {ps : List (Bytes × Bytes)} (h : ps ≠ []) : equals ∈ form ps := by
  cases ps with
  | nil => exact absurd rfl h
  | cons p ps =>
      rw [form_cons]
      exact List.mem_append_left _ (List.mem_append_right _ List.mem_cons_self)

theorem mem_form {ps : List (Bytes × Bytes)} (h : c ∈ form ps) :
    Clean c ∨ c = equals ∨ c = ampersand := by
  induction ps with
  | nil => exact absurd h List.not_mem_nil
  | cons p ps ih =>
      rw [form_cons] at h
      rcases List.mem_append.mp h with h | h
      · rcases List.mem_append.mp h with h | h
        · exact .inl (clean_urlEscape h)
        · rcases List.mem_cons.mp h with h | h
          · exact .inr (.inl h)
          · exact .inl (clean_urlEscape h)
      · split at h
        · exact absurd h List.not_mem_nil
        · rcases List.mem_cons.mp h with h | h
          · exact .inr (.inr h)
          · exact ih h

theorem ampersand_notMem_formPart (p : Bytes × Bytes) : ampersand ∉ formPart p := by
  intro h
  rcases List.mem_append.mp h with h | h
  · exact (clean_urlEscape h).2.2.1 rfl
  · rcases List.mem_cons.mp h with h | h
    · exact absurd h (by decide)
    · exact (clean_urlEscape h).2.2.1 rfl

theorem splitOn_formPart (p : Bytes × Bytes) :
    (formPart p).splitOn equals = [urlEscape p.1, urlEscape p.2] := by
  have hno : ∀ s, equals ∉ urlEscape s := fun s h => (clean_urlEscape h).2.2.2.1 rfl
  rw [formPart, List.splitOn_append_cons_self_of_not_mem (hno p.1),
    List.splitOn_eq_singleton (hno p.2)]

theorem addPart_formPart (m : QueryMap) (p : Bytes × Bytes) :
    addPart m (formPart p) = addValue (mangle p.1) (mangle p.2) m := by
  rw [addPart, splitOn_formPart]
  show addValue (unescape _) (unescape _) m = _
  rw [unescape_urlEscape, unescape_urlEscape]

theorem addValue_new {n v : Bytes} {m : QueryMap} (h : n ∉ m.map Prod.fst) :
    addValue n v m = m ++ [(n, [v])] := by
  induction m with
  | nil => rfl
  | cons e m ih =>
      obtain ⟨n', vs⟩ := e
      rw [List.map_cons, List.mem_cons, not_or] at h
      rw [addValue, if_neg (Ne.symm h.1), ih h.2]
      rfl

/-- What the server makes of the pairs. -/
def mangled (ps : List (Bytes × Bytes)) : QueryMap :=
  ps.map fun p => (mangle p.1, [mangle p.2])

theorem foldl_addPart {ps : List (Bytes × Bytes)} {m : QueryMap}
    (hn : (m.map Prod.fst ++ ps.map fun p => mangle p.1).Nodup) :
    (ps.map formPart).foldl addPart m = m ++ mangled ps := by
  induction ps generalizing m with
  | nil => exact (List.append_nil m).symm
  | cons p ps ih =>
      have hnew : mangle p.1 ∉ m.map Prod.fst := fun h =>
        (List.nodup_append.mp hn).2.2 _ h _ List.mem_cons_self rfl
      rw [List.map_cons, List.foldl_cons, addPart_formPart, addValue_new hnew]
      rw [ih, List.append_assoc]
      · rfl
      · rw [List.map_append, List.append_assoc]
        exact hn

theorem addQuery_form {ps : List (Bytes × Bytes)} (hne : ps ≠ []) (hn : (ps.map Prod.fst).Nodup) :
    addQuery [] (form ps) = mangled ps := by
  have hparts : (form ps).splitOn ampersand = ps.map formPart := by
    refine List.splitOn_intercalate _ (fun l hl => ?_) (by simpa using hne)
    obtain ⟨p, -, rfl⟩ := List.mem_map.mp hl
    exact ampersand_notMem_formPart p
  have hnames : (ps.map fun p => mangle p.1).Nodup := by
    have h := hn.map mangle_injective
    rwa [List.map_map] at h
  have h := foldl_addPart (m := []) hnames
  rw [addQuery, hparts, h]
  rfl

end RestClient
