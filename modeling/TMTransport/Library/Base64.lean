import Mathlib.Data.List.Basic

/-!
# Base64

Three bytes are four digits of six bits. One or two bytes at the end are two or three
digits, and signs that stand for nothing fill the last group up. A reader goes on to the
first character that is no digit, and then makes what it can of the digits it has.
-/

namespace Base64

abbrev Bytes := List UInt8

/-! ## Digits -/

def sextets : Bytes → List Nat
  | [] => []
  | [a] => [a.toNat / 4, a.toNat % 4 * 16]
  | [a, b] => [a.toNat / 4, a.toNat % 4 * 16 + b.toNat / 16, b.toNat % 16 * 4]
  | a :: b :: c :: rest =>
      a.toNat / 4 :: (a.toNat % 4 * 16 + b.toNat / 16) ::
        (b.toNat % 16 * 4 + c.toNat / 64) :: c.toNat % 64 :: sextets rest

/-- The bits that do not fill a byte are dropped. -/
def octets : List Nat → Bytes
  | p :: q :: r :: s :: rest =>
      UInt8.ofNat (p * 4 + q / 16) :: UInt8.ofNat (q % 16 * 16 + r / 4) ::
        UInt8.ofNat (r % 4 * 64 + s) :: octets rest
  | [p, q, r] => [UInt8.ofNat (p * 4 + q / 16), UInt8.ofNat (q % 16 * 16 + r / 4)]
  | [p, q] => [UInt8.ofNat (p * 4 + q / 16)]
  | _ => []

theorem ofNat_eq {a : UInt8} {n : Nat} (h : n = a.toNat) : UInt8.ofNat n = a := by
  rw [h, UInt8.ofNat_toNat]

theorem octets_sextets (bs : Bytes) : octets (sextets bs) = bs := by
  induction bs using sextets.induct with
  | case1 => rfl
  | case2 a =>
      rw [sextets, octets, ofNat_eq (a := a) (by omega)]
  | case3 a b =>
      have ha := a.toNat_lt
      have hb := b.toNat_lt
      rw [sextets, octets, ofNat_eq (a := a) (by omega), ofNat_eq (a := b) (by omega)]
  | case4 a b c rest ih =>
      have hb := b.toNat_lt
      have hc := c.toNat_lt
      rw [sextets, octets, ih, ofNat_eq (a := a) (by omega), ofNat_eq (a := b) (by omega),
        ofNat_eq (a := c) (by omega)]

theorem lt_of_mem_sextets {bs : Bytes} {n : Nat} (h : n ∈ sextets bs) : n < 64 := by
  induction bs using sextets.induct with
  | case1 => simp [sextets] at h
  | case2 a =>
      have ha := a.toNat_lt
      simp only [sextets, List.mem_cons, List.not_mem_nil, or_false] at h
      omega
  | case3 a b =>
      have ha := a.toNat_lt
      have hb := b.toNat_lt
      simp only [sextets, List.mem_cons, List.not_mem_nil, or_false] at h
      omega
  | case4 a b c rest ih =>
      have ha := a.toNat_lt
      have hb := b.toNat_lt
      have hc := c.toNat_lt
      simp only [sextets, List.mem_cons] at h
      rcases h with h | h | h | h | h
      · omega
      · omega
      · omega
      · omega
      · exact ih h

/-- How many signs fill the last group up. -/
def padding (bs : Bytes) : Nat := (3 - bs.length % 3) % 3

theorem padding_le (bs : Bytes) : padding bs ≤ 2 := by
  rw [padding]
  omega

theorem length_sextets (bs : Bytes) : ((sextets bs).length + padding bs) % 4 = 0 := by
  induction bs using sextets.induct with
  | case1 => rfl
  | case2 a => simp [sextets, padding]
  | case3 a b => simp [sextets, padding]
  | case4 a b c rest ih =>
      have hpad : padding (a :: b :: c :: rest) = padding rest := by
        simp only [padding, List.length_cons]
        omega
      rw [hpad, sextets]
      simp only [List.length_cons]
      omega

/-! ## Characters -/

def digit (n : Nat) : UInt8 :=
  if n < 26 then UInt8.ofNat (65 + n)
  else if n < 52 then UInt8.ofNat (97 + (n - 26))
  else if n < 62 then UInt8.ofNat (48 + (n - 52))
  else if n = 62 then '+'.toUInt8
  else '/'.toUInt8

def value (c : UInt8) : Option Nat :=
  (List.range 64).find? fun n => digit n == c

def fill : UInt8 := '='.toUInt8

theorem value_digit : ∀ n < 64, value (digit n) = some n := by decide +kernel

theorem value_fill : value fill = none := by decide +kernel

def IsDigit (c : UInt8) : Prop := ∃ n < 64, c = digit n

def encode (bs : Bytes) : Bytes :=
  (sextets bs).map digit ++ List.replicate (padding bs) fill

/-- The digits up to the first character that is none. -/
def digits : Bytes → List Nat
  | [] => []
  | c :: cs =>
      match value c with
      | none => []
      | some v => v :: digits cs

def decode (cs : Bytes) : Bytes :=
  octets (digits cs)

theorem digits_append {ns : List Nat} (h : ∀ n ∈ ns, n < 64) (cs : Bytes) :
    digits (ns.map digit ++ cs) = ns ++ digits cs := by
  induction ns with
  | nil => rfl
  | cons n ns ih =>
      rw [List.map_cons, List.cons_append, digits, value_digit n (h n List.mem_cons_self)]
      rw [ih fun m hm => h m (List.mem_cons_of_mem _ hm)]
      rfl

theorem digits_fill (k : Nat) : digits (List.replicate k fill) = [] := by
  cases k with
  | zero => rfl
  | succ k => rw [List.replicate_succ, digits, value_fill]

theorem decode_encode (bs : Bytes) : decode (encode bs) = bs := by
  rw [decode, encode, digits_append fun n hn => lt_of_mem_sextets hn, digits_fill,
    List.append_nil, octets_sextets]

/-- Digits in whole groups, but for at most two signs at the end. -/
theorem encode_shape (bs : Bytes) :
    ∃ core k, encode bs = core ++ List.replicate k fill ∧ (∀ c ∈ core, IsDigit c) ∧
      k ≤ 2 ∧ (core.length + k) % 4 = 0 := by
  refine ⟨(sextets bs).map digit, padding bs, rfl, ?_, padding_le bs, ?_⟩
  · intro c hc
    obtain ⟨n, hn, rfl⟩ := List.mem_map.mp hc
    exact ⟨n, lt_of_mem_sextets hn, rfl⟩
  · rw [List.length_map]
    exact length_sextets bs

end Base64
