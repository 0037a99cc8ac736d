import TMTransport.Library.Framing

/-!
# Lengths of texts

A text has a length in the bytes of UTF-8 and one in the units of UTF-16. The two are the
same for texts of ASCII characters only, and these are the texts that come through a
decoder which looks at seven bits of each byte.
-/

namespace Utf

open Framing

/-- The encoding in UTF-8. -/
def utf8 (t : List Char) : Bytes := t.flatMap String.utf8EncodeChar

/-- The number of UTF-16 units. -/
def utf16Length : List Char → Nat
  | [] => 0
  | c :: t => (if c.toNat < 65536 then 1 else 2) + utf16Length t

def Ascii (t : List Char) : Prop := ∀ c ∈ t, c.toNat < 128

/-- What is read if each byte is a character of seven bits. -/
def sevenBit (bs : Bytes) : List Char := bs.map fun b => Char.ofNat (b.toNat % 128)

/-- The encoding of as many characters as there is room for. -/
def fitting : Nat → List Char → Bytes
  | _, [] => []
  | room, c :: t =>
    if c.utf8Size ≤ room then String.utf8EncodeChar c ++ fitting (room - c.utf8Size) t else []

variable {t : List Char} {c : Char} {bs : Bytes}

theorem ascii_cons : Ascii (c :: t) ↔ c.toNat < 128 ∧ Ascii t := List.forall_mem_cons

instance Ascii.decidable (t : List Char) : Decidable (Ascii t) :=
  List.decidableBAll (fun c : Char => c.toNat < 128) t

theorem utf8_cons (c : Char) (t : List Char) : utf8 (c :: t) = String.utf8EncodeChar c ++ utf8 t :=
  List.flatMap_cons

theorem length_fitting_le (room : Nat) (t : List Char) : (fitting room t).length ≤ room := by
  induction t generalizing room with
  | nil => exact Nat.zero_le _
  | cons c t ih =>
      rw [fitting]
      split
      · have := ih (room - c.utf8Size)
        rw [List.length_append, String.length_utf8EncodeChar]
        omega
      · exact Nat.zero_le _

theorem fitting_of_le {room : Nat} (h : (utf8 t).length ≤ room) : fitting room t = utf8 t := by
  induction t generalizing room with
  | nil => rfl
  | cons c t ih =>
      rw [utf8_cons, List.length_append, String.length_utf8EncodeChar] at h
      rw [fitting, if_pos (by omega), utf8_cons, ih (by omega)]

theorem utf8Size_of_lt (h : c.toNat < 128) : c.utf8Size = 1 := by
  rw [Char.utf8Size_eq_one_iff, UInt32.le_iff_toNat_le]
  exact Nat.le_of_lt_succ h

/-- UTF-8 takes more bytes than UTF-16 takes units, but for ASCII. -/
theorem utf16_lt_utf8Size (h : ¬ c.toNat < 128) :
    (if c.toNat < 65536 then 1 else 2) < c.utf8Size := by
  have hone : c.utf8Size ≠ 1 := fun h1 => by
    rw [Char.utf8Size_eq_one_iff, UInt32.le_iff_toNat_le] at h1
    exact h (Nat.lt_succ_of_le h1)
  have hsize := Char.utf8Size_eq c
  split
  · omega
  · next hlarge =>
    have hfour : c.utf8Size = 4 := by
      rw [Char.utf8Size_eq_four_iff, UInt32.lt_iff_toNat_lt]
      exact Nat.lt_of_succ_le (Nat.not_lt.mp hlarge)
    omega

theorem utf16Length_le (t : List Char) : utf16Length t ≤ (utf8 t).length := by
  induction t with
  | nil => exact Nat.le_refl _
  | cons c t ih =>
      rw [utf16Length, utf8_cons, List.length_append, String.length_utf8EncodeChar]
      by_cases h : c.toNat < 128
      · rw [utf8Size_of_lt h, if_pos (by omega)]
        omega
      · have := utf16_lt_utf8Size h
        omega

theorem ascii_of_length_le (h : (utf8 t).length ≤ utf16Length t) : Ascii t := by
  induction t with
  | nil => exact fun _ hc => nomatch hc
  | cons c t ih =>
      rw [utf16Length, utf8_cons, List.length_append, String.length_utf8EncodeChar] at h
      have hle := utf16Length_le t
      by_cases hc : c.toNat < 128
      · rw [utf8Size_of_lt hc, if_pos (by omega)] at h
        exact ascii_cons.mpr ⟨hc, ih (by omega)⟩
      · have := utf16_lt_utf8Size hc
        omega

theorem Ascii.length_utf8 (h : Ascii t) : (utf8 t).length = utf16Length t := by
  induction t with
  | nil => rfl
  | cons c t ih =>
      obtain ⟨hc, ht⟩ := ascii_cons.mp h
      rw [utf16Length, utf8_cons, List.length_append, String.length_utf8EncodeChar, ih ht,
        utf8Size_of_lt hc, if_pos (by omega)]

theorem Ascii.utf8_eq (h : Ascii t) : utf8 t = t.map fun c => UInt8.ofNat c.toNat := by
  induction t with
  | nil => rfl
  | cons c t ih =>
      obtain ⟨hc, ht⟩ := ascii_cons.mp h
      rw [utf8_cons, String.utf8EncodeChar_eq_singleton (utf8Size_of_lt hc), ih ht, List.map_cons]
      refine congrArg (· :: _) ?_
      exact (UInt8.ofNat_uInt32ToNat c.val).symm

theorem Ascii.toNat_lt (h : Ascii t) : ∀ b ∈ utf8 t, b.toNat < 128 := by
  rw [h.utf8_eq]
  intro b hb
  obtain ⟨c, hc, rfl⟩ := List.mem_map.mp hb
  have := h c hc
  rw [UInt8.toNat_ofNat']
  omega

/-- ASCII is read back from seven bits. -/
theorem Ascii.sevenBit_utf8 (h : Ascii t) : sevenBit (utf8 t) = t := by
  rw [h.utf8_eq, sevenBit, List.map_map]
  refine (List.map_congr_left fun c hc => ?_).trans (List.map_id t)
  have hc := h c hc
  show Char.ofNat ((UInt8.ofNat c.toNat).toNat % 128) = c
  rw [UInt8.toNat_ofNat', Nat.mod_eq_of_lt (a := c.toNat) (by omega), Nat.mod_eq_of_lt hc,
    Char.ofNat_toNat]

/-- Nothing else is. -/
theorem ascii_sevenBit (bs : Bytes) : Ascii (sevenBit bs) := by
  intro c hc
  obtain ⟨b, -, rfl⟩ := List.mem_map.mp hc
  have hlt : b.toNat % 128 < 128 := Nat.mod_lt _ (by decide)
  have hvalid : (b.toNat % 128).isValidChar := .inl (Nat.lt_trans hlt (by decide))
  rw [Char.ofNat, dif_pos hvalid]
  exact hlt

end Utf
