import Mathlib.Data.List.Basic

/-! Text as UTF-8 bytes, and which two bytes are a text of their own. -/

namespace UdpOptions.Library

/-- The UTF-8 bytes of a text. -/
def utf8Bytes (text : List Char) : List UInt8 := text.flatMap String.utf8EncodeChar

/-- The text of a byte string, if the bytes are valid UTF-8. -/
def fromUtf8 (bytes : List UInt8) : Option (List Char) := bytes.toByteArray.utf8Decode?.map Array.toList

theorem toByteArray_injective {first second : List UInt8} (same : first.toByteArray = second.toByteArray) :
    first = second := by
  have data := congrArg (fun bytes => bytes.data.toList) same
  simpa using data

/-- Decoding is the inverse of encoding. -/
theorem fromUtf8_eq_some {bytes : List UInt8} {text : List Char} :
    fromUtf8 bytes = some text ↔ bytes = utf8Bytes text := by
  constructor
  · intro decoded
    obtain ⟨chars, found, rfl⟩ := Option.map_eq_some_iff.mp decoded
    have valid : bytes.toByteArray.utf8Decode?.isSome = true := by rw [found]; rfl
    have encoded := @ByteArray.utf8Encode_get_utf8Decode? bytes.toByteArray valid
    simp only [found, Option.get_some] at encoded
    exact toByteArray_injective encoded.symm
  · intro encoded
    subst bytes
    have decoded := @List.utf8Decode?_utf8Encode text
    rw [fromUtf8]
    change Option.map _ text.utf8Encode.utf8Decode? = _
    rw [decoded]
    rfl

/-- The bytes of one character: one below 128, two led by a byte below 224, or three
and more. -/
inductive CharBytes (size : Nat) : List UInt8 → Prop where
  | one {byte : UInt8} (ascii : byte < 128) (single : size = 1) : CharBytes size [byte]
  | two {lead next : UInt8} (wide : 192 ≤ lead) (narrow : lead < 224) (double : size = 2) : CharBytes size [lead, next]
  | more {lead next third : UInt8} {rest : List UInt8} (wide : 224 ≤ lead) (long : 3 ≤ size) :
      CharBytes size (lead :: next :: third :: rest)

theorem charBytes (char : Char) : CharBytes char.utf8Size (String.utf8EncodeChar char) := by
  rw [← String.length_utf8EncodeChar]
  unfold String.utf8EncodeChar
  dsimp only
  split
  · refine .one ?_ rfl
    rw [UInt8.lt_iff_toNat_lt, UInt8.toNat_ofNat']
    change _ % 256 < 128
    omega
  split
  · refine .two ?_ ?_ rfl
    · rw [UInt8.le_iff_toNat_le, UInt8.toNat_ofNat']
      change 192 ≤ _ % 256
      omega
    · rw [UInt8.lt_iff_toNat_lt, UInt8.toNat_ofNat']
      change _ % 256 < 224
      omega
  split
  · refine .more ?_ (Nat.le_refl _)
    rw [UInt8.le_iff_toNat_le, UInt8.toNat_ofNat']
    change 224 ≤ _ % 256
    omega
  · refine .more ?_ (Nat.le_succ 3)
    rw [UInt8.le_iff_toNat_le, UInt8.toNat_ofNat']
    change 224 ≤ _ % 256
    omega

theorem utf8Bytes_cons (char : Char) (rest : List Char) :
    utf8Bytes (char :: rest) = String.utf8EncodeChar char ++ utf8Bytes rest := List.flatMap_cons

/-- Two bytes that are a text are two ASCII characters or one character of two bytes. -/
theorem fromUtf8_pair {first second : UInt8} {text : List Char} (decoded : fromUtf8 [first, second] = some text) :
    (first < 128 ∧ second < 128) ∨ (192 ≤ first ∧ first < 224) := by
  have encoded := fromUtf8_eq_some.mp decoded
  cases text with
  | nil => cases encoded
  | cons char rest =>
    rw [utf8Bytes_cons] at encoded
    have shape := charBytes char
    generalize String.utf8EncodeChar char = bytes at encoded shape
    cases shape with
    | one ascii _ =>
      obtain ⟨rfl, others⟩ := List.cons.inj encoded
      cases rest with
      | nil => cases others
      | cons next more =>
        rw [utf8Bytes_cons] at others
        have shape := charBytes next
        generalize String.utf8EncodeChar next = bytes at others shape
        cases shape with
        | one narrow _ =>
          obtain ⟨rfl, _⟩ := List.cons.inj others
          exact .inl ⟨ascii, narrow⟩
        | two _ _ _ => cases others
        | more _ _ => cases others
    | two wide narrow _ =>
      obtain ⟨rfl, _⟩ := List.cons.inj encoded
      exact .inr ⟨wide, narrow⟩
    | more _ _ => cases encoded

/-- The first two bytes of a text cut a character in two. -/
inductive CutsCharacter : List Char → Prop where
  | second {first second : Char} {rest : List Char} (ascii : first.utf8Size = 1) (wide : 2 ≤ second.utf8Size) :
      CutsCharacter (first :: second :: rest)
  | first {first : Char} {rest : List Char} (wide : 3 ≤ first.utf8Size) : CutsCharacter (first :: rest)

/-- The first two bytes of a text of an even number of bytes. -/
inductive Paired : List Char → List UInt8 → Prop where
  | empty : Paired [] []
  | ascii {first second : Char} {rest : List Char} {high low : UInt8}
      (decoded : fromUtf8 [high, low] = some [first, second]) (narrow : first.utf8Size = 1 ∧ second.utf8Size = 1) :
      Paired (first :: second :: rest) (high :: low :: utf8Bytes rest)
  | wide {char : Char} {rest : List Char} {high low : UInt8} (decoded : fromUtf8 [high, low] = some [char])
      (double : char.utf8Size = 2) : Paired (char :: rest) (high :: low :: utf8Bytes rest)
  | cut {text : List Char} {high low : UInt8} {bytes : List UInt8} (invalid : fromUtf8 [high, low] = none)
      (cuts : CutsCharacter text) : Paired text (high :: low :: bytes)

/-- Neither form of a text: an ASCII byte before a leading byte, or the lead of a
longer character. -/
theorem fromUtf8_cut {high low : UInt8} (cut : high < 128 ∧ 192 ≤ low ∨ 224 ≤ high) : fromUtf8 [high, low] = none := by
  rw [Option.eq_none_iff_forall_ne_some]
  intro text decoded
  have forms := fromUtf8_pair decoded
  grind

theorem paired {text : List Char} (even : (utf8Bytes text).length % 2 = 0) : Paired text (utf8Bytes text) := by
  cases text with
  | nil => exact .empty
  | cons char rest =>
    have encoded := utf8Bytes_cons char rest
    have own : utf8Bytes [char] = String.utf8EncodeChar char := List.flatMap_singleton _ _
    rw [encoded] at even ⊢
    have shape := charBytes char
    generalize String.utf8EncodeChar char = bytes at even own shape ⊢
    cases shape with
    | one ascii single =>
      cases rest with
      | nil => simp [utf8Bytes] at even
      | cons next more =>
        have both : utf8Bytes [char, next] = utf8Bytes [char] ++ utf8Bytes [next] := by
          rw [utf8Bytes_cons, ← List.flatMap_singleton String.utf8EncodeChar char]
          rfl
        have other : utf8Bytes [next] = String.utf8EncodeChar next := List.flatMap_singleton _ _
        rw [utf8Bytes_cons next more]
        have nextShape := charBytes next
        generalize String.utf8EncodeChar next = following at other nextShape ⊢
        rw [own, other] at both
        cases nextShape with
        | one _ narrow => exact .ascii (fromUtf8_eq_some.mpr both.symm) ⟨single, narrow⟩
        | two wide _ double =>
          exact .cut (fromUtf8_cut (.inl ⟨ascii, wide⟩)) (.second single (Nat.le_of_eq double.symm))
        | more wide long =>
          have lead := UInt8.le_trans (show (192 : UInt8) ≤ 224 by decide) wide
          exact .cut (fromUtf8_cut (.inl ⟨ascii, lead⟩)) (.second single (Nat.le_of_succ_le long))
    | two _ _ double => exact .wide (fromUtf8_eq_some.mpr own.symm) double
    | more wide long => exact .cut (fromUtf8_cut (.inr wide)) (.first long)

end UdpOptions.Library
