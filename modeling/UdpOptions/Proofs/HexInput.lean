import UdpOptions.Cli

/-! The reader of hexadecimal arguments. It walks over pairs of bytes, so a pair can
end inside a character, and it leaves the pair to a number parser that allows a plus
sign. Apart from these two it reads exactly the even strings of digits. -/

namespace UdpOptions.Proofs
open Library Cli

def IsHexDigit (c : Char) : Prop := '0' ≤ c ∧ c ≤ '9' ∨ 'a' ≤ c ∧ c ≤ 'f' ∨ 'A' ≤ c ∧ c ≤ 'F'

instance (c : Char) : Decidable (IsHexDigit c) := inferInstanceAs (Decidable (_ ∨ _ ∨ _))

/-- A digit with its value, which the formatter writes in lower case. -/
structure HexDigit (c : Char) (digit : Nat) : Prop where
  small : digit < 16
  value : toDigit16 c = some digit
  lower : lowerDigit digit = c.toLower
  unsigned : c ≠ '+'
  narrow : c.utf8Size = 1

instance (c : Char) (digit : Nat) : Decidable (HexDigit c digit) :=
  decidable_of_iff (digit < 16 ∧ toDigit16 c = some digit ∧ lowerDigit digit = c.toLower ∧ c ≠ '+' ∧ c.utf8Size = 1)
    ⟨fun ⟨small, value, lower, unsigned, narrow⟩ => ⟨small, value, lower, unsigned, narrow⟩,
      fun digit => ⟨digit.small, digit.value, digit.lower, digit.unsigned, digit.narrow⟩⟩

theorem IsHexDigit.digit {c : Char} (isDigit : IsHexDigit c) : ∃ digit, HexDigit c digit := by
  have table : ∀ code : Fin 128, IsHexDigit (Char.ofNat code) → ∃ digit : Fin 16, HexDigit (Char.ofNat code) digit := by
    decide +kernel
  have ascii : c.toNat < 128 := by
    rcases isDigit with ⟨_, top⟩ | ⟨_, top⟩ | ⟨_, top⟩
    all_goals exact Nat.lt_of_le_of_lt (UInt32.le_iff_toNat_le.mp (Char.le_def.mp top)) (by decide)
  have found := table ⟨c.toNat, ascii⟩
  rw [Char.ofNat_toNat] at found
  obtain ⟨digit, facts⟩ := found isDigit
  exact ⟨digit, facts⟩

private theorem isHexDigit_of_value {c : Char} {digit : Nat} (value : toDigit16 c = some digit) : IsHexDigit c := by
  unfold toDigit16 at value
  split at value
  next decimal => exact .inl decimal
  split at value
  next lower => exact .inr (.inl lower)
  split at value
  next upper => exact .inr (.inr upper)
  · cases value

private theorem digit_of_value {c : Char} {digit : Nat} (value : toDigit16 c = some digit) : HexDigit c digit := by
  obtain ⟨known, facts⟩ := (isHexDigit_of_value value).digit
  cases facts.value.symm.trans value
  exact facts

private theorem radixLoop_digit {c : Char} {digit value : Nat} (facts : HexDigit c digit) (room : value < 16)
    (rest : List Char) :
    radixLoop value (c :: rest) = radixLoop (value * 16 + digit) rest := by
  have small := facts.small
  simp only [radixLoop, facts.value]
  exact if_pos (by omega)

private theorem radixLoop_cons {c : Char} {rest : List Char} {value : Nat} {byte : UInt8}
    (read : radixLoop value (c :: rest) = some byte) : ∃ digit, HexDigit c digit := by
  unfold radixLoop at read
  split at read
  · cases read
  next digit known => exact ⟨digit, digit_of_value known⟩

private theorem fromStrRadix16_unsigned {first second : Char} (unsigned : first ≠ '+') :
    fromStrRadix16 [first, second] = radixLoop 0 [first, second] := by
  unfold fromStrRadix16
  split
  all_goals simp_all

private theorem fromStrRadix16_digits {first second : Char} {high low : Nat} (firstDigit : HexDigit first high)
    (secondDigit : HexDigit second low) : fromStrRadix16 [first, second] = some (UInt8.ofNat (high * 16 + low)) := by
  have small := firstDigit.small
  rw [fromStrRadix16_unsigned firstDigit.unsigned, radixLoop_digit firstDigit (by decide),
    radixLoop_digit secondDigit (by omega), Nat.zero_mul, Nat.zero_add]
  rfl

private theorem fromStrRadix16_pair {first second : Char} {byte : UInt8}
    (read : fromStrRadix16 [first, second] = some byte) :
    (∃ high low, HexDigit first high ∧ HexDigit second low ∧ byte = UInt8.ofNat (high * 16 + low)) ∨
      (first = '+' ∧ ∃ low, HexDigit second low) := by
  by_cases sign : first = '+'
  · subst first
    exact .inr ⟨rfl, radixLoop_cons read⟩
  · have digits := read
    rw [fromStrRadix16_unsigned sign] at digits
    obtain ⟨high, firstDigit⟩ := radixLoop_cons digits
    rw [radixLoop_digit firstDigit (by decide)] at digits
    obtain ⟨low, secondDigit⟩ := radixLoop_cons digits
    rw [fromStrRadix16_digits firstDigit secondDigit] at read
    exact .inl ⟨high, low, firstDigit, secondDigit, (Option.some.inj read).symm⟩

private theorem fromStrRadix16_wide {c : Char} (wide : c.utf8Size ≠ 1) : fromStrRadix16 [c] = none := by
  have unread : radixLoop 0 [c] = none := by
    rw [Option.eq_none_iff_forall_ne_some]
    intro byte read
    obtain ⟨_, facts⟩ := radixLoop_cons read
    exact wide facts.narrow
  unfold fromStrRadix16
  split
  all_goals simp_all

private theorem accepted_narrow {first second : Char} {byte : UInt8}
    (read : fromStrRadix16 [first, second] = some byte) :
    first.utf8Size = 1 ∧ second.utf8Size = 1 := by
  obtain ⟨_, _, firstDigit, secondDigit, _⟩ | ⟨rfl, _, secondDigit⟩ := fromStrRadix16_pair read
  · exact ⟨firstDigit.narrow, secondDigit.narrow⟩
  · exact ⟨by decide, secondDigit.narrow⟩

/-- The longest front part of pairs that the number parser accepts, as bytes, and
what is left of the text. -/
def pairsRead : List Char → List UInt8 × List Char
  | first :: second :: rest =>
    match fromStrRadix16 [first, second] with
    | some byte => (byte :: (pairsRead rest).1, (pairsRead rest).2)
    | none => ([], first :: second :: rest)
  | text => ([], text)

section
variable {first second : Char} {rest : List Char} {byte high low : UInt8} {bytes : List UInt8} {text : List Char}

private theorem pairsRead_some (read : fromStrRadix16 [first, second] = some byte) :
    pairsRead (first :: second :: rest) = (byte :: (pairsRead rest).1, (pairsRead rest).2) := by
  rw [pairsRead, read]

private theorem pairsRead_none (refused : fromStrRadix16 [first, second] = none) :
    pairsRead (first :: second :: rest) = ([], first :: second :: rest) := by
  rw [pairsRead, refused]

private theorem pairsRead_wide (wide : ∀ first second rest, text = first :: second :: rest →
    first.utf8Size ≠ 1 ∨ second.utf8Size ≠ 1) : pairsRead text = ([], text) := by
  unfold pairsRead
  split
  next first second rest =>
    split
    next byte read =>
      have narrow := accepted_narrow read
      have other := wide first second rest rfl
      omega
    · rfl
  · rfl

private theorem pairsRead_cut (cuts : CutsCharacter text) : pairsRead text = ([], text) := by
  apply pairsRead_wide
  intro first second rest shape
  subst shape
  cases cuts with
  | second _ wide => exact .inr (by omega)
  | first wide => exact .inl (by omega)

private theorem hexLoop_invalid (invalid : fromUtf8 [high, low] = none) :
    hexLoop (high :: low :: bytes) = .error .expectFailed := by
  rw [hexLoop, invalid]
  rfl

private theorem hexLoop_refused (decoded : fromUtf8 [high, low] = some text) (refused : fromStrRadix16 text = none) :
    ∃ error, hexLoop (high :: low :: bytes) = .ok (.error error) := by
  rw [hexLoop, decoded]
  simp only [Checked.expect, Checked.ok_bind, refused]
  exact ⟨_, rfl⟩

def pushByte (byte : UInt8) (result : Checked (Except CliError (List UInt8))) :
    Checked (Except CliError (List UInt8)) :=
  result.map (Except.map (byte :: ·))

private theorem hexLoop_read (decoded : fromUtf8 [high, low] = some text) (read : fromStrRadix16 text = some byte) :
    hexLoop (high :: low :: bytes) = pushByte byte (hexLoop bytes) := by
  rw [hexLoop, decoded]
  simp only [Checked.expect, Checked.ok_bind, read]
  cases hexLoop bytes with
  | error panic => rfl
  | ok result => cases result <;> rfl

end

/-- How the loop ends, by what is left behind the accepted pairs. -/
inductive HexVerdict (bytes : List UInt8) : List Char → Checked (Except CliError (List UInt8)) → Prop where
  | finished : HexVerdict bytes [] (.ok (.ok bytes))
  | cut {rest : List Char} {panic : Panic} (cuts : CutsCharacter rest) : HexVerdict bytes rest (.error panic)
  | refused {rest : List Char} {error : CliError} (more : rest ≠ []) (whole : ¬ CutsCharacter rest) :
      HexVerdict bytes rest (.ok (.error error))

theorem HexVerdict.push {bytes : List UInt8} {rest : List Char} {result : Checked (Except CliError (List UInt8))}
    (verdict : HexVerdict bytes rest result) (byte : UInt8) : HexVerdict (byte :: bytes) rest (pushByte byte result) := by
  cases verdict with
  | finished => exact .finished
  | cut cuts => exact .cut cuts
  | refused more whole => exact .refused more whole

theorem HexVerdict.accepted_iff {bytes out : List UInt8} {rest : List Char}
    {result : Checked (Except CliError (List UInt8))} (verdict : HexVerdict bytes rest result) :
    result = .ok (.ok out) ↔ rest = [] ∧ bytes = out := by
  cases verdict with
  | finished => simp
  | cut cuts =>
    refine iff_of_false (fun accepted => by cases accepted) ?_
    intro ⟨empty, _⟩
    subst empty
    cases cuts
  | refused more _ => exact iff_of_false (fun accepted => by cases accepted) fun ⟨empty, _⟩ => more empty

theorem HexVerdict.panics_iff {bytes : List UInt8} {rest : List Char} {result : Checked (Except CliError (List UInt8))}
    (verdict : HexVerdict bytes rest result) : (∃ outcome, result = .ok outcome) ↔ ¬ CutsCharacter rest := by
  cases verdict with
  | finished => exact iff_of_true ⟨_, rfl⟩ (fun cuts => by cases cuts)
  | cut cuts =>
    refine iff_of_false ?_ (not_not.mpr cuts)
    intro ⟨_, returned⟩
    cases returned
  | refused _ whole => exact iff_of_true ⟨_, rfl⟩ whole

private theorem hexLoop_verdict {text : List Char} (even : (utf8Bytes text).length % 2 = 0) :
    HexVerdict (pairsRead text).1 (pairsRead text).2 (hexLoop (utf8Bytes text)) := by
  have pair := paired even
  generalize encoded : utf8Bytes text = bytes at pair even ⊢
  cases pair with
  | empty => exact .finished
  | @ascii first second rest high low decoded narrow =>
    have shorter : (utf8Bytes rest).length % 2 = 0 := by
      simp only [List.length_cons] at even
      omega
    cases read : fromStrRadix16 [first, second] with
    | some byte =>
      rw [pairsRead_some read, hexLoop_read decoded read]
      exact (hexLoop_verdict shorter).push byte
    | none =>
      obtain ⟨error, result⟩ := @hexLoop_refused high low (utf8Bytes rest) _ decoded read
      rw [pairsRead_none read, result]
      refine .refused (List.cons_ne_nil _ _) ?_
      intro cuts
      cases cuts with
      | second _ wide => omega
      | first wide => omega
  | @wide char rest high low decoded double =>
    have single : char.utf8Size ≠ 1 := by omega
    obtain ⟨error, result⟩ := @hexLoop_refused high low (utf8Bytes rest) _ decoded (fromStrRadix16_wide single)
    have stuck : pairsRead (char :: rest) = ([], char :: rest) := by
      apply pairsRead_wide
      intro first second more shape
      cases shape
      exact .inl (by omega)
    rw [stuck, result]
    refine .refused (List.cons_ne_nil _ _) ?_
    intro cuts
    cases cuts with
    | second narrow _ => omega
    | first wide => omega
  | @cut _ high low bytes invalid cuts =>
    rw [pairsRead_cut cuts, hexLoop_invalid invalid]
    exact .cut cuts

/-- A text that the loop accepts although it is not made of digits, or on which it
panics: behind the accepted pairs nothing is left and one of them has a plus sign, or
the next pair of bytes ends inside a character. -/
def Misread (text : List Char) : Prop :=
  (utf8Bytes text).length % 2 = 0 ∧
    (CutsCharacter (pairsRead text).2 ∨ (pairsRead text).2 = [] ∧ '+' ∈ text)

/-- The reader accepts the even strings of digits, writes them back in lower case, and
refuses every other string without a panic. -/
structure ReadsHex (input : String) : Prop where
  returns : ∃ result, parseHexVec input = .ok result
  accepts : (∃ bytes, parseHexVec input = .ok (.ok bytes)) ↔
    (cleaned input).length % 2 = 0 ∧ ∀ c ∈ cleaned input, IsHexDigit c
  lower : ∀ bytes, parseHexVec input = .ok (.ok bytes) → hex bytes = (cleaned input).map Char.toLower

private theorem hex_pair {first second : Char} {high low : Nat} (firstDigit : HexDigit first high)
    (secondDigit : HexDigit second low) (bytes : List UInt8) :
    hex (UInt8.ofNat (high * 16 + low) :: bytes) = first.toLower :: second.toLower :: hex bytes := by
  have highSmall := firstDigit.small
  have lowSmall := secondDigit.small
  have value : (UInt8.ofNat (high * 16 + low)).toNat = high * 16 + low :=
    UInt8.toNat_ofNat_of_lt' (by change _ < 256; omega)
  have upper : (high * 16 + low) / 16 = high := by omega
  have rest : (high * 16 + low) % 16 = low := by omega
  rw [hex, List.flatMap_cons, value, upper, rest, firstDigit.lower, secondDigit.lower]
  rfl

private theorem pairsRead_digits {text : List Char} (even : text.length % 2 = 0) (digits : ∀ c ∈ text, IsHexDigit c) :
    (pairsRead text).2 = [] ∧ hex (pairsRead text).1 = text.map Char.toLower := by
  induction text using pairsRead.induct with
  | case1 first second rest byte read ih =>
    obtain ⟨high, firstDigit⟩ := (digits first List.mem_cons_self).digit
    obtain ⟨low, secondDigit⟩ := (digits second (List.mem_cons_of_mem _ List.mem_cons_self)).digit
    have shorter : rest.length % 2 = 0 := by
      simp only [List.length_cons] at even
      omega
    obtain ⟨finished, lower⟩ := ih shorter fun c member => digits c (List.mem_cons_of_mem _ (List.mem_cons_of_mem _ member))
    rw [pairsRead_some read]
    refine ⟨finished, ?_⟩
    rw [fromStrRadix16_digits firstDigit secondDigit] at read
    cases read
    rw [hex_pair firstDigit secondDigit, lower]
    rfl
  | case2 first second rest refused =>
    obtain ⟨high, firstDigit⟩ := (digits first List.mem_cons_self).digit
    obtain ⟨low, secondDigit⟩ := (digits second (List.mem_cons_of_mem _ List.mem_cons_self)).digit
    rw [fromStrRadix16_digits firstDigit secondDigit] at refused
    cases refused
  | case3 text short =>
    cases text with
    | nil => exact ⟨rfl, rfl⟩
    | cons first rest =>
      cases rest with
      | nil => exact absurd even (by simp)
      | cons second more => exact absurd rfl (short first second more)

/-- A text read to the end without a sign is made of digits. -/
theorem digits_of_pairsRead {text : List Char} (finished : (pairsRead text).2 = []) (unsigned : '+' ∉ text) :
    text.length % 2 = 0 ∧ ∀ c ∈ text, IsHexDigit c := by
  induction text using pairsRead.induct with
  | case1 first second rest byte read ih =>
    rw [pairsRead_some read] at finished
    simp only [List.mem_cons, not_or] at unsigned
    obtain ⟨even, digits⟩ := ih finished unsigned.2.2
    obtain ⟨_, _, firstDigit, secondDigit, _⟩ | ⟨sign, _⟩ := fromStrRadix16_pair read
    · refine ⟨by simp only [List.length_cons]; omega, ?_⟩
      intro c member
      rcases List.mem_cons.mp member with rfl | member
      · exact isHexDigit_of_value firstDigit.value
      rcases List.mem_cons.mp member with rfl | member
      · exact isHexDigit_of_value secondDigit.value
      · exact digits c member
    · exact absurd sign.symm unsigned.1
  | case2 first second rest refused =>
    rw [pairsRead_none refused] at finished
    cases finished
  | case3 text short =>
    rw [pairsRead] at finished
    · obtain rfl : text = [] := finished
      exact ⟨rfl, List.forall_mem_nil _⟩
    · exact short

private theorem utf8Bytes_digits {text : List Char} (digits : ∀ c ∈ text, IsHexDigit c) :
    (utf8Bytes text).length = text.length := by
  induction text with
  | nil => rfl
  | cons c rest ih =>
    obtain ⟨_, facts⟩ := (digits c List.mem_cons_self).digit
    rw [utf8Bytes_cons, List.length_append, String.length_utf8EncodeChar, facts.narrow,
      ih fun other member => digits other (List.mem_cons_of_mem _ member), List.length_cons, Nat.add_comm]

private theorem parseHexVec_odd {input : String} (odd : (utf8Bytes (cleaned input)).length % 2 ≠ 0) :
    ∃ error, parseHexVec input = .ok (.error error) := ⟨_, if_pos odd⟩

private theorem parseHexVec_even {input : String} (even : (utf8Bytes (cleaned input)).length % 2 = 0) :
    HexVerdict (pairsRead (cleaned input)).1 (pairsRead (cleaned input)).2 (parseHexVec input) := by
  have loop : parseHexVec input = hexLoop (utf8Bytes (cleaned input)) := if_neg (not_not.mpr even)
  rw [loop]
  exact hexLoop_verdict even

private theorem sign_not_digit : ¬ IsHexDigit '+' := by decide

/-- The reader does what it is for unless the cleaned text is misread. -/
theorem reads_hex_iff (input : String) : ReadsHex input ↔ ¬ Misread (cleaned input) := by
  constructor
  · intro reads ⟨even, faulty⟩
    have verdict := parseHexVec_even even
    rcases faulty with cuts | ⟨finished, sign⟩
    · exact verdict.panics_iff.mp reads.returns cuts
    · have accepted := verdict.accepted_iff.mpr ⟨finished, rfl⟩
      exact sign_not_digit ((reads.accepts.mp ⟨_, accepted⟩).2 '+' sign)
  · intro sound
    by_cases even : (utf8Bytes (cleaned input)).length % 2 = 0
    · have verdict := parseHexVec_even even
      have whole : ¬ CutsCharacter (pairsRead (cleaned input)).2 := fun cuts => sound ⟨even, .inl cuts⟩
      have unsigned : (pairsRead (cleaned input)).2 = [] → '+' ∉ cleaned input := fun finished sign =>
        sound ⟨even, .inr ⟨finished, sign⟩⟩
      refine ⟨verdict.panics_iff.mpr whole, ⟨?_, ?_⟩, ?_⟩
      · intro ⟨bytes, accepted⟩
        have finished := (verdict.accepted_iff.mp accepted).1
        exact digits_of_pairsRead finished (unsigned finished)
      · intro ⟨length, digits⟩
        exact ⟨_, verdict.accepted_iff.mpr ⟨(pairsRead_digits length digits).1, rfl⟩⟩
      · intro bytes accepted
        obtain ⟨finished, rfl⟩ := verdict.accepted_iff.mp accepted
        obtain ⟨length, digits⟩ := digits_of_pairsRead finished (unsigned finished)
        exact (pairsRead_digits length digits).2
    · obtain ⟨error, refused⟩ := parseHexVec_odd even
      refine ⟨⟨_, refused⟩, ⟨?_, ?_⟩, ?_⟩
      · intro ⟨bytes, accepted⟩
        cases refused.symm.trans accepted
      · intro ⟨length, digits⟩
        rw [utf8Bytes_digits digits] at even
        exact absurd length even
      · intro bytes accepted
        cases refused.symm.trans accepted

/-- A plus sign passes for a digit, and a pair that ends inside a character panics. -/
theorem sign_read_and_cut_panics :
    parseHexVec "+f" = .ok (.ok [15]) ∧ ¬ ReadsHex "+f" ∧
      parseHexVec "a\u00e9b" = .error .expectFailed ∧ ¬ ReadsHex "a\u00e9b" := by
  have signed : parseHexVec "+f" = .ok (.ok [15]) := by decide +kernel
  have cut : parseHexVec "a\u00e9b" = .error .expectFailed := by decide +kernel
  refine ⟨signed, ?_, cut, ?_⟩
  · intro reads
    exact sign_not_digit ((reads.accepts.mp ⟨_, signed⟩).2 '+' (by decide +kernel))
  · intro reads
    obtain ⟨result, returned⟩ := reads.returns
    cases cut.symm.trans returned

end UdpOptions.Proofs
