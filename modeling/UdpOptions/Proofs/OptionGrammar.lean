import UdpOptions.Library.PrefixCode
import UdpOptions.Pipeline
import UdpOptions.Proofs.TlvFraming

/-! The option grammar. An options area is a row of NOP bytes and TLVs that ends with
the area or is followed by EOL and arbitrary bytes. The front of an area decides
which element stands there, so an area is cut in one way only, and the iterator
cuts it in that way. -/

namespace UdpOptions.Proofs
open Library Model

/-- One element of an options area: NOP, a TLV with a length byte, or a TLV with the
marker and a 16-bit length. -/
inductive Token where
  | nop
  | short (kind : UInt8) (value : List UInt8)
  | extended (kind : UInt8) (value : List UInt8)
  deriving DecidableEq, Repr

namespace Token

def bytes : Token → List UInt8
  | .nop => [Kind.nop]
  | .short kind value => kind :: UInt8.ofNat (value.length + 2) :: value
  | .extended kind value =>
    kind :: Kind.extendedLengthMarker :: (u16Be (UInt16.ofNat (value.length + 4)) ++ value)

def Proper : Token → Prop
  | .nop => True
  | .short kind value => 2 ≤ kind ∧ value.length + 2 ≤ 254
  | .extended kind value => 2 ≤ kind ∧ 255 ≤ value.length + 4 ∧ value.length + 4 ≤ 65535

def option : Token → RawOption
  | .nop => ⟨.nop, []⟩
  | .short kind value => ⟨.fromByte kind, value⟩
  | .extended kind value => ⟨.fromByte kind, value⟩

end Token

theorem isTlvKind_iff {kind : UInt8} : IsTlvKind kind ↔ 2 ≤ kind := by
  rw [IsTlvKind, UInt8.le_iff_toNat_le, Ne, Ne, ← UInt8.toNat_inj, ← UInt8.toNat_inj]
  show ¬ kind.toNat = 0 ∧ ¬ kind.toNat = 1 ↔ 2 ≤ kind.toNat
  omega

section
variable {kind : UInt8} {value : List UInt8}

theorem Token.Proper.length_byte (proper : (Token.short kind value).Proper) :
    (UInt8.ofNat (value.length + 2)).toNat = value.length + 2 :=
  UInt8.toNat_ofNat_of_lt' (show value.length + 2 < 2 ^ 8 by have := proper.2; omega)

theorem Token.Proper.unmarked (proper : (Token.short kind value).Proper) :
    UInt8.ofNat (value.length + 2) ≠ Kind.extendedLengthMarker := by
  intro same
  have length := proper.length_byte
  rw [same, show Kind.extendedLengthMarker.toNat = 255 from rfl] at length
  have limit := proper.2
  omega

theorem Token.Proper.length_word (proper : (Token.extended kind value).Proper) :
    (UInt16.ofNat (value.length + 4)).toNat = value.length + 4 :=
  UInt16.toNat_ofNat_of_lt' (show value.length + 4 < 2 ^ 16 by have := proper.2.2; omega)

theorem Token.Proper.extended_bytes (proper : (Token.extended kind value).Proper) :
    ∃ high low, (Token.extended kind value).bytes = kind :: Kind.extendedLengthMarker :: high :: low :: value ∧
      (u16OfBe high low).toNat = value.length + 4 :=
  ⟨_, _, rfl, (congrArg UInt16.toNat (u16OfBe_split _)).trans proper.length_word⟩

section
variable {start : Nat} {rest : List UInt8} {items : List OptionsIter.Item}

theorem Token.Proper.short_framed (proper : (Token.short kind value).Proper)
    (next : Framed (start + (Token.short kind value).bytes.length) rest items) :
    Framed start ((Token.short kind value).bytes ++ rest) (.ok ⟨.fromByte kind, value, some (start + 2)⟩ :: items) := by
  apply Framed.tlv (isTlvKind_iff.mpr proper.1) proper.unmarked proper.length_byte
  rw [proper.length_byte]
  exact next

theorem Token.Proper.extended_framed (proper : (Token.extended kind value).Proper)
    (next : Framed (start + (Token.extended kind value).bytes.length) rest items) :
    Framed start ((Token.extended kind value).bytes ++ rest)
      (.ok ⟨.fromByte kind, value, some (start + 4)⟩ :: items) := by
  obtain ⟨high, low, bytes, total⟩ := proper.extended_bytes
  rw [bytes] at next ⊢
  apply Framed.extended (isTlvKind_iff.mpr proper.1) total
  · rw [total]
    exact proper.2.1
  · rw [total]
    exact next

end

end

/-- The front of an area decides which element stands there. -/
theorem token_prefixCode : PrefixCode Token.Proper Token.bytes where
  cancel := by
    intro first second rest other firstProper secondProper same
    have nopKind : ∀ {kind : UInt8}, 2 ≤ kind → Kind.nop ≠ kind := fun large equal =>
      (isTlvKind_iff.mpr large).2 equal.symm
    cases first with
    | nop =>
      cases second with
      | nop => exact ⟨rfl, (List.cons.inj same).2⟩
      | short | extended => exact absurd (List.cons.inj same).1 (nopKind secondProper.1)
    | short kind value =>
      cases second with
      | nop => exact absurd (List.cons.inj same).1.symm (nopKind firstProper.1)
      | short otherKind otherValue =>
        obtain ⟨rfl, tail⟩ := List.cons.inj same
        obtain ⟨length, tail⟩ := List.cons.inj tail
        have lengths : value.length = otherValue.length := by
          have equal := congrArg UInt8.toNat length
          rw [firstProper.length_byte, secondProper.length_byte] at equal
          omega
        obtain ⟨rfl, rfl⟩ := List.append_inj tail lengths
        exact ⟨rfl, rfl⟩
      | extended =>
        obtain ⟨_, tail⟩ := List.cons.inj same
        exact absurd (List.cons.inj tail).1 firstProper.unmarked
    | extended kind value =>
      cases second with
      | nop => exact absurd (List.cons.inj same).1.symm (nopKind firstProper.1)
      | short =>
        obtain ⟨_, tail⟩ := List.cons.inj same
        exact absurd (List.cons.inj tail).1.symm secondProper.unmarked
      | extended otherKind otherValue =>
        obtain ⟨high, low, firstBytes, firstLength⟩ := firstProper.extended_bytes
        obtain ⟨otherHigh, otherLow, secondBytes, secondLength⟩ := secondProper.extended_bytes
        rw [firstBytes, secondBytes] at same
        simp only [List.cons_append, List.cons.injEq, true_and] at same
        obtain ⟨rfl, rfl, rfl, tail⟩ := same
        have lengths : value.length = otherValue.length := by omega
        obtain ⟨rfl, rfl⟩ := List.append_inj tail lengths
        exact ⟨rfl, rfl⟩

private theorem stuck_tlv {kind : UInt8} {tail : List UInt8} (tlvKind : IsTlvKind kind)
    (noShort : ∀ len value rest, tail = len :: (value ++ rest) → len ≠ Kind.extendedLengthMarker →
      len.toNat ≠ value.length + 2)
    (noExtended : ∀ high low value rest, tail = Kind.extendedLengthMarker :: high :: low :: (value ++ rest) →
      255 ≤ value.length + 4 → (u16OfBe high low).toNat ≠ value.length + 4) :
    Stuck Token.Proper Token.bytes (kind :: tail) := by
  intro token rest proper same
  cases token with
  | nop => exact tlvKind.2 (List.cons.inj same).1
  | short otherKind value =>
    exact noShort _ value rest (List.cons.inj same).2 proper.unmarked proper.length_byte
  | extended otherKind value =>
    obtain ⟨high, low, bytes, length⟩ := proper.extended_bytes
    rw [bytes] at same
    exact noExtended high low value rest (List.cons.inj same).2 proper.2.1 length

private theorem stuck_nil : Stuck Token.Proper Token.bytes [] := by
  intro token rest _ same
  cases token <;> cases same

private theorem stuck_eol (rest : List UInt8) : Stuck Token.Proper Token.bytes (Kind.eol :: rest) := by
  intro token other proper same
  cases token with
  | nop => cases same
  | short => exact absurd (List.cons.inj same).1.symm (isTlvKind_iff.mpr proper.1).1
  | extended => exact absurd (List.cons.inj same).1.symm (isTlvKind_iff.mpr proper.1).1

/-- What the iterator yields behind the elements: nothing at the end of the area, EOL,
or one error where neither an element nor EOL begins. -/
inductive AreaEnds (rest : List UInt8) : List OptionsIter.Item → Prop where
  | finished (empty : rest = []) : AreaEnds rest []
  | eol {tail : List UInt8} (last : rest = Kind.eol :: tail) : AreaEnds rest [.ok ⟨.eol, [], none⟩]
  | broken (error : ParseError) (stuck : Stuck Token.Proper Token.bytes rest) (more : rest ≠ [])
      (other : ∀ tail, rest ≠ Kind.eol :: tail) : AreaEnds rest [.error error]

structure Cut (bytes : List UInt8) (tokens : List Token) (rest : List UInt8) : Prop where
  proper : ∀ token ∈ tokens, token.Proper
  whole : bytes = tokens.flatMap Token.bytes ++ rest

theorem Cut.cons {token : Token} {bytes rest : List UInt8} {tokens : List Token} (proper : token.Proper)
    (cut : Cut bytes tokens rest) : Cut (token.bytes ++ bytes) (token :: tokens) rest := by
  refine ⟨List.forall_mem_cons.mpr ⟨proper, cut.proper⟩, ?_⟩
  rw [cut.whole, List.flatMap_cons, List.append_assoc]

structure Yields (bytes : List UInt8) (items : List OptionsIter.Item) (tokens : List Token) (rest : List UInt8) : Prop where
  cut : Cut bytes tokens rest
  yielded : ∃ (refs : List OptionRef) (ending : List OptionsIter.Item), items = refs.map .ok ++ ending ∧
    refs.map OptionRef.toRaw = tokens.map Token.option ∧ AreaEnds rest ending

theorem Yields.cons {token : Token} {bytes rest : List UInt8} {tokens : List Token} {items : List OptionsIter.Item}
    {option : OptionRef} (proper : token.Proper) (same : option.toRaw = token.option)
    (yields : Yields bytes items tokens rest) :
    Yields (token.bytes ++ bytes) (.ok option :: items) (token :: tokens) rest := by
  obtain ⟨cut, refs, ending, rfl, raws, ends⟩ := yields
  refine ⟨cut.cons proper, option :: refs, ending, rfl, ?_, ends⟩
  rw [List.map_cons, List.map_cons, same, raws]

private theorem yields_broken {kind : UInt8} {tail : List UInt8} (tlvKind : IsTlvKind kind)
    (stuck : Stuck Token.Proper Token.bytes (kind :: tail)) (error : ParseError) :
    Yields (kind :: tail) [.error error] [] (kind :: tail) := by
  refine ⟨⟨nofun, rfl⟩, [], [.error error], rfl, rfl, .broken error stuck nofun fun other same => ?_⟩
  exact tlvKind.1 (List.cons.inj same).1

theorem Framed.yields {start : Nat} {bytes : List UInt8} {items : List OptionsIter.Item}
    (framed : Framed start bytes items) : ∃ tokens rest, Yields bytes items tokens rest := by
  have marker : Kind.extendedLengthMarker.toNat = 255 := rfl
  induction framed with
  | done => exact ⟨[], [], ⟨nofun, rfl⟩, [], [], rfl, rfl, .finished rfl⟩
  | @eol _ rest => exact ⟨[], Kind.eol :: rest, ⟨nofun, rfl⟩, [], _, rfl, rfl, .eol rfl⟩
  | nop next ih =>
    obtain ⟨tokens, rest, yields⟩ := ih
    exact ⟨.nop :: tokens, rest, @Yields.cons .nop _ _ _ _ ⟨.nop, [], none⟩ trivial rfl yields⟩
  | @tlv position kind len value remaining items tlvKind short total next ih =>
    obtain ⟨tokens, rest, yields⟩ := ih
    have limit : value.length + 2 ≤ 254 := by
      have bound := len.toNat_lt
      have other : len.toNat ≠ 255 := fun same => short (UInt8.toNat_inj.mp same)
      omega
    have bytes : (Token.short kind value).bytes = kind :: len :: value := by
      rw [Token.bytes, ← total, UInt8.ofNat_toNat]
    refine ⟨.short kind value :: tokens, rest, ?_⟩
    have whole := @Yields.cons (.short kind value) _ _ _ _ ⟨.fromByte kind, value, some (position + 2)⟩
      ⟨isTlvKind_iff.mp tlvKind, limit⟩ rfl yields
    rw [bytes] at whole
    exact whole
  | @extended position kind high low value remaining items tlvKind total long next ih =>
    obtain ⟨tokens, rest, yields⟩ := ih
    have limit : value.length + 4 ≤ 65535 := by
      have bound := (u16OfBe high low).toNat_lt
      omega
    have bytes : (Token.extended kind value).bytes = kind :: Kind.extendedLengthMarker :: high :: low :: value := by
      rw [Token.bytes, ← total, UInt16.ofNat_toNat, u16Be_u16OfBe]
      rfl
    refine ⟨.extended kind value :: tokens, rest, ?_⟩
    have whole := @Yields.cons (.extended kind value) _ _ _ _ ⟨.fromByte kind, value, some (position + 4)⟩
      ⟨isTlvKind_iff.mp tlvKind, by omega, limit⟩ rfl yields
    rw [bytes] at whole
    exact whole
  | bare tlvKind =>
    refine ⟨[], _, yields_broken tlvKind (stuck_tlv tlvKind ?_ ?_) _⟩
    · intro len value rest same
      cases same
    · intro high low value rest same
      cases same
  | @shortLength _ kind len rest tlvKind short =>
    refine ⟨[], _, yields_broken tlvKind (stuck_tlv tlvKind ?_ ?_) _⟩
    · intro other value tail same _ length
      cases same
      omega
    · intro high low value tail same
      cases same
      omega
  | @overrun _ kind len rest tlvKind short proper beyond =>
    refine ⟨[], _, yields_broken tlvKind (stuck_tlv tlvKind ?_ ?_) _⟩
    · intro other value tail same _ length
      cases same
      rw [List.length_append] at beyond
      omega
    · intro high low value tail same
      exact absurd (List.cons.inj same).1 short
  | extendedBare tlvKind bare =>
    refine ⟨[], _, yields_broken tlvKind (stuck_tlv tlvKind ?_ ?_) _⟩
    · intro other value tail same unmarked
      exact absurd (List.cons.inj same).1.symm unmarked
    · intro high low value tail same
      cases same
      simp only [List.length_cons] at bare
      omega
  | extendedShort tlvKind short =>
    refine ⟨[], _, yields_broken tlvKind (stuck_tlv tlvKind ?_ ?_) _⟩
    · intro other value tail same unmarked
      exact absurd (List.cons.inj same).1.symm unmarked
    · intro high low value tail same long length
      cases same
      omega
  | extendedOverrun tlvKind long beyond =>
    refine ⟨[], _, yields_broken tlvKind (stuck_tlv tlvKind ?_ ?_) _⟩
    · intro other value tail same unmarked
      exact absurd (List.cons.inj same).1.symm unmarked
    · intro high low value tail same _ length
      cases same
      rw [List.length_append] at beyond
      omega

/-- A string of the grammar: elements up to the end of the string, or up to EOL. -/
structure Decomposes (bytes : List UInt8) (tokens : List Token) (rest : List UInt8) : Prop where
  cut : Cut bytes tokens rest
  ending : rest = [] ∨ ∃ tail, rest = Kind.eol :: tail

def InGrammar (bytes : List UInt8) : Prop := ∃ tokens rest, Decomposes bytes tokens rest

theorem Decomposes.stuck {bytes rest : List UInt8} {tokens : List Token} (decomposes : Decomposes bytes tokens rest) :
    Stuck Token.Proper Token.bytes rest := by
  rcases decomposes.ending with rfl | ⟨tail, rfl⟩
  · exact stuck_nil
  · exact stuck_eol tail

theorem AreaEnds.stuck {rest : List UInt8} {ending : List OptionsIter.Item} (ends : AreaEnds rest ending) :
    Stuck Token.Proper Token.bytes rest := by
  cases ends with
  | finished empty => exact empty ▸ stuck_nil
  | eol last => exact last ▸ stuck_eol _
  | broken _ stuck => exact stuck

/-- A string is cut in one way only. -/
theorem Cut.unique {bytes rest other : List UInt8} {tokens others : List Token} (cut : Cut bytes tokens rest)
    (again : Cut bytes others other) (stuck : Stuck Token.Proper Token.bytes rest)
    (otherStuck : Stuck Token.Proper Token.bytes other) : tokens = others ∧ rest = other :=
  token_prefixCode.unique cut.proper again.proper (cut.whole.symm.trans again.whole) stuck otherStuck

def plain (item : OptionsIter.Item) : Except ParseError RawOption := item.map OptionRef.toRaw

def tokenItems (tokens : List Token) : List (Except ParseError RawOption) := tokens.map fun token => .ok token.option

theorem Yields.items {bytes rest : List UInt8} {items : List OptionsIter.Item} {tokens : List Token}
    (yields : Yields bytes items tokens rest) :
    AreaEnds rest [] ∧ items.map plain = tokenItems tokens ∨
    AreaEnds rest [.ok ⟨.eol, [], none⟩] ∧ items.map plain = tokenItems tokens ++ [.ok ⟨.eol, []⟩] ∨
    ∃ error, AreaEnds rest [.error error] ∧ items.map plain = tokenItems tokens ++ [.error error] := by
  obtain ⟨refs, ending, rfl, raws, ends⟩ := yields.yielded
  have front : (refs.map (Except.ok : OptionRef → OptionsIter.Item)).map plain = tokenItems tokens := by
    calc (refs.map (Except.ok : OptionRef → OptionsIter.Item)).map plain
        = (refs.map OptionRef.toRaw).map .ok := by rw [List.map_map, List.map_map]; rfl
      _ = tokenItems tokens := by rw [raws, List.map_map]; rfl
  rw [List.map_append, front]
  cases ends with
  | finished empty => exact .inl ⟨.finished empty, List.append_nil _⟩
  | eol last => exact .inr (.inl ⟨.eol last, rfl⟩)
  | broken error stuck more other => exact .inr (.inr ⟨error, .broken error stuck more other, rfl⟩)

theorem Yields.stuck {bytes rest : List UInt8} {items : List OptionsIter.Item} {tokens : List Token}
    (yields : Yields bytes items tokens rest) : Stuck Token.Proper Token.bytes rest := by
  obtain ⟨_, _, _, _, ends⟩ := yields.yielded
  exact ends.stuck

private theorem plain_ok_iff {items : List OptionsIter.Item} :
    (∀ item ∈ items, ∃ option, item = .ok option) ↔ ∀ item ∈ items.map plain, ∃ option, item = .ok option := by
  rw [List.forall_mem_map]
  refine forall₂_congr fun item _ => ?_
  cases item with
  | error error => exact ⟨nofun, nofun⟩
  | ok option => exact ⟨fun _ => ⟨_, rfl⟩, fun _ => ⟨_, rfl⟩⟩

private theorem tokenItems_ok (tokens : List Token) : ∀ item ∈ tokenItems tokens, ∃ option, item = .ok option := by
  rw [tokenItems, List.forall_mem_map]
  exact fun token _ => ⟨_, rfl⟩

/-- The iterator yields no error exactly on the strings of the grammar. -/
theorem Yields.all_ok_iff {bytes rest : List UInt8} {items : List OptionsIter.Item} {tokens : List Token}
    (yields : Yields bytes items tokens rest) :
    (∀ item ∈ items, ∃ option, item = .ok option) ↔ InGrammar bytes := by
  rw [plain_ok_iff]
  rcases yields.items with ⟨ends, same⟩ | ⟨ends, same⟩ | ⟨error, ends, same⟩
  · cases ends with
    | finished empty =>
      rw [same]
      exact iff_of_true (tokenItems_ok tokens) ⟨tokens, rest, yields.cut, .inl empty⟩
  · cases ends with
    | @eol tail last =>
      rw [same, List.forall_mem_append]
      exact iff_of_true ⟨tokenItems_ok tokens, by simp⟩ ⟨tokens, rest, yields.cut, .inr ⟨tail, last⟩⟩
  · cases ends with
    | broken _ stuck more other =>
      refine iff_of_false (fun all => ?_) ?_
      · obtain ⟨option, wrong⟩ := all (.error error) (by rw [same]; simp)
        cases wrong
      · rintro ⟨others, last, decomposes⟩
        obtain ⟨_, rfl⟩ := yields.cut.unique decomposes.cut stuck decomposes.stuck
        rcases decomposes.ending with empty | ⟨tail, eol⟩
        · exact more empty
        · exact other tail eol

theorem Yields.decomposed {bytes rest other : List UInt8} {items : List OptionsIter.Item} {tokens others : List Token}
    (yields : Yields bytes items tokens rest) (decomposes : Decomposes bytes others other) :
    items.map plain = tokenItems others ++ if other = [] then [] else [.ok ⟨.eol, []⟩] := by
  obtain ⟨rfl, rfl⟩ := yields.cut.unique decomposes.cut yields.stuck decomposes.stuck
  rcases yields.items with ⟨ends, same⟩ | ⟨ends, same⟩ | ⟨error, ends, same⟩
  · cases ends with
    | finished empty => rw [same, if_pos empty, List.append_nil]
  · cases ends with
    | eol last => rw [same, if_neg (by simp [last])]
  · cases ends with
    | broken _ _ more otherByte =>
      rcases decomposes.ending with empty | ⟨tail, eol⟩
      · exact absurd empty more
      · exact absurd eol (otherByte tail)

/-- On every other string the iterator yields the longest row of elements, then one error. -/
theorem Yields.refused {bytes rest : List UInt8} {items : List OptionsIter.Item} {tokens : List Token}
    (yields : Yields bytes items tokens rest) (outside : ¬ InGrammar bytes) :
    (∀ others other, Cut bytes others other → others <+: tokens) ∧
      ∃ error, items.map plain = tokenItems tokens ++ [.error error] := by
  constructor
  · intro others other cut
    obtain ⟨more, same, _⟩ := token_prefixCode.longest yields.cut.proper cut.proper
      (yields.cut.whole.symm.trans cut.whole) yields.stuck
    exact ⟨more, same.symm⟩
  · rcases yields.items with ⟨ends, _⟩ | ⟨ends, _⟩ | ⟨error, _, same⟩
    · cases ends with
      | finished empty => exact absurd ⟨tokens, rest, yields.cut, .inl empty⟩ outside
    · cases ends with
      | @eol tail last => exact absurd ⟨tokens, rest, yields.cut, .inr ⟨tail, last⟩⟩ outside
    · exact ⟨error, same⟩

/-- The iterator accepts exactly the grammar. Whatever the string, it ends and stays at
its end; on a string of the grammar it yields the elements and EOL; on any other
string it yields the longest row of elements and then one error; and it counts the
longest run of NOP. -/
theorem options_iter_grammar (bytes : List UInt8) :
    ∃ items last,
      (∀ fuel, bytes.length < fuel → (OptionsIter.new bytes).drain fuel = .ok (items, last)) ∧
      last.next = .ok (none, last) ∧
      ((∀ item ∈ items, ∃ option, item = .ok option) ↔ InGrammar bytes) ∧
      (∀ tokens rest others other, Decomposes bytes tokens rest → Decomposes bytes others other →
        tokens = others ∧ rest = other) ∧
      (∀ tokens rest, Decomposes bytes tokens rest →
        items.map plain = tokenItems tokens ++ if rest = [] then [] else [.ok ⟨.eol, []⟩]) ∧
      (¬ InGrammar bytes → ∃ tokens rest error, Cut bytes tokens rest ∧
        (∀ others other, Cut bytes others other → others <+: tokens) ∧
        items.map plain = tokenItems tokens ++ [.error error]) ∧
      ∀ count, List.replicate count nopItem <:+: items ↔ count ≤ last.maxNopRun := by
  obtain ⟨items, framed⟩ := framed_exists bytes 0
  obtain ⟨last, drained, exhausted, most⟩ :=
    @Framed.drain (OptionsIter.new bytes) bytes items framed ⟨rfl, rfl⟩
  obtain ⟨tokens, rest, yields⟩ := framed.yields
  refine ⟨items, last, drained, exhausted, yields.all_ok_iff, ?_, ?_, ?_, ?_⟩
  · intro tokens rest others other first second
    exact first.cut.unique second.cut first.stuck second.stuck
  · intro others other decomposes
    exact yields.decomposed decomposes
  · intro outside
    obtain ⟨longest, error, same⟩ := yields.refused outside
    exact ⟨tokens, rest, error, yields.cut, longest, same⟩
  · intro count
    have counted := @le_longestRunFrom _ nopItem _ count 0 0 items (Nat.le_refl 0)
    rw [most]
    refine Iff.trans ⟨.inr, ?_⟩ counted.symm
    rintro (none | inside)
    · rw [Nat.le_zero.mp none]
      exact List.nil_infix
    · exact inside

end UdpOptions.Proofs
