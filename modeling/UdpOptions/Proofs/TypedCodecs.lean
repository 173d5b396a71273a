import UdpOptions.Options.Typed
import UdpOptions.Proofs.SerializerAcceptance
import UdpOptions.Proofs.SplitShape

/-! The typed options against the two length tables and the iterator. What a type
has to provide is small: which lengths it decodes, that it decodes every value of
its own, and that encoding undoes decoding. -/

namespace UdpOptions.Proofs
open Library Model

/-- The codec of one kind byte agrees with the tables, and it is inverse. -/
structure Codec (α : Type) [TypedOption α] (byte : UInt8) : Prop where
  kind : (TypedOption.kind α).toByte = byte
  validated : ∀ option : RawOption, option.kind.toByte = byte →
    (Serialize.validateOption option = .ok () ↔ ∃ typed : α, TypedOption.decode option.value = .ok typed)
  listed : ∀ option : RawOption, option.kind.toByte = byte →
    ((∃ typed : α, TypedOption.decode option.value = .ok typed) ↔
      option.value.length + 2 ∈ option.kind.fixedTlvLengths)
  /-- The iterator yields one item, which decodes to the option, and then ends. -/
  yielded : ∀ typed : α, ∃ value,
    OptionsIter.items (TypedOption.encode typed) = .ok [.ok ⟨TypedOption.kind α, value, some 2⟩] ∧
      TypedOption.decode value = .ok typed
  inverse : ∀ (value : List UInt8) (typed : α), TypedOption.decode value = .ok typed →
    TypedOption.encode typed = byte :: UInt8.ofNat (value.length + 2) :: value

structure Provides (α : Type) [TypedOption α] (byte : UInt8) : Prop where
  scope : 2 ≤ byte ∧ byte ≤ 7
  kind : TypedOption.kind α = .fromByte byte
  total : ∀ value : List UInt8, value.length ∈ Serialize.fixedValueLens byte →
    ∃ typed : α, TypedOption.decode value = .ok typed
  onto : ∀ typed : α, ∃ value : List UInt8, TypedOption.decode value = .ok typed
  sound : ∀ (value : List UInt8) (typed : α), TypedOption.decode value = .ok typed →
    value.length ∈ Serialize.fixedValueLens byte ∧
      TypedOption.encode typed = byte :: UInt8.ofNat (value.length + 2) :: value

private theorem fixedValueLens_nonempty {byte : UInt8} (scope : 2 ≤ byte ∧ byte ≤ 7) :
    Serialize.fixedValueLens byte ≠ [] := by
  have known : byte = 2 ∨ byte = 3 ∨ byte = 4 ∨ byte = 5 ∨ byte = 6 ∨ byte = 7 := by grind
  rcases known with rfl | rfl | rfl | rfl | rfl | rfl
  all_goals decide

section
variable {α : Type} [TypedOption α] {byte : UInt8}

theorem Provides.sized (provides : Provides α byte) (value : List UInt8) :
    (∃ typed : α, TypedOption.decode value = .ok typed) ↔ value.length ∈ Serialize.fixedValueLens byte :=
  ⟨fun ⟨typed, decoded⟩ => (provides.sound value typed decoded).1, provides.total value⟩

theorem Provides.validated (provides : Provides α byte) {option : RawOption} (same : option.kind.toByte = byte) :
    Serialize.validateOption option = .ok () ↔ option.value.length ∈ Serialize.fixedValueLens byte := by
  rw [validateOption_iff, sendable_iff]
  constructor
  · intro acceptable
    have fixed := acceptable.fixed
    rw [same] at fixed
    exact fixed.resolve_left (fixedValueLens_nonempty provides.scope)
  · intro listed
    have small := fixedValueLens_small listed
    refine ⟨.inl ?_, by omega, .inr ?_⟩
    · rw [same]
      exact provides.scope
    · rw [same]
      exact listed

theorem Provides.framed (provides : Provides α byte) {value : List UInt8} {typed : α}
    (decoded : TypedOption.decode value = .ok typed) :
    Framed 0 (TypedOption.encode typed) [.ok ⟨TypedOption.kind α, value, some 2⟩] := by
  obtain ⟨listed, encoded⟩ := provides.sound value typed decoded
  have small := fixedValueLens_small listed
  have proper : (Token.short byte value).Proper := ⟨provides.scope.1, by omega⟩
  have framed := @Token.Proper.short_framed byte value 0 [] [] proper .done
  rw [List.append_nil, ← provides.kind] at framed
  rw [encoded]
  exact framed

theorem Provides.codec (provides : Provides α byte) : Codec α byte where
  kind := by rw [provides.kind, OptionKind.toByte_fromByte]
  validated option same := by rw [provides.validated same, provides.sized]
  listed option same := by
    rw [provides.sized, fixedTlvLengths_eq, same]
    simp
  yielded typed := by
    obtain ⟨value, decoded⟩ := provides.onto typed
    exact ⟨value, (provides.framed decoded).items, decoded⟩
  inverse value typed decoded := (provides.sound value typed decoded).2

end

theorem apc_provides : Provides Apc 2 where
  scope := by decide
  kind := rfl
  total value listed := by
    obtain ⟨_, _, _, _, rfl⟩ := List.length_eq_four.mp (List.mem_singleton.mp listed)
    exact ⟨_, rfl⟩
  onto typed := ⟨u32Be typed.crc32c, congrArg (Except.ok ∘ Apc.mk) (u32OfBe_split typed.crc32c)⟩
  sound value typed decoded := by
    change Apc.decode value = .ok typed at decoded
    unfold Apc.decode at decoded
    split at decoded
    · cases decoded
      exact ⟨List.mem_singleton.mpr rfl, congrArg (writeHeader 2 6 ++ ·) (u32Be_ofBe _ _ _ _)⟩
    · cases decoded

theorem frag_provides : Provides Frag 3 where
  scope := by decide
  kind := rfl
  total value listed := by
    have known : value.length = 8 ∨ value.length = 10 := List.mem_pair.mp listed
    rcases known with eight | ten
    · match value, eight with
      | [_, _, _, _, _, _, _, _], _ => exact ⟨_, rfl⟩
    · match value, ten with
      | [_, _, _, _, _, _, _, _, _, _], _ => exact ⟨_, rfl⟩
  onto typed := ⟨Split.fragValue typed.fragStart typed.identification typed.fragOffset typed.rdos,
    decode_fragValue _ _ _ _⟩
  sound value typed decoded := by
    change Frag.decode value = .ok typed at decoded
    unfold Frag.decode at decoded
    split at decoded
    · cases decoded
      refine ⟨List.mem_pair.mpr (.inl rfl), ?_⟩
      simp only [TypedOption.encode, u16Be_u16OfBe, u32Be_ofBe]
      rfl
    · cases decoded
      refine ⟨List.mem_pair.mpr (.inr rfl), ?_⟩
      simp only [TypedOption.encode, u16Be_u16OfBe, u32Be_ofBe]
      rfl
    · cases decoded

theorem mds_provides : Provides Mds 4 where
  scope := by decide
  kind := rfl
  total value listed := by
    obtain ⟨_, _, rfl⟩ := List.length_eq_two.mp (List.mem_singleton.mp listed)
    exact ⟨_, rfl⟩
  onto typed := ⟨u16Be typed.maxDatagramSize, congrArg (Except.ok ∘ Mds.mk) (u16OfBe_split typed.maxDatagramSize)⟩
  sound value typed decoded := by
    change Mds.decode value = .ok typed at decoded
    unfold Mds.decode at decoded
    split at decoded
    · cases decoded
      exact ⟨List.mem_singleton.mpr rfl, congrArg (writeHeader 4 4 ++ ·) (u16Be_u16OfBe _ _)⟩
    · cases decoded

theorem mrds_provides : Provides Mrds 5 where
  scope := by decide
  kind := rfl
  total value listed := by
    obtain ⟨_, _, _, rfl⟩ := List.length_eq_three.mp (List.mem_singleton.mp listed)
    exact ⟨_, rfl⟩
  onto typed := ⟨u16Be typed.maxReassembledSize ++ [typed.maxSegments],
    congrArg (fun size => Except.ok (Mrds.mk size typed.maxSegments)) (u16OfBe_split typed.maxReassembledSize)⟩
  sound value typed decoded := by
    change Mrds.decode value = .ok typed at decoded
    unfold Mrds.decode at decoded
    split at decoded
    · cases decoded
      exact ⟨List.mem_singleton.mpr rfl, congrArg (writeHeader 5 5 ++ · ++ [_]) (u16Be_u16OfBe _ _)⟩
    · cases decoded

theorem req_provides : Provides Req 6 where
  scope := by decide
  kind := rfl
  total value listed := by
    obtain ⟨_, _, _, _, rfl⟩ := List.length_eq_four.mp (List.mem_singleton.mp listed)
    exact ⟨_, rfl⟩
  onto typed := ⟨typed.token.toList, rfl⟩
  sound value typed decoded := by
    change Req.decode value = .ok typed at decoded
    unfold Req.decode at decoded
    split at decoded
    · cases decoded
      exact ⟨List.mem_singleton.mpr rfl, rfl⟩
    · cases decoded

theorem res_provides : Provides Res 7 where
  scope := by decide
  kind := rfl
  total value listed := by
    obtain ⟨_, _, _, _, rfl⟩ := List.length_eq_four.mp (List.mem_singleton.mp listed)
    exact ⟨_, rfl⟩
  onto typed := ⟨typed.token.toList, rfl⟩
  sound value typed decoded := by
    change Res.decode value = .ok typed at decoded
    unfold Res.decode at decoded
    split at decoded
    · cases decoded
      exact ⟨List.mem_singleton.mpr rfl, rfl⟩
    · cases decoded

/-- For each of the kinds 2 to 7 the serializer, the typed decoder, and the table of
lengths accept the same values, and the codec is inverse in both directions. -/
theorem typed_codecs_agree :
    Codec Apc 2 ∧ Codec Frag 3 ∧ Codec Mds 4 ∧ Codec Mrds 5 ∧ Codec Req 6 ∧ Codec Res 7 :=
  ⟨apc_provides.codec, frag_provides.codec, mds_provides.codec, mrds_provides.codec, req_provides.codec,
    res_provides.codec⟩

end UdpOptions.Proofs
