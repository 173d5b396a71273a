import UdpOptions.Proofs.CanonicalOptions
import UdpOptions.Proofs.OptionGrammar

/-! The canonical form of a serialized body. The length is computed in one pass and
the bytes are emitted in another; both follow the same layout, in which every TLV
stands at an even offset with at most one NOP before it. The options that the
iterator reads back are the sorted ones, and serializing them gives the same body. -/

namespace UdpOptions.Proofs
open Library Model

private theorem tokenOf_option (option : RawOption) : (tokenOf option).option = asParsed option := by
  unfold tokenOf
  split <;> rfl

private theorem tokenOf_ne_nop (option : RawOption) : tokenOf option ≠ .nop := by
  unfold tokenOf
  split <;> exact nofun

private theorem tokenOf_length (option : RawOption) :
    (tokenOf option).bytes.length = Serialize.encodedLen option.value.length := by
  unfold tokenOf Serialize.encodedLen
  split
  · rfl
  · simp only [Token.bytes, List.length_cons, List.length_append, u16Be_length]
    omega

/-- The layout of options from an offset on: each at an even offset, after one NOP if
the offset is odd. -/
inductive Aligned : Nat → List RawOption → List Token → Prop where
  | done {offset : Nat} : Aligned offset [] []
  | even {offset : Nat} {option : RawOption} {options : List RawOption} {tokens : List Token} (even : offset % 2 = 0)
      (next : Aligned (offset + (tokenOf option).bytes.length) options tokens) :
      Aligned offset (option :: options) (tokenOf option :: tokens)
  | odd {offset : Nat} {option : RawOption} {options : List RawOption} {tokens : List Token} (odd : offset % 2 = 1)
      (next : Aligned (offset + 1 + (tokenOf option).bytes.length) options tokens) :
      Aligned offset (option :: options) (.nop :: tokenOf option :: tokens)

section
variable {offset : Nat} {options : List RawOption} {tokens : List Token}

theorem Aligned.proper (aligned : Aligned offset options tokens) (sendable : ∀ option ∈ options, Sendable option) :
    ∀ token ∈ tokens, token.Proper := by
  induction aligned with
  | done => simp
  | even _ _ ih =>
    obtain ⟨first, later⟩ := List.forall_mem_cons.mp sendable
    exact List.forall_mem_cons.mpr ⟨first.token_proper, ih later⟩
  | odd _ _ ih =>
    obtain ⟨first, later⟩ := List.forall_mem_cons.mp sendable
    exact List.forall_mem_cons.mpr ⟨trivial, List.forall_mem_cons.mpr ⟨first.token_proper, ih later⟩⟩

theorem Aligned.tlv_even (aligned : Aligned offset options tokens) {before after : List Token} {token : Token}
    (split : tokens = before ++ token :: after) (tlv : token ≠ .nop) :
    (offset + (before.flatMap Token.bytes).length) % 2 = 0 := by
  induction aligned generalizing before with
  | done =>
    have length := congrArg List.length split
    simp at length
  | even even _ ih =>
    cases before with
    | nil => exact even
    | cons first before =>
      obtain ⟨rfl, later⟩ := List.cons.inj split
      have position := ih later
      rw [List.flatMap_cons, List.length_append]
      omega
  | odd odd _ ih =>
    cases before with
    | nil => exact absurd (List.cons.inj split).1.symm tlv
    | cons first before =>
      obtain ⟨rfl, later⟩ := List.cons.inj split
      cases before with
      | nil =>
        show (_ + 1) % 2 = 0
        omega
      | cons second before =>
        obtain ⟨rfl, last⟩ := List.cons.inj later
        have position := ih last
        rw [List.flatMap_cons, List.flatMap_cons, List.length_append, List.length_append]
        show (_ + (1 + _)) % 2 = 0
        omega

theorem Aligned.nops_apart (aligned : Aligned offset options tokens) (before after : List Token) :
    tokens ≠ before ++ .nop :: .nop :: after := by
  intro split
  induction aligned generalizing before with
  | done =>
    have length := congrArg List.length split
    simp at length
  | even _ _ ih =>
    cases before with
    | nil => exact tokenOf_ne_nop _ (List.cons.inj split).1
    | cons first before => exact ih before (List.cons.inj split).2
  | odd _ _ ih =>
    cases before with
    | nil => exact tokenOf_ne_nop _ (List.cons.inj (List.cons.inj split).2).1
    | cons first before =>
      have later := (List.cons.inj split).2
      cases before with
      | nil => exact tokenOf_ne_nop _ (List.cons.inj later).1
      | cons second before => exact ih before (List.cons.inj later).2

theorem Aligned.read_back (aligned : Aligned offset options tokens) :
    (tokens.filter fun token => token ≠ .nop).map Token.option = options.map asParsed := by
  induction aligned with
  | done => rfl
  | even _ _ ih => simpa [tokenOf_ne_nop, tokenOf_option] using ih
  | odd _ _ ih => simpa [tokenOf_ne_nop, tokenOf_option] using ih

/-- The emitted bytes follow the layout, with EOL and zero fill to an even length. -/
theorem emitFrom_aligned {out body : List UInt8} (sendable : ∀ option ∈ options, Sendable option)
    (emitted : Serialize.emitFrom out options = .ok body) :
    ∃ tokens fill, body = out ++ (tokens.flatMap Token.bytes ++ Kind.eol :: fill) ∧
      Aligned out.length options tokens ∧ (∀ byte ∈ fill, byte = 0) ∧ body.length % 2 = 0 := by
  induction options generalizing out with
  | nil =>
    rw [Serialize.emitFrom] at emitted
    cases emitted
    split
    next odd =>
      refine ⟨[], [0], by simp, .done, by simp, ?_⟩
      rw [List.length_append]
      exact Nat.succ_mod_two_eq_zero_iff.mpr odd
    next even => exact ⟨[], [], rfl, .done, List.forall_mem_nil _, by omega⟩
  | cons option rest ih =>
    obtain ⟨first, later⟩ := List.forall_mem_cons.mp sendable
    rw [Serialize.emitFrom, encodeOption_token first.short] at emitted
    change Serialize.emitFrom ((if out.length % 2 = 1 then out ++ [Kind.nop] else out) ++ (tokenOf option).bytes) rest =
      .ok body at emitted
    split at emitted
    next odd =>
      obtain ⟨tokens, fill, rfl, aligned, zero, even⟩ := ih later emitted
      refine ⟨.nop :: tokenOf option :: tokens, fill, by simp [Token.bytes], ?_, zero, even⟩
      rw [List.length_append, List.length_append] at aligned
      exact .odd odd aligned
    next odd =>
      obtain ⟨tokens, fill, rfl, aligned, zero, even⟩ := ih later emitted
      refine ⟨tokenOf option :: tokens, fill, by simp, ?_, zero, even⟩
      rw [List.length_append] at aligned
      exact .even (by omega) aligned

end

theorem checkedBodyAdd_eq_ok {current add len : Nat} :
    Serialize.checkedBodyAdd current add = .ok len ↔ len = current + add ∧ len ≤ Serialize.bodyLenMax := by
  have word : Serialize.bodyLenMax < 2 ^ 64 := by decide
  unfold Serialize.checkedBodyAdd
  by_cases small : current + add < 2 ^ 64
  · rw [checkedAdd_of_lt small]
    dsimp only
    split
    next long => exact iff_of_false nofun fun fits => absurd fits.2 (by omega)
    next short =>
      rw [Except.ok.injEq]
      omega
  · rw [show checkedAdd current add = none from if_neg small]
    exact iff_of_false nofun fun fits => by omega

private theorem alignLen_ok {current len : Nat} (aligned : Serialize.alignLen current = .ok len) :
    len = current + current % 2 ∧ (current ≤ Serialize.bodyLenMax → len ≤ Serialize.bodyLenMax) := by
  unfold Serialize.alignLen at aligned
  split at aligned
  next odd =>
    obtain ⟨same, fits⟩ := checkedBodyAdd_eq_ok.mp aligned
    exact ⟨by omega, fun _ => fits⟩
  next even =>
    cases aligned
    exact ⟨by omega, id⟩

/-- The computed length is within the limit, and it is the length of the emitted bytes. -/
theorem emitFrom_length {out body : List UInt8} {options : List RawOption} {bodyLen : Nat}
    (sendable : ∀ option ∈ options, Sendable option) (emitted : Serialize.emitFrom out options = .ok body)
    (sized : Serialize.bodyLenFrom out.length options = .ok bodyLen) :
    body.length = bodyLen ∧ bodyLen ≤ Serialize.bodyLenMax := by
  induction options generalizing out with
  | nil =>
    obtain ⟨ended, added, aligned⟩ := Checked.bind_eq_ok.mp sized
    obtain ⟨rfl, fits⟩ := checkedBodyAdd_eq_ok.mp added
    obtain ⟨rfl, within⟩ := alignLen_ok aligned
    rw [Serialize.emitFrom] at emitted
    cases emitted
    refine ⟨?_, within fits⟩
    split
    next odd =>
      rw [List.length_append] at odd ⊢
      rw [List.length_append]
      simp only [List.length_singleton] at odd ⊢
      omega
    next even =>
      rw [List.length_append] at even ⊢
      simp only [List.length_singleton] at even ⊢
      omega
  | cons option rest ih =>
    obtain ⟨first, later⟩ := List.forall_mem_cons.mp sendable
    obtain ⟨start, aligned, sized⟩ := Checked.bind_eq_ok.mp sized
    obtain ⟨next, added, sized⟩ := Checked.bind_eq_ok.mp sized
    obtain ⟨rfl, _⟩ := alignLen_ok aligned
    obtain ⟨rfl, _⟩ := checkedBodyAdd_eq_ok.mp added
    rw [Serialize.emitFrom, encodeOption_token first.short] at emitted
    change Serialize.emitFrom ((if out.length % 2 = 1 then out ++ [Kind.nop] else out) ++ (tokenOf option).bytes) rest =
      .ok body at emitted
    apply ih later emitted
    rw [List.length_append, tokenOf_length, ← sized]
    split
    next odd => rw [List.length_append, odd]; rfl
    next even => rw [show out.length % 2 = 0 by omega, Nat.add_zero]

theorem bodyLenFrom_map {change : RawOption → RawOption} {options : List RawOption}
    (keeps : ∀ option ∈ options, (change option).value.length = option.value.length) (len : Nat) :
    Serialize.bodyLenFrom len (options.map change) = Serialize.bodyLenFrom len options := by
  induction options generalizing len with
  | nil => rfl
  | cons option rest ih =>
    obtain ⟨first, later⟩ := List.forall_mem_cons.mp keeps
    rw [List.map_cons, Serialize.bodyLenFrom, Serialize.bodyLenFrom, first]
    simp only [ih later]

private theorem emitFrom_asParsed (out : List UInt8) (options : List RawOption) :
    Serialize.emitFrom out (options.map asParsed) = Serialize.emitFrom out options := by
  have encoded : ∀ option, Serialize.encodeOption (asParsed option) = Serialize.encodeOption option := by
    intro option
    unfold Serialize.encodeOption
    rw [asParsed, OptionKind.toByte_fromByte]
  induction options generalizing out with
  | nil => rfl
  | cons option rest ih =>
    rw [List.map_cons, Serialize.emitFrom, Serialize.emitFrom, encoded]
    simp only [ih]

/-- A list in canonical order, in which options of one kind keep their order. -/
structure StablySorted (options sorted : List RawOption) : Prop where
  perm : sorted.Perm options
  ordered : sorted.Pairwise Serialize.rankLe
  stable : ∀ byte, sorted.filter (fun option => option.kind.toByte = byte) =
    options.filter fun option => option.kind.toByte = byte

theorem sortByRank_stable (options : List RawOption) : StablySorted options (Serialize.sortByRank options) where
  perm := List.perm_insertionSort _ _
  ordered := List.pairwise_insertionSort _ _
  stable byte := by
    have same := sortByRank_instances options (.fromByte byte)
    simp only [instances, OptionKind.toByte_fromByte] at same
    exact same

/-- What the receiver reads of an option: the kind by its byte, and the fragment start in a FRAG. -/
def readBack (start : UInt16) (option : RawOption) : RawOption := asParsed (patched start option)

section
variable {start : UInt16} {option : RawOption}

theorem readBack_kind : (readBack start option).kind.toByte = option.kind.toByte := by
  unfold readBack asParsed patched
  rw [OptionKind.toByte_fromByte]
  split <;> rfl

theorem Sendable.readBack (sendable : Sendable option) : Sendable (readBack start option) :=
  sendable.keep readBack_kind sendable.patched_length

private theorem patched_readBack : patched start (readBack start option) = readBack start option := by
  unfold patched
  rw [readBack_kind]
  split
  next frag =>
    have value : (readBack start option).value = u16Be start ++ option.value.drop 2 := by
      unfold readBack asParsed patched
      rw [if_pos frag]
    rw [value, List.drop_left' (u16Be_length start), ← value]
  · rfl

end

/-- Serializing what was read back gives the same body. -/
theorem finish_readBack {options : List RawOption} {body : List UInt8} {bodyLen : Nat} {start : UInt16}
    (sendable : ∀ option ∈ options, Sendable option) (single : options.countP isFrag ≤ 1)
    (sized : Serialize.serializedBodyLen (Serialize.sortByRank options) = .ok bodyLen)
    (word : 8 + bodyLen = start.toNat)
    (emitted : Serialize.emitFrom [0, 0] ((Serialize.sortByRank options).map (patched start)) = .ok body) :
    Serialize.finish ((Serialize.sortByRank options).map (readBack start)) = .ok body := by
  have sortedSendable : ∀ option ∈ Serialize.sortByRank options, Sendable option :=
    fun option member => sendable option ((List.mem_insertionSort _).mp member)
  have again : Serialize.sortByRank ((Serialize.sortByRank options).map (readBack start)) =
      (Serialize.sortByRank options).map (readBack start) := by
    apply List.Pairwise.insertionSort_eq
    rw [List.pairwise_map]
    apply (sortByRank_stable options).ordered.imp
    intro first second ordered
    unfold Serialize.rankLe
    rw [readBack_kind, readBack_kind]
    exact ordered
  refine finish_iff.mpr ⟨⟨?_, ?_⟩, bodyLen, start, ?_, word, ?_⟩
  · rw [List.forall_mem_map]
    exact fun option member => (sortedSendable option member).readBack
  · rw [List.countP_map]
    have same : isFrag ∘ readBack start = isFrag := by
      funext option
      simp only [Function.comp_apply, isFrag, readBack_kind]
    rw [same, (sortByRank_stable options).perm.countP_eq]
    exact single
  · rw [again, Serialize.serializedBodyLen, bodyLenFrom_map]
    · exact sized
    · exact fun option member => (sortedSendable option member).patched_length
  · rw [again, List.map_map, show patched start ∘ readBack start = asParsed ∘ patched start from
      funext fun option => patched_readBack, ← List.map_map, emitFrom_asParsed]
    exact emitted

theorem Token.Proper.filler_iff {token : Token} (proper : token.Proper) :
    (token.option.kind = .nop ∨ token.option.kind = .eol) ↔ token = .nop := by
  have named : ∀ {kind : UInt8}, 2 ≤ kind → ¬ (OptionKind.fromByte kind = .nop ∨ OptionKind.fromByte kind = .eol) := by
    intro kind large filler
    have tlvKind := isTlvKind_iff.mpr large
    rw [← OptionKind.toByte_fromByte kind] at tlvKind
    rcases filler with nop | eol
    · exact tlvKind.2 (by rw [nop]; rfl)
    · exact tlvKind.1 (by rw [eol]; rfl)
  cases token with
  | nop => exact iff_of_true (.inl rfl) rfl
  | short kind value => exact iff_of_false (named proper.1) nofun
  | extended kind value => exact iff_of_false (named proper.1) nofun

/-- The option of an item that is neither NOP nor EOL. -/
def optionOf : Except ParseError RawOption → Option RawOption
  | .ok option => if option.kind = .nop ∨ option.kind = .eol then none else some option
  | .error _ => none

def optionsRead (items : List OptionsIter.Item) : List RawOption := (items.map plain).filterMap optionOf

private theorem optionsRead_tokens {items : List OptionsIter.Item} {tokens : List Token}
    (proper : ∀ token ∈ tokens, token.Proper) (same : items.map plain = tokenItems tokens ++ [.ok ⟨.eol, []⟩]) :
    optionsRead items = (tokens.filter fun token => token ≠ .nop).map Token.option := by
  rw [optionsRead, same, List.filterMap_append, show [Except.ok ⟨.eol, []⟩].filterMap optionOf = [] from rfl,
    List.append_nil, tokenItems]
  clear same
  induction tokens with
  | nil => rfl
  | cons token rest ih =>
    obtain ⟨first, later⟩ := List.forall_mem_cons.mp proper
    have filler := first.filler_iff
    rw [List.map_cons, List.filterMap_cons, ih later, List.filter_cons]
    by_cases nop : token = .nop
    · subst nop
      rfl
    · simp [optionOf, filler, nop]

/-- What is emitted behind the OCS placeholder is laid out in alignment and read back. -/
structure EmittedBody (options : List RawOption) (body : List UInt8) (tokens : List Token) (fill : List UInt8)
    (items : List OptionsIter.Item) : Prop where
  whole : body = [0, 0] ++ (tokens.flatMap Token.bytes ++ Kind.eol :: fill)
  aligned : Aligned 2 options tokens
  proper : ∀ token ∈ tokens, token.Proper
  zero : ∀ byte ∈ fill, byte = 0
  even : body.length % 2 = 0
  read : OptionsIter.items (body.drop 2) = .ok items
  sound : ∀ item ∈ items, ∃ option, item = .ok option
  back : optionsRead items = options.map asParsed

theorem emitFrom_body {options : List RawOption} {body : List UInt8} (sendable : ∀ option ∈ options, Sendable option)
    (emitted : Serialize.emitFrom [0, 0] options = .ok body) :
    ∃ tokens fill items, EmittedBody options body tokens fill items := by
  obtain ⟨tokens, fill, whole, aligned, zero, even⟩ := emitFrom_aligned sendable emitted
  have proper := aligned.proper sendable
  have area : body.drop 2 = tokens.flatMap Token.bytes ++ Kind.eol :: fill := by rw [whole]; rfl
  obtain ⟨items, read, framed⟩ := items_framed (body.drop 2)
  obtain ⟨others, rest, yields⟩ := framed.yields
  have decomposes : Decomposes (body.drop 2) tokens (Kind.eol :: fill) := ⟨⟨proper, area⟩, .inr ⟨fill, rfl⟩⟩
  refine ⟨tokens, fill, items, whole, aligned, proper, zero, even, read, ?_, ?_⟩
  · exact yields.all_ok_iff.mpr ⟨_, _, decomposes⟩
  · rw [optionsRead_tokens proper (yields.decomposed decomposes), aligned.read_back]

/-- A serialized body is in canonical form, the iterator reads the sorted options back,
and serializing these gives the same body. -/
theorem finish_canonical {options : List RawOption} {body : List UInt8}
    (finished : Serialize.finish options = .ok body) :
    ∃ sorted tokens fill items,
      StablySorted options sorted ∧ body = [0, 0] ++ (tokens.flatMap Token.bytes ++ Kind.eol :: fill) ∧
      (body.length % 2 = 0 ∧ body.length ≤ 65534 ∧ Serialize.serializedBodyLen sorted = .ok body.length) ∧
      (∀ token ∈ tokens, token.Proper) ∧
      (∀ before token after, tokens = before ++ token :: after → token ≠ .nop →
        (2 + (before.flatMap Token.bytes).length) % 2 = 0) ∧
      (∀ before after, tokens ≠ before ++ .nop :: .nop :: after) ∧
      (∀ byte ∈ fill, byte = 0) ∧
      OptionsIter.items (body.drop 2) = .ok items ∧ (∀ item ∈ items, ∃ option, item = .ok option) ∧
      optionsRead items = sorted.map (readBack (UInt16.ofNat (8 + body.length))) ∧
      Serialize.finish (optionsRead items) = .ok body := by
  obtain ⟨⟨sendable, single⟩, bodyLen, start, sized, word, emitted⟩ := finish_iff.mp finished
  have patchedSendable : ∀ option ∈ (Serialize.sortByRank options).map (patched start), Sendable option :=
    patched_sendable sendable
  obtain ⟨tokens, fill, items, emission⟩ := emitFrom_body patchedSendable emitted
  have patchedSized : Serialize.bodyLenFrom [0, 0].length ((Serialize.sortByRank options).map (patched start)) =
      .ok bodyLen := by
    rw [bodyLenFrom_map]
    · exact sized
    · exact fun option member => (sendable option ((List.mem_insertionSort _).mp member)).patched_length
  obtain ⟨rfl, within⟩ := emitFrom_length patchedSendable emitted patchedSized
  have readOptions : optionsRead items = (Serialize.sortByRank options).map (readBack start) := by
    rw [emission.back, List.map_map]
    rfl
  have startIs : UInt16.ofNat (8 + body.length) = start := by rw [word, UInt16.ofNat_toNat]
  refine ⟨Serialize.sortByRank options, tokens, fill, items, sortByRank_stable options, emission.whole,
    ⟨emission.even, within, sized⟩, emission.proper, ?_, ?_, emission.zero, emission.read, emission.sound, ?_, ?_⟩
  · intro before token after split tlv
    exact emission.aligned.tlv_even split tlv
  · exact emission.aligned.nops_apart
  · rw [readOptions, startIs]
  · rw [readOptions]
    exact finish_readBack sendable single sized word emitted

private def mdsThenFrag : List RawOption := [⟨.mds, [5, 220]⟩, ⟨.frag, [0, 0, 0, 0, 0, 5, 0, 8]⟩]

private def mdsThenFragBody : List UInt8 := [0, 0, 3, 10, 0, 26, 0, 0, 0, 5, 0, 8, 4, 4, 5, 220, 0, 0]

/-- A FRAG behind an MDS comes first, with the fragment start written into it. -/
theorem finish_canonical_frag :
    ∃ items, Serialize.finish mdsThenFrag = .ok mdsThenFragBody ∧
      OptionsIter.items (mdsThenFragBody.drop 2) = .ok items ∧
      optionsRead items = [⟨.frag, [0, 26, 0, 0, 0, 5, 0, 8]⟩, ⟨.mds, [5, 220]⟩] ∧
      Serialize.finish (optionsRead items) = .ok mdsThenFragBody := by
  have finished : Serialize.finish mdsThenFrag = .ok mdsThenFragBody := rfl
  obtain ⟨_, _, _, items, _, _, _, _, _, _, _, read, _, _, again⟩ := finish_canonical finished
  have known : OptionsIter.items (mdsThenFragBody.drop 2) = .ok [.ok ⟨.frag, [0, 26, 0, 0, 0, 5, 0, 8], some 2⟩,
    .ok ⟨.mds, [5, 220], some 12⟩, .ok ⟨.eol, [], none⟩] := rfl
  cases read.symm.trans known
  exact ⟨_, finished, read, rfl, again⟩

end UdpOptions.Proofs
