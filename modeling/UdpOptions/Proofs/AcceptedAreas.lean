import UdpOptions.Proofs.AcceptedPackets
import UdpOptions.Proofs.CheckerTotality
import UdpOptions.Proofs.WireFaults

/-! Surplus areas that the checker accepts. The receiver trusts them, and the region behind
the OCS is a sequence of options as the grammar has them, up to an EOL or to the end. -/

namespace UdpOptions.Proofs
open Library Model EvalCheck

/-- The receiver trusts a surplus area that the checker accepts. -/
theorem validateSurplus_trusted {crc32c : List UInt8 → UInt32} {packet : Packet} {opened : Opened}
    {result : List ParsedOption × Option FragRecord} (opens : Opens packet opened) (well : WellOpened opened)
    (valid : validateSurplus crc32c packet = .ok (.ok result)) :
    (∃ status, Trusted opened status) ∧
      validateRegion crc32c packet (surplusPad opened) (optionsArea opened) = .ok (.ok result) := by
  have length : packet.surplus.length = opened.ipEnd - surplusStart opened := by
    rw [opens.surplus, List.length_drop, well.length]
  have pad : (if (packet.ihl + packet.udpLen) % 2 = 1 then 1 else 0) = surplusPad opened := by
    rw [opens.ihl, opens.udpLen, ← surplusStart, surplusPad]
    split <;> omega
  have body : packet.surplus.drop (surplusPad opened) = surplusBody opened := by
    rw [opens.surplus, List.drop_drop]
    rfl
  have word := well.word
  have expected : (if 0xffff - fold16 ([0, 0] ++ (surplusBody opened).drop 2) [packet.surplus.length] = 0 then 0xffff
      else 0xffff - fold16 ([0, 0] ++ (surplusBody opened).drop 2) [packet.surplus.length]) =
      (Ocs.fieldValue (0 :: 0 :: (surplusBody opened).drop 2) (UInt16.ofNat packet.surplus.length)).toNat := by
    rw [fieldValue_toNat, UInt16.toNat_ofNat_of_lt' (show packet.surplus.length < 2 ^ 16 by omega), fold16_eq]
    rfl
  unfold validateSurplus at valid
  dsimp only at valid
  rw [pad, body, expected] at valid
  split at valid
  · cases valid
  next room =>
  obtain ⟨first, found, valid⟩ := Checked.bind_eq_ok.mp valid
  split at valid
  · cases valid
  next padded =>
  split at valid
  · cases valid
  next zero =>
  split at valid
  · cases valid
  next derived =>
  refine ⟨?_, valid⟩
  have led : 2 ≤ (surplusBody opened).length := by
    rw [← body, List.length_drop]
    omega
  obtain ⟨field, cut⟩ := led_split led
  have stored : intFromBytes ((surplusBody opened).take 2) = field.toNat := by
    rw [cut]
    exact intFromBytes_u16Be field
  have verdict : ocsVerdict opened =
      if field = 0 then if opened.udp.checksum = 0 then .unused else .ignoreOptions
      else if field = Ocs.fieldValue (0 :: 0 :: (surplusBody opened).drop 2) (UInt16.ofNat packet.surplus.length) then
        .valid
      else .error .ocsMismatch := by
    rw [← validate_word, ocsVerdict, ← length, ← cut]
  have fits : ocsStart opened + 2 ≤ opened.ipEnd := by
    rw [ocsStart]
    omega
  have padZero : surplusPad opened = 1 → opened.datagram[surplusStart opened]? = some 0 := by
    intro odd
    rw [index_eq_ok, opens.surplus, List.getElem?_drop, Nat.add_zero] at found
    rw [found]
    congr 1
    by_contra other
    exact padded ⟨by omega, other⟩
  rw [stored] at zero derived
  by_cases unused : field = 0
  · rw [unused, opens.udpChecksum] at zero
    have unchecked : opened.udp.checksum = 0 := by
      by_contra used
      exact zero ⟨rfl, fun none => used (UInt16.toNat_inj.mp none)⟩
    refine ⟨.unused, fits, padZero, .inr ⟨rfl, ?_⟩⟩
    rw [verdict, if_pos unused, if_pos unchecked]
  · have right : field = Ocs.fieldValue (0 :: 0 :: (surplusBody opened).drop 2) (UInt16.ofNat packet.surplus.length) := by
      by_contra wrong
      exact derived ⟨fun none => unused (UInt16.toNat_inj.mp none), fun same => wrong (UInt16.toNat_inj.mp same)⟩
    refine ⟨.valid, fits, padZero, .inl ⟨rfl, ?_⟩⟩
    rw [verdict, if_neg unused, if_pos right]

/-- What the checker reads at the front of a region is one option of the grammar. -/
theorem parseOption_front {region : List UInt8} {limit : Nat} {option : ParsedOption}
    (inside : limit ≤ region.length) (parsed : parseOption region 0 limit = .ok (.ok option))
    (visible : option.kind ≠ 0) :
    ∃ token : Token, token.Proper ∧ parsedToken token = option ∧ ∃ rest, region = token.bytes ++ rest := by
  unfold parseOption at parsed
  cases region with
  | nil => cases parsed
  | cons kind tail =>
  rw [show Checked.index (kind :: tail) 0 = .ok kind from rfl, Checked.ok_bind] at parsed
  split at parsed
  next single =>
    cases parsed
    rcases single with eol | nop
    · exact absurd eol visible
    · exact ⟨.nop, trivial, by rw [nop]; rfl, tail, by rw [nop]; rfl⟩
  next several =>
  have tlvKind : 2 ≤ kind := by
    push Not at several
    rw [UInt8.le_iff_toNat_le]
    have zero : kind.toNat ≠ 0 := fun same => several.1 (UInt8.toNat_inj.mp same)
    have one : kind.toNat ≠ 1 := fun same => several.2 (UInt8.toNat_inj.mp same)
    change 2 ≤ kind.toNat
    omega
  split at parsed
  · cases parsed
  next header =>
  cases tail with
  | nil =>
    rw [List.length_singleton] at inside
    omega
  | cons length tail =>
  rw [show Checked.index (kind :: length :: tail) (0 + 1) = .ok length from rfl, Checked.ok_bind] at parsed
  split at parsed
  next marked =>
    split at parsed
    · cases parsed
    next longHeader =>
    obtain ⟨high, low, tail, rfl⟩ : ∃ high low rest, tail = high :: low :: rest := by
      rcases tail with _ | ⟨high, _ | ⟨low, rest⟩⟩
      · rw [List.length_cons, List.length_singleton] at inside
        omega
      · rw [List.length_cons, List.length_cons, List.length_singleton] at inside
        omega
      · exact ⟨high, low, rest, rfl⟩
    have total : intFromBytes (slice (kind :: length :: high :: low :: tail) (0 + 2) (0 + 4)) =
      (u16OfBe high low).toNat := intFromBytes_pair high low
    dsimp only at parsed
    rw [total] at parsed
    split at parsed
    · cases parsed
    next long =>
    split at parsed
    · cases parsed
    next fits =>
    cases parsed
    simp only [List.length_cons] at inside
    have size : (tail.take ((u16OfBe high low).toNat - 4)).length + 4 = (u16OfBe high low).toNat := by
      rw [List.length_take]
      omega
    have word := (u16OfBe high low).toNat_lt
    have value : slice (kind :: length :: high :: low :: tail) (0 + 4) (0 + (u16OfBe high low).toNat) =
        tail.take ((u16OfBe high low).toNat - 4) := by
      rw [slice, List.drop_take, Nat.zero_add, Nat.zero_add]
      rfl
    refine ⟨.extended kind (tail.take ((u16OfBe high low).toNat - 4)), ⟨tlvKind, by omega, by omega⟩, ?_,
      tail.drop ((u16OfBe high low).toNat - 4), ?_⟩
    · rw [parsedToken, size, value]
    · rw [Token.bytes, size, UInt16.ofNat_toNat, u16Be_u16OfBe, marked]
      simp only [List.cons_append, List.nil_append, List.take_append_drop]
      rfl
  next plain =>
    dsimp only at parsed
    split at parsed
    · cases parsed
    next least =>
    split at parsed
    · cases parsed
    next fits =>
    cases parsed
    simp only [List.length_cons] at inside
    have size : (tail.take (length.toNat - 2)).length + 2 = length.toNat := by
      rw [List.length_take]
      omega
    have below := length.toNat_lt
    have unmarked : length.toNat ≠ 255 := fun same => plain (UInt8.toNat_inj.mp same)
    have value : slice (kind :: length :: tail) (0 + 2) (0 + length.toNat) = tail.take (length.toNat - 2) := by
      rw [slice, List.drop_take, Nat.zero_add, Nat.zero_add]
      rfl
    refine ⟨.short kind (tail.take (length.toNat - 2)), ⟨tlvKind, by omega⟩, ?_, tail.drop (length.toNat - 2), ?_⟩
    · rw [parsedToken, size, value]
    · rw [Token.bytes, size, UInt8.ofNat_toNat]
      simp only [List.cons_append, List.take_append_drop]

private theorem parseOption_token_at {region : List UInt8} {offset limit : Nat} {option : ParsedOption}
    (before : offset ≤ limit) (inside : limit ≤ region.length)
    (parsed : parseOption region offset limit = .ok (.ok option))
    (visible : option.kind ≠ 0) :
    ∃ token : Token, token.Proper ∧ parsedToken token = option ∧ ∃ rest, region.drop offset = token.bytes ++ rest := by
  have behind := parseOption_behind (region.take offset) (region.drop offset) (limit - offset)
  rw [List.take_append_drop, List.length_take, Nat.min_eq_left (Nat.le_trans before inside),
    Nat.add_sub_cancel' before] at behind
  rw [behind] at parsed
  exact parseOption_front (by rw [List.length_drop]; omega) parsed visible

def substantive (tokens : List Token) : List Token := tokens.filter fun token => token ≠ .nop

def FixedLength (option : ParsedOption) : Prop :=
  ∀ lengths, fixedTotalLengths.lookup option.kind = some lengths → option.totalLen ∈ lengths

structure ReadsFrag (packet : Packet) (padLen : Nat) (option : ParsedOption) (fields : FragFields) : Prop where
  identification : fields.identification = intFromBytes (slice option.value 2 6)
  offset : fields.offset = intFromBytes (slice option.value 6 8)
  rdos : fields.rdos = if option.totalLen = 12 then some (intFromBytes (slice option.value 8 10)) else none
  start : intFromBytes (option.value.take 2) = packet.udpLen + padLen + 2 + fields.dataStart

structure HasFrag (packet : Packet) (padLen : Nat) (tokens : List Token) (fields : FragFields) : Prop where
  found : ∃ before token after, tokens = before ++ token :: after ∧ (parsedToken token).kind = 3 ∧
    (∀ other ∈ before ++ after, (parsedToken other).kind ≠ 3) ∧ ReadsFrag packet padLen (parsedToken token) fields

/-- The tokens that a scan has passed. -/
structure Scanned (packet : Packet) (padLen : Nat) (region : List UInt8) (scan : Scan) (tokens : List Token) : Prop where
  proper : ∀ token ∈ tokens, token.Proper
  consumed : region.take scan.offset = tokens.flatMap Token.bytes
  ordered : scan.offset ≤ scan.limit
  inside : scan.limit ≤ region.length
  options : scan.options = (substantive tokens).map parsedToken
  fixed : ∀ option ∈ scan.options, FixedLength option
  whole : scan.frag = none → scan.limit = region.length ∧ ∀ token ∈ tokens, (parsedToken token).kind ≠ 3
  frag : ∀ fields, scan.frag = some fields → scan.limit = fields.dataStart ∧ HasFrag packet padLen tokens fields

section
variable {packet : Packet} {padLen : Nat} {region : List UInt8} {scan : Scan} {tokens : List Token}

theorem scanned_start : Scanned packet padLen region (.start region) [] where
  proper := fun _ member => absurd member List.not_mem_nil
  consumed := rfl
  ordered := Nat.zero_le _
  inside := Nat.le_refl _
  options := rfl
  fixed := fun _ member => absurd member List.not_mem_nil
  whole := fun _ => ⟨rfl, fun _ member => absurd member List.not_mem_nil⟩
  frag := fun _ found => by cases found

theorem HasFrag.append {fields : FragFields} (has : HasFrag packet padLen tokens fields) {token : Token}
    (other : (parsedToken token).kind ≠ 3) : HasFrag packet padLen (tokens ++ [token]) fields := by
  obtain ⟨before, frag, after, rfl, kind, alone, reads⟩ := has.found
  refine ⟨before, frag, after ++ [token], by simp, kind, ?_, reads⟩
  intro neighbour member
  rw [← List.append_assoc, List.mem_append, List.mem_singleton] at member
  rcases member with known | rfl
  · exact alone neighbour known
  · exact other

private theorem take_advance {front bytes rest : List UInt8} {offset : Nat} (consumed : region.take offset = front)
    (next : region.drop offset = bytes ++ rest) : region.take (offset + bytes.length) = front ++ bytes := by
  rw [List.take_add, consumed, next, List.take_left]

private theorem parsedToken_nop {token : Token} (proper : token.Proper) :
    (parsedToken token).kind = 1 ↔ token = .nop := by
  cases token with
  | nop => exact iff_of_true rfl rfl
  | short kind value =>
    refine iff_of_false ?_ nofun
    rintro rfl
    exact absurd proper.1 (by decide)
  | extended kind value =>
    refine iff_of_false ?_ nofun
    rintro rfl
    exact absurd proper.1 (by decide)

theorem substantive_append (first second : List Token) :
    substantive (first ++ second) = substantive first ++ substantive second := List.filter_append ..

private theorem fixedLength_iff {option : ParsedOption} :
    FixedLength option ↔
      ¬ ((fixedTotalLengths.lookup option.kind).any fun lengths => option.totalLen ∉ lengths) = true := by
  unfold FixedLength
  cases fixedTotalLengths.lookup option.kind with
  | none => simp
  | some lengths => simp

private theorem takeFrag_ok {option : ParsedOption} {after : Scan}
    (taken : takeFrag packet padLen region scan option = .ok after) :
    scan.frag = none ∧ ∃ fields, after = { scan with limit := fields.dataStart, frag := some fields } ∧
      ReadsFrag packet padLen option fields ∧ scan.offset + option.totalLen ≤ fields.dataStart ∧
      fields.dataStart ≤ region.length := by
  unfold takeFrag at taken
  split at taken
  · cases taken
  next first =>
  dsimp only at taken
  split at taken
  · cases taken
  next located =>
  obtain ⟨dataStart, placed⟩ := Int.eq_ofNat_of_zero_le
    (show 0 ≤ (intFromBytes (option.value.take 2) : Int) - packet.udpLen - padLen - 2 by omega)
  rw [placed, Int.toNat_natCast] at taken
  cases taken
  refine ⟨by simpa using first, ⟨_, _, _, dataStart⟩, rfl, ⟨rfl, rfl, rfl, ?_⟩, ?_, ?_⟩
  · change intFromBytes (option.value.take 2) = packet.udpLen + padLen + 2 + dataStart
    omega
  · change scan.offset + option.totalLen ≤ dataStart
    omega
  · change dataStart ≤ region.length
    omega

/-- One turn of the checker's loop passes one token. -/
theorem Scanned.step {option : ParsedOption} {after : Scan} (scanned : Scanned packet padLen region scan tokens)
    (before : scan.offset < scan.limit) (parsed : parseOption region scan.offset scan.limit = .ok (.ok option))
    (visible : option.kind ≠ 0) (taken : takeOption packet padLen region scan option = .ok after) :
    ∃ token,
      Scanned packet padLen region { after with offset := after.offset + option.totalLen } (tokens ++ [token]) := by
  obtain ⟨token, proper, rfl, rest, next⟩ :=
    parseOption_token_at (Nat.le_of_lt before) scanned.inside parsed visible
  obtain ⟨outcome, same, bounded⟩ := parseOption_returns before scanned.inside
  cases same.symm.trans parsed
  have fits := (bounded _ rfl).2
  have length := parsedToken_totalLen token
  have every : ∀ other ∈ tokens ++ [token], other.Proper := by
    intro other member
    rcases List.mem_append.mp member with known | added
    · exact scanned.proper other known
    · cases List.mem_singleton.mp added
      exact proper
  have consumed : region.take (scan.offset + (parsedToken token).totalLen) = (tokens ++ [token]).flatMap Token.bytes := by
    rw [length, take_advance scanned.consumed next]
    simp
  refine ⟨token, ?_⟩
  unfold takeOption at taken
  split at taken
  next nop =>
    split at taken
    · cases taken
    cases taken
    cases (parsedToken_nop proper).mp nop
    have same : substantive (tokens ++ [.nop]) = substantive tokens := by simp [substantive]
    refine ⟨every, consumed, fits, scanned.inside, ?_, scanned.fixed, ?_, ?_⟩
    · rw [same]
      exact scanned.options
    · intro absent
      obtain ⟨limit, plain⟩ := scanned.whole absent
      refine ⟨limit, ?_⟩
      intro other member
      rcases List.mem_append.mp member with known | added
      · exact plain other known
      · cases List.mem_singleton.mp added
        decide
    · intro fields found
      obtain ⟨limit, has⟩ := scanned.frag fields found
      exact ⟨limit, has.append (by decide)⟩
  next several =>
  split at taken
  · cases taken
  next fixed =>
  have visible : substantive [token] = [token] := by
    simpa [substantive] using mt (parsedToken_nop proper).mpr several
  have options : scan.options ++ [parsedToken token] = (substantive (tokens ++ [token])).map parsedToken := by
    rw [substantive_append, visible, List.map_append, ← scanned.options]
    rfl
  have allFixed : ∀ option ∈ scan.options ++ [parsedToken token], FixedLength option := by
    intro option member
    rcases List.mem_append.mp member with known | added
    · exact scanned.fixed option known
    · cases List.mem_singleton.mp added
      exact fixedLength_iff.mpr fixed
  dsimp only at taken
  split at taken
  next kind =>
    obtain ⟨absent, fields, rfl, reads, room, inside⟩ := takeFrag_ok taken
    obtain ⟨_, plain⟩ := scanned.whole absent
    refine ⟨every, consumed, room, inside, options, allFixed, nofun, ?_⟩
    rintro _ ⟨⟩
    refine ⟨rfl, tokens, token, [], rfl, kind, ?_, reads⟩
    rw [List.append_nil]
    exact plain
  next kind =>
    cases taken
    refine ⟨every, consumed, fits, scanned.inside, options, allFixed, ?_, ?_⟩
    · intro absent
      obtain ⟨limit, plain⟩ := scanned.whole absent
      refine ⟨limit, ?_⟩
      intro other member
      rcases List.mem_append.mp member with known | added
      · exact plain other known
      · cases List.mem_singleton.mp added
        exact kind
    · intro fields found
      obtain ⟨limit, has⟩ := scanned.frag fields found
      exact ⟨limit, has.append kind⟩

/-- How the checker's loop ends: at the limit, or at an EOL in front of it. -/
structure ScanEnds (region : List UInt8) (final : Scan) : Prop where
  ending : (final.eolEnd = none ∧ final.limit = final.offset) ∨
    (final.eolEnd = some (final.offset + 1) ∧ final.offset < final.limit ∧ region[final.offset]? = some Kind.eol)

private theorem takeOption_eolEnd {option : ParsedOption} {after : Scan}
    (taken : takeOption packet padLen region scan option = .ok after) : after.eolEnd = scan.eolEnd := by
  unfold takeOption at taken
  split at taken
  · split at taken
    · cases taken
    · cases taken
      rfl
  split at taken
  · cases taken
  dsimp only at taken
  split at taken
  · obtain ⟨_, _, rfl, _⟩ := takeFrag_ok taken
    rfl
  · cases taken
    rfl

private theorem parseOption_kind {offset limit : Nat} {option : ParsedOption}
    (parsed : parseOption region offset limit = .ok (.ok option)) : region[offset]? = some option.kind := by
  unfold parseOption at parsed
  obtain ⟨kind, found, parsed⟩ := Checked.bind_eq_ok.mp parsed
  rw [index_eq_ok.mp found]
  split at parsed
  · cases parsed
    rfl
  split at parsed
  · cases parsed
  obtain ⟨length, _, parsed⟩ := Checked.bind_eq_ok.mp parsed
  split at parsed
  · split at parsed
    · cases parsed
    dsimp only at parsed
    split at parsed
    · cases parsed
    split at parsed
    · cases parsed
    · cases parsed
      rfl
  · dsimp only at parsed
    split at parsed
    · cases parsed
    split at parsed
    · cases parsed
    · cases parsed
      rfl

theorem Scanned.run {fuel : Nat} {final : Scan} (scanned : Scanned packet padLen region scan tokens)
    (running : scan.eolEnd = none) (scans : scanLoop packet padLen region fuel scan = .ok (.ok final)) :
    ∃ all, Scanned packet padLen region final all ∧ ScanEnds region final := by
  induction fuel generalizing scan tokens with
  | zero => cases scans
  | succ fuel ih =>
    rw [scanLoop] at scans
    split at scans
    next finished =>
      cases scans
      exact ⟨tokens, scanned, ⟨.inl ⟨running, Nat.le_antisymm finished scanned.ordered⟩⟩⟩
    next before =>
    obtain ⟨outcome, parsed, scans⟩ := Checked.bind_eq_ok.mp scans
    split at scans
    · cases scans
    next option =>
    split at scans
    next eol =>
      cases scans
      have byte := parseOption_kind parsed
      rw [eol] at byte
      refine ⟨tokens, ?_, ⟨.inr ⟨rfl, Nat.lt_of_not_le before, byte⟩⟩⟩
      exact ⟨scanned.proper, scanned.consumed, scanned.ordered, scanned.inside, scanned.options, scanned.fixed,
        scanned.whole, scanned.frag⟩
    next visible =>
    split at scans
    · cases scans
    next after taken =>
      obtain ⟨token, further⟩ := scanned.step (Nat.lt_of_not_le before) parsed visible taken
      exact ih further ((takeOption_eolEnd taken).trans running) scans

end

end UdpOptions.Proofs
