import UdpOptions.Options.Kind
import Mathlib.Data.List.Sort

/-! The canonical serializer: a zero OCS placeholder, the options in canonical
order with NOP alignment, EOL, and zero fill to an even length. -/

namespace UdpOptions
open Library Model

namespace Serialize

def defaultValueLenMax : Nat := 252
def extendedValueLenMax : Nat := 65535 - 4
def bodyLenMax : Nat := 65535 - 1

def isOutOfScopeAssignedSafeKind (kind : UInt8) : Bool :=
  kind = Kind.time ∨ kind = Kind.auth ∨ kind = Kind.exp ∨ (Kind.safeReservedMin ≤ kind ∧ kind ≤ Kind.safeReservedMax)

def fixedValueLens (kind : UInt8) : List Nat :=
  if kind = Kind.apc then [Length.apc - 2]
  else if kind = Kind.frag then [Length.fragNonTerminal - 2, Length.fragTerminal - 2]
  else if kind = Kind.mds then [Length.mds - 2]
  else if kind = Kind.mrds then [Length.mrds - 2]
  else if kind = Kind.req then [Length.req - 2]
  else if kind = Kind.res then [Length.res - 2]
  else []

def validateFixedValueLen (kind : UInt8) (valueLen : Nat) : Except SerializeError Unit :=
  let expected := fixedValueLens kind
  if expected.isEmpty ∨ valueLen ∈ expected then .ok () else .error (.invalidFixedValueLength kind valueLen)

def validateOption (option : RawOption) : Except SerializeError Unit :=
  let rawKind := option.kind.toByte
  if rawKind = Kind.eol ∨ rawKind = Kind.nop then .error (.reservedKind rawKind)
  else if Kind.unsafeMin ≤ rawKind then .error (.unsafeKind rawKind)
  else if isOutOfScopeAssignedSafeKind rawKind then .error (.unsupportedAssignedKind rawKind)
  else if extendedValueLenMax < option.value.length then
    .error (.valueTooLong rawKind option.value.length extendedValueLenMax)
  else validateFixedValueLen rawKind option.value.length

/-- The validation loop: every option on its own, and at most one FRAG. -/
def validateFrom (seenFrag : Bool) : List RawOption → Except SerializeError Unit
  | [] => .ok ()
  | option :: rest =>
    match validateOption option with
    | .error error => .error error
    | .ok () =>
      if option.kind.toByte = Kind.frag then
        if seenFrag then .error .duplicateFrag else validateFrom true rest
      else validateFrom seenFrag rest

def validatedOptions (options : List RawOption) : Except SerializeError (List RawOption) :=
  match validateFrom false options with
  | .error error => .error error
  | .ok () => .ok options

def patchFragStart (options : List RawOption) (bodyLen : Nat) : Except SerializeError (List RawOption) :=
  let start := Length.udpHeader + bodyLen
  match tryU16 start with
  | none => .error (.fragmentStartTooLarge start 65535)
  | some start =>
    .ok (options.map fun option =>
      if option.kind.toByte = Kind.frag then { option with value := u16Be start ++ option.value.drop 2 } else option)

def canonicalRank (kind : UInt8) : Nat × Nat :=
  if kind = Kind.frag then (0, kind.toNat)
  else if kind = Kind.apc then (1, kind.toNat)
  else if kind = Kind.mds then (2, kind.toNat)
  else if kind = Kind.mrds then (3, kind.toNat)
  else if kind = Kind.req then (4, kind.toNat)
  else if kind = Kind.res then (5, kind.toNat)
  else (1000 + kind.toNat, kind.toNat)

/-- Tuple order on canonical ranks. -/
def rankLe (first second : RawOption) : Prop :=
  let a := canonicalRank first.kind.toByte
  let b := canonicalRank second.kind.toByte
  a.1 < b.1 ∨ (a.1 = b.1 ∧ a.2 ≤ b.2)

instance : DecidableRel rankLe := fun _ _ => inferInstanceAs (Decidable (_ ∨ _ ∧ _))

/-- The stable sort by canonical rank. -/
def sortByRank (options : List RawOption) : List RawOption := options.insertionSort rankLe

def encodedLen (valueLen : Nat) : Nat := if valueLen ≤ defaultValueLenMax then valueLen + 2 else valueLen + 4

def checkedBodyAdd (current add : Nat) : Except SerializeError Nat :=
  match checkedAdd current add with
  | none => .error (.bodyTooLong (2 ^ 64 - 1) bodyLenMax)
  | some len => if bodyLenMax < len then .error (.bodyTooLong len bodyLenMax) else .ok len

/-- One step to an even length, if needed. -/
def alignLen (len : Nat) : Except SerializeError Nat :=
  if len % 2 = 1 then checkedBodyAdd len 1 else .ok len

def bodyLenFrom (len : Nat) : List RawOption → Except SerializeError Nat
  | [] => do
    let len ← checkedBodyAdd len 1
    alignLen len
  | option :: rest => do
    let len ← alignLen len
    let len ← checkedBodyAdd len (encodedLen option.value.length)
    bodyLenFrom len rest

def serializedBodyLen (options : List RawOption) : Except SerializeError Nat := bodyLenFrom Length.ocs options

/-- The bytes `encode_option` appends. -/
def encodeOption (option : RawOption) : Except SerializeError (List UInt8) :=
  let rawKind := option.kind.toByte
  let valueLen := option.value.length
  if valueLen ≤ defaultValueLenMax then .ok ([rawKind, UInt8.ofNat (valueLen + 2)] ++ option.value)
  else
    let totalLen := valueLen + 4
    if 65535 < totalLen then .error (.valueTooLong rawKind valueLen extendedValueLenMax)
    else .ok ([rawKind, Kind.extendedLengthMarker] ++ u16Be (UInt16.ofNat totalLen) ++ option.value)

def emitFrom (out : List UInt8) : List RawOption → Except SerializeError (List UInt8)
  | [] =>
    let out := out ++ [Kind.eol]
    .ok (if out.length % 2 = 1 then out ++ [0] else out)
  | option :: rest => do
    let out := if out.length % 2 = 1 then out ++ [Kind.nop] else out
    let encoded ← encodeOption option
    emitFrom (out ++ encoded) rest

/-- `OptionsBuilder::finish` on the collected options. -/
def finish (options : List RawOption) : Except SerializeError (List UInt8) := do
  let options ← validatedOptions options
  let options := sortByRank options
  let bodyLen ← serializedBodyLen options
  let options ← patchFragStart options bodyLen
  emitFrom [0, 0] options

end Serialize

end UdpOptions
