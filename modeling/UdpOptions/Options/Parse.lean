import UdpOptions.Options.Kind
import UdpOptions.Wire

/-! The zero-copy TLV iterator over the bytes after the OCS field, and the OCS
itself. A borrowed value keeps its address as an offset into the iterated bytes;
the empty value of EOL and NOP is a static slice and has none. -/

namespace UdpOptions
open Library Model

structure OptionRef where
  kind : OptionKind
  value : List UInt8
  /-- Offset of the value in the iterated bytes, when it points into them. -/
  valueAt : Option Nat
  deriving DecidableEq, Repr

structure OptionsIter where
  bytes : List UInt8
  pos : Nat
  done : Bool
  currentNopRun : Nat
  maxNopRun : Nat
  deriving DecidableEq, Repr

namespace OptionsIter

def new (optionsBytes : List UInt8) : OptionsIter := ⟨optionsBytes, 0, false, 0, 0⟩

abbrev Item := Except ParseError OptionRef

def fail (iter : OptionsIter) (error : ParseError) : Option Item × OptionsIter :=
  (some (.error error), { iter with done := true })

def valueSlice (iter : OptionsIter) (start headerLen totalLen : Nat) : Checked (List UInt8 × OptionsIter) := do
  let value ← Checked.slice iter.bytes (start + headerLen) (start + totalLen)
  return (value, { iter with pos := start + totalLen, currentNopRun := 0 })

/-- The TLV at `start`, whose framing has been tested to lie inside the area. -/
def yieldTlv (iter : OptionsIter) (start headerLen totalLen : Nat) (kind : OptionKind) :
    Checked (Option Item × OptionsIter) := do
  let (value, iter) ← iter.valueSlice start headerLen totalLen
  return (some (.ok ⟨kind, value, some (start + headerLen)⟩), iter)

def next (iter : OptionsIter) : Checked (Option Item × OptionsIter) := do
  if iter.done = true ∨ iter.bytes.length ≤ iter.pos then return (none, iter)
  let start := iter.pos
  let rawKind ← Checked.index iter.bytes start
  let optionKind := OptionKind.fromByte rawKind
  if rawKind = Kind.eol then
    return (some (.ok ⟨optionKind, [], none⟩), { iter with pos := iter.pos + 1, currentNopRun := 0, done := true })
  if rawKind = Kind.nop then
    let run := iter.currentNopRun + 1
    return (some (.ok ⟨optionKind, [], none⟩),
      { iter with pos := iter.pos + 1, currentNopRun := run, maxNopRun := max iter.maxNopRun run })
  match iter.bytes[start + 1]? with
  | none => return iter.fail (.overrun start)
  | some lenByte =>
    if lenByte = Kind.extendedLengthMarker then
      if iter.bytes.length < start + 4 then return iter.fail (.overrun start)
      let high ← Checked.index iter.bytes (start + 2)
      let low ← Checked.index iter.bytes (start + 3)
      let totalLen := (u16OfBe high low).toNat
      if totalLen < Kind.extendedLengthMarker.toNat then return iter.fail (.invalidLength rawKind totalLen)
      if iter.bytes.length < start + totalLen then return iter.fail (.overrun start)
      iter.yieldTlv start 4 totalLen optionKind
    else
      let totalLen := lenByte.toNat
      if totalLen < 2 then return iter.fail (.invalidLength rawKind totalLen)
      if iter.bytes.length < start + totalLen then return iter.fail (.overrun start)
      iter.yieldTlv start 2 totalLen optionKind

/-- Everything the iterator yields, in order, and its last state. The iterator
has no effect besides its own state, so a loop that stops early reads a front
part of this list. -/
def drain : Nat → OptionsIter → Checked (List Item × OptionsIter)
  | 0, _ => .error .diverged
  | fuel + 1, iter => do
    match ← iter.next with
    | (none, iter) => return ([], iter)
    | (some item, iter) =>
      let (rest, iter) ← drain fuel iter
      return (item :: rest, iter)

/-- The items of a fresh iterator: it yields at most one item for each byte. -/
def items (optionsBytes : List UInt8) : Checked (List Item) := do
  let (items, _) ← (new optionsBytes).drain (optionsBytes.length + 1)
  return items

end OptionsIter

/-- What the OCS field itself tells about the surplus area. -/
inductive OcsCheck where
  | valid
  | unused
  | ignoreOptions
  | error (error : ParseError)
  deriving DecidableEq, Repr

namespace Ocs

/-- The value `compute` stores: the complemented sum, with zero sent as all ones. -/
def fieldValue (zeroed : List UInt8) (surplusLen : UInt16) : UInt16 :=
  let ocs := ((Checksum.new.addSlice zeroed).addU16 surplusLen).finish
  if ocs = 0 then 0xffff else ocs

/-- Back-patch the OCS into an OCS-led body. -/
def compute (body : List UInt8) (surplusLen : UInt16) : Checked (List UInt8) := do
  Checked.require (Length.ocs ≤ body.length)
  let zeroed ← Checked.copyInto body 0 Length.ocs [0, 0]
  Checked.copyInto zeroed 0 Length.ocs (u16Be (fieldValue zeroed surplusLen))

def validate (body : List UInt8) (surplusLen udpChecksumField : UInt16) : OcsCheck :=
  match body with
  | high :: low :: _ =>
    if u16OfBe high low = 0 then
      if udpChecksumField = 0 then .unused else .ignoreOptions
    else if ((Checksum.new.addSlice body).addU16 surplusLen).folded = 0xffff then .valid
    else .error .ocsMismatch
  | _ => .error (.overrun 0)

def checkPad (pad : UInt8) (needsPad : Bool) : Except ParseError Unit :=
  if needsPad ∧ pad ≠ 0 then .error .nonZeroPad else .ok ()

end Ocs

end UdpOptions
