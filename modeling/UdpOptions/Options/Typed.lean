import UdpOptions.Options.Parse

/-! The trait of the typed options. `encode` gives the bytes that the source
appends to its output: kind, length, and value. -/

namespace UdpOptions
open Library Model

class TypedOption (α : Type) where
  kind : OptionKind
  decode : List UInt8 → Except ParseError α
  encode : α → List UInt8

def writeHeader (kind : UInt8) (totalLen : Nat) : List UInt8 := [kind, UInt8.ofNat totalLen]

instance : TypedOption Apc where
  kind := .apc
  decode := Apc.decode
  encode option := writeHeader Kind.apc Length.apc ++ u32Be option.crc32c

instance : TypedOption Mds where
  kind := .mds
  decode := Mds.decode
  encode option := writeHeader Kind.mds Length.mds ++ u16Be option.maxDatagramSize

instance : TypedOption Mrds where
  kind := .mrds
  decode := Mrds.decode
  encode option := writeHeader Kind.mrds Length.mrds ++ u16Be option.maxReassembledSize ++ [option.maxSegments]

instance : TypedOption Req where
  kind := .req
  decode := Req.decode
  encode option := writeHeader Kind.req Length.req ++ option.token.toList

instance : TypedOption Res where
  kind := .res
  decode := Res.decode
  encode option := writeHeader Kind.res Length.res ++ option.token.toList

instance : TypedOption Frag where
  kind := .frag
  decode := Frag.decode
  encode option :=
    writeHeader Kind.frag (if option.rdos.isSome then Length.fragTerminal else Length.fragNonTerminal) ++
      u16Be option.fragStart ++ u32Be option.identification ++ u16Be option.fragOffset ++
      (match option.rdos with
        | some rdos => u16Be rdos
        | none => [])

end UdpOptions
