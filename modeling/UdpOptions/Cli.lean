import UdpOptions.Api
import UdpOptions.Library.Utf8

/-! The sending tool: its wrapper around the builder, which reports the Identification
that a send used, and the reader of its hexadecimal arguments. `fromStrRadix16` and
`fromUtf8` stand for `u8::from_str_radix` and `str::from_utf8` as documented. -/

namespace UdpOptions
open Library Model

namespace Cli

def buildDatagramsForSend (crc32c : List UInt8 → UInt32) (addrs : Api.DatagramAddrs) (payload : List UInt8)
    (options : Api.SendOptions) (config : Api.SendConfig) (identifications : IdentificationGenerator) :
    Checked (Except SendError (List (List UInt8) × Option UInt32) × IdentificationGenerator) := do
  Checked.require (config.identification = none)
  match ← Api.buildOutgoingDatagrams crc32c addrs payload options config with
  | .error .fragmentIdentificationRequired =>
    match identifications.nextId with
    | (.error error, identifications) => return (.error (.split error), identifications)
    | (.ok identification, identifications) =>
      let config := { config with identification := some identification }
      match ← Api.buildOutgoingDatagrams crc32c addrs payload options config with
      | .error error => return (.error error, identifications)
      | .ok datagrams => return (.ok (datagrams, some identification), identifications)
  | .error error => return (.error error, identifications)
  | .ok datagrams => return (.ok (datagrams, none), identifications)

inductive CliError where
  | message (text : String)
  deriving DecidableEq, Repr

/-- `char::is_ascii_whitespace`: space, tab, line feed, form feed, and carriage return. -/
def isAsciiWhitespace (c : Char) : Bool := c = ' ' ∨ c = '\t' ∨ c = '\n' ∨ c = '\x0c' ∨ c = '\r'

/-- The characters that `parse_hex_vec` keeps. -/
def cleaned (input : String) : List Char :=
  input.toList.filter fun c => !isAsciiWhitespace c && c ≠ ':' && c ≠ '_'

/-- `char::to_digit` with radix 16. -/
def toDigit16 (c : Char) : Option Nat :=
  if '0' ≤ c ∧ c ≤ '9' then some (c.toNat - '0'.toNat)
  else if 'a' ≤ c ∧ c ≤ 'f' then some (c.toNat - 'a'.toNat + 10)
  else if 'A' ≤ c ∧ c ≤ 'F' then some (c.toNat - 'A'.toNat + 10)
  else none

def radixLoop (value : Nat) : List Char → Option UInt8
  | [] => some (UInt8.ofNat value)
  | c :: rest =>
    match toDigit16 c with
    | none => none
    | some digit => if value * 16 + digit < 256 then radixLoop (value * 16 + digit) rest else none

/-- `u8::from_str_radix` with radix 16: an optional plus sign, then digits only. -/
def fromStrRadix16 : List Char → Option UInt8
  | [] => none
  | ['+'] => none
  | '+' :: digits => radixLoop 0 digits
  | digits => radixLoop 0 digits

/-- The loop over the pairs of bytes; a remainder of one byte is not visited. -/
def hexLoop : List UInt8 → Checked (Except CliError (List UInt8))
  | first :: second :: rest => do
    let text ← Checked.expect (fromUtf8 [first, second])
    match fromStrRadix16 text with
    | none => return .error (.message ("invalid hex byte '" ++ String.ofList text ++ "'"))
    | some byte =>
      match ← hexLoop rest with
      | .error error => return .error error
      | .ok bytes => return .ok (byte :: bytes)
  | _ => return .ok []

def parseHexVec (input : String) : Checked (Except CliError (List UInt8)) :=
  let clean := utf8Bytes (cleaned input)
  if clean.length % 2 ≠ 0 then return .error (.message "hex input must contain an even number of digits")
  else hexLoop clean

/-- A lower-case digit, as the formatter writes it. -/
def lowerDigit (value : Nat) : Char :=
  if value < 10 then Char.ofNat ('0'.toNat + value) else Char.ofNat ('a'.toNat + (value - 10))

def hex (bytes : List UInt8) : List Char :=
  bytes.flatMap fun byte => [lowerDigit (byte.toNat / 16), lowerDigit (byte.toNat % 16)]

end Cli

end UdpOptions
