import UdpOptions.EvalCheck
import UdpOptions.Library.Json

/-! The comparison of a sender's manifest with a receiver's rows: the second half of
`scripts/eval-check.py`. The files are given as their records; what the reader of the
files raises about their text is left out. -/

namespace UdpOptions.EvalCheck
open Library

/-- What the comparison raises; the record numbers start with one. -/
inductive ArtifactError where
  | notUnsigned (field : String)
  | identificationMismatch
  | identificationNotNull
  | datagramCountMismatch
  | payloadHexNotString
  | payloadHexLength
  | payloadHexInvalid
  | payloadLenMismatch
  | payloadCrcMismatch
  | noManifestRecord
  | severalManifestRecords (scenario : Scenario)
  | atManifest (record : Nat) (error : ArtifactError)
  | noReceiverRecord
  | notTotalDrop
  | invalidDelivery (record : Nat) (value : Option Json)
  | receiverError (record : Nat)
  | atReceiver (record : Nat) (error : ArtifactError)
  | unexpectedPayload
  | missingPayload
  | nothingDelivered
  deriving DecidableEq, Repr

/-- `repr` of a field's value. -/
def pythonRepr : Option Json → String
  | none => "None"
  | some .null => "None"
  | some (.bool true) => "True"
  | some (.bool false) => "False"
  | some (.int value) => toString value
  | some (.str text) => "'" ++ text ++ "'"

def ArtifactError.message (manifestPath receiverPath : String) : ArtifactError → String
  | .notUnsigned field => "field '" ++ field ++ "' is not an unsigned integer"
  | .identificationMismatch => "manifest Identification does not match the captured FRAG sequence"
  | .identificationNotNull => "unfragmented manifest Identification must be null"
  | .datagramCountMismatch => "manifest datagram count does not match the sender capture"
  | .payloadHexNotString => "field 'payload_hex' is not a string"
  | .payloadHexLength => "payload_hex is not the canonical encoded payload length"
  | .payloadHexInvalid => "field 'payload_hex' is not valid hexadecimal"
  | .payloadLenMismatch => "payload_len does not match payload_hex"
  | .payloadCrcMismatch => "payload_crc32c does not match payload_hex"
  | .noManifestRecord => manifestPath ++ ": expected at least one JSONL record"
  | .severalManifestRecords scenario =>
    manifestPath ++ ": " ++ scenario.name ++ " scenario requires exactly one manifest record"
  | .atManifest record error =>
    manifestPath ++ ":" ++ toString record ++ ": " ++ error.message manifestPath receiverPath
  | .noReceiverRecord => receiverPath ++ ": expected at least one JSONL record"
  | .notTotalDrop => receiverPath ++ ": filter path was not a total drop"
  | .invalidDelivery record value =>
    receiverPath ++ ":" ++ toString record ++ ": invalid delivery value " ++ pythonRepr value
  | .receiverError record => receiverPath ++ ":" ++ toString record ++ ": receiver reported an error"
  | .atReceiver record error =>
    receiverPath ++ ":" ++ toString record ++ ": " ++ error.message manifestPath receiverPath
  | .unexpectedPayload => receiverPath ++ ": delivered payload is absent from sender manifest"
  | .missingPayload => receiverPath ++ ": sender payload was not delivered with matching length and CRC"
  | .nothingDelivered => receiverPath ++ ": no payload delivery was proven"

/-- The keyword arguments of the comparison. -/
structure ArtifactCheck where
  requireDelivery : Bool
  forbidReceiverRecords : Bool
  scenario : Option Scenario
  expectedIdentification : Option Nat
  expectedDatagrams : Option Nat
  deriving DecidableEq, Repr

structure ArtifactSummary where
  manifestRecords : Nat
  receiverRecords : Nat
  payloadRecords : Nat
  deriving DecidableEq, Repr

/-- The length and the CRC of a payload. -/
abbrev PayloadKey := Nat × Nat

/-- The default bound of an unsigned field. -/
def uintMax : Nat := 0xffffffff

def uint (maximum : Nat) (record : JsonRecord) (field : String) : Except ArtifactError Nat :=
  match record.get? field with
  | some (.int value) => if 0 ≤ value ∧ value ≤ maximum then .ok value.toNat else .error (.notUnsigned field)
  | _ => .error (.notUnsigned field)

def payloadKey (record : JsonRecord) : Except ArtifactError PayloadKey := do
  return (← uint uintMax record "payload_len", ← uint uintMax record "payload_crc32c")

section
variable (check : ArtifactCheck)

def checkIdentification (record : JsonRecord) : Except ArtifactError Unit :=
  match check.scenario with
  | none => .ok ()
  | some .frag =>
    match uint uintMax record "identification" with
    | .error error => .error error
    | .ok identification =>
      if check.expectedIdentification ≠ some identification then .error .identificationMismatch else .ok ()
  | some _ => if record.get? "identification" ≠ some .null then .error .identificationNotNull else .ok ()

def checkDatagrams (record : JsonRecord) : Except ArtifactError Unit :=
  if check.scenario.isNone then .ok () else
  match uint 0xffff record "datagrams" with
  | .error error => .error error
  | .ok datagrams => if check.expectedDatagrams ≠ some datagrams then .error .datagramCountMismatch else .ok ()

def manifestKey (record : JsonRecord) : Except ArtifactError PayloadKey := do
  let key ← payloadKey record
  checkIdentification check record
  checkDatagrams check record
  return key

/-- The keys of the manifest, from the given record number on. -/
def manifestKeys : Nat → List JsonRecord → Except ArtifactError (List PayloadKey)
  | _, [] => .ok []
  | number, record :: rest =>
    match manifestKey check record with
    | .error error => .error (.atManifest number error)
    | .ok key => (manifestKeys (number + 1) rest).map (key :: ·)

end

/-- The spaces that `bytes.fromhex` skips between two bytes. -/
def isSpace (c : Char) : Bool := c = ' ' ∨ c = '\t' ∨ c = '\n' ∨ c = '\x0b' ∨ c = '\x0c' ∨ c = '\r'

def hexDigit (c : Char) : Option Nat :=
  if '0' ≤ c ∧ c ≤ '9' then some (c.toNat - '0'.toNat)
  else if 'a' ≤ c ∧ c ≤ 'f' then some (c.toNat - 'a'.toNat + 10)
  else if 'A' ≤ c ∧ c ≤ 'F' then some (c.toNat - 'A'.toNat + 10)
  else none

/-- `bytes.fromhex`. -/
def fromHex : List Char → Option (List UInt8)
  | [] => some []
  | [c] => if isSpace c then some [] else none
  | c :: d :: rest =>
    if isSpace c then fromHex (d :: rest) else
    match hexDigit c, hexDigit d with
    | some high, some low => (fromHex rest).map (UInt8.ofNat (high * 16 + low) :: ·)
    | _, _ => none

section
variable (crc32c : List UInt8 → UInt32)

/-- The tests on the hexadecimal text of a payload. -/
def checkPayloadHex (record : JsonRecord) (key : PayloadKey) : Except ArtifactError Unit :=
  match record.get? "payload_hex" with
  | some (.str payloadHex) =>
    if payloadHex.length ≠ key.1 * 2 then .error .payloadHexLength else
    match fromHex payloadHex.toList with
    | none => .error .payloadHexInvalid
    | some payload =>
      if payload.length ≠ key.1 then .error .payloadLenMismatch
      else if (crc32c payload).toNat ≠ key.2 then .error .payloadCrcMismatch
      else .ok ()
  | _ => .error .payloadHexNotString

def deliveredKey (record : JsonRecord) : Except ArtifactError PayloadKey := do
  let key ← payloadKey record
  checkPayloadHex crc32c record key
  return key

/-- The keys of the payloads that the rows report, from the given record number on. -/
def deliveredKeys : Nat → List JsonRecord → Except ArtifactError (List PayloadKey)
  | _, [] => .ok []
  | number, record :: rest =>
    match record.get? "delivery" with
    | some (.str "payload") =>
      match deliveredKey crc32c record with
      | .error error => .error (.atReceiver number error)
      | .ok key => (deliveredKeys (number + 1) rest).map (key :: ·)
    | some (.str "buffered") => deliveredKeys (number + 1) rest
    | some (.str "dropped") => deliveredKeys (number + 1) rest
    | some (.str "error") => .error (.receiverError number)
    | value => .error (.invalidDelivery number value)

/-- The tests on the payloads as multisets; the difference of two counters is the
difference of the lists they count. -/
def compareKeys (requireDelivery : Bool) (expected delivered : List PayloadKey) : Except ArtifactError Unit :=
  if delivered.diff expected ≠ [] then .error .unexpectedPayload
  else if requireDelivery ∧ expected.diff delivered ≠ [] then .error .missingPayload
  else if requireDelivery ∧ delivered = [] then .error .nothingDelivered
  else .ok ()

def checkManifestCount (check : ArtifactCheck) (manifests : List JsonRecord) : Except ArtifactError Unit :=
  if manifests = [] then .error .noManifestRecord else
  match check.scenario with
  | none => .ok ()
  | some scenario => if manifests.length ≠ 1 then .error (.severalManifestRecords scenario) else .ok ()

def checkReceiverCount (check : ArtifactCheck) (receiver : List JsonRecord) : Except ArtifactError Unit :=
  if check.requireDelivery ∧ receiver = [] then .error .noReceiverRecord
  else if check.forbidReceiverRecords ∧ receiver ≠ [] then .error .notTotalDrop
  else .ok ()

def validateArtifactPair (check : ArtifactCheck) (manifests receiver : List JsonRecord) :
    Except ArtifactError ArtifactSummary := do
  checkManifestCount check manifests
  let expected ← manifestKeys check 1 manifests
  checkReceiverCount check receiver
  let delivered ← deliveredKeys crc32c 1 receiver
  compareKeys check.requireDelivery expected delivered
  return ⟨manifests.length, receiver.length, delivered.length⟩

inductive Topology where
  | veth
  | router
  | nat
  | filter
  deriving DecidableEq, Repr

def scenarios : List Scenario := [.baseline, .typed, .pad, .nearMtu, .frag]

/-- The artifacts of all scenarios of one run. -/
def validateRunArtifacts (topology : Topology) (fragmentIdentifications senderPacketCounts : List (Nat × Nat))
    (portBase : Nat) (files : Scenario → List JsonRecord × List JsonRecord) :
    Except ArtifactError (List (Scenario × ArtifactSummary)) :=
  (scenarios.zipIdx portBase).mapM fun (scenario, port) => do
    let check : ArtifactCheck := {
      requireDelivery := topology = .veth ∨ topology = .router
      forbidReceiverRecords := topology = .filter
      scenario := some scenario
      expectedIdentification := fragmentIdentifications.lookup port
      expectedDatagrams := senderPacketCounts.lookup port }
    return (scenario, ← validateArtifactPair crc32c check (files scenario).1 (files scenario).2)

end

end UdpOptions.EvalCheck
