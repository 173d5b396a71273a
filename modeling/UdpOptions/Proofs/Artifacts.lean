import UdpOptions.Cli.Recv
import UdpOptions.EvalCheck.Artifacts
import UdpOptions.Library.Accounts
import UdpOptions.Proofs.HexInput

/-! The comparison of manifest and rows. On the records that the two tools write, the
checker accepts exactly if no row failed, the payloads of the rows are covered by the
payloads of the manifest, and, where delivery is required, cover them. -/

namespace UdpOptions.Proofs
open Library EvalCheck Cli

def keyOf (crc32c : List UInt8 → UInt32) (payload : List UInt8) : PayloadKey :=
  (payload.length, (crc32c payload).toNat)

def declaredKey (row : ManifestRow) : PayloadKey := (row.payloadLen, row.payloadCrc32c.toNat)

def payloadOf (row : RecvRow) : Option (List UInt8) :=
  match row.delivery with
  | .ok (.payload payload) => some payload.data
  | _ => none

section
variable {check : ArtifactCheck} {row : ManifestRow}

structure Declares (check : ArtifactCheck) (row : ManifestRow) : Prop where
  len : row.payloadLen ≤ uintMax
  fragmented : check.scenario = some .frag →
    ∃ identification, row.identification = some identification ∧
      check.expectedIdentification = some identification.toNat
  whole : ∀ scenario, check.scenario = some scenario → scenario ≠ .frag → row.identification = none
  counted : check.scenario ≠ none → row.datagrams ≤ 0xffff ∧ check.expectedDatagrams = some row.datagrams

end

section
variable {crc32c : List UInt8 → UInt32}

/-- What the checker asks of a manifest and the rows of a receiver. -/
structure Accepts (crc32c : List UInt8 → UInt32) (check : ArtifactCheck) (manifest : List ManifestRow)
    (rows : List RecvRow) : Prop where
  declared : manifest ≠ []
  single : check.scenario ≠ none → manifest.length = 1
  declares : ∀ row ∈ manifest, Declares check row
  forbidden : check.forbidReceiverRecords = true → rows = []
  sound : ∀ row ∈ rows, row.fails = false
  short : ∀ data ∈ rows.filterMap payloadOf, data.length ≤ uintMax
  covered : ((rows.filterMap payloadOf).map (keyOf crc32c)).Subperm (manifest.map declaredKey)
  complete : check.requireDelivery = true →
    ((rows.filterMap payloadOf).map (keyOf crc32c)).Perm (manifest.map declaredKey)

end

end UdpOptions.Proofs
