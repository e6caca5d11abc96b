import Bloodhound.Lib.Runs
import Bloodhound.Ops.RemoveHacker

/-!
# Operations on addresses

The routes by which addresses enter the table, change and leave it: the methods of the store, the
ingestion of an address from a source, and the operator's commands on hackers.
-/

namespace Bloodhound.Ops

open Indexer Store
open Journal.Op (query run when)

/-! ## Sources -/

/-- The row of an address that a source names as a hacker. -/
def sourceHacker (address : Address) (hackId : HackId) : AddressUpsertData where
  address := address
  role := some .hacker
  isFlaggedHacker := some true
  hackId := some hackId
  hopFromHacker := some (some 0)

/-- The backfill that follows a new flag. -/
def enqueueSourceBackfill (env : Env) (address : Address) : StoreM Unit := do
  let _ ← enqueueForTick env (.backfillHackerAddress { address }) JobPriority.backfillHacker
    { address := some address }
  pure ()

/-- `ingestSourceHacker`: a new row, or the promotion of a row that is not flagged. -/
def ingestSourceHacker (env : Env) (address : Address) (hackId : HackId) : StoreM Bool := do
  let inserted ← insertAddressIfMissing
    { sourceHacker address hackId with expandStatus := some .pending }
  if inserted then do
    enqueueSourceBackfill env address
    pure true
  else do
    let existing ← getAddress address
    if existing.any (·.isFlaggedHacker) then pure false
    else do
      upsertAddress (sourceHacker address hackId)
      enqueueSourceBackfill env address
      pure true

/-- `ingestSourceHackerIfMissing`: stored rows stay as they are. -/
def ingestSourceHackerIfMissing (env : Env) (address : Address) (hackId : HackId) : StoreM Bool := do
  let inserted ← insertAddressIfMissing
    { sourceHacker address hackId with expandStatus := some .pending }
  if inserted then do
    enqueueSourceBackfill env address
    pure true
  else pure false

/-! ## Runs -/

inductive AddressOp where
  | upsertAddress (data : AddressUpsertData)
  | upsertAddressesBatch (rows : List AddressUpsertData)
  | insertAddressIfMissing (data : AddressUpsertData)
  | setExpandStatus (address : Address) (status : ExpandStatus)
  | resetStuckExpandStatuses
  | recalcTotalReceived (hacker : Address)
  | deleteAddress (address : Address)
  | ingestSourceHacker (address : Address) (hackId : HackId)
  | ingestSourceHackerIfMissing (address : Address) (hackId : HackId)
  | addHacker (address : Address) (hackId : HackId)
  | removeHacker (address : Address) (pruneExclusive : Bool)

/-- The operation, without its result. -/
def AddressOp.run (env : Env) : AddressOp → StoreM Unit
  | .upsertAddress data => Store.upsertAddress data
  | .upsertAddressesBatch rows => Store.upsertAddressesBatch env rows
  | .insertAddressIfMissing data => do
    let _ ← Store.insertAddressIfMissing data
    pure ()
  | .setExpandStatus address status => Store.setExpandStatus address status
  | .resetStuckExpandStatuses => do
    let _ ← Store.resetStuckExpandStatuses
    pure ()
  | .recalcTotalReceived hacker => Store.recalcTotalReceived hacker
  | .deleteAddress address => Ops.deleteAddress address
  | .ingestSourceHacker address hackId => do
    let _ ← Ops.ingestSourceHacker env address hackId
    pure ()
  | .ingestSourceHackerIfMissing address hackId => do
    let _ ← Ops.ingestSourceHackerIfMissing env address hackId
    pure ()
  | .addHacker address hackId => do
    let _ ← Ops.addHacker env address hackId
    pure ()
  | .removeHacker address pruneExclusive => do
    let _ ← Ops.removeHacker address pruneExclusive
    pure ()

end Bloodhound.Ops
