import Bloodhound.Store.Addresses

/-!
# Poll and backfill states

The operations of `store.ts` on rows of `sync_state`: the cursor and the time of the last poll of
an address, and the state of its backfill.
-/

namespace Bloodhound.Store

open Indexer (BackfillPayload)
open Journal.Op (query run when)

/-! ## Polls -/

/-- What a poll records; absent fields are not provided. -/
structure SyncPollData where
  lastSeenTxid : Option Txid := none
  lastBlockHeight : Option Nat := none
  lastObservedTxCount : Option Nat := none

/-- The row after a poll; a poll without data moves the time only. -/
def recordedSync (existing : Option SyncStateRow) (data : Option SyncPollData) (ts : Nat) :
    SyncStateRow :=
  let row := existing.getD {}
  { row with
    lastSeenTxid := (data.bind (·.lastSeenTxid)).or row.lastSeenTxid
    lastBlockHeight := (data.bind (·.lastBlockHeight)).or row.lastBlockHeight
    lastPolledAt := some ts
    lastObservedTxCount := (data.bind (·.lastObservedTxCount)).or row.lastObservedTxCount }

/-- The address counts as due for a poll. -/
def wasPollDue (addr : Option AddressRow) (existing : Option SyncStateRow) (state : SchedulerState)
    (nowMs : Nat) : Bool :=
  0 < state.downstreamTreeMaxDepth && 0 < state.downstreamPollIntervalSec &&
    addr.any (·.pollEligible state.downstreamTreeMaxDepth state.downstreamPollMinExpandSats) &&
    pollCountsAsDue existing state.downstreamPollIntervalSec nowMs

def recordSyncPoll (address : Address) (data : Option SyncPollData) : StoreM Unit := do
  let addr ← getAddress address
  let existing ← getSyncState address
  let state ← getSchedulerState
  let nowMs ← now
  let ts ← now
  run (.syncState address (recordedSync existing data ts))
  when (wasPollDue addr existing state nowMs)
    (adjustPollDueOrMarkDirty (-1) state.downstreamTreeMaxDepth state.downstreamPollIntervalSec
      state.downstreamPollMinExpandSats)

def upsertSyncState (address : Address) (data : SyncPollData) : StoreM Unit :=
  recordSyncPoll address (some data)

def touchSyncPoll (address : Address) (data : Option SyncPollData) : StoreM Unit :=
  recordSyncPoll address data

/-! ## Backfill states -/

/-- The payload of a backfill that stopped before its end. -/
def getBackfillPayload (address : Address) : StoreM (Option BackfillPayload) := do
  let row ← getSyncState address
  pure (row.bind (·.backfillState))

/-- The row after `upsertBackfillState`; a backfill that is not complete keeps its payload where no
other is given. -/
def backfilledSync (existing : Option SyncStateRow) (payload : Option BackfillPayload)
    (complete : Bool) : SyncStateRow :=
  let row := existing.getD {}
  { row with
    backfillState := if complete then none else payload.or row.backfillState
    backfillComplete := complete }

def upsertBackfillState (address : Address) (payload : Option BackfillPayload) (complete : Bool) :
    StoreM Unit := do
  let existing ← getSyncState address
  run (.syncState address (backfilledSync existing payload complete))

end Bloodhound.Store
