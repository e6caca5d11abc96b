import Bloodhound.Lib.Search
import Bloodhound.Indexer.Crawl
import Bloodhound.Store.EdgeOps

/-!
# Adding and removing hackers

`addHacker` and `removeHacker` of `ops/hackers.ts`. A removal unflags the hacker, cancels its jobs
and deletes its edges; then it prunes the victims and the downstream addresses that it takes to be
the hacker's alone. Of the report of a removal the numbers of deleted jobs and edges are left out.
-/

namespace Bloodhound.Ops

open Indexer Store
open Journal.Op (query run when bounded)

/-! ## Reads -/

def listVictimAddressesForHacker (hacker : Address) : StoreM (List Address) :=
  query fun db => ((db.edges.entries.filter fun e =>
    e.1.toAddress = hacker && e.2.direction = .inToHacker).map (·.1.fromAddress)).dedup

/-- The targets of the out-edges of an address. -/
def outTargets (edges : Table.Rows EdgeKey EdgeRow) (a : Address) : List Address :=
  (edges.entries.filter fun e => e.1.fromAddress = a && e.2.direction = .outFromHacker).map
    (·.1.toAddress)

def collectLoop : Nat → List Address → List Address → StoreM (List Address)
  | 0, _, seen => pure seen
  | _ + 1, [], seen => pure seen
  | rounds + 1, cur :: queue, seen => do
    let outs ← query fun db => outTargets db.edges cur
    collectLoop rounds (queue ++ Search.fresh seen outs) (seen ++ Search.fresh seen outs)

/-- `collectDownstreamAddresses`: each round takes one address from the queue, and every address
in it is the target of an edge. -/
def collectDownstreamAddresses (hacker : Address) : StoreM (List Address) := do
  let seen ← bounded fun db => collectLoop (db.edges.entries.length + 1) [hacker] [hacker]
  pure (seen.filter (· ≠ hacker))

def isFlagged (db : Db) (a : Address) : Bool := (db.addresses.lookup a).any (·.isFlaggedHacker)

def countInToHackerEdgesToOtherFlagged (victim excludeHacker : Address) : StoreM Nat :=
  query fun db => db.edges.entries.countP fun e =>
    e.1.fromAddress = victim && e.2.direction = .inToHacker && isFlagged db e.1.toAddress &&
      e.1.toAddress ≠ excludeHacker

/-- The other end of an edge that touches the address. -/
def otherEnd (address : Address) (k : EdgeKey) : Address :=
  if k.fromAddress = address then k.toAddress else k.fromAddress

def anyOtherFlagged (address excludeHacker : Address) : List EdgeKey → StoreM Bool
  | [] => pure false
  | k :: rest =>
    if otherEnd address k = excludeHacker ∨ otherEnd address k = address then
      anyOtherFlagged address excludeHacker rest
    else do
      let row ← getAddress (otherEnd address k)
      if row.any (·.isFlaggedHacker) then pure true else anyOtherFlagged address excludeHacker rest

def edgeKeysFrom (edges : Table.Rows EdgeKey EdgeRow) (a : Address) : List EdgeKey :=
  (edges.entries.map (·.1)).filter (·.fromAddress = a)

def edgeKeysTo (edges : Table.Rows EdgeKey EdgeRow) (a : Address) : List EdgeKey :=
  (edges.entries.map (·.1)).filter (·.toAddress = a)

def hasEdgeWithOtherFlaggedHacker (address excludeHacker : Address) : StoreM Bool := do
  let fromKeys ← query fun db => edgeKeysFrom db.edges address
  let toKeys ← query fun db => edgeKeysTo db.edges address
  anyOtherFlagged address excludeHacker (fromKeys ++ toKeys)

def hasOutFromHackerInboundOutside (address : Address) (candidates : List Address)
    (excludeHacker : Address) : StoreM Bool :=
  query fun db => db.edges.entries.any fun e =>
    e.1.toAddress = address && e.2.direction = .outFromHacker &&
      e.1.fromAddress ≠ excludeHacker && e.1.fromAddress ∉ candidates

def deleteAddress (address : Address) : StoreM Unit := do
  run (.deleteSyncState address)
  run (.address (.delete address))

/-! ## The operations -/

structure AddHackerResult where
  enqueuedBackfill : Bool
  deriving DecidableEq

def addHacker (env : Env) (address : Address) (hackId : HackId) : StoreM AddHackerResult := do
  upsertAddress
    { address
      role := some .hacker
      isFlaggedHacker := some true
      hopFromHacker := some (some 0)
      hackId := some hackId }
  let jobId ← enqueueForTick env (.backfillHackerAddress { address }) JobPriority.backfillHacker
    { address := some address, bypassQueueCap := true }
  pure ⟨jobId.isSome⟩

/-- Delete an address with its edges. -/
def prune (address : Address) : StoreM Unit := do
  deleteEdgesTouchingAddress address
  deleteAddress address

/-- The loop over the victims; the pruned addresses, the last first. -/
def pruneVictims (hacker : Address) : List Address → List Address → StoreM (List Address)
  | [], pruned => pure pruned
  | victim :: rest, pruned =>
    if victim = hacker ∨ victim ∈ pruned then pruneVictims hacker rest pruned
    else do
      let otherLinks ← countInToHackerEdgesToOtherFlagged victim hacker
      if 0 < otherLinks then pruneVictims hacker rest pruned
      else do
        let row ← getAddress victim
        if row.all (·.isFlaggedHacker) then pruneVictims hacker rest pruned
        else do
          prune victim
          pruneVictims hacker rest (victim :: pruned)

/-- The loop over the downstream addresses. -/
def pruneDownstream (hacker : Address) (candidates : List Address) :
    List Address → List Address → StoreM (List Address)
  | [], pruned => pure pruned
  | candidate :: rest, pruned =>
    if candidate = hacker ∨ candidate ∈ pruned then pruneDownstream hacker candidates rest pruned
    else do
      let row ← getAddress candidate
      if row.all (·.isFlaggedHacker) then pruneDownstream hacker candidates rest pruned
      else do
        let linked ← hasEdgeWithOtherFlaggedHacker candidate hacker
        if linked then pruneDownstream hacker candidates rest pruned
        else do
          let outside ← hasOutFromHackerInboundOutside candidate candidates hacker
          if outside then pruneDownstream hacker candidates rest pruned
          else do
            prune candidate
            pruneDownstream hacker candidates rest (candidate :: pruned)

structure RemoveHackerResult where
  unflagged : Bool := false
  victimsPruned : Nat := 0
  downstreamPruned : Nat := 0
  deriving DecidableEq

/-- The removal of a flagged hacker. -/
def removeFlagged (address : Address) (pruneExclusive : Bool) : StoreM RemoveHackerResult := do
  let victims ← if pruneExclusive then listVictimAddressesForHacker address else pure []
  let downstream ← if pruneExclusive then collectDownstreamAddresses address else pure []
  upsertAddress { address, isFlaggedHacker := some false }
  deleteActiveJobsForAddress address
  if pruneExclusive then do
    deleteEdgesTouchingAddress address
    let prunedVictims ← pruneVictims address victims []
    let pruned ← pruneDownstream address downstream downstream prunedVictims
    pure
      { unflagged := true
        victimsPruned := prunedVictims.length
        downstreamPruned := pruned.length - prunedVictims.length }
  else pure { unflagged := true }

def removeHacker (address : Address) (pruneExclusive : Bool) : StoreM RemoveHackerResult := do
  let existing ← getAddress address
  if existing.any (·.isFlaggedHacker) then removeFlagged address pruneExclusive else pure {}

/-! ## What the pruning writes -/

/-- The statements by which edges and addresses are deleted. -/
def PruneStmt : Stmt → Prop
  | .edge (.deleteTouching _) | .deleteSyncState _ => True
  | .address (.setInboundSats _ _) | .address (.delete _) => True
  | _ => False

section Emits

open Journal Journal.Op

theorem prunes_deleteEdges (a : Address) : (deleteEdgesTouchingAddress a).Emits PruneStmt :=
  (emits_query _).bind fun _ => (emits_run trivial).bind fun _ => emits_forEach fun _ _ =>
    (emits_query _).bind fun _ => emits_run trivial

theorem prunes_prune (a : Address) : (prune a).Emits PruneStmt :=
  (prunes_deleteEdges a).bind fun _ => (emits_run trivial).bind fun _ => emits_run trivial

theorem prunes_pruneVictims (hacker : Address) (victims pruned : List Address) :
    (pruneVictims hacker victims pruned).Emits PruneStmt := by
  induction victims generalizing pruned with
  | nil => exact emits_pure _
  | cons victim rest ih =>
    unfold pruneVictims
    split
    · exact ih _
    refine (emits_query _).bind fun links => ?_
    split
    · exact ih _
    refine (emits_query _).bind fun row => ?_
    split
    · exact ih _
    · exact (prunes_prune victim).bind fun _ => ih _

theorem emits_anyOtherFlagged {S : Stmt → Prop} (a hacker : Address) (keys : List EdgeKey) :
    (anyOtherFlagged a hacker keys).Emits S := by
  induction keys with
  | nil => exact emits_pure _
  | cons k rest ih =>
    unfold anyOtherFlagged
    split
    · exact ih
    refine (emits_query _).bind fun row => ?_
    split
    · exact emits_pure _
    · exact ih

theorem prunes_pruneDownstream (hacker : Address) (candidates downstream pruned : List Address) :
    (pruneDownstream hacker candidates downstream pruned).Emits PruneStmt := by
  induction downstream generalizing pruned with
  | nil => exact emits_pure _
  | cons candidate rest ih =>
    unfold pruneDownstream
    split
    · exact ih _
    refine (emits_query _).bind fun row => ?_
    split
    · exact ih _
    refine Emits.bind ((emits_query _).bind fun froms => (emits_query _).bind fun tos =>
      emits_anyOtherFlagged _ _ _) fun linked => ?_
    split
    · exact ih _
    refine (emits_query _).bind fun outside => ?_
    split
    · exact ih _
    · exact (prunes_prune candidate).bind fun _ => ih _

theorem emits_collectLoop {S : Stmt → Prop} (rounds : Nat) (queue seen : List Address) :
    (collectLoop rounds queue seen).Emits S := by
  induction rounds generalizing queue seen with
  | zero => exact emits_pure _
  | succ rounds ih =>
    cases queue with
    | nil => exact emits_pure _
    | cons cur queue => exact (emits_query _).bind fun outs => ih _ _

theorem emits_collectDownstreamAddresses {S : Stmt → Prop} (hacker : Address) :
    (collectDownstreamAddresses hacker).Emits S :=
  Emits.bind (fun s c => emits_collectLoop _ _ _ s c) fun _ => emits_pure _

end Emits

end Bloodhound.Ops
