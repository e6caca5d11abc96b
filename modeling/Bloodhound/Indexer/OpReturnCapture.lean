import Bloodhound.Store.Addresses

/-!
# Router calls and OP_RETURN capture

A call through the router is one step that may fail; the state of the providers behind it
is not modelled. `captureOpReturnForTx` stores the OP_RETURN text of a transaction, and
with it creates the row of the transaction where there is none.
-/

namespace Bloodhound.Indexer

open Bloodhound.Chain Bloodhound.Store
open Journal.Op (query run mem step when)

/-- `router.withProvider`. -/
def withProvider {α : Type} (env : Env) (call : Provider → α) : StoreM α :=
  query fun _ => call env.provider

def fetchAddressTxPage (env : Env) (address : Address) (chainCursor : Option Txid) :
    StoreM (List ChainTxSummary) :=
  withProvider env fun p => chainCursor.elim (p.getAddressTxs address) (p.getAddressTxsChainPage address)

/-- `store.upsertTransaction`. -/
def upsertTransaction (data : TransactionUpsertData) : StoreM Unit := run (.transaction data)

/-- The row that tracing writes: no display. -/
def traceTransactionData (tx : ChainTxDetail) : TransactionUpsertData where
  txid := tx.txid
  blockHeight := tx.status.blockHeight
  blockTime := blockTimeIso tx.status
  feeSats := tx.fee

/-- `CaptureOpReturnOpts`. The budgets are those of the invocation; `budgeted` says whether they
were passed. -/
structure CaptureOpReturnOpts where
  allowGetTx : Bool := false
  budgeted : Bool := false
  jobSubreq : Bool := false
  guarded : Bool := false

def readBudget : StoreM ChainCallBudget := mem fun m => (m.budget, m)

def consumeBudget : StoreM Unit := mem fun m => ((), { m with budget := m.budget.consume })

def readCpuGuard : StoreM CpuGuard := mem fun m => (m.cpuGuard, m)

/-- May the capture fetch the transaction. -/
def canFetch (opts : CaptureOpReturnOpts) : StoreM Bool := do
  let budget ← readBudget
  let subreq ← canUseSubrequest
  let guard ← readCpuGuard
  pure (opts.allowGetTx && (!opts.budgeted || budget.canCall) && (!opts.jobSubreq || subreq) &&
    !(opts.guarded && guard.exceeded))

/-- Fetch a transaction for the capture, and count the call where a budget was passed. -/
def fetchForCapture (env : Env) (txid : Txid) (opts : CaptureOpReturnOpts) :
    StoreM ChainTxDetail := do
  let tx ← withProvider env (·.getTx txid)
  when opts.budgeted consumeBudget
  pure tx

/-- The transaction whose display is captured, and the number of chain calls for it. -/
def captureSource (env : Env) (txid : Txid) (given : Option ChainTxDetail)
    (opts : CaptureOpReturnOpts) : StoreM (Option ChainTxDetail × Nat) := do
  let fetch ← canFetch opts
  if (given.all fun tx => !txHasOpReturnScriptFields tx && opts.allowGetTx) && fetch then do
    let tx ← fetchForCapture env txid opts
    pure (some tx, 1)
  else pure (given, 0)

/-- The row that a capture writes over the existing one. -/
def captureTransactionData (env : Env) (txid : Txid) (existing : Option TransactionRow)
    (tx : ChainTxDetail) : TransactionUpsertData where
  txid := txid
  blockHeight := tx.status.blockHeight.or (existing.bind (·.blockHeight))
  blockTime := (existing.bind (·.blockTime)).or (blockTimeIso tx.status)
  feeSats := tx.fee.or (existing.bind (·.feeSats))
  opReturnDisplay := some (env.extractOpReturnDisplay tx)

/-- `captureOpReturnForTx`: the number of chain calls used. -/
def captureOpReturnForTx (env : Env) (txid : Txid) (given : Option ChainTxDetail)
    (opts : CaptureOpReturnOpts) : StoreM Nat := do
  let existing ← getTransaction txid
  if (existing.bind (·.opReturnDisplay)).isSome then pure 0
  else do
    let source ← captureSource env txid given opts
    Journal.Op.forEach source.1.toList fun tx =>
      upsertTransaction (captureTransactionData env txid existing tx)
    pure source.2

end Bloodhound.Indexer
