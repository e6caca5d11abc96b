import Mathlib.Data.Rat.Defs
import Mathlib.Data.List.Infix
import Mathlib.Algebra.Order.Ring.Rat

/-!
# Chain data

Transactions as the block explorers return them, the provider behind the router, and the
configuration of the indexer. An address or a transaction id that the code tests for
truth is a nonempty string, so both are strings that carry that fact; an absent or empty
one is `none`.
-/

namespace Bloodhound

/-- A nonempty string. -/
abbrev Name : Type := { s : String // s ≠ "" }

abbrev Address : Type := Name
abbrev Txid : Type := Name

instance instLawfulBEqName : LawfulBEq Name := inferInstance

/-- An address or transaction id given as a literal. -/
-- the proof is a constant, so that no definition that has a literal gets a lemma for it
def name (s : String) (h : decide (s = "") = false := by exact @rfl Bool false) : Name :=
  ⟨s, of_decide_eq_false h⟩

namespace Chain

structure Prevout where
  scriptpubkeyAddress : Option Address
  value : Option Int
  deriving DecidableEq

structure ChainTxVin where
  prevout : Option Prevout
  isCoinbase : Bool := false
  deriving DecidableEq

structure ChainTxVout where
  scriptpubkeyAddress : Option Address
  value : Option Int
  scriptpubkeyType : Option String := none
  scriptpubkeyAsm : Option String := none
  scriptpubkey : Option String := none
  deriving DecidableEq

structure TxStatus where
  blockHeight : Option Nat := none
  blockTime : Option Nat := none
  deriving DecidableEq

/-- An entry of an address page; `vin` and `vout` may be missing there. -/
structure ChainTxSummary where
  txid : Txid
  status : TxStatus := {}
  fee : Option Int := none
  vin : Option (List ChainTxVin) := none
  vout : Option (List ChainTxVout) := none
  deriving DecidableEq

structure ChainTxDetail where
  txid : Txid
  status : TxStatus := {}
  fee : Option Int := none
  vin : List ChainTxVin
  vout : List ChainTxVout
  deriving DecidableEq

/-- A detail read as a summary. -/
def ChainTxDetail.toSummary (tx : ChainTxDetail) : ChainTxSummary :=
  { txid := tx.txid, status := tx.status, fee := tx.fee, vin := some tx.vin, vout := some tx.vout }

/-- The totals of an address that polls look at. -/
structure ChainAddressStats where
  spentTxoSum : Int
  mempoolSpentTxoSum : Int := 0
  txCount : Nat
  mempoolTxCount : Nat := 0
  deriving DecidableEq

/-- What the explorers answer. -/
structure Provider where
  getAddressTxs : Address → List ChainTxSummary
  getAddressTxsChainPage : Address → Txid → List ChainTxSummary
  getTx : Txid → ChainTxDetail
  getAddressStats : Address → ChainAddressStats

/-- The provider of a chain with the given transactions, none of them paged. -/
def Provider.ofTxs (txs : List ChainTxDetail) : Provider where
  getAddressTxs _ := []
  getAddressTxsChainPage _ _ := []
  getTx txid := (txs.find? (·.txid = txid)).getD { txid, vin := [], vout := [] }
  getAddressStats _ := { spentTxoSum := 0, txCount := 0 }

/-- `blockTimeIso`: a block time of zero counts as none. -/
def blockTimeIso (status : TxStatus) : Option Nat :=
  status.blockTime.filter (0 < ·)

def txInvolvesSpend (tx : ChainTxDetail) (address : Address) : Bool :=
  tx.vin.any fun i => (i.prevout.bind (·.scriptpubkeyAddress)) = some address

/-- `opReturnAsm`: the assembly of an output mentions OP_RETURN, in any case. -/
def asmHasOpReturn (v : ChainTxVout) : Bool :=
  match v.scriptpubkeyAsm with
  | some asm => decide ("OP_RETURN".toList <:+: asm.toUpper.toList)
  | none => false

def voutIsOpReturn (v : ChainTxVout) : Bool :=
  v.scriptpubkeyType = some "op_return" || v.scriptpubkeyType = some "nulldata" ||
    asmHasOpReturn v

def txHasOpReturnScriptFields (tx : ChainTxDetail) : Bool :=
  tx.vout.any fun v =>
    voutIsOpReturn v || (v.scriptpubkey.any fun s => decide ("6a".toList <+: s.toList))

end Chain

/-- The settings that the modelled functions read. Counts of zero stand for no limit where
the code treats them so. -/
structure AppConfig where
  maxCrawlDepth : Nat := 5
  minExpandSats : Int := 100000
  minVictimIngestSats : Int := 100000
  backfillTxsPerJob : Nat := 5
  maxChainCallsPerJob : Nat := 0
  backfillMaxTxs : Nat := 10000
  maxEdgesPerJob : Nat := 0
  maxGraphEdgesPerTx : Nat := 0
  sweepRelayMinReceiveRatio : ℚ := 7 / 10
  sweepRelayMinVoutCount : ℚ := 20
  sweepRelayMinSpendTargetShare : ℚ := 8 / 10
  spendFanoutMinVoutCount : Nat := 20
  spendFanoutMinOutputAddresses : Nat := 10
  spendFanoutTopK : Nat := 5
  backfillSkipReceivesPerJob : Nat := 25
  traceFlaggedHackerReceives : Bool := true
  maxVoutCountSkipGetTx : Nat := 20
  rateLimitMs : Nat := 8000
  apiThresholdBaseSec : Nat := 300
  jobDeferAfterAttempts : Nat := 20
  jobDeferSec : Nat := 86400
  indexerRebuildMode : Bool := false
  queueSoftThrottleDepth : Nat := 80
  cronIntervalSec : Nat := 60
  balanceRefreshIntervalSec : Nat := 300
  backfillHealAuditIntervalSec : Nat := 86400
  coldcardwatchSyncIntervalSec : Nat := 3600
  vercelTrackersSyncIntervalSec : Nat := 3600
  bitqueryColdcardSyncIntervalSec : Nat := 3600
  hackerMaintenanceEveryNCrons : Nat := 10
  opReturnBackfillEveryNCrons : Nat := 10
  crawlEnqueuePerCron : Nat := 3

end Bloodhound
