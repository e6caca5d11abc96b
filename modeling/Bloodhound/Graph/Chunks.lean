import Bloodhound.Graph.Computed
import Bloodhound.Graph.TraceCore
import Bloodhound.Store.Totals
import Bloodhound.Store.EdgeRows

/-!
# Sequences of chunks

A trace is what the calls of `applyHackTraceEdgesChunk` for one transaction share: the
transaction, the hackers and the spender its list is computed from, and the floors. A call
applies the list from an index on, with a cap of its own on the number of edges; from an
index above zero the payload has the list but no victims.
-/

namespace Bloodhound.Graph

open Bloodhound.Chain Bloodhound.Store Bloodhound.Indexer
open Journal Journal.Op

structure Trace where
  tx : ChainTxDetail
  hackers : List Address
  spending : Option Spender := none
  maxGraphEdgesPerTx : Option Nat := none
  minExpandSats : Int := 100000
  minVictimIngestSats : Int := 100000

namespace Trace

def edges (t : Trace) : HackTraceEdges :=
  computeHackTraceEdges t.tx t.hackers t.spending t.maxGraphEdgesPerTx

def flat (t : Trace) : List HackTraceEdgeDraft := flattenHackTraceEdges t.edges

def applyMeta (t : Trace) : HackTraceApplyMeta := ⟨t.tx.txid, blockTimeIso t.tx.status⟩

/-- The list as a call from an index receives it. -/
def input (t : Trace) (start : Nat) : HackTraceApplyInput :=
  ⟨t.flat, if start = 0 then t.edges.victimAddresses else []⟩

def opts (t : Trace) (start : Nat) (maxEdges : Option Nat) : HackTraceApplyChunkOptions where
  startEdgeIndex := start
  maxEdges := maxEdges
  flaggedHackers := t.hackers
  minExpandSats := t.minExpandSats
  minVictimIngestSats := t.minVictimIngestSats

/-- One call. -/
def call (env : Env) (t : Trace) (start : Nat) (maxEdges : Option Nat) :
    StoreM HackTraceApplyChunkResult :=
  applyHackTraceEdgesChunk env t.applyMeta (t.input start) (t.opts start maxEdges)

def stop (t : Trace) (start : Nat) (maxEdges : Option Nat) : Nat :=
  chunkEnd (t.opts start maxEdges) t.flat.length

/-- The edges that a call applies. -/
def slice (t : Trace) (start : Nat) (maxEdges : Option Nat) : List HackTraceEdgeDraft :=
  (t.flat.take (t.stop start maxEdges)).drop start

/-- The stored form of a payment to a hacker; outputs do not enter it. -/
def paymentRow (t : Trace) (e : HackTraceEdgeDraft) : EdgeUpsertData :=
  edgeRow t.applyMeta (fun _ => false) t.minExpandSats e

/-- The senders of payments to hackers that the first call upserts. -/
def victims (t : Trace) : List Address := qualifyingVictims (t.input 0) t.minVictimIngestSats

end Trace

/-- Successful calls with increasing indices from a store on, and nothing else in between; the
first one runs before the CPU guard is used up. -/
inductive Chunks (env : Env) (t : Trace) (db : Db) : Nat → Db → Prop
  | first (maxEdges : Option Nat) (c : Ctl Mem Err) (r : HackTraceApplyChunkResult)
      (hGuard : c.mem.cpuGuard.exceeded = false)
      (hOk : (t.call env 0 maxEdges db c).res = .ok r) :
      Chunks env t db r.nextEdgeIndex ((t.call env 0 maxEdges).final db c)
  | next {i : Nat} {db' : Db} (h : Chunks env t db i db') (maxEdges : Option Nat)
      (c : Ctl Mem Err) (r : HackTraceApplyChunkResult)
      (hOk : (t.call env i maxEdges db' c).res = .ok r) :
      Chunks env t db r.nextEdgeIndex ((t.call env i maxEdges).final db' c)

/-! ## One call -/

section Call

variable {env : Env} {t : Trace} {start : Nat} {maxEdges : Option Nat} {db : Db}

/-- A call that the CPU guard stops reports its own index and writes nothing. -/
theorem call_of_exceeded {c : Ctl Mem Err} (h : c.mem.cpuGuard.exceeded = true) :
    t.call env start maxEdges db c =
      ⟨.ok ⟨t.flat.length ≤ start, start, 0, t.flat.length, true⟩, [], c⟩ := by
  unfold Trace.call applyHackTraceEdgesChunk readCpuGuard
  rw [mem_bind]
  simp only [h, if_true]
  rfl

theorem nextEdgeIndex_call {c : Ctl Mem Err} (h : c.mem.cpuGuard.exceeded = false)
    {r : HackTraceApplyChunkResult} (hr : (t.call env start maxEdges db c).res = .ok r) :
    r.nextEdgeIndex = t.stop start maxEdges := by
  unfold Trace.call at hr
  rw [applyHackTraceEdgesChunk_eq _ _ _ _ _ h] at hr
  have hRet : (applyRange env t.applyMeta (t.input start) (t.opts start maxEdges)
      c.mem.cpuGuard).ReturnsAt db ⟨t.flat.length ≤ t.stop start maxEdges, t.stop start maxEdges,
        (t.slice start maxEdges).length, t.flat.length, c.mem.cpuGuard.tripped⟩ :=
    ReturnsAt.bind fun _ _ _ => ReturnsAt.bind fun _ _ _ => returnsAt_pure _ _
  rw [hRet c r hr]

/-- The core after a successful call. -/
theorem core_call {c : Ctl Mem Err} (h : c.mem.cpuGuard.exceeded = false)
    {r : HackTraceApplyChunkResult} (hr : (t.call env start maxEdges db c).res = .ok r) :
    ((t.call env start maxEdges).final db c).core =
      applyChunk env t.applyMeta (t.input start) (t.opts start maxEdges) db.core :=
  core_final_applyHackTraceEdgesChunk env _ _ _ db h hr

/-- What a call executes of the core is a prefix of the statements of its chunk. -/
theorem writesAt_call (env : Env) (t : Trace) (start : Nat) (maxEdges : Option Nat) (db : Db)
    (c : Ctl Mem Err) : (t.call env start maxEdges db c).log.filterMap Stmt.core? <+:
      chunkCoreStmts env t.applyMeta (t.input start) (t.opts start maxEdges) db.core := by
  cases h : c.mem.cpuGuard.exceeded with
  | true =>
    rw [call_of_exceeded h]
    exact List.nil_prefix
  | false =>
    unfold Trace.call
    rw [applyHackTraceEdgesChunk_eq _ _ _ _ _ h]
    exact (writesAt_applyRange env _ _ _ _ db c).1

end Call

/-! ## One call without faults -/

/-- The whole list applied by one call without faults. -/
def Trace.whole (env : Env) (t : Trace) (db : Db) : Db := (t.call env 0 none).final db ⟨{}, []⟩

/-- The index that it reports. -/
def Trace.reached (env : Env) (t : Trace) (db : Db) : Option Nat :=
  (t.call env 0 none db ⟨{}, []⟩).res.toOption.map (·.nextEdgeIndex)

theorem chunks_whole {env : Env} {t : Trace} {db : Db} {i : Nat} (h : t.reached env db = some i) :
    Chunks env t db i (t.whole env db) := by
  obtain ⟨r, hr, rfl⟩ := exists_ok h
  exact Chunks.first none ⟨{}, []⟩ r rfl hr

/-! ## The list -/

namespace Trace

variable {t : Trace} {e e' : HackTraceEdgeDraft}

theorem paymentRow_eq (victimTargets : Address → Bool) (hd : e.direction = .inToHacker) :
    edgeRow t.applyMeta victimTargets t.minExpandSats e = t.paymentRow e := by
  unfold paymentRow edgeRow isVictimReturn
  simp [hd]

theorem mem_slice {start : Nat} {maxEdges : Option Nat} (h : e ∈ t.slice start maxEdges) :
    e ∈ t.flat :=
  List.mem_of_mem_take (List.mem_of_mem_drop h)

/-- What a call leaves behind: what was before its index, and its slice. -/
theorem mem_take_stop {start : Nat} {maxEdges : Option Nat}
    (h : e ∈ t.flat.take (t.stop start maxEdges)) :
    e ∈ t.flat.take start ∨ e ∈ t.slice start maxEdges := by
  rcases List.mem_append.mp (List.take_append_drop start (t.flat.take (t.stop start maxEdges)) ▸ h)
    with h | h
  · rw [List.take_take] at h
    exact Or.inl (List.mem_of_mem_take (by rwa [Nat.min_comm, ← List.take_take] at h))
  · exact Or.inr h

/-- Payments to hackers have distinct keys. -/
theorem payment_unique (h : e ∈ t.flat) (h' : e' ∈ t.flat) (hd : e.direction = .inToHacker)
    (hd' : e'.direction = .inToHacker) (hKey : (t.paymentRow e).key = (t.paymentRow e').key) :
    e = e' := by
  have hFrom : e.fromAddress = e'.fromAddress := congrArg EdgeKey.fromAddress hKey
  have hTo : e.toAddress = e'.toAddress := congrArg EdgeKey.toAddress hKey
  exact inToHacker_unique (mem_flat_in h hd) (mem_flat_in h' hd') hFrom hTo

theorem pos_of_mem (h : e ∈ t.flat) : 0 < e.amountSats := amount_pos h

end Trace

end Bloodhound.Graph
