import Mathlib.Data.List.Chain
import Bloodhound.Indexer.TxProcess
import Bloodhound.Lib.Memory

/-!
# Progress of a trace

A trace that does not fit into a job is carried on by the next one: the job leaves its list and
the index it has reached, and the next job resumes the list from there. A job applies no edge
where the CPU guard is used up before the chunk starts. The guard of a job is new, and only the
computation of the list runs under it, so this happens to a job that carries a trace on only
where the trace is still at index zero: the saved list is not resumed from there but computed
again, under a guard that the computation uses up again (`unbounded_idle`).

`trace_progress` bounds the jobs of a trace where the jobs that compute the list again do so
within the cap of their guard.
-/

namespace Bloodhound.Indexer

open Chain Store Bloodhound.Graph
open Journal Journal.Op

/-! ## What a trace reports -/

section Report

variable {env : Env} {txid : Txid} {tx : ChainTxDetail} {hackers : List Address}
  {options : ProcessTxOptions}

/-- What a chunk reports, by the guard that it starts under. -/
def chunkReport (opts : HackTraceApplyChunkOptions) (flat : List HackTraceEdgeDraft) (g : CpuGuard) :
    HackTraceApplyChunkResult :=
  let total := flat.length
  let stop := chunkEnd opts total
  if g.exceeded then ⟨total ≤ opts.startEdgeIndex, opts.startEdgeIndex, 0, total, true⟩
  else ⟨total ≤ stop, stop, ((flat.take stop).drop opts.startEdgeIndex).length, total, g.tripped⟩

/-- The list that a trace applies: the saved one, or a computed one. -/
def appliedFlat (tx : ChainTxDetail) (hackers : List Address) (options : ProcessTxOptions) :
    List HackTraceEdgeDraft :=
  (resumedFlat options).getD (flattenHackTraceEdges
    (computeHackTraceEdges tx hackers options.spending options.maxGraphEdgesPerTx))

/-- The guard under which the chunk of a trace starts. -/
def chunkGuard (options : ProcessTxOptions) (g : CpuGuard) (duration : Nat) : CpuGuard :=
  if (resumedFlat options).isSome then g else g.ran duration

/-- The guard and the duration of the next guarded computation. -/
def Starts (g : CpuGuard) (duration : Nat) (_ : Db) (m : Mem) : Prop :=
  m.cpuGuard = g ∧ m.durations.headD 0 = duration

variable {g : CpuGuard} {duration : Nat}

/-- The edges that a chunk reports as applied are those it went past. -/
theorem nextEdgeIndex_chunkReport {opts : HackTraceApplyChunkOptions}
    {flat : List HackTraceEdgeDraft} (h : opts.startEdgeIndex ≤ flat.length) :
    (chunkReport opts flat g).nextEdgeIndex =
      opts.startEdgeIndex + (chunkReport opts flat g).edgesApplied := by
  unfold chunkReport
  dsimp only
  split
  · rfl
  · dsimp only
    rw [List.length_drop, List.length_take]
    unfold chunkEnd
    cases opts.maxEdges with
    | none =>
      rw [Option.elim_none]
      omega
    | some n =>
      rw [Option.elim_some]
      omega

theorem memTriple_applyHackTraceEdgesChunk (applyMeta : HackTraceApplyMeta)
    (input : HackTraceApplyInput) (opts : HackTraceApplyChunkOptions) :
    MemTriple (fun _ m => m.cpuGuard = g) (applyHackTraceEdgesChunk env applyMeta input opts)
      (fun result _ _ => result = chunkReport opts input.flat g) fun _ _ => True := by
  intro db c hc
  refine ⟨fun result hr => ?_, fun _ _ => trivial⟩
  unfold applyHackTraceEdgesChunk readCpuGuard at hr
  rw [mem_bind] at hr
  simp only [hc] at hr
  unfold chunkReport
  dsimp only
  cases hExceeded : g.exceeded with
  | true =>
    rw [hExceeded, if_pos rfl] at hr
    cases hr
    rw [if_pos rfl]
  | false =>
    rw [hExceeded, if_neg Bool.false_ne_true] at hr
    rw [if_neg Bool.false_ne_true]
    have hRange : (applyRange env applyMeta input opts g).ReturnsAt db _ :=
      ReturnsAt.bind fun _ _ _ => ReturnsAt.bind fun _ _ _ => returnsAt_pure _ _
    exact hRange _ _ hr

theorem memTriple_traceInput :
    MemTriple (Starts g duration) (traceInput tx hackers options)
      (fun input _ m => input.flat = appliedFlat tx hackers options ∧
        m.cpuGuard = chunkGuard options g duration) fun _ _ => True := by
  unfold traceInput appliedFlat chunkGuard
  cases resumedFlat options with
  | some flat => exact memTriple_pure _ fun _ _ h => ⟨rfl, h.1⟩
  | none =>
    refine MemTriple.bind (Q := fun _ _ m => m.cpuGuard = g.ran duration) ?_ fun _ => ?_
    · exact memTriple_mem _ fun _ m h => by rw [← h.1, ← h.2]
    · exact memTriple_pure _ fun _ _ h => ⟨rfl, h⟩

/-- What a trace reports depends only on its list, its range and the guard. -/
def Reports (tx : ChainTxDetail) (hackers : List Address) (options : ProcessTxOptions) (g : CpuGuard)
    (duration : Nat) (result : ProcessTxResult) : Prop :=
  let flat := appliedFlat tx hackers options
  let report := chunkReport (options.chunk hackers) flat (chunkGuard options g duration)
  result.traceComplete = report.complete ∧ result.nextEdgeIndex = report.nextEdgeIndex ∧
    result.edgesApplied = report.edgesApplied ∧
    result.traceEdgesFlat = if report.complete then none else some flat

theorem memTriple_processTxForHackTrace (hTx : options.tx = some tx) :
    MemTriple (Starts g duration) (processTxForHackTrace env txid hackers options)
      (fun result _ _ => Reports tx hackers options g duration result) fun _ _ => True := by
  unfold processTxForHackTrace
  rw [hTx]
  refine MemTriple.bind (Q := fun tx' db m => tx' = tx ∧ Starts g duration db m) ?_ fun tx' => ?_
  · exact memTriple_pure _ fun _ _ h => ⟨rfl, h⟩
  refine MemTriple.bind (Q := fun _ db m => tx' = tx ∧ Starts g duration db m) ?_ fun _ => ?_
  · exact memTriple_run (fun _ _ h => h) fun _ _ _ => trivial
  refine memTriple_of_fact fun hSame => ?_
  subst hSame
  refine MemTriple.bind memTriple_traceInput fun input => ?_
  refine memTriple_of_fact fun hFlat => ?_
  refine MemTriple.bind (memTriple_applyHackTraceEdgesChunk _ input _) fun result => ?_
  refine MemTriple.bind (Q := fun _ _ _ => result = chunkReport (options.chunk hackers) input.flat
    (chunkGuard options g duration)) ?_ fun _ => ?_
  · exact fun _ _ hResult => ⟨fun _ _ => hResult, fun _ _ => trivial⟩
  · refine memTriple_pure _ fun _ _ hResult => ?_
    subst hResult
    unfold Reports
    rw [hFlat]
    exact ⟨rfl, rfl, rfl, rfl⟩

end Report

/-! ## Jobs -/

/-- A job that works on the entry of a transaction: what it starts with, and its surroundings. -/
structure Visit where
  env : Env
  address : Address
  hop : Nat
  entry : PendingTxRuntime
  hackers : List Address
  state : TraceProcessState
  opts : ProcessEntryOpts
  db : Db
  ctl : Ctl Mem Err

namespace Visit

/-- The state that the job carries on, where it leaves the trace incomplete. -/
def carries (v : Visit) : Option TraceProcessState :=
  match (processClassifiedPendingTx v.env v.address v.hop v.entry v.hackers v.state v.opts v.db
    v.ctl).res with
  | .ok result => if result.continued then some result.traceState else none
  | .error _ => none

/-- The store after the job has worked on the entry. -/
def final (v : Visit) : Db :=
  (processClassifiedPendingTx v.env v.address v.hop v.entry v.hackers v.state v.opts).final v.db v.ctl

/-- The index at which the job starts. -/
def startIndex (v : Visit) : Nat :=
  if v.state.activeOn v.entry.txid then v.state.traceEdgeIndex.getD 0 else 0

/-- The job leaves the trace incomplete without having applied an edge. -/
def Idle (v : Visit) : Prop := ∃ s, v.carries = some s ∧ s.traceEdgeIndex = some v.startIndex

/-- A job that computes the list does so within the cap of its guard. -/
def Quick (v : Visit) : Prop :=
  v.startIndex = 0 → v.ctl.mem.cpuGuard.cap = 0 ∨
    v.ctl.mem.durations.headD 0 < v.ctl.mem.cpuGuard.cap

end Visit

/-- Jobs that carry the trace of one transaction on: the first one starts it, and each of the others
starts, under a new guard, with what the one before it left. -/
def CarriedOn (txid : Txid) : List Visit → Prop
  | [] => True
  | first :: rest =>
    (∀ v ∈ first :: rest, v.entry.txid = txid) ∧ first.state.activeOn txid = false ∧
      (∀ v ∈ rest, v.ctl.mem.cpuGuard.used = 0) ∧
      (first :: rest).IsChain fun v v' => v.carries = some v'.state

/-- A trace that a job has left incomplete. -/
structure Saved (txid : Txid) (s : TraceProcessState) (i : Nat) (flat : List HackTraceEdgeDraft) :
    Prop where
  active : s.activeOn txid = true
  index : s.traceEdgeIndex = some i
  edges : s.traceEdgesFlat = some flat
  incomplete : i < flat.length

section Continued

variable {env : Env} {address : Address} {hop : Nat} {entry : PendingTxRuntime} {tx : ChainTxDetail}
  {hackers : List Address} {state : TraceProcessState} {opts : ProcessEntryOpts} {calls : Nat}
  {txid : Txid} {g : CpuGuard} {duration : Nat}

theorem nextEdgeIndex_lt {opts : HackTraceApplyChunkOptions} {flat : List HackTraceEdgeDraft}
    (h : (chunkReport opts flat g).complete = false) :
    (chunkReport opts flat g).nextEdgeIndex < flat.length := by
  unfold chunkReport at h ⊢
  dsimp only at h ⊢
  split at h <;> rename_i hGuard
  · rw [if_pos hGuard]
    simpa using h
  · rw [if_neg hGuard]
    simpa using h

/-- A chunk that starts under a guard with time left, and does not reach the end of the list, moves
the index forward. -/
theorem lt_nextEdgeIndex {opts : HackTraceApplyChunkOptions} {flat : List HackTraceEdgeDraft}
    (hGuard : g.exceeded = false) (hPositive : ∀ n, opts.maxEdges = some n → 0 < n)
    (h : (chunkReport opts flat g).nextEdgeIndex < flat.length) :
    opts.startEdgeIndex < (chunkReport opts flat g).nextEdgeIndex := by
  unfold chunkReport at h ⊢
  dsimp only at h ⊢
  rw [if_neg (by simp [hGuard])] at h ⊢
  dsimp only at h ⊢
  unfold chunkEnd at h ⊢
  cases hMax : opts.maxEdges with
  | none =>
    rw [hMax, Option.elim_none] at h
    exact absurd h (lt_irrefl _)
  | some n =>
    rw [hMax, Option.elim_some] at h
    rw [Option.elim_some]
    have := hPositive n hMax
    omega

/-- What a job that leaves a trace incomplete carries on. -/
def CarriesOn (env : Env) (address : Address) (hop : Nat) (txid : Txid) (hackers : List Address)
    (state : TraceProcessState) (opts : ProcessEntryOpts) (g : CpuGuard) (duration : Nat)
    (carried : TraceProcessState) : Prop :=
  ∃ tx i flat,
    let options := traceOptions env.config state tx txid ⟨address, hop⟩ opts.capture
    flat = appliedFlat tx hackers options ∧
      i = (chunkReport (options.chunk hackers) flat (chunkGuard options g duration)).nextEdgeIndex ∧
      Saved txid carried i flat

theorem memTriple_traceTx :
    MemTriple (Starts g duration) (traceTx env address hop txid tx hackers state opts calls)
      (fun result _ _ => result.continued = true →
        CarriesOn env address hop txid hackers state opts g duration result.traceState)
      fun _ _ => True := by
  unfold traceTx
  refine MemTriple.bind (memTriple_processTxForHackTrace rfl) fun trace => ?_
  split
  · exact memTriple_pure _ fun _ _ _ hContinued => by cases hContinued
  · next hIncomplete =>
    refine memTriple_pure _ fun _ _ hReports _ => ⟨tx, _, _, rfl, rfl, ?_⟩
    obtain ⟨hComplete, hIndex, -, hFlat⟩ := hReports
    rw [hComplete, Bool.not_eq_true] at hIncomplete
    rw [hIncomplete] at hFlat
    constructor
    · exact decide_eq_true rfl
    · exact congrArg some hIndex
    · exact hFlat
    · exact nextEdgeIndex_lt hIncomplete

variable {P : Db → Mem → Prop} {R : TraceProcessState → Prop}

/-- Only a trace leaves work behind; what ends without one leaves none. -/
theorem memTriple_ends {p : StoreM α} {result : ProcessClassifiedTxResult}
    (h : result.continued = false) :
    MemTriple P (do let _ ← p; pure result)
      (fun result _ _ => result.continued = true → R result.traceState) fun _ _ => True := by
  refine MemTriple.bind (memTriple_true p) fun _ => memTriple_pure _ fun _ _ _ hContinued => ?_
  rw [h] at hContinued
  cases hContinued

theorem memTriple_processDetail
    (hTrace : ∀ tx calls, MemTriple P
      (traceTx env address hop entry.txid tx hackers state opts calls)
      (fun result _ _ => result.continued = true → R result.traceState) fun _ _ => True) :
    MemTriple P (processDetail env address hop entry tx hackers state opts calls)
      (fun result _ _ => result.continued = true → R result.traceState) fun _ _ => True := by
  unfold processDetail
  dsimp only
  split
  · exact memTriple_ends rfl
  · split
    · exact memTriple_pure _ fun _ _ _ hContinued => by cases hContinued
    · exact hTrace tx calls

/-- Before a trace come only requests, which leave the memory as it is. -/
theorem memTriple_processUnindexed
    (hTrace : ∀ tx calls, MemTriple P
      (traceTx env address hop entry.txid tx hackers state opts calls)
      (fun result _ _ => result.continued = true → R result.traceState) fun _ _ => True) :
    MemTriple P (processUnindexed env address hop entry hackers state opts)
      (fun result _ _ => result.continued = true → R result.traceState) fun _ _ => True := by
  unfold processUnindexed
  split
  · exact memTriple_ends rfl
  split
  · refine MemTriple.bind (memTriple_true _) fun _ => memTriple_ends rfl
  unfold fetchAndProcess
  split
  · exact memTriple_processDetail hTrace
  refine MemTriple.bind (Q := fun _ => P) ?_ fun tx => ?_
  · exact memTriple_step (fun _ _ h => h) fun _ _ _ => trivial
  split
  · exact memTriple_ends rfl
  · exact memTriple_processDetail hTrace

/-- A job that starts a trace. -/
theorem memTriple_starting :
    MemTriple (fun _ _ => True) (processClassifiedPendingTx env address hop entry hackers state opts)
      (fun result _ _ => result.continued = true →
        ∃ i flat, Saved entry.txid result.traceState i flat) fun _ _ => True := by
  have hUnindexed : MemTriple (fun _ _ => True)
      (processUnindexed env address hop entry hackers state opts)
      (fun result _ _ => result.continued = true →
        ∃ i flat, Saved entry.txid result.traceState i flat) fun _ _ => True := by
    refine memTriple_processUnindexed (R := fun s => ∃ i flat, Saved entry.txid s i flat)
      fun tx calls => ?_
    intro db c _
    refine ⟨fun result hResult hContinued => ?_, fun _ _ => trivial⟩
    obtain ⟨_, i, flat, -, -, hSaved⟩ :=
      (memTriple_traceTx db c ⟨rfl, rfl⟩).1 result hResult hContinued
    exact ⟨i, flat, hSaved⟩
  have hUnskipped : MemTriple (fun _ _ => True)
      (processUnskipped env address hop entry hackers state opts)
      (fun result _ _ => result.continued = true →
        ∃ i flat, Saved entry.txid result.traceState i flat) fun _ _ => True := by
    unfold processUnskipped
    split
    · refine MemTriple.bind (memTriple_true _) fun indexed => ?_
      cases indexed with
      | some row => exact memTriple_ends (R := fun s => ∃ i flat, Saved entry.txid s i flat) rfl
      | none => exact hUnindexed
    · exact hUnindexed
  unfold processClassifiedPendingTx
  split
  · refine MemTriple.bind (memTriple_true _) fun _ => ?_
    split
    · exact memTriple_pure _ fun _ _ _ hContinued => by cases hContinued
    · exact hUnskipped
  · exact hUnskipped

/-- A job that carries a trace on. -/
theorem memTriple_carrying (hActive : state.activeOn entry.txid = true) :
    MemTriple (Starts g duration)
      (processClassifiedPendingTx env address hop entry hackers state opts)
      (fun result _ _ => result.continued = true →
        CarriesOn env address hop entry.txid hackers state opts g duration result.traceState)
      fun _ _ => True := by
  unfold processClassifiedPendingTx processUnskipped
  simp only [hActive, Bool.not_true, Bool.false_and, Bool.false_eq_true, if_false]
  exact memTriple_processUnindexed fun tx calls => memTriple_traceTx

end Continued

/-! ## The index grows -/

section Growth

variable {txid : Txid} {v : Visit} {s : TraceProcessState} {i : Nat} {flat : List HackTraceEdgeDraft}

theorem Visit.result_of_carries (h : v.carries = some s) :
    ∃ result, (processClassifiedPendingTx v.env v.address v.hop v.entry v.hackers v.state v.opts v.db
      v.ctl).res = .ok result ∧ result.continued = true ∧ result.traceState = s := by
  unfold carries at h
  split at h
  · next result hResult =>
    split at h
    · next hContinued => exact ⟨result, hResult, hContinued, Option.some.inj h⟩
    · cases h
  · cases h

theorem exceeded_of_new {g : CpuGuard} (hNew : g.used = 0) : g.exceeded = false := by
  unfold CpuGuard.exceeded
  rw [hNew]
  simp only [Bool.and_eq_false_iff, decide_eq_false_iff_not]
  omega

/-- A new guard is not used up by a computation within its cap. -/
theorem exceeded_ran {g : CpuGuard} {duration : Nat} (hNew : g.used = 0)
    (h : g.cap = 0 ∨ duration < g.cap) : (g.ran duration).exceeded = false := by
  unfold CpuGuard.ran CpuGuard.exceeded
  by_cases hCap : g.cap = 0
  · simp [hCap]
  · rw [if_neg hCap]
    have := h.resolve_left hCap
    simp only [hNew, Nat.zero_add, Bool.and_eq_false_iff, decide_eq_false_iff_not]
    exact Or.inr (by omega)

/-- What a job leaves incomplete is saved for the next one. -/
theorem Visit.saved_of_carries (h : v.carries = some s) :
    ∃ i flat, Saved v.entry.txid s i flat := by
  obtain ⟨result, hResult, hContinued, rfl⟩ := Visit.result_of_carries h
  exact (memTriple_starting v.db v.ctl trivial).1 result hResult hContinued

/-- A job that carries a trace on under a new guard moves its index forward; once it is past zero the
list stays. -/
theorem Visit.carries_of_saved (hSaved : Saved v.entry.txid v.state i flat)
    (hNew : v.ctl.mem.cpuGuard.used = 0) (hQuick : v.Quick) (h : v.carries = some s) :
    ∃ i' flat', i < i' ∧ Saved v.entry.txid s i' flat' ∧ (0 < i → flat' = flat) := by
  obtain ⟨result, hResult, hContinued, rfl⟩ := Visit.result_of_carries h
  obtain ⟨tx, i', flat', hFlat, hIndex, hSaved'⟩ :=
    (memTriple_carrying hSaved.active v.db v.ctl ⟨rfl, rfl⟩).1 result hResult hContinued
  have hStart : v.startIndex = i := by
    unfold Visit.startIndex
    rw [if_pos hSaved.active, hSaved.index]
    rfl
  generalize hOptions : traceOptions v.env.config v.state tx v.entry.txid ⟨v.address, v.hop⟩
    v.opts.capture = options at hFlat hIndex
  have hOptionsStart : options.traceEdgeIndex = i := by
    subst hOptions
    exact hStart
  have hResumed : resumedFlat options = if 0 < i then some flat else none := by
    unfold resumedFlat
    rw [hOptionsStart]
    subst hOptions
    unfold traceOptions
    dsimp only
    have hLong : flat ≠ [] := List.ne_nil_of_length_pos (by have := hSaved.incomplete; omega)
    rw [if_pos hSaved.active, hSaved.edges, Option.filter_some, if_pos (decide_eq_true hLong)]
  have hGuard : (chunkGuard options v.ctl.mem.cpuGuard (v.ctl.mem.durations.headD 0)).exceeded =
      false := by
    unfold chunkGuard
    rw [hResumed]
    by_cases hi : 0 < i
    · rw [if_pos hi]
      exact exceeded_of_new hNew
    · rw [if_neg hi]
      exact exceeded_ran hNew (hQuick (by omega))
  refine ⟨i', flat', ?_, hSaved', fun hi => ?_⟩
  · have hMore := hSaved'.incomplete
    rw [hIndex] at hMore ⊢
    rw [← hOptionsStart]
    refine lt_nextEdgeIndex hGuard (fun n hn => ?_) hMore
    subst hOptions
    have hLimit : (some v.env.config.maxEdgesPerJob).filter (0 < ·) = some n := hn
    exact of_decide_eq_true (Option.filter_eq_some_iff.mp hLimit).2
  · rw [hFlat, appliedFlat, hResumed, if_pos hi]
    rfl

end Growth

/-! ## Runs of jobs -/

section Runs

variable {txid : Txid} {visits : List Visit}

/-- In jobs that carry a saved trace on from an index above zero, the list stays, and there are no more
of them than edges left. -/
theorem length_le_of_saved {v : Visit} {i : Nat} {flat : List HackTraceEdgeDraft}
    (hTxid : ∀ w ∈ v :: visits, w.entry.txid = txid)
    (hNew : ∀ w ∈ v :: visits, w.ctl.mem.cpuGuard.used = 0) (hQuick : ∀ w ∈ v :: visits, w.Quick)
    (hChain : (v :: visits).IsChain fun w w' => w.carries = some w'.state)
    (hSaved : Saved txid v.state i flat) (hi : 0 < i) :
    (∀ w ∈ v :: visits, w.state.traceEdgesFlat = some flat) ∧
      i + (v :: visits).length ≤ flat.length + 1 := by
  induction visits generalizing v i with
  | nil =>
    refine ⟨fun w hw => ?_, ?_⟩
    · rw [List.mem_singleton.mp hw]
      exact hSaved.edges
    · exact Nat.add_le_add_right hSaved.incomplete.le 1
  | cons w visits ih =>
    obtain ⟨hCarries, hRest⟩ := List.isChain_cons_cons.mp hChain
    have hTail : ∀ {p : Visit → Prop}, (∀ u ∈ v :: w :: visits, p u) → ∀ u ∈ w :: visits, p u :=
      fun h u hu => h u (List.mem_cons_of_mem _ hu)
    have hv := hTxid v List.mem_cons_self
    obtain ⟨i', flat', hGrow, hSaved', hKeep⟩ := Visit.carries_of_saved (hv ▸ hSaved)
      (hNew v List.mem_cons_self) (hQuick v List.mem_cons_self) hCarries
    obtain rfl := hKeep hi
    obtain ⟨hSame, hBound⟩ := ih (hTail hTxid) (hTail hNew) (hTail hQuick) hRest (hv ▸ hSaved')
      (by omega)
    refine ⟨fun u hu => ?_, ?_⟩
    · rcases List.mem_cons.mp hu with rfl | hu
      · exact hSaved.edges
      · exact hSame u hu
    · rw [List.length_cons]
      omega

/-- Every job after the first one starts with a trace that the job before it has saved. -/
theorem saved_of_mem_tail (hTxid : ∀ v ∈ visits, v.entry.txid = txid)
    (hChain : visits.IsChain fun v v' => v.carries = some v'.state) {v : Visit}
    (hv : v ∈ visits.tail) : ∃ i flat, Saved txid v.state i flat := by
  induction visits with
  | nil => cases hv
  | cons u visits ih =>
    cases visits with
    | nil => cases hv
    | cons w visits =>
      obtain ⟨hCarries, hRest⟩ := List.isChain_cons_cons.mp hChain
      rcases List.mem_cons.mp hv with rfl | hv
      · exact hTxid u List.mem_cons_self ▸ Visit.saved_of_carries hCarries
      · exact ih (fun x hx => hTxid x (List.mem_cons_of_mem _ hx)) hRest hv

/-- Where every job that computes the list again does so within the cap of its guard, only the job
that starts the trace may apply no edge, and the trace is complete after at most two jobs more than
it has edges. -/
theorem trace_progress (hRun : CarriedOn txid visits) (hQuick : ∀ v ∈ visits.tail, v.Quick) :
    (∀ v ∈ visits.tail, ¬ v.Idle) ∧
      ∃ flat : List HackTraceEdgeDraft,
        (∀ v ∈ visits.drop 2, v.state.traceEdgesFlat = some flat) ∧
          visits.length ≤ flat.length + 2 := by
  cases visits with
  | nil => exact ⟨fun v hv => (by cases hv), [], fun v hv => (by cases hv), Nat.zero_le _⟩
  | cons first rest =>
    obtain ⟨hTxid, -, hNew, hChain⟩ := hRun
    have hStep : ∀ v ∈ rest, ∀ s, v.carries = some s → ∃ i i' flat flat',
        Saved txid v.state i flat ∧ i < i' ∧ Saved txid s i' flat' := by
      intro v hv s hCarries
      obtain ⟨i, flat, hSaved⟩ := saved_of_mem_tail hTxid hChain hv
      have hEntry := hTxid v (List.mem_cons_of_mem _ hv)
      obtain ⟨i', flat', hGrow, hSaved', -⟩ := Visit.carries_of_saved (hEntry ▸ hSaved)
        (hNew v hv) (hQuick v hv) hCarries
      exact ⟨i, i', flat, flat', hSaved, hGrow, hEntry ▸ hSaved'⟩
    refine ⟨fun v hv hIdle => ?_, ?_⟩
    · obtain ⟨s, hCarries, hSame⟩ := hIdle
      obtain ⟨i, i', flat, flat', hSaved, hGrow, hSaved'⟩ := hStep v hv s hCarries
      have hStart : v.startIndex = i := by
        unfold Visit.startIndex
        rw [hTxid v (List.mem_cons_of_mem _ hv), if_pos hSaved.active, hSaved.index]
        rfl
      rw [hSaved'.index, hStart] at hSame
      exact hGrow.ne' (Option.some.inj hSame)
    · match rest with
      | [] => exact ⟨[], fun v hv => (by cases hv), Nat.le_succ _⟩
      | [_] => exact ⟨[], fun v hv => (by cases hv), le_rfl⟩
      | second :: third :: rest =>
        obtain ⟨-, hChain'⟩ := List.isChain_cons_cons.mp hChain
        obtain ⟨hCarries, hRest⟩ := List.isChain_cons_cons.mp hChain'
        obtain ⟨i, i', _, flat', -, hGrow, hSaved'⟩ :=
          hStep second List.mem_cons_self third.state hCarries
        obtain ⟨hSame, hBound⟩ := length_le_of_saved
          (fun v hv => hTxid v (List.mem_cons_of_mem _ (List.mem_cons_of_mem _ hv)))
          (fun v hv => hNew v (List.mem_cons_of_mem _ hv))
          (fun v hv => hQuick v (List.mem_cons_of_mem _ hv)) hRest hSaved' (by omega)
        refine ⟨flat', hSame, ?_⟩
        simp only [List.length_cons] at hBound ⊢
        omega

end Runs

/-! ## A trace that never starts -/

/-- A hacker pays two addresses. -/
def twoOutputs : ChainTxDetail where
  txid := name "t"
  vin := [{ prevout := some { scriptpubkeyAddress := some (name "h"), value := some 1000000 } }]
  vout := [{ scriptpubkeyAddress := some (name "a"), value := some 600000 },
    { scriptpubkeyAddress := some (name "b"), value := some 300000 }]

/-- A job on that transaction, under a new guard with a cap of ten; the first guarded computation takes
the given time. -/
def twoOutputsVisit (maxEdgesPerJob : Nat) (db : Db) (state : TraceProcessState) (duration : Nat) :
    Visit where
  env := { config := { maxEdgesPerJob }, provider := .ofTxs [twoOutputs] }
  address := name "h"
  hop := 0
  entry := { txid := name "t", isSpend := some true }
  hackers := [name "h"]
  state := state
  opts := { capture := captureOpReturnJobOpts true }
  db := db
  ctl := ⟨{ cpuGuard := { cap := 10 }, durations := [duration] }, []⟩

/-- The edges of the transaction, saved at an index. -/
def twoOutputsSaved (i : Nat) : TraceProcessState where
  traceTxid := some (name "t")
  traceEdgeIndex := some i
  traceEdgesPending := true
  traceEdgeTotal := some 2
  traceEdgesFlat := some [⟨name "h", name "a", 600000, 1, .outFromHacker⟩,
    ⟨name "h", name "b", 300000, 1, .outFromHacker⟩]

/-- The first job applies no edge, and the next two apply one each. -/
def oneByOne : List Visit :=
  [twoOutputsVisit 1 .initial {} 10, twoOutputsVisit 1 .initial (twoOutputsSaved 0) 3,
    twoOutputsVisit 1 .initial (twoOutputsSaved 1) 3]

theorem trace_progress_oneByOne :
    (∀ v ∈ oneByOne.tail, ¬ v.Idle) ∧
      ∃ flat : List HackTraceEdgeDraft,
        (∀ v ∈ oneByOne.drop 2, v.state.traceEdgesFlat = some flat) ∧
          oneByOne.length ≤ flat.length + 2 :=
  @trace_progress (name "t") oneByOne
    ⟨by decide +kernel, rfl, by decide +kernel,
      List.isChain_cons_cons.mpr ⟨by decide +kernel,
        List.isChain_cons_cons.mpr ⟨by decide +kernel, List.IsChain.singleton _⟩⟩⟩
    fun v hv => by
      rcases List.mem_cons.mp hv with rfl | hv
      · exact fun _ => Or.inr (by decide)
      · rw [List.mem_singleton.mp hv]
        exact fun _ => Or.inr (by decide)

/-- The computation takes as long as the cap. -/
def startingVisit : Visit := twoOutputsVisit 0 .initial {} 10

/-- So it does in the jobs after the one that starts the trace. -/
def stuckVisit : Visit := twoOutputsVisit 0 startingVisit.final (twoOutputsSaved 0) 10

/-- Where the computation takes as long as the cap in every job, no job applies an edge, and each
leaves the next one where it was. -/
theorem unbounded_idle : ¬ ∃ bound, ∀ visits, CarriedOn (name "t") visits → (∀ v ∈ visits, v.Idle) →
    visits.length ≤ bound := by
  rintro ⟨bound, h⟩
  have hFirst : startingVisit.carries = some (twoOutputsSaved 0) := by decide +kernel
  have hAgain : stuckVisit.carries = some (twoOutputsSaved 0) := by decide +kernel
  have hVisits : ∀ v ∈ startingVisit :: List.replicate bound stuckVisit,
      v = startingVisit ∨ v = stuckVisit := by
    intro v hv
    rcases List.mem_cons.mp hv with rfl | hv
    · exact Or.inl rfl
    · exact Or.inr (List.eq_of_mem_replicate hv)
  have hBound := h (startingVisit :: List.replicate bound stuckVisit)
    ⟨fun v hv => by rcases hVisits v hv with rfl | rfl <;> rfl, rfl,
      fun v hv => by rw [List.eq_of_mem_replicate hv]; rfl, ?_⟩
    fun v hv => ?_
  · rw [List.length_cons, List.length_replicate] at hBound
    omega
  · refine List.isChain_cons.mpr ⟨fun v hv => ?_, List.isChain_replicate_of_rel bound hAgain⟩
    rw [List.eq_of_mem_replicate (List.mem_of_mem_head? hv)]
    exact hFirst
  · rcases hVisits v hv with rfl | rfl
    · exact ⟨_, hFirst, rfl⟩
    · exact ⟨_, hAgain, rfl⟩

end Bloodhound.Indexer
