import Bloodhound.Scanner.RunScan

/-!
# What resumed scans have tested

The seeds of a run are the accepted pads from its first one on, with every session. A process keeps them
in order: the seeds of the pads before its position are tested or in the batch. A checkpoint keeps this
where it names the first pad that is not complete; the steps that save another one, and the steps that
leave a pad before its last session, are not safe (`Process.Safe`).

* `Scope.keeps_step`: a safe step of the process.
* `covered_of_resumed`: a run that is resumed any number of times.
-/

namespace Bloodhound.Scanner

/-! ## The seeds of a run -/

/-- The first pad of a run, its accepted pads and its sessions, and where its pads may end. -/
structure Scope where
  first : UInt64
  pads : PadEnumerator
  scanMin : UInt32
  scanMax : UInt32
  isEnd : UInt64 → Prop

namespace Scope

variable (sc : Scope) {P Q : SeedCandidate → Prop} {n m : UInt64}

/-- Every session of a pad. -/
def Pad (P : SeedCandidate → Prop) (i : UInt64) : Prop :=
  ∀ s, sc.scanMin ≤ s → s ≤ sc.scanMax → P ⟨sc.pads.at i, s⟩

/-- Every session of every accepted pad in front of one. -/
def Before (P : SeedCandidate → Prop) (n : UInt64) : Prop :=
  ∀ i, sc.first ≤ i → i < n → sc.pads.passesFilter (sc.pads.at i) → sc.Pad P i

variable {sc}

theorem Before.mono (h : sc.Before P n) (hPQ : ∀ x, P x → Q x) : sc.Before Q n :=
  fun i hFirst hi hAccepted s hMin hMax => hPQ _ (h i hFirst hi hAccepted s hMin hMax)

theorem Before.of_le (h : sc.Before P n) (hmn : m ≤ n) : sc.Before P m :=
  fun i hFirst hi => h i hFirst (UInt64.lt_of_lt_of_le hi hmn)

theorem lt_succ {i j : UInt64} (h : i < m) (hj : j < i + 1) : j < i ∨ j = i := by
  rw [UInt64.lt_iff_toNat_lt] at h hj
  rw [UInt64.lt_iff_toNat_lt, ← UInt64.toNat_inj]
  have hSmall := m.toNat_lt
  have hNext : (i + 1).toNat = i.toNat + 1 := by
    rw [UInt64.toNat_add, UInt64.toNat_one]
    omega
  omega

/-- The session before the next one, also where the number of the next one is taken modulo 2^32. -/
theorem le_of_lt_succ {s s' : UInt32} (h : s' < s + 1) : s' ≤ s := by
  rw [UInt32.lt_iff_toNat_lt, UInt32.toNat_add, UInt32.toNat_one] at h
  rw [UInt32.le_iff_toNat_le]
  have hSmall := s.toNat_lt
  omega

theorem Before.succ (h : sc.Before P n) (hn : n < m)
    (hPad : sc.pads.passesFilter (sc.pads.at n) → sc.Pad P n) : sc.Before P (n + 1) := by
  intro i hFirst hi hAccepted
  rcases lt_succ hn hi with hLess | rfl
  · exact h i hFirst hLess hAccepted
  · exact hPad hAccepted

theorem before_first : sc.Before P sc.first :=
  fun _ hFirst hi => absurd hi (UInt64.not_lt.mpr hFirst)

theorem before_zero : sc.Before P 0 := by
  intro i _ hi
  rw [UInt64.lt_iff_toNat_lt] at hi
  exact absurd hi (Nat.not_lt_zero _)

end Scope

/-! ## The process -/

section Process

variable {δ : Type}

/-- A seed that is tested, or that the batch holds from some place on. -/
def Process.Seen (p : Process δ) (T : SeedCandidate → Prop) (off : Nat) (seed : SeedCandidate) : Prop :=
  T seed ∨ seed ∈ p.seedBatch.drop off

/-- What the scan has seen where it is. -/
def Scope.At (sc : Scope) (T : SeedCandidate → Prop) (p : Process δ) : Prop :=
  match p.location with
  | .pad => sc.Before (p.Seen T 0) p.padIndex ∨ p.interrupt = true ∧ p.padEnd ≤ p.padIndex
  | .session s => p.padIndex < p.padEnd ∧ sc.Before (p.Seen T 0) p.padIndex ∧
      ∀ s', sc.scanMin ≤ s' → s' < s → p.Seen T 0 ⟨sc.pads.at p.padIndex, s'⟩
  | .flush off (some s) => p.padIndex < p.padEnd ∧ sc.Before (p.Seen T off) p.padIndex ∧
      ∀ s', sc.scanMin ≤ s' → s' ≤ s → p.Seen T off ⟨sc.pads.at p.padIndex, s'⟩
  | .flush off none => sc.Before (p.Seen T off) p.padEnd
  | .afterPads => sc.Before (p.Seen T 0) p.padEnd ∨ p.interrupt = true
  | .final => sc.Before T p.padEnd ∨ p.interrupt = true

structure Scope.Keeps (sc : Scope) (T : SeedCandidate → Prop) (p : Process δ) : Prop where
  pads : p.pads = sc.pads
  scanMin : p.scanMin = sc.scanMin
  scanMax : p.scanMax = sc.scanMax
  padEnd : sc.isEnd p.padEnd
  padsTotal : sc.isEnd p.ck.padsTotal
  start : sc.Before T p.padStart
  saved : sc.Before T p.ck.nextPadIndex
  position : sc.At T p

/-- The next step loses no seed: an interruption finds no seed of a pad before the one that it saves, and
leaves no pad but the last; a checkpoint between two pads is saved after the last session. -/
def Process.Safe (p : Process δ) : Prop :=
  match p.location with
  | .pad => p.padIndex < p.padEnd → p.interrupt = true → p.seedBatch = []
  | .session s => s ≤ p.scanMax → p.interrupt = true → p.padEnd ≤ p.padIndex + 1
  | .flush off caller =>
    (off < p.seedBatch.length → p.interrupt = true →
      (caller.isSome → p.padEnd ≤ p.padIndex + 1) ∧
      ∀ seed ∈ p.seedBatch.drop off, ∀ i < p.flushPad caller, p.pads.at i ≠ seed.pad) ∧
    (p.seedBatch.length ≤ off → (p.flushPad caller + 1) % 1000 = 0 → ∀ s ∈ caller, s = p.scanMax)
  | .afterPads | .final => True

def Action.seeds : Action δ → List SeedCandidate
  | .test seeds => seeds
  | _ => []

/-- What a step does: it saves what is complete, and keeps the rest. -/
structure Scope.Step (sc : Scope) (T : SeedCandidate → Prop) (p : Process δ)
    (out : Action δ × Option (Process δ)) : Prop where
  saves : ∀ ck status, out.1 = .save ck status → sc.isEnd ck.padsTotal ∧
    sc.Before T ck.nextPadIndex ∧ (status = .completed → sc.Before T p.padEnd)
  keeps : ∀ p', out.2 = some p' → sc.Keeps (fun seed => T seed ∨ seed ∈ out.1.seeds) p'

variable {sc : Scope} {T : SeedCandidate → Prop} {p : Process δ}

theorem Process.Seen.of_nil {off : Nat} {seed : SeedCandidate} (hNil : p.seedBatch.drop off = [])
    (h : p.Seen T off seed) : T seed := by
  unfold Process.Seen at h
  rw [hNil] at h
  exact h.resolve_right List.not_mem_nil

/-- A step without a save and without tests. -/
theorem Scope.Step.of_none {next : Option (Process δ)}
    (h : ∀ p', next = some p' → sc.Keeps T p') : sc.Step T p (.none, next) where
  saves := by
    intro ck status hSave
    cases hSave
  keeps := by
    intro p' hp'
    have hSame : (fun seed => T seed ∨ seed ∈ (Action.none : Action δ).seeds) = T := by
      funext seed
      simp [Action.seeds]
    rw [hSame]
    exact h p' hp'

/-- A step that saves a pad in front of which everything is tested. -/
theorem Scope.Step.of_save (hKeeps : sc.Keeps T p) {n : UInt64} (hn : sc.Before T n) (elapsed : δ)
    {status : RunStatus} (hStatus : status ≠ .completed) {next : Option (Process δ)}
    (h : ∀ p', next = some p' → sc.Keeps T p') :
    sc.Step T p (.save (p.checkpointAt n elapsed) status, next) where
  saves := by
    intro ck status' hSave
    cases hSave
    exact ⟨hKeeps.padEnd, hn, fun hCompleted => absurd hCompleted hStatus⟩
  keeps := by
    intro p' hp'
    have hSame : (fun seed => T seed ∨
        seed ∈ (Action.save (p.checkpointAt n elapsed) status).seeds) = T := by
      funext seed
      simp [Action.seeds]
    rw [hSame]
    exact h p' hp'

/-- The process elsewhere, with the same checkpoint. -/
theorem Scope.Keeps.moveTo (h : sc.Keeps T p) {padIndex : UInt64} {seedBatch : List SeedCandidate}
    {location : Location} (hAt : sc.At T { p with padIndex, seedBatch, location }) :
    sc.Keeps T { p with padIndex, seedBatch, location } :=
  { h with position := hAt }

/-- The process elsewhere, after a checkpoint. -/
theorem Scope.Keeps.saveAt (h : sc.Keeps T p) {n : UInt64} (elapsed : δ) {padIndex : UInt64}
    {seedBatch : List SeedCandidate} {interrupt : Bool} {location : Location}
    (hAt : sc.At T { p with ck := p.checkpointAt n elapsed, padIndex, seedBatch, interrupt, location })
    (hn : sc.Before T n) :
    sc.Keeps T { p with ck := p.checkpointAt n elapsed, padIndex, seedBatch, interrupt, location } :=
  { h with padsTotal := h.padEnd, saved := hn, position := hAt }

theorem keeps_stepPad (h : sc.Keeps T p) (hLocation : p.location = .pad) (hSafe : p.Safe) (elapsed : δ) :
    sc.Step T p (p.stepPad elapsed) := by
  have hAt := h.position
  unfold Scope.At at hAt
  simp only [hLocation] at hAt
  unfold Process.Safe at hSafe
  simp only [hLocation] at hSafe
  unfold Process.stepPad
  split
  · next hMore =>
    have hBefore : sc.Before (p.Seen T 0) p.padIndex :=
      hAt.resolve_right fun hDone => UInt64.not_le.mpr hMore hDone.2
    split
    · next hInterrupt =>
      -- the batch is empty, and the pads in front of this one are tested
      have hNil : p.seedBatch.drop 0 = [] := hSafe hMore hInterrupt
      have hTested : sc.Before T p.padIndex := hBefore.mono fun _ => Process.Seen.of_nil hNil
      refine .of_save h hTested elapsed (by decide) ?_
      rintro _ ⟨⟩
      exact h.saveAt elapsed (.inr hInterrupt) hTested
    · split
      · refine .of_none ?_
        rintro _ ⟨⟩
        refine h.moveTo ⟨hMore, hBefore, ?_⟩
        intro s' hMin hLess
        rw [h.scanMin] at hLess
        exact absurd hLess (UInt32.not_lt.mpr hMin)
      · next hRejected =>
        refine .of_none ?_
        rintro _ ⟨⟩
        refine h.moveTo (.inl ?_)
        refine hBefore.succ hMore fun hAccepted => ?_
        rw [← h.pads] at hAccepted
        exact absurd hAccepted hRejected
  · next hDone =>
    refine .of_none ?_
    rintro _ ⟨⟩
    refine h.moveTo ?_
    rcases hAt with hBefore | ⟨hInterrupt, _⟩
    · exact .inl (hBefore.of_le (UInt64.not_lt.mp hDone))
    · exact .inr hInterrupt

theorem keeps_stepSession (h : sc.Keeps T p) {s : UInt32} (hLocation : p.location = .session s)
    (hSafe : p.Safe) : sc.Step T p (.none, p.stepSession s) := by
  have hAt := h.position
  unfold Scope.At at hAt
  simp only [hLocation] at hAt
  obtain ⟨hMore, hBefore, hSessions⟩ := hAt
  unfold Process.Safe at hSafe
  simp only [hLocation] at hSafe
  refine .of_none ?_
  unfold Process.stepSession
  split
  · next hSession =>
    split
    · next hInterrupt =>
      rintro _ ⟨⟩
      exact h.moveTo (.inr ⟨hInterrupt, hSafe hSession hInterrupt⟩)
    · -- the seed is put at the end of the batch
      let p' : Process δ := { p with seedBatch := p.seedBatch ++ [⟨p.pads.at p.padIndex, s⟩] }
      have hSeen : ∀ seed, p.Seen T 0 seed → p'.Seen T 0 seed := by
        rintro seed (hTested | hBatch)
        · exact .inl hTested
        · exact .inr (List.mem_append_left _ hBatch)
      have hUpto : ∀ s', sc.scanMin ≤ s' → s' ≤ s → p'.Seen T 0 ⟨sc.pads.at p.padIndex, s'⟩ := by
        intro s' hMin hLe
        rcases UInt32.lt_or_eq_of_le hLe with hLess | rfl
        · exact hSeen _ (hSessions s' hMin hLess)
        · rw [← h.pads]
          exact .inr (List.mem_append_right _ List.mem_cons_self)
      rintro _ ⟨⟩
      refine h.moveTo ?_
      split
      · exact ⟨hMore, hBefore.mono hSeen, hUpto⟩
      · refine ⟨hMore, hBefore.mono hSeen, fun s' hMin hLess => hUpto s' hMin ?_⟩
        exact Scope.le_of_lt_succ hLess
  · next hSession =>
    rintro _ ⟨⟩
    refine h.moveTo (.inl (hBefore.succ hMore fun _ s' hMin hMax => hSessions s' hMin ?_))
    rw [h.scanMax] at hSession
    exact UInt32.lt_of_le_of_lt hMax (UInt32.not_le.mp hSession)

/-- Pads of which nothing is left in the batch are tested. -/
theorem tested_of_left {off : Nat} {n : UInt64} (hPads : p.pads = sc.pads)
    (h : sc.Before (p.Seen T off) n)
    (hLeft : ∀ seed ∈ p.seedBatch.drop off, ∀ i < n, p.pads.at i ≠ seed.pad) : sc.Before T n := by
  intro i hFirst hi hAccepted s hMin hMax
  refine (h i hFirst hi hAccepted s hMin hMax).resolve_right fun hMem => ?_
  exact hLeft _ hMem i hi (by rw [hPads])

theorem mem_take_or_drop {α : Type} (l : List α) (n : Nat) {x : α} (h : x ∈ l) :
    x ∈ l.take n ∨ x ∈ l.drop (l.take n).length := by
  rw [List.length_take]
  rcases Nat.le_total n l.length with hLe | hLe
  · rw [Nat.min_eq_left hLe]
    rw [← List.take_append_drop n l] at h
    exact List.mem_append.mp h
  · rw [List.take_of_length_le hLe]
    exact .inl h

theorem Process.lastPad_le (p : Process δ) : p.lastPad ≤ p.padEnd := by
  unfold Process.lastPad
  split
  · next hSome =>
    have hOne : (1 : UInt64) ≤ p.padEnd := by
      rw [gt_iff_lt, UInt64.lt_iff_toNat_lt, UInt64.toNat_zero] at hSome
      rw [UInt64.le_iff_toNat_le, UInt64.toNat_one]
      exact hSome
    rw [UInt64.le_iff_toNat_le, UInt64.toNat_sub_of_le _ _ hOne]
    exact Nat.sub_le _ _
  · exact UInt64.zero_le

theorem Process.lastPad_succ (p : Process δ) (h : (p.lastPad + 1) % 1000 = 0) :
    p.lastPad + 1 = p.padEnd := by
  unfold Process.lastPad at h ⊢
  by_cases hSome : p.padEnd > 0
  · rw [if_pos hSome, UInt64.sub_add_cancel]
  · rw [if_neg hSome] at h
    exact absurd h (by decide)

theorem flushPad_le (hAt : sc.At T p) {off : Nat} {caller : Option UInt32}
    (hLocation : p.location = .flush off caller) : sc.Before (p.Seen T off) (p.flushPad caller) := by
  unfold Scope.At at hAt
  cases caller with
  | some s =>
    simp only [hLocation] at hAt
    exact hAt.2.1
  | none =>
    simp only [hLocation] at hAt
    exact hAt.of_le p.lastPad_le

/-- After a flush nothing is left, and the pads up to the next checkpoint are tested. -/
theorem flushed (h : sc.Keeps T p) {off : Nat} {caller : Option UInt32}
    (hLocation : p.location = .flush off caller) (hAll : p.seedBatch.length ≤ off)
    (hLast : (p.flushPad caller + 1) % 1000 = 0 → ∀ s ∈ caller, s = p.scanMax)
    (hPeriod : (p.flushPad caller + 1) % 1000 = 0) : sc.Before T (p.flushPad caller + 1) := by
  have hNil : p.seedBatch.drop off = [] := List.drop_eq_nil_of_le hAll
  have hAt := h.position
  unfold Scope.At at hAt
  cases caller with
  | some s =>
    simp only [hLocation] at hAt
    obtain ⟨hMore, hBefore, hSessions⟩ := hAt
    have hScanMax := (hLast hPeriod s rfl).trans h.scanMax
    refine (hBefore.mono fun _ => Process.Seen.of_nil hNil).succ hMore ?_
    intro _ s' hMin hMax
    exact (hSessions s' hMin (hScanMax ▸ hMax)).of_nil hNil
  | none =>
    simp only [hLocation] at hAt
    have hTested : sc.Before T p.padEnd := hAt.mono fun _ => Process.Seen.of_nil hNil
    have hEnd : p.lastPad + 1 = p.padEnd := p.lastPad_succ hPeriod
    exact hEnd ▸ hTested

theorem keeps_stepFlush (h : sc.Keeps T p) {off : Nat} {caller : Option UInt32}
    (hLocation : p.location = .flush off caller) (hSafe : p.Safe) (elapsed : δ) (newHits : UInt64) :
    sc.Step T p (p.stepFlush off caller elapsed newHits) := by
  have hBefore := flushPad_le h.position hLocation
  have hAt := h.position
  unfold Scope.At at hAt
  unfold Process.Safe at hSafe
  simp only [hLocation] at hAt hSafe
  unfold Process.stepFlush
  simp only
  split
  · next hMore =>
    split
    · next hInterrupt =>
      -- what is left of the batch is of the pad that is saved
      obtain ⟨hLastPad, hLeft⟩ := hSafe.1 hMore hInterrupt
      have hTested := tested_of_left h.pads hBefore hLeft
      cases caller with
      | some s =>
        refine .of_save h hTested elapsed (by decide) ?_
        rintro _ ⟨⟩
        exact h.saveAt elapsed (.inr ⟨hInterrupt, hLastPad rfl⟩) hTested
      | none =>
        refine .of_save h hTested elapsed (by decide) ?_
        rintro _ ⟨⟩
        exact h.saveAt elapsed (.inr rfl) hTested
    · refine ⟨fun ck status hSave => (by cases hSave), ?_⟩
      rintro _ ⟨⟩
      -- the chunk is tested, and the rest is seen from further on
      have hSeen : ∀ seed, p.Seen T off seed →
          p.Seen (fun seed => T seed ∨ seed ∈ (p.seedBatch.drop off).take kInterruptChunkSeeds)
            (off + ((p.seedBatch.drop off).take kInterruptChunkSeeds).length) seed := by
        rintro seed (hTested | hBatch)
        · exact .inl (.inl hTested)
        · rcases mem_take_or_drop _ kInterruptChunkSeeds hBatch with hChunk | hRest
          · exact .inl (.inr hChunk)
          · rw [List.drop_drop] at hRest
            exact .inr hRest
      refine { h with start := ?_, saved := ?_, position := ?_ }
      · exact h.start.mono fun _ => .inl
      · exact h.saved.mono fun _ => .inl
      · cases caller with
        | some s =>
          obtain ⟨hPad, hPads, hSessions⟩ := hAt
          exact ⟨hPad, hPads.mono hSeen, fun s' hMin hMax => hSeen _ (hSessions s' hMin hMax)⟩
        | none => exact hAt.mono hSeen
  · next hAll =>
    have hAll := Nat.le_of_not_lt hAll
    have hNil : p.seedBatch.drop off = [] := List.drop_eq_nil_of_le hAll
    have hNext : ∀ ck : CheckpointState δ,
        sc.At T { p with ck, seedBatch := [], location := afterFlush caller } := by
      intro ck
      cases caller with
      | some s =>
        obtain ⟨hPad, hPads, hSessions⟩ := hAt
        refine ⟨hPad, hPads.mono fun _ hSeen => .inl (hSeen.of_nil hNil), ?_⟩
        intro s' hMin hLess
        exact .inl ((hSessions s' hMin (Scope.le_of_lt_succ hLess)).of_nil hNil)
      | none => exact .inl (hAt.mono fun _ => Process.Seen.of_nil hNil)
    split
    · next hPeriod =>
      have hTested := flushed h hLocation hAll (hSafe.2 hAll) hPeriod
      refine .of_save h hTested elapsed (by decide) ?_
      rintro _ ⟨⟩
      exact h.saveAt elapsed (hNext _) hTested
    · refine .of_none ?_
      rintro _ ⟨⟩
      exact h.moveTo (hNext _)

theorem saves_stepFinal (h : sc.Keeps T p) (hLocation : p.location = .final) (elapsed : δ) :
    sc.Step T p (p.stepFinal elapsed, none) := by
  have hAt := h.position
  unfold Scope.At at hAt
  simp only [hLocation] at hAt
  unfold Process.stepFinal
  split
  · refine .of_save h ?_ elapsed (by decide) ?_
    · split
      · exact h.saved
      · exact h.start
    · rintro _ ⟨⟩
  · next hInterrupt =>
    have hTested := hAt.resolve_right hInterrupt
    refine ⟨?_, fun p' hp' => by cases hp'⟩
    intro ck status hSave
    cases hSave
    exact ⟨h.padsTotal, hTested, fun _ => hTested⟩

/-- A safe step of the process. -/
theorem Scope.keeps_step (h : sc.Keeps T p) (hSafe : p.Safe) (elapsed : δ) (newHits : UInt64) :
    sc.Step T p (p.step elapsed newHits) := by
  unfold Process.step
  split
  · next hLocation => exact keeps_stepPad h hLocation hSafe elapsed
  · next hLocation => exact keeps_stepSession h hLocation hSafe
  · next hLocation => exact keeps_stepFlush h hLocation hSafe elapsed newHits
  · next hLocation =>
    have hAt := h.position
    unfold Scope.At at hAt
    simp only [hLocation] at hAt
    refine .of_none ?_
    rintro _ ⟨⟩
    refine h.moveTo ?_
    split
    · next hNone =>
      rcases hAt with hSeen | hInterrupt
      · rcases hNone with hInterrupt | hNil
        · exact .inr hInterrupt
        · exact .inl (hSeen.mono fun _ => Process.Seen.of_nil (by rw [hNil]; rfl))
      · exact .inr hInterrupt
    · next hSome => exact hAt.resolve_right fun hInterrupt => hSome (.inl hInterrupt)
  · next hLocation => exact saves_stepFinal h hLocation elapsed

end Process

/-! ## Runs that are resumed -/

section Resumed

variable {δ : Type} [Zero δ] (sha256 : Text → Fin 32 → UInt8) (io : DoubleIo δ)

def World.Tested (w : World δ) (runId : Text) (seed : SeedCandidate) : Prop :=
  ∃ t ∈ w.tests, t.runId = runId ∧ t.seed = seed

/-- Something holds of the starts of a run. -/
def OfStarts (runId : Text) (P : OrchestratorOptions → Started δ → World δ → Prop) :
    Event δ → World δ → Prop
  | .start opts env, w => ∀ s, start sha256 io opts env w.files = some s → s.runId = runId → P opts s w
  | _, _ => True

/-- A start of the run resumes it, with the same configuration. -/
def Continues (opts : OrchestratorOptions) (runId : Text) : Event δ → World δ → Prop :=
  OfStarts sha256 io runId fun opts' s _ => s.resumed = true ∧ opts'.config = opts.config ∧
    opts'.padEnd = opts.padEnd ∧ opts'.backfill = opts.backfill

/-- The run takes safe steps, and a checkpoint is not cut in front of the end of its last number. -/
def Careful (runId : Text) : Event δ → World δ → Prop
  | .advance _ _, w => ∀ p, w.process = some p → p.runId = runId → p.Safe
  | .cut elapsed written, w => ∀ p, w.process = some p → p.runId = runId → p.Safe ∧
      ∀ ck status, (p.step elapsed 0).1 = .save ck status →
        (savedFields io ck []).length ≤ written
  | _, _ => True

/-- The seeds of a run that is started for the first time. -/
def Started.scope (s : Started δ) (opts : OrchestratorOptions) : Scope where
  first := s.padStart
  pads := opts.pads
  scanMin := opts.config.scanSessionMin
  scanMax := opts.config.scanSessionMax
  isEnd n := opts.backfill = false → n = opts.rangeEnd

/-- What a run keeps: the pads in front of the one that its checkpoint names are tested, and so are all
of them where it was reported as completed. -/
structure Scope.Covers (sc : Scope) (runId : Text) (w : World δ) : Prop where
  file : ∀ init loaded, loadCheckpoint io (w.files runId) runId init = .ok loaded →
    sc.Before (w.Tested runId) loaded.nextPadIndex ∧ sc.isEnd loaded.padsTotal
  reports : ∀ r ∈ w.reports, r.runId = runId → r.status = .completed →
    sc.Before (w.Tested runId) r.padEnd ∧ sc.isEnd r.padEnd
  process : ∀ p, w.process = some p → p.runId = runId → sc.Keeps (w.Tested runId) p
  ckRunId : ∀ p, w.process = some p → p.ck.runId = p.runId

variable {sha256 io} {sc : Scope} {runId : Text} {w w' : World δ}

section Events

omit [Zero δ]

/-- What a written checkpoint is read back as. -/
theorem file_of_save (sc : Scope) {T : SeedCandidate → Prop} {ck : CheckpointState δ}
    (hEnd : sc.isEnd ck.padsTotal) (hBefore : sc.Before T ck.nextPadIndex) {k : Nat}
    (hk : (savedFields io ck []).length ≤ k) {init loaded : CheckpointState δ}
    (hLoad : loadCheckpoint io (some ((saveCheckpoint io ck).take k)) runId init = .ok loaded) :
    sc.Before T loaded.nextPadIndex ∧ sc.isEnd loaded.padsTotal := by
  obtain ⟨elapsed, hRead⟩ := loadCheckpoint_take io ck hk runId init
  rw [hRead] at hLoad
  cases hLoad
  exact ⟨hBefore, hEnd⟩

theorem tested_act (w : World δ) (p : Process δ) (action : Action δ) (seed : SeedCandidate) :
    (w.act io p action).Tested runId seed ↔
      w.Tested runId seed ∨ p.runId = runId ∧ seed ∈ action.seeds := by
  cases action with
  | none => simp [World.act, Action.seeds]
  | save ck status => simp [World.act, Action.seeds, World.Tested]
  | test seeds =>
    unfold World.act World.Tested Action.seeds
    simp only [List.mem_append, List.mem_map, or_and_right, exists_or]
    constructor
    · rintro (⟨t, ⟨x, hx, rfl⟩, hRun, rfl⟩ | hOld)
      · exact .inr ⟨hRun, hx⟩
      · exact .inl hOld
    · rintro (hOld | ⟨hRun, hx⟩)
      · exact .inr hOld
      · exact .inl ⟨_, ⟨seed, hx, rfl⟩, hRun, rfl⟩

/-- A step of a process of the run. -/
theorem Scope.Covers.advance (h : sc.Covers io runId w) {p : Process δ} (hp : w.process = some p)
    (hRun : p.runId = runId) (hSafe : p.Safe) (elapsed : δ) (newHits : UInt64) :
    sc.Covers io runId
      { w.act io p (p.step elapsed newHits).1 with process := (p.step elapsed newHits).2 } := by
  have hKeeps := h.process p hp hRun
  have hStep := Scope.keeps_step hKeeps hSafe elapsed newHits
  have hSame := p.sameRun_step (h.ckRunId p hp) elapsed newHits
  generalize p.step elapsed newHits = out at hStep hSame ⊢
  have hTested : (w.act io p out.1).Tested runId =
      fun seed => w.Tested runId seed ∨ seed ∈ out.1.seeds := by
    funext seed
    rw [tested_act, hRun]
    simp
  have hMore : ∀ seed, w.Tested runId seed → (w.act io p out.1).Tested runId seed :=
    fun seed hSeed => (tested_act w p out.1 seed).mpr (.inl hSeed)
  refine ⟨?_, ?_, ?_, ?_⟩
  · intro init loaded hLoad
    cases hAction : out.1 with
    | save ck status =>
      obtain ⟨hEnd, hBefore, _⟩ := hStep.saves ck status hAction
      have hRunId := (hSame.saves ck status hAction).runId.trans hRun
      rw [hAction] at hLoad
      dsimp only [World.act] at hLoad
      rw [hRunId, Function.update_self, ← List.take_length (l := saveCheckpoint io ck)] at hLoad
      have hLength : (savedFields io ck []).length ≤ (saveCheckpoint io ck).length := by
        have hSaved := congrArg List.length (savedFields_append io ck ['\n', '}', '\n'])
        rw [List.length_append] at hSaved
        exact hSaved ▸ Nat.le_add_right _ _
      exact file_of_save sc hEnd hBefore hLength hLoad
    | none =>
      rw [hAction] at hLoad
      exact h.file init loaded hLoad
    | test seeds =>
      rw [hAction] at hLoad
      obtain ⟨hBefore, hEnd⟩ := h.file init loaded hLoad
      exact ⟨hBefore.mono (hAction ▸ hMore), hEnd⟩
  · intro r hr hRunId hCompleted
    have hOld : r ∈ w.reports → sc.Before ((w.act io p out.1).Tested runId) r.padEnd ∧ sc.isEnd r.padEnd :=
      fun hr => ⟨(h.reports r hr hRunId hCompleted).1.mono hMore, (h.reports r hr hRunId hCompleted).2⟩
    cases hAction : out.1 with
    | save ck status =>
      rw [hAction] at hr
      rcases List.mem_cons.mp hr with rfl | hr
      · obtain ⟨_, _, hAll⟩ := hStep.saves ck status hAction
        exact ⟨(hAll hCompleted).mono (hAction ▸ hMore), hKeeps.padEnd⟩
      · exact hAction ▸ hOld hr
    | none =>
      rw [hAction] at hr
      exact hAction ▸ hOld hr
    | test seeds =>
      rw [hAction] at hr
      exact hAction ▸ hOld hr
  · intro p' hp' _
    have hNext := hStep.keeps p' hp'
    rw [← hTested] at hNext
    exact hNext
  · intro p' hp'
    have hFollows := hSame.next p' hp'
    exact hFollows.ck.runId.trans hFollows.runId.symm

/-- A step of a process of another run. -/
theorem Scope.Covers.advance_other (h : sc.Covers io runId w) {p : Process δ}
    (hp : w.process = some p) (hRun : p.runId ≠ runId) (elapsed : δ) (newHits : UInt64) :
    sc.Covers io runId
      { w.act io p (p.step elapsed newHits).1 with process := (p.step elapsed newHits).2 } := by
  have hSame := p.sameRun_step (h.ckRunId p hp) elapsed newHits
  generalize p.step elapsed newHits = out at hSame ⊢
  have hTested : (w.act io p out.1).Tested runId = w.Tested runId := by
    funext seed
    rw [tested_act]
    simp [hRun]
  have hFiles : (w.act io p out.1).files runId = w.files runId := by
    cases hAction : out.1 with
    | save ck status =>
      have hOther : runId ≠ ck.runId := fun hEq =>
        hRun ((hSame.saves ck status hAction).runId.symm.trans hEq.symm)
      exact Function.update_of_ne hOther _ _
    | none => rfl
    | test seeds => rfl
  refine ⟨?_, ?_, ?_, ?_⟩
  · intro init loaded hLoad
    have hOld := h.file init loaded (hFiles ▸ hLoad)
    exact ⟨hOld.1.mono fun seed hSeed => hTested ▸ hSeed, hOld.2⟩
  · intro r hr hRunId hCompleted
    have hOld : r ∈ w.reports := by
      cases hAction : out.1 with
      | save ck status =>
        rw [hAction] at hr
        rcases List.mem_cons.mp hr with rfl | hr
        · exact absurd hRunId hRun
        · exact hr
      | none =>
        rw [hAction] at hr
        exact hr
      | test seeds =>
        rw [hAction] at hr
        exact hr
    have hReport := h.reports r hOld hRunId hCompleted
    exact ⟨hReport.1.mono fun seed hSeed => hTested ▸ hSeed, hReport.2⟩
  · intro p' hp' hRunId
    exact absurd ((hSame.next p' hp').runId.symm.trans hRunId) hRun
  · intro p' hp'
    have hFollows := hSame.next p' hp'
    exact hFollows.ck.runId.trans hFollows.runId.symm

/-- The process dies while it writes a checkpoint. -/
theorem Scope.Covers.cut (h : sc.Covers io runId w) {p : Process δ} (hp : w.process = some p)
    {elapsed : δ} {written : Nat} {ck : CheckpointState δ} {status : RunStatus}
    (hAction : (p.step elapsed 0).1 = .save ck status)
    (hCareful : p.runId = runId → p.Safe ∧ (savedFields io ck []).length ≤ written) :
    sc.Covers io runId
      { w with
        files := Function.update w.files ck.runId (some ((saveCheckpoint io ck).take written))
        process := none } := by
  refine ⟨?_, h.reports, fun _ hNone => (by cases hNone), fun _ hNone => (by cases hNone)⟩
  have hRunId := ((p.sameRun_step (h.ckRunId p hp) elapsed 0).saves ck status hAction).runId
  intro init loaded hLoad
  by_cases hRun : p.runId = runId
  · obtain ⟨hSafe, hWritten⟩ := hCareful hRun
    obtain ⟨hEnd, hBefore, _⟩ :=
      (Scope.keeps_step (h.process p hp hRun) hSafe elapsed 0).saves ck status hAction
    dsimp only at hLoad
    rw [hRunId.trans hRun, Function.update_self] at hLoad
    exact file_of_save sc hEnd hBefore hWritten hLoad
  · have hOther : runId ≠ ck.runId := fun hEq => hRun (hRunId.symm.trans hEq.symm)
    dsimp only at hLoad
    rw [Function.update_of_ne hOther] at hLoad
    exact h.file init loaded hLoad

theorem Scope.Keeps.signal {T : SeedCandidate → Prop} {p : Process δ} (h : sc.Keeps T p) :
    sc.Keeps T { p with interrupt := true } := by
  refine { h with position := ?_ }
  have hAt := h.position
  unfold Scope.At at hAt ⊢
  cases hLocation : p.location with
  | pad =>
    simp only [hLocation] at hAt ⊢
    exact hAt.imp_right fun hDone => ⟨trivial, hDone.2⟩
  | session s =>
    simp only [hLocation] at hAt ⊢
    exact hAt
  | flush off caller =>
    cases caller <;> (simp only [hLocation] at hAt ⊢; exact hAt)
  | afterPads => exact .inr rfl
  | final => exact .inr rfl

/-- A process that starts where the pads in front of it are tested. -/
theorem Started.keeps_process {s : Started δ} {opts : OrchestratorOptions} {T : SeedCandidate → Prop}
    (hPads : opts.pads = sc.pads) (hMin : opts.config.scanSessionMin = sc.scanMin)
    (hMax : opts.config.scanSessionMax = sc.scanMax) (hEnd : sc.isEnd s.padEnd)
    (hTotal : sc.isEnd s.ck.padsTotal) (hStart : sc.Before T s.padStart)
    (hSaved : sc.Before T s.ck.nextPadIndex) : sc.Keeps T (s.process opts) where
  pads := hPads
  scanMin := hMin
  scanMax := hMax
  padEnd := hEnd
  padsTotal := hTotal
  start := hStart
  saved := hSaved
  position := .inl (hStart.mono fun _ => .inl)

end Events

omit [Zero δ] in
/-- A start that resumes the run, or starts another one. -/
theorem Scope.Covers.begin {opts opts' : OrchestratorOptions} {s s' : Started δ}
    (h : (s.scope opts).Covers io runId w) (hSpec : s'.Spec sha256 io opts' w.files)
    (hContinues : s'.runId = runId → s'.resumed = true ∧ opts'.config = opts.config ∧
      opts'.padEnd = opts.padEnd ∧ opts'.backfill = opts.backfill) :
    (s.scope opts).Covers io runId (w.begin s' opts') := by
  refine ⟨h.file, h.reports, ?_, ?_⟩
  · rintro _ ⟨⟩ hRun
    obtain ⟨hResumed, hConfig, hPadEnd, hBackfill⟩ := hContinues hRun
    obtain ⟨init, loaded, hResumes⟩ := hSpec.resumes hResumed
    have hPads : opts'.pads = opts.pads := by
      unfold OrchestratorOptions.pads
      rw [hConfig]
    have hRange : opts'.rangeEnd = opts.rangeEnd := by
      unfold OrchestratorOptions.rangeEnd
      rw [hPadEnd, hPads]
    have hLoad := hResumes.load
    rw [show s'.runId = runId from hRun] at hLoad
    obtain ⟨hBefore, hEnd⟩ := h.file init loaded hLoad
    refine s'.keeps_process hPads ?_ ?_ ?_ ?_ (hResumes.padStart ▸ hBefore) (hResumes.nextPadIndex ▸ hBefore)
    · rw [hConfig]
      rfl
    · rw [hConfig]
      rfl
    · intro hMain
      rcases hResumes.padEnd (hBackfill.trans hMain) with hEq | hEq
      · exact hEq.trans hRange
      · exact hEq.trans (hEnd hMain)
    · intro hMain
      rcases hResumes.padsTotal (hBackfill.trans hMain) with hEq | hEq
      · exact hEq.trans hRange
      · exact hEq.trans (hEnd hMain)
  · rintro _ ⟨⟩
    exact hSpec.runId

omit [Zero δ] in
theorem noLoad_of_unstarted (hNew : w.Unstarted runId) (init loaded : CheckpointState δ) :
    loadCheckpoint io (w.files runId) runId init ≠ .ok loaded := by
  intro hLoad
  rw [hNew.noFile] at hLoad
  cases hLoad

omit [Zero δ] in
/-- A run without a checkpoint begins. -/
theorem begins_of_unstarted {opts : OrchestratorOptions} {s : Started δ} (hNew : w.Unstarted s.runId)
    (hSpec : s.Spec sha256 io opts w.files) : s.Begins opts := by
  refine hSpec.begins (Bool.eq_false_iff.mpr fun hResumed => ?_)
  obtain ⟨init, loaded, hResumes⟩ := hSpec.resumes hResumed
  exact noLoad_of_unstarted hNew init loaded hResumes.load

omit [Zero δ] in
/-- The first start of a run. -/
theorem covers_first {opts : OrchestratorOptions} {s : Started δ} (hNew : w.Unstarted s.runId)
    (hSpec : s.Spec sha256 io opts w.files) : (s.scope opts).Covers io s.runId (w.begin s opts) := by
  have hBegins := begins_of_unstarted hNew hSpec
  refine ⟨?_, ?_, ?_, ?_⟩
  · exact fun init loaded hLoad => absurd hLoad (noLoad_of_unstarted hNew init loaded)
  · exact fun r hr hRun => absurd hRun (hNew.noReports r hr)
  · rintro _ ⟨⟩ _
    refine s.keeps_process rfl rfl rfl hBegins.padEnd ?_ Scope.before_first ?_
    · rw [hBegins.padsTotal]
      exact hBegins.padEnd
    · rw [hBegins.nextPadIndex]
      exact Scope.before_zero
  · rintro _ ⟨⟩
    exact hSpec.runId

theorem covers_event {opts : OrchestratorOptions} {s : Started δ} {e : Event δ}
    (hContinues : Continues sha256 io opts runId e w) (hCareful : Careful io runId e w)
    (hPerform : w.perform io sha256 e = some w') (h : (s.scope opts).Covers io runId w) :
    (s.scope opts).Covers io runId w' := by
  cases e with
  | start opts' env =>
    cases hIdle : w.process with
    | some p => simp [World.perform, hIdle] at hPerform
    | none =>
      simp only [World.perform, hIdle, Option.map_eq_some_iff] at hPerform
      obtain ⟨s', hStart, rfl⟩ := hPerform
      exact h.begin (start_spec hStart) (hContinues s' hStart)
  | signal =>
    obtain ⟨p, hp, rfl⟩ := Option.map_eq_some_iff.mp hPerform
    refine ⟨h.file, h.reports, ?_, ?_⟩
    · rintro _ ⟨⟩ hRun
      exact (h.process p hp hRun).signal
    · rintro _ ⟨⟩
      exact h.ckRunId p hp
  | advance elapsed newHits =>
    obtain ⟨p, hp, rfl⟩ := Option.map_eq_some_iff.mp hPerform
    by_cases hRun : p.runId = runId
    · exact h.advance hp hRun (hCareful p hp hRun) elapsed newHits
    · exact h.advance_other hp hRun elapsed newHits
  | crash =>
    obtain ⟨p, _, rfl⟩ := Option.map_eq_some_iff.mp hPerform
    exact ⟨h.file, h.reports, fun _ hNone => (by cases hNone), fun _ hNone => (by cases hNone)⟩
  | cut elapsed written =>
    obtain ⟨p, hp, hPerform⟩ := Option.bind_eq_some_iff.mp hPerform
    split at hPerform
    · next ck status hAction =>
      cases hPerform
      refine h.cut hp hAction fun hRun => ?_
      obtain ⟨hSafe, hWritten⟩ := hCareful p hp hRun
      exact ⟨hSafe, hWritten ck status hAction⟩
    · cases hPerform

instance (P : OrchestratorOptions → Started δ → World δ → Prop)
    [∀ opts s w, Decidable (P opts s w)] (e : Event δ) (w : World δ) :
    Decidable (OfStarts sha256 io runId P e w) :=
  match e with
  | .start opts env =>
    match h : start sha256 io opts env w.files with
    | none => isTrue fun s hs => by
        rw [h] at hs
        cases hs
    | some s => decidable_of_iff (s.runId = runId → P opts s w)
        ⟨fun hs s' hs' => (Option.some.inj (h.symm.trans hs')) ▸ hs, fun hs => hs s h⟩
  | .signal | .advance _ _ | .crash | .cut _ _ => isTrue trivial

instance (opts : OrchestratorOptions) (e : Event δ) (w : World δ) :
    Decidable (Continues sha256 io opts runId e w) := by
  unfold Continues
  infer_instance

/-- A step that is safe without a look at what was tested. -/
def Process.calm (p : Process δ) : Bool :=
  match p.location with
  | .pad => !p.interrupt || p.seedBatch = []
  | .session _ => !p.interrupt
  | .flush _ caller => !p.interrupt && (p.flushPad caller + 1) % 1000 ≠ 0
  | .afterPads | .final => true

omit [Zero δ] in
theorem safe_of_calm {p : Process δ} (h : p.calm = true) : p.Safe := by
  unfold Process.calm at h
  unfold Process.Safe
  split <;> rename_i hLocation <;> simp only [hLocation] at h
  · intro _ hInterrupt
    simpa [hInterrupt] using h
  · intro _ hInterrupt
    simp [hInterrupt] at h
  · simp only [Bool.and_eq_true, Bool.not_eq_true', ne_eq, decide_eq_true_eq] at h
    refine ⟨fun _ hInterrupt => ?_, fun _ hPeriod => absurd hPeriod h.2⟩
    rw [h.1] at hInterrupt
    cases hInterrupt
  · trivial
  · trivial

/-- An event that resumes the run and takes a calm step. -/
def calmEvent (sha256 : Text → Fin 32 → UInt8) (io : DoubleIo δ) (opts : OrchestratorOptions)
    (runId : Text) (e : Event δ) (w : World δ) : Bool :=
  decide (Continues sha256 io opts runId e w) &&
    match e with
    | .advance _ _ => w.process.all Process.calm
    | .cut _ _ => false
    | .start _ _ | .signal | .crash => true

theorem careful_of_calmEvent {opts : OrchestratorOptions} {e : Event δ}
    (h : calmEvent sha256 io opts runId e w = true) :
    Continues sha256 io opts runId e w ∧ Careful io runId e w := by
  unfold calmEvent at h
  rw [Bool.and_eq_true, decide_eq_true_eq] at h
  refine ⟨h.1, ?_⟩
  cases e with
  | advance elapsed newHits =>
    intro p hp _
    have hCalm := h.2
    simp only [hp, Option.all_some] at hCalm
    exact safe_of_calm hCalm
  | cut elapsed written => exact absurd h.2 (by simp)
  | start opts env => trivial
  | signal => trivial
  | crash => trivial

end Resumed

/-! ## Scans of two pads -/

def zeroDigest (_ : Text) (_ : Fin 32) : UInt8 := 0

def idleWorld : World Nat where
  files _ := none
  process := none
  tests := []
  warnings := []
  reports := []

theorem unstarted_idleWorld (runId : Text) : idleWorld.Unstarted runId where
  idle := rfl
  noFile := rfl
  noTests := by simp [idleWorld]
  noWarnings := by simp [idleWorld]
  noReports := by simp [idleWorld]

/-- Two pads with one session each. -/
def twoPads : OrchestratorOptions where
  config := { scanSessionMin := 8, scanSessionMax := 8 }
  padEnd := 2

/-- The victims have one address. The run is found again as soon as it has a checkpoint. -/
def oneRun : Surroundings where
  victimRows := [some (ascii "bc1qar0srrr7xfkvy5l643lydnw9re59gtzzwf5mdq")]
  latestMainResumable := some ['r']
  latestBackfillResumable := none
  newRunId := ['r']
  confirmed := false

def steps (n : Nat) : List (Event Nat) := List.replicate n (.advance 0 0)

def firstStart : Option (Started Nat) :=
  start zeroDigest wholeSeconds twoPads oneRun idleWorld.files

/-- What follows the first start, where every event is admitted. -/
def scanFrom (sha256 : Text → Fin 32 → UInt8) (opts : OrchestratorOptions)
    (started : Option (Started Nat)) (check : Text → Event Nat → World Nat → Bool)
    (events : List (Event Nat)) : Option (Started Nat × World Nat) :=
  started.bind fun s =>
    (Machine.replay (World.perform wholeSeconds sha256) (check s.runId) events
      (idleWorld.begin s opts)).map (Prod.mk s)

theorem exists_scan {α : Type} {sha256 : Text → Fin 32 → UInt8} {opts : OrchestratorOptions}
    {started : Option (Started Nat)} {check : Text → Event Nat → World Nat → Bool}
    {events : List (Event Nat)} {observed : Started Nat × World Nat → α} {seen : α}
    (h : (scanFrom sha256 opts started check events).map observed = some seen) :
    ∃ s w, started = some s ∧ Machine.replay (World.perform wholeSeconds sha256) (check s.runId)
      events (idleWorld.begin s opts) = some w ∧ observed (s, w) = seen := by
  obtain ⟨x, hx, rfl⟩ := Option.map_eq_some_iff.mp h
  obtain ⟨s, hStart, hx⟩ := Option.bind_eq_some_iff.mp hx
  obtain ⟨w, hReplay, rfl⟩ := Option.map_eq_some_iff.mp hx
  exact ⟨s, w, hStart, hReplay, rfl⟩

/-- What a scan is seen to do. -/
structure Observed where
  runId : Text
  padStart : UInt64
  reports : List Report
  seeds : List SeedCandidate
  deriving DecidableEq

def observed (x : Started Nat × World Nat) : Observed :=
  ⟨x.1.runId, x.1.padStart, x.2.reports, x.2.tests.map Test.seed⟩

/-! ## Every run that is resumed -/

section

variable {δ : Type} [Zero δ] {sha256 : Text → Fin 32 → UInt8} {io : DoubleIo δ} {w : World δ}

/-- A run that is resumed any number of times, with safe steps: once it is reported as completed all of
its seeds are tested, and no checkpoint is ahead of the pads that are tested. -/
theorem covered_of_resumed {w₀ : World δ} {opts : OrchestratorOptions} {env : Surroundings}
    {s : Started δ} (hNew : w₀.Unstarted s.runId) (hStart : start sha256 io opts env w₀.files = some s)
    (hRun : Machine.Run (World.perform io sha256)
      (fun e w => Continues sha256 io opts s.runId e w ∧ Careful io s.runId e w) (w₀.begin s opts) w) :
    (∀ r ∈ w.reports, r.runId = s.runId → r.status = .completed →
      (s.scope opts).Before (w.Tested s.runId) r.padEnd ∧
        (opts.backfill = false → r.padEnd = opts.rangeEnd)) ∧
    ∀ init loaded, loadCheckpoint io (w.files s.runId) s.runId init = .ok loaded →
      (s.scope opts).Before (w.Tested s.runId) loaded.nextPadIndex := by
  have hCovers : (s.scope opts).Covers io s.runId w :=
    hRun.invariant (fun e t t' hGuard hPerform => covers_event hGuard.1 hGuard.2 hPerform)
      (covers_first hNew (start_spec hStart))
  exact ⟨hCovers.reports, fun init loaded hLoad => (hCovers.file init loaded hLoad).1⟩

end

/-- A scan that is interrupted at its start and resumed. -/
theorem covered_twoPads : ∃ (s : Started Nat) (w : World Nat),
    (∃ r ∈ w.reports, r.runId = s.runId ∧ r.status = .completed) ∧
    (∀ r ∈ w.reports, r.runId = s.runId → r.status = .completed →
      (s.scope twoPads).Before (w.Tested s.runId) r.padEnd ∧
        (twoPads.backfill = false → r.padEnd = twoPads.rangeEnd)) ∧
    ∀ init loaded, loadCheckpoint wholeSeconds (w.files s.runId) s.runId init = .ok loaded →
      (s.scope twoPads).Before (w.Tested s.runId) loaded.nextPadIndex := by
  have hScan : (scanFrom zeroDigest twoPads firstStart (calmEvent zeroDigest wholeSeconds twoPads)
      (.signal :: steps 3 ++ .start twoPads oneRun :: steps 11)).map observed =
      some ⟨['r'], 0, [⟨['r'], 2, .completed, 2⟩, ⟨['r'], 0, .interrupted, 2⟩,
        ⟨['r'], 0, .interrupted, 2⟩], [⟨0, 8⟩, ⟨1, 8⟩]⟩ := by decide +kernel
  obtain ⟨s, w, hStart, hReplay, hSeen⟩ := exists_scan hScan
  have hRun := Machine.run_of_replay (fun e w => careful_of_calmEvent) hReplay
  simp only [observed, Observed.mk.injEq] at hSeen
  refine ⟨s, w, ?_, covered_of_resumed (unstarted_idleWorld s.runId) hStart hRun⟩
  rw [hSeen.2.2.1, hSeen.1]
  exact ⟨_, List.mem_cons_self, rfl, rfl⟩

/-- The scan is interrupted between its pads, and the seed of the first one is never tested. -/
theorem scan_skips_pad : ¬ ∀ (w₀ w : World Nat) (opts : OrchestratorOptions) (env : Surroundings)
    (s : Started Nat), w₀.Unstarted s.runId →
    start zeroDigest wholeSeconds opts env w₀.files = some s →
    Machine.Run (World.perform wholeSeconds zeroDigest) (Continues zeroDigest wholeSeconds opts s.runId)
      (w₀.begin s opts) w →
    (∀ r ∈ w.reports, r.runId = s.runId → r.status = .completed →
      (s.scope opts).Before (w.Tested s.runId) r.padEnd) ∧
    ∀ init loaded, loadCheckpoint wholeSeconds (w.files s.runId) s.runId init = .ok loaded →
      (s.scope opts).Before (w.Tested s.runId) loaded.nextPadIndex := by
  intro h
  have hScan : (scanFrom zeroDigest twoPads firstStart
      (fun runId e w => decide (Continues zeroDigest wholeSeconds twoPads runId e w))
      (steps 3 ++ .signal :: steps 3 ++ .start twoPads oneRun :: steps 8)).map observed =
      some ⟨['r'], 0, [⟨['r'], 2, .completed, 2⟩, ⟨['r'], 1, .interrupted, 2⟩,
        ⟨['r'], 1, .interrupted, 2⟩], [⟨1, 8⟩]⟩ := by decide +kernel
  obtain ⟨s, w, hStart, hReplay, hSeen⟩ := exists_scan hScan
  have hRun := Machine.run_of_replay (fun e w => of_decide_eq_true) hReplay
  simp only [observed, Observed.mk.injEq] at hSeen
  obtain ⟨hRunId, hPadStart, hReports, hTests⟩ := hSeen
  have hCompleted : (⟨['r'], 2, .completed, 2⟩ : Report) ∈ w.reports := hReports ▸ List.mem_cons_self
  have hAll := (h idleWorld w twoPads oneRun s (unstarted_idleWorld s.runId) hStart hRun).1 _
    hCompleted hRunId.symm rfl
  -- the seed of the first pad
  have hFirst : (s.scope twoPads).first ≤ 0 := by
    rw [show (s.scope twoPads).first = 0 from hPadStart]
    decide
  have hAccepted : twoPads.pads.passesFilter (twoPads.pads.at 0) = true := by decide
  have hMin : twoPads.config.scanSessionMin ≤ 8 := by decide
  have hMax : 8 ≤ twoPads.config.scanSessionMax := by decide
  obtain ⟨t, ht, _, hSeed⟩ := hAll 0 hFirst (by decide) hAccepted 8 hMin hMax
  have hMem : t.seed ∈ w.tests.map Test.seed := List.mem_map_of_mem ht
  rw [hTests, hSeed, List.mem_singleton] at hMem
  have hOther : (⟨twoPads.pads.at 0, 8⟩ : SeedCandidate) ≠ ⟨1, 8⟩ := by decide
  exact hOther hMem

end Bloodhound.Scanner
