import Bloodhound.Scanner.Coverage

/-!
# What resumed scans are tested against

A checkpoint keeps the hashes of the victims and of the configuration of the run that saved it. A start
overwrites the first one before it compares them, and compares the second one only where it is there and
was not loaded by `--fresh --resume`. Where a resumption that does not compare finds its own hashes in
the checkpoint, all the seeds of a run are tested against the same ones (`tested_alike`).
-/

namespace Bloodhound.Scanner

/-! ## The strings of a checkpoint -/

section Strings

variable {δ : Type} (io : DoubleIo δ) (ck : CheckpointState δ)

theorem findStr_configHash (rest : Text) :
    findStr (savedFields io ck rest) "config_hash" = some (readBack ck.configHash) := by
  unfold findStr
  simp (disch := decide) only [savedFields, after_plain, after_line, after_stringValue, after_line_string,
    Option.map_some, Text.readUpTo_append]
  rfl

theorem findStr_victimHash (rest : Text) :
    findStr (savedFields io ck rest) "victim_snapshot_hash" = some (readBack ck.victimSnapshotHash) := by
  unfold findStr
  simp (disch := first | decide | exact noQuote_printUInt64 _ | exact io.print_noQuote _) only
    [savedFields, after_plain, after_line, after_stringValue, after_numberValue, after_line_string,
      Option.map_some, Text.readUpTo_append]
  rfl

/-- A string in the first characters of a file is the first part of one in the file. -/
theorem findStr_take {content x y : Text} {key : String} {k : Nat}
    (h : findStr (content.take k) key = some x) (hAll : findStr content key = some y) : x <+: y := by
  obtain ⟨r, hFound, rfl⟩ := Option.map_eq_some_iff.mp h
  have hWhole := Text.after_append hFound (content.drop k)
  rw [List.take_append_drop] at hWhole
  unfold findStr at hAll
  rw [hWhole, Option.map_some] at hAll
  exact Option.some.inj hAll ▸ Text.readUpTo_prefix '"' r _

end Strings

/-- A hash is no part of another one. -/
theorem hash_eq_of_prefix {sha256 : Text → Fin 32 → UInt8} {a b : Text}
    (h : sha256Hex sha256 a <+: readBack (sha256Hex sha256 b)) : sha256Hex sha256 a = sha256Hex sha256 b := by
  rw [(readBack_eq_iff _).mpr (clean_sha256Hex sha256 b)] at h
  exact h.eq_of_length (by rw [length_sha256Hex, length_sha256Hex])

/-! ## Runs -/

section Alike

variable {δ : Type} [Zero δ] (sha256 : Text → Fin 32 → UInt8) (io : DoubleIo δ)

/-- What `find_str` finds in the checkpoint of a run. -/
def stored (files : Text → Option Text) (runId : Text) (key : String) : Option Text :=
  (files runId).bind (findStr · key)

/-- A start of the run resumes it. -/
def Resumes (runId : Text) : Event δ → World δ → Prop :=
  OfStarts sha256 io runId fun _ s _ => s.resumed = true

/-- What is not compared agrees: the hash of the victims, and the hash of the configuration where a start
is fresh or the checkpoint has none. -/
def Agrees (runId : Text) : Event δ → World δ → Prop :=
  OfStarts sha256 io runId fun opts s w =>
    stored w.files runId "victim_snapshot_hash" = some s.victimHash ∧
      (opts.fresh = true ∨ stored w.files runId "config_hash" = some [] →
        stored w.files runId "config_hash" = some s.configHash)

/-- A checkpoint with the hashes of a run; the one of the configuration is left out by a scan that saves
nothing before its end. -/
structure Hashed (v c : Text) (ck : CheckpointState δ) : Prop where
  victimHash : ck.victimSnapshotHash = v
  configHash : ck.configHash = c ∨ ck.configHash = []

structure Process.HasHashes (v c : Text) (p : Process δ) : Prop where
  victimHash : p.victimHash = v
  configHash : p.configHash = c
  ck : Hashed v c p.ck

structure Alike (runId v c : Text) (w : World δ) : Prop where
  tests : ∀ t ∈ w.tests, t.runId = runId → t.victimHash = v ∧ t.configHash = c
  file : ∀ content, w.files runId = some content → ∃ ck k, content = (saveCheckpoint io ck).take k ∧
    Hashed v c ck
  process : ∀ p, w.process = some p → p.runId = runId → p.HasHashes v c
  ckRunId : ∀ p, w.process = some p → p.ck.runId = p.runId

/-- Nothing was printed about the run. -/
def Quiet (runId : Text) (w : World δ) : Prop := ∀ x ∈ w.warnings, x.1 ≠ runId

variable {sha256 io} {runId v c : Text} {w w' : World δ}

section Events

omit [Zero δ]

theorem warnings_act (w : World δ) (p : Process δ) (action : Action δ) :
    (w.act io p action).warnings = w.warnings := by
  cases action <;> rfl

theorem Hashed.of_signed {p : Process δ} {ck : CheckpointState δ} (h : p.HasHashes v c)
    (hSigned : p.Signed ck) : Hashed v c ck where
  victimHash := hSigned.victimHash.elim (·.trans h.victimHash) (·.trans h.ck.victimHash)
  configHash := by
    rcases hSigned.configHash with hEq | hEq
    · exact .inl (hEq.trans h.configHash)
    · exact h.ck.configHash.imp hEq.trans hEq.trans

/-- A checkpoint of some run is written, as a whole or in part. -/
theorem Alike.file_update (h : Alike io runId v c w) {p : Process δ} (hp : w.process = some p)
    {ck : CheckpointState δ} (hSigned : p.Signed ck) (k : Nat) {content : Text}
    (hContent : Function.update w.files ck.runId (some ((saveCheckpoint io ck).take k)) runId =
      some content) :
    ∃ ck k, content = (saveCheckpoint io ck).take k ∧ Hashed v c ck := by
  by_cases hRun : runId = ck.runId
  · subst hRun
    rw [Function.update_self] at hContent
    have hHashes := h.process p hp hSigned.runId.symm
    exact ⟨ck, k, (Option.some.inj hContent).symm, Hashed.of_signed hHashes hSigned⟩
  · rw [Function.update_of_ne hRun] at hContent
    exact h.file content hContent

theorem Alike.advance (h : Alike io runId v c w) {p : Process δ} (hp : w.process = some p)
    (elapsed : δ) (newHits : UInt64) :
    Alike io runId v c
      { w.act io p (p.step elapsed newHits).1 with process := (p.step elapsed newHits).2 } := by
  have hSame := p.sameRun_step (h.ckRunId p hp) elapsed newHits
  generalize p.step elapsed newHits = out at hSame ⊢
  refine ⟨?_, ?_, ?_, ?_⟩
  · intro t ht hRun
    cases hAction : out.1 with
    | none =>
      rw [hAction] at ht
      exact h.tests t ht hRun
    | save ck status =>
      rw [hAction] at ht
      exact h.tests t ht hRun
    | test seeds =>
      rw [hAction] at ht
      rcases List.mem_append.mp ht with hNew | hOld
      · obtain ⟨seed, _, rfl⟩ := List.mem_map.mp hNew
        have hHashes := h.process p hp hRun
        exact ⟨hHashes.victimHash, hHashes.configHash⟩
      · exact h.tests t hOld hRun
  · intro content hContent
    cases hAction : out.1 with
    | none =>
      rw [hAction] at hContent
      exact h.file content hContent
    | test seeds =>
      rw [hAction] at hContent
      exact h.file content hContent
    | save ck status =>
      rw [hAction] at hContent
      dsimp only [World.act] at hContent
      rw [← List.take_length (l := saveCheckpoint io ck)] at hContent
      exact h.file_update hp (hSame.saves ck status hAction) _ hContent
  · intro p' hp' hRun
    have hFollows := hSame.next p' hp'
    have hHashes := h.process p hp (hFollows.runId.symm.trans hRun)
    exact ⟨hFollows.victimHash.trans hHashes.victimHash, hFollows.configHash.trans hHashes.configHash,
      Hashed.of_signed hHashes hFollows.ck⟩
  · intro p' hp'
    have hFollows := hSame.next p' hp'
    exact hFollows.ck.runId.trans hFollows.runId.symm

/-- A resumption that prints nothing has the hashes of the run. -/
theorem hasHashes_of_resumes {opts : OrchestratorOptions} {s : Started δ} {init loaded : CheckpointState δ}
    {dv dc : Text} (h : Alike io s.runId (sha256Hex sha256 dv) (sha256Hex sha256 dc) w)
    (hSpec : s.Spec sha256 io opts w.files) (hResumes : s.Resumes io opts w.files init loaded)
    (hVictims : stored w.files s.runId "victim_snapshot_hash" = some s.victimHash)
    (hConfig : opts.fresh = true ∨ stored w.files s.runId "config_hash" = some [] →
      stored w.files s.runId "config_hash" = some s.configHash) (hQuiet : s.warnings = []) :
    (s.process opts).HasHashes (sha256Hex sha256 dv) (sha256Hex sha256 dc) := by
  obtain ⟨content, hFile, hLoaded, hLoadedVictims⟩ := (loadCheckpoint_fields hResumes.load).strings
  obtain ⟨ck, k, rfl, hHashed⟩ := h.file content hFile
  unfold stored at hVictims hConfig
  rw [hFile, Option.bind_some] at hVictims hConfig
  -- the hashes of the start are those of the file
  have hSameConfig : loaded.configHash = s.configHash := by
    by_cases hSkipped : opts.fresh = true ∨ loaded.configHash = []
    · have hStored := hConfig (hSkipped.imp_right fun hNil => by rw [hLoaded, hNil])
      exact Option.some.inj (hLoaded.symm.trans hStored)
    · obtain ⟨hFresh, hSome⟩ := not_or.mp hSkipped
      by_contra hOther
      exact hResumes.compared (Bool.eq_false_iff.mpr hFresh) hSome hOther hQuiet
  obtain ⟨victims, hVictimHash⟩ := hSpec.victimHash
  obtain ⟨config, hConfigHash⟩ := hSpec.configHash
  have hVictimsEq : s.victimHash = sha256Hex sha256 dv := by
    have hPrefix := findStr_take hVictims (findStr_victimHash io ck _)
    rw [hHashed.victimHash, hVictimHash] at hPrefix
    rw [hVictimHash]
    exact hash_eq_of_prefix hPrefix
  have hConfigEq : s.configHash = sha256Hex sha256 dc := by
    have hPrefix := findStr_take hLoaded (findStr_configHash io ck _)
    rw [hSameConfig, hConfigHash] at hPrefix
    rcases hHashed.configHash with hEq | hNil
    · rw [hEq] at hPrefix
      rw [hConfigHash]
      exact hash_eq_of_prefix hPrefix
    · rw [hNil] at hPrefix
      exact absurd (List.prefix_nil.mp hPrefix) (sha256Hex_ne_nil sha256 config)
  refine ⟨hVictimsEq, hConfigEq, ?_, .inl ?_⟩
  · rcases hResumes.victimHash with hEq | ⟨hEq, _⟩
    · exact hEq.trans hVictimsEq
    · have hFound : loaded.victimSnapshotHash = s.victimHash := by
        rw [hLoadedVictims, hVictims]
        rfl
      exact hEq.trans (hFound.trans hVictimsEq)
  · exact hResumes.configHash.trans (hSameConfig.trans hConfigEq)

end Events

/-- Without a warning, an event keeps the hashes of the run. -/
theorem alike_event {dv dc : Text} {e : Event δ} (hResumes : Resumes sha256 io runId e w)
    (hAgrees : Agrees sha256 io runId e w) (hPerform : w.perform io sha256 e = some w')
    (h : Quiet runId w → Alike io runId (sha256Hex sha256 dv) (sha256Hex sha256 dc) w)
    (hQuiet : Quiet runId w') : Alike io runId (sha256Hex sha256 dv) (sha256Hex sha256 dc) w' := by
  cases e with
  | start opts env =>
    cases hIdle : w.process with
    | some p => simp [World.perform, hIdle] at hPerform
    | none =>
      simp only [World.perform, hIdle, Option.map_eq_some_iff] at hPerform
      obtain ⟨s, hStart, rfl⟩ := hPerform
      have hOld := h fun x hx => hQuiet x (List.mem_append_right _ hx)
      have hSpec := start_spec hStart
      refine ⟨hOld.tests, hOld.file, ?_, ?_⟩
      · rintro _ ⟨⟩ hRun
        obtain rfl : s.runId = runId := hRun
        obtain ⟨init, loaded, hLoaded⟩ := hSpec.resumes (hResumes s hStart rfl)
        obtain ⟨hVictims, hConfig⟩ := hAgrees s hStart rfl
        refine hasHashes_of_resumes hOld hSpec hLoaded hVictims hConfig ?_
        refine List.eq_nil_iff_forall_not_mem.mpr fun warning hWarning => ?_
        exact hQuiet (s.runId, warning) (List.mem_append_left _ (List.mem_map_of_mem hWarning)) rfl
      · rintro _ ⟨⟩
        exact hSpec.runId
  | signal =>
    obtain ⟨p, hp, rfl⟩ := Option.map_eq_some_iff.mp hPerform
    have hOld := h hQuiet
    refine ⟨hOld.tests, hOld.file, ?_, ?_⟩
    · rintro _ ⟨⟩ hRun
      have hHashes := hOld.process p hp hRun
      exact ⟨hHashes.victimHash, hHashes.configHash, hHashes.ck⟩
    · rintro _ ⟨⟩
      exact hOld.ckRunId p hp
  | advance elapsed newHits =>
    obtain ⟨p, hp, rfl⟩ := Option.map_eq_some_iff.mp hPerform
    refine (h ?_).advance hp elapsed newHits
    intro x hx
    refine hQuiet x ?_
    show x ∈ (w.act io p (p.step elapsed newHits).1).warnings
    rw [warnings_act]
    exact hx
  | crash =>
    obtain ⟨p, _, rfl⟩ := Option.map_eq_some_iff.mp hPerform
    have hOld := h hQuiet
    exact ⟨hOld.tests, hOld.file, fun _ hNone => (by cases hNone), fun _ hNone => (by cases hNone)⟩
  | cut elapsed written =>
    obtain ⟨p, hp, hPerform⟩ := Option.bind_eq_some_iff.mp hPerform
    split at hPerform
    · next ck status hAction =>
      cases hPerform
      have hOld := h hQuiet
      have hSigned := (p.sameRun_step (hOld.ckRunId p hp) elapsed 0).saves ck status hAction
      refine ⟨hOld.tests, ?_, fun _ hNone => (by cases hNone), fun _ hNone => (by cases hNone)⟩
      exact fun content hContent => hOld.file_update hp hSigned written hContent
    · cases hPerform

omit [Zero δ] in
/-- The first start of a run. -/
theorem alike_first {opts : OrchestratorOptions} {s : Started δ} (hNew : w.Unstarted s.runId)
    (hSpec : s.Spec sha256 io opts w.files) :
    Alike io s.runId s.victimHash s.configHash (w.begin s opts) := by
  have hBegins := begins_of_unstarted hNew hSpec
  refine ⟨?_, ?_, ?_, ?_⟩
  · exact fun t ht hRun => absurd hRun (hNew.noTests t ht)
  · intro content hContent
    exact absurd (hNew.noFile.symm.trans hContent) (by simp)
  · rintro _ ⟨⟩ _
    exact ⟨rfl, rfl, hBegins.victimHash, .inr hBegins.configHash⟩
  · rintro _ ⟨⟩
    exact hSpec.runId

instance (e : Event δ) (w : World δ) : Decidable (Resumes sha256 io runId e w) := by
  unfold Resumes
  infer_instance

instance (e : Event δ) (w : World δ) : Decidable (Agrees sha256 io runId e w) := by
  unfold Agrees
  infer_instance

instance (w : World δ) : Decidable (Quiet runId w) := by
  unfold Quiet
  infer_instance

end Alike

/-! ## A scan of two pads, one at a time -/

/-- A digest that tells texts apart by their lengths. -/
def lengthDigest (data : Text) (_ : Fin 32) : UInt8 := UInt8.ofNat data.length

def onePadAtATime : OrchestratorOptions :=
  { twoPads with config := { scanSessionMin := 8, scanSessionMax := 8, baseBatchSeeds := 1 } }

/-- The database of the victims has one more. -/
def anotherVictim : Surroundings :=
  { oneRun with
    victimRows := oneRun.victimRows ++ [some (ascii "bc1qw9gqxkrjdugnpjmq04pl3hzvaufjgtup3j85fv")] }

def startOf (env : Surroundings) : Option (Started Nat) :=
  start lengthDigest wholeSeconds onePadAtATime env idleWorld.files

/-- The first pad is tested, the scan is interrupted and goes on with the second pad. -/
def interruptedAfterPad (env : Surroundings) : List (Event Nat) :=
  steps 5 ++ .signal :: steps 3 ++ .start onePadAtATime env :: steps 8

/-- What a scan is seen to test. -/
structure ObservedTests where
  reported : Bool
  quiet : Bool
  victimHashes : List Text
  deriving DecidableEq

def observedTests (x : Started Nat × World Nat) : ObservedTests where
  reported := x.2.reports.any fun r => r.runId = x.1.runId && r.status = .completed
  quiet := decide (Quiet x.1.runId x.2)
  victimHashes := (x.2.tests.filter fun t => t.runId = x.1.runId).map Test.victimHash

section

variable {δ : Type} [Zero δ] {sha256 : Text → Fin 32 → UInt8} {io : DoubleIo δ} {w : World δ}

/-- A run that is resumed any number of times without a warning, where what is not compared agrees: all
of its seeds are tested against the same victims, with the same configuration. -/
theorem tested_alike {w₀ : World δ} {opts : OrchestratorOptions} {env : Surroundings} {s : Started δ}
    (hNew : w₀.Unstarted s.runId) (hStart : start sha256 io opts env w₀.files = some s)
    (hRun : Machine.Run (World.perform io sha256)
      (fun e w => Resumes sha256 io s.runId e w ∧ Agrees sha256 io s.runId e w) (w₀.begin s opts) w)
    (hQuiet : Quiet s.runId w) :
    ∀ t ∈ w.tests, t.runId = s.runId → t.victimHash = s.victimHash ∧ t.configHash = s.configHash := by
  have hSpec := start_spec hStart
  have hFirst := alike_first hNew hSpec
  obtain ⟨dv, hVictims⟩ := hSpec.victimHash
  obtain ⟨dc, hConfig⟩ := hSpec.configHash
  rw [hVictims, hConfig] at hFirst ⊢
  have hAlike : Quiet s.runId w →
      Alike io s.runId (sha256Hex sha256 dv) (sha256Hex sha256 dc) w :=
    hRun.invariant (fun e t t' hGuard hPerform => alike_event hGuard.1 hGuard.2 hPerform)
      (fun _ => hFirst)
  exact (hAlike hQuiet).tests

end

/-- The scan goes on with the victims that it started with. -/
theorem tested_alike_twoPads : ∃ (s : Started Nat) (w : World Nat), Quiet s.runId w ∧
    (∃ r ∈ w.reports, r.runId = s.runId ∧ r.status = .completed) ∧
    ∀ t ∈ w.tests, t.runId = s.runId → t.victimHash = s.victimHash ∧ t.configHash = s.configHash := by
  have hScan : ((scanFrom lengthDigest onePadAtATime (startOf oneRun)
      (fun runId e w => decide (Resumes lengthDigest wholeSeconds runId e w ∧
        Agrees lengthDigest wholeSeconds runId e w))
      (interruptedAfterPad oneRun)).map observedTests).map (fun o => (o.reported, o.quiet)) =
      some (true, true) := by decide +kernel
  rw [Option.map_map] at hScan
  obtain ⟨s, w, hStart, hReplay, hSeen⟩ := exists_scan hScan
  have hRun := Machine.run_of_replay (fun e w => of_decide_eq_true) hReplay
  obtain ⟨hReported, hQuiet⟩ := Prod.mk.inj hSeen
  have hQuiet : Quiet s.runId w := of_decide_eq_true hQuiet
  refine ⟨s, w, hQuiet, ?_, tested_alike (unstarted_idleWorld s.runId) hStart hRun hQuiet⟩
  obtain ⟨r, hr, hCompleted⟩ := List.any_eq_true.mp hReported
  exact ⟨r, hr, by simpa using hCompleted⟩

/-- The scan goes on with a victim more, and nothing is printed. -/
theorem victims_change_unseen : ¬ ∀ (w₀ w : World Nat) (opts : OrchestratorOptions) (env : Surroundings)
    (s : Started Nat), w₀.Unstarted s.runId →
    start lengthDigest wholeSeconds opts env w₀.files = some s →
    Machine.Run (World.perform wholeSeconds lengthDigest) (Resumes lengthDigest wholeSeconds s.runId)
      (w₀.begin s opts) w →
    (∃ r ∈ w.reports, r.runId = s.runId ∧ r.status = .completed) → Quiet s.runId w →
    ∃ v c, ∀ t ∈ w.tests, t.runId = s.runId → t.victimHash = v ∧ t.configHash = c := by
  intro h
  have hScan : ((scanFrom lengthDigest onePadAtATime (startOf oneRun)
      (fun runId e w => decide (Resumes lengthDigest wholeSeconds runId e w))
      (interruptedAfterPad anotherVictim)).map observedTests).map
        (fun o => (o.reported, o.quiet, decide (o.victimHashes.head? = o.victimHashes.getLast?))) =
      some (true, true, false) := by decide +kernel
  rw [Option.map_map] at hScan
  obtain ⟨s, w, hStart, hReplay, hSeen⟩ := exists_scan hScan
  have hRun := Machine.run_of_replay (fun e w => of_decide_eq_true) hReplay
  simp only [Function.comp_apply, Prod.mk.injEq] at hSeen
  obtain ⟨hReported, hQuiet, hDiffer⟩ := hSeen
  obtain ⟨r, hr, hCompleted⟩ := List.any_eq_true.mp hReported
  obtain ⟨v, c, hAlike⟩ := h idleWorld w onePadAtATime oneRun s (unstarted_idleWorld s.runId) hStart hRun
    ⟨r, hr, by simpa using hCompleted⟩ (of_decide_eq_true hQuiet)
  -- the first and the last hash would be the same
  have hAll : ∀ x ∈ (observedTests (s, w)).victimHashes, x = v := by
    intro x hx
    obtain ⟨t, ht, rfl⟩ := List.mem_map.mp hx
    obtain ⟨hMem, hRunId⟩ := List.mem_filter.mp ht
    exact (hAlike t hMem (of_decide_eq_true hRunId)).1
  refine of_decide_eq_false hDiffer ?_
  cases hHashes : (observedTests (s, w)).victimHashes with
  | nil => rfl
  | cons x xs =>
    rw [hHashes] at hAll
    have hLast := hAll _ (List.getLast_mem (List.cons_ne_nil x xs))
    rw [List.getLast?_eq_some_getLast (List.cons_ne_nil x xs), hLast, List.head?_cons,
      hAll x List.mem_cons_self]

end Bloodhound.Scanner
