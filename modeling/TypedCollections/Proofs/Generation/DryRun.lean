import TypedCollections.Proofs.Generation.Writing

/-!
Dry runs. A dry run does what checking the schema does, and a job that writes does the same before it
writes anything; so a dry run fails as the job would that cannot load its schema, and tells what the
job would tell that succeeds. What it tells of the files is known before any of them is written: one
for each collection and the index, all in the output directory and each in a place of its own.
-/

namespace TypedCollections.Job

open FileTree (LiesIn)

/-- The same job, which only says what it would write. -/
def dry (job : Job) : Job := { job with dryRun := true }

/-- The same job, which writes its files. -/
def wet (job : Job) : Job := { job with dryRun := false }

/-- What an outcome tells of a schema, and of where its files go. -/
structure Tells (job : Job) (s : Schema) (outcome : Outcome) : Prop where
  dialect : outcome.dialect = s.dialect
  collections : outcome.collections = s.collections.length
  fields : outcome.fields = s.fieldCount
  warnings : outcome.warnings = s.warnings
  length : outcome.files.length = outcome.collections + 1
  separate : (outcome.files.map Path.steps).Nodup
  inside : ∀ path ∈ outcome.files, LiesIn path job.outDir

variable {job : Job} {files : List SourceFile} {t : FileTree} {s : Schema}

theorem steps_pathOf (hfiles : Separate files) : ((files.map job.pathOf).map Path.steps) =
    (files.map SourceFile.name).map fun name => Path.steps job.outDir ++ [name] := by
  rw [List.map_map, List.map_map]
  exact List.map_congr_left fun f hf => Path.steps_join job.outDir (hfiles.names f hf)

/-- Files with names of their own have places of their own in the output directory. -/
theorem tells_outcome {options : LoadOptions} {path : String} {bytes : Bytes}
    (h : Compiler.load options path bytes = .ok s) (job : Job) :
    job.Tells s (job.outcome s (s.files job.runtime)) where
  dialect := rfl
  collections := rfl
  fields := rfl
  warnings := rfl
  length := by
    simp [outcome, Outcome.of, Schema.files]
  separate := by
    have hfiles := Schema.separate_files_of_load h job.runtime
    have hinjective : Function.Injective fun name => Path.steps job.outDir ++ [name] :=
      fun a b heq => by simpa using heq
    simp only [outcome, Outcome.of, steps_pathOf hfiles]
    exact hfiles.distinct.map hinjective
  inside := by
    intro path hpath
    obtain ⟨f, hf, rfl⟩ := List.mem_map.mp hpath
    exact FileTree.liesIn_join job.outDir
      ((Schema.separate_files_of_load h job.runtime).names f hf)

section

variable {store : FileStore (StateM FileTree)} (hstore : store.Lawful)

include hstore

theorem perform_run_error {e : Diagnostic} (h : (t.perform job.check).1 = .error e) :
    t.perform job.run = (.error e, t) :=
  perform_runWith_error hstore h _

/-- A dry run that loads its schema tells all of its files. -/
theorem perform_run_dry (h : (t.perform job.check).1 = .ok s) :
    t.perform job.dry.run = (.ok (job.outcome s (s.files job.runtime)), t) := by
  have hcheck : t.perform job.dry.check = (.ok s, t) :=
    Prod.ext h (perform_check hstore job t).1
  unfold run runWith
  rw [FileTree.perform_bind, hcheck]
  rfl

/-- A job that succeeds has written all of its files, and tells them. -/
theorem outcome_of_run_wet {outcome : Outcome} (h : (t.perform job.check).1 = .ok s)
    (hrun : (t.perform job.wet.run).1 = .ok outcome) :
    outcome = job.outcome s (s.files job.runtime) := by
  obtain ⟨bytes, -, hload⟩ := (perform_check hstore job t).2 s h
  obtain ⟨written, -, -, hends⟩ :=
    runWith_stores hstore (fun s => .ok (s.files job.runtime)) (rfl : job.wet.dryRun = false) h rfl
      (Schema.separate_files_of_load hload job.runtime)
  change job.wet.Ends store s _ written t (t.perform job.wet.run).1 at hends
  rw [hrun] at hends
  cases hends
  rfl

/-- A dry run predicts the job. Neither it nor checking the schema changes anything, and both fail
exactly when the schema cannot be loaded, with the error that the job has then. Otherwise the dry
run tells what is in the schema and where its files go, and a job that succeeds tells the same: the
paths that it has gathered while it wrote are those that the dry run makes of the names. -/
theorem dryRun_predicts (job : Job) (t : FileTree) :
    (t.perform job.check).2 = t ∧ (t.perform job.dry.run).2 = t ∧
    (∀ e, (t.perform job.dry.run).1 = .error e ↔ (t.perform job.check).1 = .error e) ∧
    (∀ e, (t.perform job.check).1 = .error e → (t.perform job.wet.run).1 = .error e) ∧
    (∀ s, (t.perform job.check).1 = .ok s →
      ∃ outcome, (t.perform job.dry.run).1 = .ok outcome ∧ job.Tells s outcome) ∧
    ∀ outcome, (t.perform job.wet.run).1 = .ok outcome →
      (t.perform job.dry.run).1 = .ok outcome ∧
        ∃ s, (t.perform job.check).1 = .ok s ∧ job.Tells s outcome := by
  obtain ⟨hsame, hloaded⟩ := perform_check hstore job t
  cases hcheck : (t.perform job.check).1 with
  | error e =>
    have hdry : t.perform job.dry.run = (.error e, t) := perform_run_error hstore hcheck
    have hwet : t.perform job.wet.run = (.error e, t) := perform_run_error hstore hcheck
    rw [hdry, hwet]
    dsimp only
    refine ⟨hsame, rfl, fun e' => ?_, fun e' h => ?_, fun s hs => ?_, fun outcome h => ?_⟩
    · simp only [Except.error.injEq]
    · exact congrArg Except.error (Except.error.inj h)
    · cases hs
    · cases h
  | ok s =>
    obtain ⟨bytes, -, hload⟩ := hloaded s hcheck
    have htells := tells_outcome hload job
    rw [perform_run_dry hstore hcheck]
    refine ⟨hsame, rfl, fun e => ⟨fun h => ?_, fun h => ?_⟩, fun e h => ?_, fun s' hs => ?_,
      fun outcome h => ?_⟩
    · cases h
    · cases h
    · cases h
    · cases hs
      exact ⟨_, rfl, htells⟩
    · have houtcome := outcome_of_run_wet hstore hcheck h
      exact ⟨congrArg Except.ok houtcome.symm, s, rfl, houtcome ▸ htells⟩

end

/-- The project with nothing in the way: the job does what its dry run told. With a directory in the
place of a file, the dry run tells the same, and the job fails; and without a schema both fail. -/
theorem dryRun_predicts_project :
    FileStore.Lawful (inferInstance : FileStore (StateM FileTree)) ∧
    (∃ outcome, ((project (.file [])).perform projectJob.wet.run).1 = .ok outcome ∧
      (project (.file [])).perform projectJob.dry.run = (.ok outcome, project (.file [])) ∧
      outcome.files = ["m/a.rs", "m/b.rs", "m/mod.rs"] ∧
      projectJob.Tells projectSchema outcome) ∧
    (((project .directory).perform projectJob.wet.run).1 =
        .error (.unwritable "m/b.rs" "Is a directory (os error 21)") ∧
      ∃ outcome,
        (project .directory).perform projectJob.dry.run = (.ok outcome, project .directory) ∧
        projectJob.Tells projectSchema outcome) ∧
    ((({} : FileTree).perform projectJob.check).1 = .error (.notFound "pb_schema.json") ∧
      (({} : FileTree).perform projectJob.dry.run).1 = .error (.notFound "pb_schema.json") ∧
      (({} : FileTree).perform projectJob.wet.run).1 = .error (.notFound "pb_schema.json")) := by
  have hcheck : ∀ obstacle ∈ [.directory, .file []],
      ((project obstacle).perform projectJob.check).1 = .ok projectSchema := by decide +kernel
  have hfree : ((project (.file [])).perform projectJob.wet.run).1 =
      .ok (projectJob.outcome projectSchema (projectSchema.files projectJob.runtime)) := by
    decide +kernel
  have hblocked : ((project .directory).perform projectJob.wet.run).1 =
      .error (.unwritable "m/b.rs" "Is a directory (os error 21)") := by decide +kernel
  have hmissing : (({} : FileTree).perform projectJob.check).1 =
      .error (.notFound "pb_schema.json") := by decide +kernel
  obtain ⟨-, hkept, -, -, -, hsame⟩ :=
    dryRun_predicts FileTree.lawful projectJob (project (.file []))
  obtain ⟨-, hkept', -, -, htold, -⟩ :=
    dryRun_predicts FileTree.lawful projectJob (project .directory)
  obtain ⟨-, -, hdry, hwet, -⟩ := dryRun_predicts FileTree.lawful projectJob {}
  obtain ⟨houtcome, s, hs, htells⟩ := hsame _ hfree
  obtain ⟨outcome, hdry', htells'⟩ := htold _ (hcheck _ (by simp))
  have hschema : s = projectSchema :=
    Except.ok.inj (hs.symm.trans (hcheck _ (by simp)))
  subst hschema
  refine ⟨FileTree.lawful, ⟨_, hfree, Prod.ext houtcome hkept, by decide +kernel, htells⟩,
    ⟨hblocked, outcome, Prod.ext hdry' hkept', htells'⟩, hmissing, ?_, hwet _ hmissing⟩
  exact (hdry _).mpr hmissing

end TypedCollections.Job
