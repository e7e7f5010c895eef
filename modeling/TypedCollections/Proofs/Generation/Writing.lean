import TypedCollections.Generation.Job
import TypedCollections.Proofs.Files.Tree
import TypedCollections.Proofs.Model.Heading

/-!
What a job does to a file tree. `FileStore.Lawful` says what is known of the file system:
directories may come into being, and a file that is written has its content or the tree is as it
was. A job that loads nothing changes nothing; any other one stores a first part of its files, in
their order, and all of them unless the file system refuses one. `Stored` is what each step of the
writing adds to, and the index, which is the last file, is never replaced before every module that
it declares has been written.
-/

namespace TypedCollections

namespace FileTree

/-- What an action comes to on a tree, and what it makes of the tree. -/
def perform {α : Type} (t : FileTree) (action : StateM FileTree α) : α × FileTree := action t

@[simp] theorem perform_pure {α : Type} (t : FileTree) (a : α) : t.perform (pure a) = (a, t) := rfl

/-- The tree is passed on from one action to the next. -/
theorem perform_bind {α β : Type} (t : FileTree) (action : StateM FileTree α)
    (next : α → StateM FileTree β) :
    t.perform (action >>= next) = (t.perform action).2.perform (next (t.perform action).1) := rfl

end FileTree

/-- What is known of a file system. It may refuse anything; what it does is seen in the tree. -/
structure FileStore.Lawful (store : FileStore (StateM FileTree)) : Prop where
  contains : ∀ path (t : FileTree), (t.perform (store.contains path)).2 = t
  read : ∀ path (t : FileTree), (t.perform (store.read path)).2 = t
  content : ∀ path (t : FileTree) bytes, (t.perform (store.read path)).1 = .ok bytes →
    t.read (Path.names path) = .ok bytes
  createDirectories : ∀ path (t : FileTree),
    t.GainsDirectories (t.perform (store.createDirectories path)).2
  write : ∀ path content (t : FileTree),
    (∃ message, t.perform (store.write path content) = (.error message, t)) ∨
      ∃ u, t.write (Path.names path) (Utf8.encode content) = .ok u ∧
        t.perform (store.write path content) = (.ok (), u)

/-- A tree refuses only what cannot be done in it. -/
theorem FileTree.lawful : FileStore.Lawful inferInstance where
  contains _ _ := rfl
  read _ _ := rfl
  content _ _ _ h := Stopping.mapError_ok h
  createDirectories path t := gains_createDirectories t (Path.names path)
  write path content t := by
    cases hwrite : t.write (Path.names path) (Utf8.encode content) with
    | ok u => exact .inr ⟨u, rfl, by simp [perform, FileStore.write, hwrite]⟩
    | error e => exact .inl ⟨e.message, by simp [perform, FileStore.write, hwrite]⟩

namespace Job

variable {job : Job} {files written : List SourceFile} {t u v : FileTree}

/-- One tree is what another one became by the writing of files: their contents are at their paths,
no other file has changed, and there may be more directories. -/
structure Stored (job : Job) (files : List SourceFile) (t u : FileTree) : Prop where
  keeps : t.Keeps u
  contents : ∀ f ∈ files, u.read (Path.names (job.pathOf f)) = .ok (Utf8.encode f.content)
  others : ∀ place, u.file? place ≠ t.file? place →
    ∃ f ∈ files, u.locate (Path.names (job.pathOf f)) = .ok place

theorem stored_nil (h : t.GainsDirectories u) : job.Stored [] t u where
  keeps := h.keeps
  contents f hf := by cases hf
  others place hplace := absurd (h.file?_eq place) hplace

/-- The place of a file tells its name. -/
theorem name_of_locate {directory name : String} (hname : Path.IsFileName name) {place : Place}
    (h : t.locate (Path.names (Path.join directory name)) = .ok place) :
    place.getLast? = some name := by
  obtain ⟨above, -, rfl, -⟩ :=
    (FileTree.locate_eq_ok_iff (Path.getLast?_names_join directory hname.noSlash) hname).mp h
  exact List.getLast?_concat

/-- Each file has a name of its own, so no two of them lie in one place. -/
structure Separate (files : List SourceFile) : Prop where
  names : ∀ f ∈ files, Path.IsFileName f.name
  distinct : (files.map SourceFile.name).Nodup

theorem Separate.sublist (h : Separate files) (hsome : written.Sublist files) :
    Separate written where
  names f hf := h.names f (hsome.subset hf)
  distinct := h.distinct.sublist (hsome.map _)

/-- Files that are written later have other names, so they leave those alone that are there. -/
theorem Stored.append {later : List SourceFile} (h : job.Stored files t u)
    (h' : job.Stored later u v) (hfiles : Separate (files ++ later)) :
    job.Stored (files ++ later) t v where
  keeps := h.keeps.trans h'.keeps
  contents := by
    intro f hf
    rcases List.mem_append.mp hf with hearly | hlate
    · obtain ⟨place, hlocate, hplace⟩ := FileTree.read_eq_ok_iff.mp (h.contents f hearly)
      have hsame : v.file? place = u.file? place := by
        by_contra hchanged
        obtain ⟨g, hg, hlocate'⟩ := h'.others place hchanged
        have hname := name_of_locate (hfiles.names f hf) hlocate
        rw [name_of_locate (hfiles.names g (List.mem_append_right _ hg)) hlocate'] at hname
        have hdistinct := hfiles.distinct
        rw [List.map_append] at hdistinct
        exact (List.disjoint_of_nodup_append hdistinct) (List.mem_map_of_mem hearly)
          (Option.some.inj hname ▸ List.mem_map_of_mem hg)
      refine FileTree.read_eq_ok_iff.mpr ⟨place, h'.keeps.locate hlocate, ?_⟩
      rwa [← FileTree.file?_eq_some_iff, hsame, FileTree.file?_eq_some_iff]
    · exact h'.contents f hlate
  others := by
    intro place hplace
    by_cases hchanged : v.file? place = u.file? place
    · rw [hchanged] at hplace
      obtain ⟨f, hf, hlocate⟩ := h.others place hplace
      exact ⟨f, List.mem_append_left _ hf, h'.keeps.locate hlocate⟩
    · obtain ⟨f, hf, hlocate⟩ := h'.others place hchanged
      exact ⟨f, List.mem_append_right _ hf, hlocate⟩

/-- The file system refuses a file, or the directory that the file lies in. -/
inductive Refused (job : Job) (store : FileStore (StateM FileTree)) (f : SourceFile)
    (t : FileTree) : String → String → Prop
  | directory {path message : String} (lies : Path.parent? (job.pathOf f) = some path)
      (refused : (t.perform (store.createDirectories path)).1 = .error message) :
    Refused job store f t path message
  | file {message : String}
      (refused : (t.perform (store.write (job.pathOf f) f.content)).1 = .error message) :
    Refused job store f t (job.pathOf f) message

/-- Some files are stored, and then another one is refused. -/
def Stops (job : Job) (store : FileStore (StateM FileTree)) (written : List SourceFile)
    (f : SourceFile) (path message : String) (t u : FileTree) : Prop :=
  job.Stored written t u ∧ ∃ v, job.Stored written t v ∧ job.Refused store f v path message

theorem Stops.after {store : FileStore (StateM FileTree)} {f : SourceFile} {path message : String}
    (hstops : job.Stops store written f path message u v) (hstored : job.Stored files t u)
    (hfiles : Separate (files ++ written)) :
    job.Stops store (files ++ written) f path message t v := by
  obtain ⟨hwritten, w, hbefore, hrefused⟩ := hstops
  exact ⟨hstored.append hwritten hfiles, w, hstored.append hbefore hfiles, hrefused⟩

/-! ## Writing -/

variable {store : FileStore (StateM FileTree)} (hstore : store.Lawful)

include hstore

theorem createDirectories_cases (path : String) (t : FileTree) :
    ∃ u, t.GainsDirectories u ∧ (t.perform (createDirectories path) = (.ok (), u) ∨
      ∃ message, (t.perform (store.createDirectories path)).1 = .error message ∧
        t.perform (createDirectories path) = (.error (.unwritable path message), u)) := by
  refine ⟨_, hstore.createDirectories path t, ?_⟩
  unfold createDirectories
  rw [FileTree.perform_bind]
  cases (t.perform (store.createDirectories path)).1 with
  | ok => exact .inl rfl
  | error message => exact .inr ⟨message, rfl, rfl⟩

theorem createParent_cases (path : String) (t : FileTree) :
    ∃ u, t.GainsDirectories u ∧ (t.perform (createParent path) = (.ok (), u) ∨
      ∃ directory message, Path.parent? path = some directory ∧
        (t.perform (store.createDirectories directory)).1 = .error message ∧
        t.perform (createParent path) = (.error (.unwritable directory message), u)) := by
  unfold createParent
  cases Path.parent? path with
  | none => exact ⟨t, .refl t, .inl rfl⟩
  | some directory =>
    obtain ⟨u, hgains, hok | ⟨message, hrefused, herror⟩⟩ :=
      createDirectories_cases hstore directory t
    · exact ⟨u, hgains, .inl hok⟩
    · exact ⟨u, hgains, .inr ⟨directory, message, rfl, hrefused, herror⟩⟩

theorem writeFile_cases {f : SourceFile} (hf : Path.IsFileName f.name) (t : FileTree) :
    (∃ u, t.perform (job.writeFile f) = (.ok (), u) ∧ job.Stored [f] t u) ∨
      ∃ u path message, t.perform (job.writeFile f) = (.error (.unwritable path message), u) ∧
        job.Stops store [] f path message t u := by
  unfold writeFile
  rw [FileTree.perform_bind]
  obtain ⟨u, hgains, hparent | ⟨directory, message, hdirectory, hrefused, hparent⟩⟩ :=
    createParent_cases hstore (job.pathOf f) t
  · rw [hparent]
    dsimp only
    rw [FileTree.perform_bind]
    have hstored : job.Stored [] t u := stored_nil hgains
    rcases hstore.write (job.pathOf f) f.content u with ⟨message, hwrite⟩ | ⟨v, hv, hwrite⟩
    · have hrefused : job.Refused store f u (job.pathOf f) message := .file (by rw [hwrite])
      rw [hwrite]
      exact .inr ⟨u, _, message, rfl, hstored, u, hstored, hrefused⟩
    · rw [hwrite]
      obtain ⟨hkeeps, place, hlocate, hplace, hothers⟩ :=
        FileTree.write_ok (Path.getLast?_names_join job.outDir hf.noSlash) hf hv
      refine .inl ⟨v, rfl, hgains.keeps.trans hkeeps, ?_, ?_⟩
      · rintro g hg
        cases List.mem_singleton.mp hg
        exact FileTree.read_eq_ok_iff.mpr ⟨place, hlocate, hplace⟩
      · intro other hother
        refine ⟨f, List.mem_singleton_self f, ?_⟩
        by_cases heq : other = place
        · exact heq ▸ hlocate
        · exact absurd ((FileTree.file?_congr (hothers other heq)).trans (hgains.file?_eq other))
            hother
  · rw [hparent]
    exact .inr ⟨u, directory, message, rfl, stored_nil hgains, t, stored_nil (.refl t),
      .directory hdirectory hrefused⟩

/-- A first part of the files is stored, and all of them if nothing is in the way. Then their paths
stand behind those that came before. -/
theorem writeFiles_cases {files : List SourceFile} (hfiles : Separate files) (paths : List String)
    (t : FileTree) :
    (∃ u, t.perform (job.writeFiles paths files) = (.ok (paths ++ files.map job.pathOf), u) ∧
        job.Stored files t u) ∨
      ∃ u written f rest path message, files = written ++ f :: rest ∧
        t.perform (job.writeFiles paths files) = (.error (.unwritable path message), u) ∧
        job.Stops store written f path message t u := by
  induction files generalizing paths t with
  | nil => exact .inl ⟨t, by simp [writeFiles], stored_nil (.refl t)⟩
  | cons f rest ih =>
    have hf := hfiles.names f List.mem_cons_self
    unfold writeFiles
    rw [FileTree.perform_bind]
    rcases writeFile_cases hstore hf t with ⟨u, hwrite, hstored⟩ |
      ⟨u, path, message, hwrite, hstops⟩
    · rw [hwrite]
      rcases ih (hfiles.sublist (List.sublist_cons_self _ _)) (paths ++ [job.pathOf f]) u with
        ⟨v, hwrite', hstored'⟩ | ⟨v, written, g, after, path, message, rfl, hwrite', hstops⟩
      · rw [List.append_assoc] at hwrite'
        exact .inl ⟨v, hwrite', hstored.append hstored' hfiles⟩
      · refine .inr ⟨v, f :: written, g, after, path, message, rfl, hwrite', ?_⟩
        have hfront : [f] ++ written <+: f :: (written ++ g :: after) := ⟨g :: after, by simp⟩
        exact hstops.after hstored (hfiles.sublist hfront.sublist)
    · rw [hwrite]
      exact .inr ⟨u, [], f, rest, path, message, rfl, rfl, hstops⟩

/-! ## Loading -/

/-- Loading a schema changes nothing, and what is loaded is read from a file. -/
theorem perform_check (job : Job) (t : FileTree) : (t.perform job.check).2 = t ∧
    ∀ s, (t.perform job.check).1 = .ok s → ∃ bytes, t.read (Path.names job.schemaPath) = .ok bytes ∧
      Compiler.load job.options job.schemaPath bytes = .ok s := by
  unfold check
  split
  · simp
  rw [FileTree.perform_bind, hstore.contains]
  split
  · simp
  rw [FileTree.perform_bind, hstore.read]
  have hcontent := hstore.content job.schemaPath t
  cases hread : (t.perform (store.read job.schemaPath)).1 with
  | error message => simp
  | ok bytes => exact ⟨rfl, fun s hs => ⟨bytes, hcontent bytes hread, hs⟩⟩

theorem perform_runWith_error {e : Diagnostic} (h : (t.perform job.check).1 = .error e)
    (render : Renderer) : t.perform (job.runWith render) = (.error e, t) := by
  unfold runWith
  rw [FileTree.perform_bind, h, (perform_check hstore job t).1]
  rfl

theorem perform_runWith_unrendered {s : Schema} {render : Renderer} {e : Diagnostic}
    (h : (t.perform job.check).1 = .ok s) (hrender : render s = .error e) :
    t.perform (job.runWith render) = (.error e, t) := by
  unfold runWith
  rw [FileTree.perform_bind, h, (perform_check hstore job t).1]
  dsimp only
  rw [hrender]
  rfl

/-- How a job ends that writes: with an outcome once all of its files are written, and else when the
file system refuses the output directory, or the file that comes next. -/
inductive Ends (job : Job) (store : FileStore (StateM FileTree)) (s : Schema)
    (files written : List SourceFile) (t : FileTree) : Except Diagnostic Outcome → Prop
  | finished (all : written = files) : Ends job store s files written t (.ok (job.outcome s files))
  | atDirectory {message : String} (none : written = [])
      (refused : (t.perform (store.createDirectories job.outDir)).1 = .error message) :
    Ends job store s files written t (.error (.unwritable job.outDir message))
  | atFile {f : SourceFile} {rest : List SourceFile} {path message : String} {u : FileTree}
      (next : files = written ++ f :: rest) (before : job.Stored written t u)
      (refused : job.Refused store f u path message) :
    Ends job store s files written t (.error (.unwritable path message))

theorem runWith_stores {s : Schema} (render : Renderer) {files : List SourceFile}
    (hwet : job.dryRun = false) (h : (t.perform job.check).1 = .ok s)
    (hrender : render s = .ok files) (hfiles : Separate files) :
    ∃ written, written <+: files ∧ job.Stored written t (t.perform (job.runWith render)).2 ∧
      job.Ends store s files written t (t.perform (job.runWith render)).1 := by
  unfold runWith
  rw [FileTree.perform_bind, h, (perform_check hstore job t).1]
  dsimp only
  rw [hrender]
  dsimp only
  rw [if_neg (by simp [hwet]), FileTree.perform_bind]
  unfold write
  rw [FileTree.perform_bind]
  obtain ⟨u, hgains, hcreate | ⟨message, hrefused, hcreate⟩⟩ :=
    createDirectories_cases hstore job.outDir t
  · rw [hcreate]
    dsimp only
    rcases writeFiles_cases hstore hfiles [] u with ⟨v, hwrite, hstored⟩ |
      ⟨v, written, f, rest, path, message, rfl, hwrite, hstops⟩
    · rw [hwrite]
      exact ⟨files, List.prefix_rfl, (stored_nil hgains).append hstored hfiles, .finished rfl⟩
    · rw [hwrite]
      have hfront : written <+: written ++ f :: rest := List.prefix_append _ _
      obtain ⟨hstored, w, hbefore, hrefused⟩ :=
        hstops.after (stored_nil hgains) (hfiles.sublist hfront.sublist)
      exact ⟨written, hfront, hstored, .atFile rfl hbefore hrefused⟩
  · rw [hcreate]
    exact ⟨[], List.nil_prefix, stored_nil hgains, .atDirectory rfl hrefused⟩

end Job

/-! ## The files of a schema -/

namespace Schema

variable {options : LoadOptions} {path : String} {bytes : Bytes} {s : Schema}

/-- A name that starts with a letter leads to somewhere below. -/
theorem isFileName_of_isSnake {name : String} (h : Identifier.IsSnake name.toList) :
    Path.IsFileName (name ++ ".rs") := by
  have hslash : '/' ∉ (name ++ ".rs").toList := by
    rw [String.toList_append, List.mem_append, not_or]
    refine ⟨fun hmem => ?_, by decide⟩
    rcases h.small _ hmem with hsmall | heq
    · exact absurd hsmall (by decide)
    · exact absurd heq (by decide)
  obtain ⟨c, rest, hname, hc, -⟩ := h
  have hfirst : (name ++ ".rs").toList.head? = some c := by
    rw [String.toList_append, hname]
    rfl
  have hother {other : String} (hhead : other.toList.head?.all fun c => !c.isLower) :
      name ++ ".rs" ≠ other := by
    rintro rfl
    rw [hfirst] at hhead
    simp [hc] at hhead
  refine ⟨hslash, ?_, hother (by decide)⟩
  simp only [Path.isIdle, Bool.or_eq_false_iff, beq_eq_false_iff_ne]
  exact ⟨hother (by decide), hother (by decide)⟩

theorem isFileName_index : Path.IsFileName "mod.rs" := ⟨by decide, by decide, by decide⟩

theorem names_files (s : Schema) (runtime : String) : (s.files runtime).map SourceFile.name =
    s.collections.map (fun c => c.moduleName ++ ".rs") ++ ["mod.rs"] := by
  rw [files, List.map_append, List.map_map]
  rfl

theorem separate_files_of_load (h : Compiler.load options path bytes = .ok s) (runtime : String) :
    Job.Separate (s.files runtime) where
  names := by
    intro f hf
    rcases List.mem_append.mp hf with hf | hf
    · obtain ⟨c, hc, rfl⟩ := List.mem_map.mp hf
      exact isFileName_of_isSnake (Collection.isNamed_of_load h c hc).isSnake_moduleName
    · rw [List.mem_singleton.mp hf]
      exact isFileName_index
  distinct := by
    rw [names_files]
    exact fileNames_nodup_of_load h

/-- The index comes last, so a first part of the files that has it has all of them. -/
theorem eq_files_of_index (h : Compiler.load options path bytes = .ok s) {runtime : String}
    {written : List SourceFile} (hwritten : written <+: s.files runtime) {f : SourceFile}
    (hf : f ∈ written) (hname : f.name = "mod.rs") : written = s.files runtime := by
  unfold files at *
  rcases List.prefix_concat_iff.mp hwritten with heq | hmodels
  · exact heq
  · obtain ⟨c, hc, rfl⟩ := List.mem_map.mp (hmodels.subset hf)
    exact absurd hname (Identifier.fileName_ne_index (Collection.isNamed_of_load h c hc).structName)

end Schema

namespace Job

/-- A job that can load or make nothing leaves the tree as it was. Any other one stores a first part
of its files in their order, each under its name in the output directory, and changes no other file;
it ends well if that is all of them, and else with what the file system refused next. So where the
index has changed, all the modules that it declares have been written. (That nothing lies in a file
is needed only to know that the document has a name, without which its path would stand in the
index.) -/
theorem run_stores {store : FileStore (StateM FileTree)} (hstore : store.Lawful) {job : Job}
    (hwet : job.dryRun = false) (t : FileTree) :
    (∀ e, (t.perform job.check).1 = .error e → t.perform job.run = (.error e, t)) ∧
    (∀ render s e, (t.perform job.check).1 = .ok s → render s = .error e →
      t.perform (job.runWith render) = (.error e, t)) ∧
    ∀ s, (t.perform job.check).1 = .ok s → ∃ written, written <+: s.files job.runtime ∧
      job.Stored written t (t.perform job.run).2 ∧
      job.Ends store s (s.files job.runtime) written t (t.perform job.run).1 ∧
      ∀ place,
        (t.perform job.run).2.locate (Path.names (Path.join job.outDir "mod.rs")) = .ok place →
        (t.perform job.run).2.file? place ≠ t.file? place →
        written = s.files job.runtime ∧ (t.Connected → ∀ items module,
          Code.readIndex? (SourceFile.index s.sourceName s.collections).content = some items →
          .declares module ∈ items → ∃ f ∈ written, f.name = module ++ ".rs") := by
  refine ⟨fun e he => ?_, fun render s e hs he => ?_, fun s hs => ?_⟩
  · exact perform_runWith_error hstore he _
  · exact perform_runWith_unrendered hstore hs he
  · obtain ⟨bytes, hbytes, hload⟩ := (perform_check hstore job t).2 s hs
    have hfiles := Schema.separate_files_of_load hload job.runtime
    obtain ⟨written, hwritten, hstored, hends⟩ :=
      runWith_stores hstore (fun s => .ok (s.files job.runtime)) hwet hs rfl hfiles
    refine ⟨written, hwritten, hstored, hends, fun place hplace hchanged => ?_⟩
    -- the file that has changed is one of those that were written, and has the name of the index
    obtain ⟨f, hf, hlocate⟩ := hstored.others place hchanged
    have hfile := name_of_locate (hfiles.names f (hwritten.subset hf)) hlocate
    have hindex := name_of_locate Schema.isFileName_index hplace
    have hall := Schema.eq_files_of_index hload hwritten hf
      (Option.some.inj (hfile.symm.trans hindex))
    refine ⟨hall, fun ht items module hitems hmodule => ?_⟩
    obtain ⟨name, hname, hslash⟩ := ht.exists_fileName hbytes
    have hsource : s.sourceName = name := by
      rw [Schema.sourceName, (Compiler.load_ok hload).1, hname, Option.getD_some]
    obtain ⟨c, hc, rfl⟩ := SourceFile.exists_of_declares (Collection.isNamed_of_load hload)
      (hsource ▸ hslash) hitems hmodule
    rw [hall]
    exact ⟨_, List.mem_append_left _ (List.mem_map_of_mem hc), rfl⟩

/-- A project with a schema of two collections, an index, and something in the place of the file of
the second collection. -/
def project (obstacle : FileEntry) : FileTree where
  entries :=
    [(["pb_schema.json"], .file (Utf8.encode "[\x7b\"name\":\"a\"\x7d,\x7b\"name\":\"b\"\x7d]")),
      (["m"], .directory), (["m", "b.rs"], obstacle), (["m", "mod.rs"], .file [])]

theorem connected_project (obstacle : FileEntry) : (project obstacle).Connected := by
  refine ⟨fun place hplace => ?_, rfl⟩
  have hmem : place ∈ [[], ["pb_schema.json"], ["m"], ["m", "b.rs"], ["m", "mod.rs"]] := by
    by_contra hnone
    simp only [List.mem_cons, List.not_mem_nil, or_false, not_or] at hnone
    obtain ⟨hroot, hschema, hdirectory, hmodel, hindex⟩ := hnone
    simp [FileTree.find?, project, List.lookup_cons, hroot, beq_eq_false_iff_ne.mpr hschema,
      beq_eq_false_iff_ne.mpr hdirectory, beq_eq_false_iff_ne.mpr hmodel,
      beq_eq_false_iff_ne.mpr hindex] at hplace
  simp only [List.mem_cons, List.not_mem_nil, or_false] at hmem
  rcases hmem with rfl | rfl | rfl | rfl | rfl <;> rfl

def projectJob : Job := { outDir := "m" }

def projectSchema : Schema where
  source := "pb_schema.json"
  detected := .unknown
  dialect := .latest
  collections := [⟨"a", "A", none, [], .latest⟩, ⟨"b", "B", none, [], .latest⟩]
  warnings := []

/-- A directory in the place of the second file ends the job before the index; where a file is
replaced, the index is replaced after it. -/
theorem run_stores_project :
    (projectJob.dryRun = false ∧ FileStore.Lawful (inferInstance : FileStore (StateM FileTree))) ∧
    (∃ written, written <+: projectSchema.files projectJob.runtime ∧
      projectJob.Stored written (project .directory)
        ((project .directory).perform projectJob.run).2 ∧
      projectJob.Ends inferInstance projectSchema (projectSchema.files projectJob.runtime) written
        (project .directory) (.error (.unwritable "m/b.rs" "Is a directory (os error 21)"))) ∧
    ∃ written, written = projectSchema.files projectJob.runtime ∧
      projectJob.Stored written (project (.file []))
        ((project (.file [])).perform projectJob.run).2 ∧
      projectJob.Ends inferInstance projectSchema (projectSchema.files projectJob.runtime) written
        (project (.file [])) (.ok (projectJob.outcome projectSchema written)) ∧
      (project (.file [])).Connected ∧ ∀ items module,
        Code.readIndex? (SourceFile.index "pb_schema.json" projectSchema.collections).content =
          some items → .declares module ∈ items → ∃ f ∈ written, f.name = module ++ ".rs" := by
  have hwet : projectJob.dryRun = false := rfl
  have hcheck : ∀ obstacle ∈ [.directory, .file []],
      ((project obstacle).perform projectJob.check).1 = .ok projectSchema := by decide +kernel
  have hblocked : ((project .directory).perform projectJob.run).1 =
      .error (.unwritable "m/b.rs" "Is a directory (os error 21)") := by decide +kernel
  have hfree : ((project (.file [])).perform projectJob.run).1 =
      .ok (projectJob.outcome projectSchema (projectSchema.files projectJob.runtime)) := by
    decide +kernel
  have hplace : ((project (.file [])).perform projectJob.run).2.locate
      (Path.names (Path.join projectJob.outDir "mod.rs")) = .ok ["m", "mod.rs"] := by decide +kernel
  have hchanged : ((project (.file [])).perform projectJob.run).2.file? ["m", "mod.rs"] ≠
      (project (.file [])).file? ["m", "mod.rs"] := by decide +kernel
  have hsource : projectSchema.sourceName = "pb_schema.json" := by decide +kernel
  obtain ⟨-, -, hstores⟩ := run_stores FileTree.lawful hwet (project .directory)
  obtain ⟨-, -, hstores'⟩ := run_stores FileTree.lawful hwet (project (.file []))
  obtain ⟨written, hwritten, hstored, hends, -⟩ := hstores _ (hcheck _ (by decide))
  obtain ⟨written', -, hstored', hends', hindex⟩ := hstores' _ (hcheck _ (by decide))
  obtain ⟨hall, hdeclares⟩ := hindex _ hplace hchanged
  have hconnected := connected_project (.file [])
  rw [hblocked] at hends
  rw [hfree, ← hall] at hends'
  exact ⟨⟨hwet, FileTree.lawful⟩, ⟨written, hwritten, hstored, hends⟩, written', hall, hstored',
    hall ▸ hends', hconnected, hsource ▸ hdeclares hconnected⟩

end Job
end TypedCollections
