import TypedCollections.Files.Tree
import TypedCollections.Proofs.Files.Path
import TypedCollections.Proofs.Stopping

/-!
What the operations on a file tree leave alone. Creating directories only adds directories, and
writing a file changes what is at one place, so whatever a path led to before it leads to
afterwards. The place of a path ends in the last name of the path, if that is the name of a file.
-/

namespace TypedCollections

namespace FileTree

variable {t u v : FileTree} {names : List String} {place : Place}

/-- The content of the file at a place. -/
def file? (t : FileTree) (place : Place) : Option Bytes :=
  match t.find? place with
  | some (.file content) => some content
  | _ => none

theorem file?_congr (h : u.find? place = t.find? place) : u.file? place = t.file? place := by
  rw [file?, h, file?]

theorem file?_eq_some_iff {content : Bytes} :
    t.file? place = some content ↔ t.find? place = some (.file content) := by
  unfold file?
  split <;> simp_all

/-! ## What is kept -/

/-- One tree has what another one has, in the place where it was, and all that is new in it are
directories. -/
structure GainsDirectories (t u : FileTree) : Prop where
  workingDirectory : u.workingDirectory = t.workingDirectory
  entries : ∀ place, u.find? place = t.find? place ∨
    (t.find? place = none ∧ u.find? place = some .directory)

/-- One tree has something wherever another one has, and has all its directories. -/
structure Keeps (t u : FileTree) : Prop where
  workingDirectory : u.workingDirectory = t.workingDirectory
  directories : ∀ place, t.find? place = some .directory → u.find? place = some .directory
  places : ∀ place, (t.find? place).isSome → (u.find? place).isSome

theorem GainsDirectories.refl (t : FileTree) : t.GainsDirectories t := ⟨rfl, fun _ => .inl rfl⟩

theorem GainsDirectories.trans (h : t.GainsDirectories u) (h' : u.GainsDirectories v) :
    t.GainsDirectories v := by
  refine ⟨h'.workingDirectory.trans h.workingDirectory, fun place => ?_⟩
  rcases h'.entries place with heq | ⟨hnone, hdirectory⟩
  · rw [heq]
    exact h.entries place
  · refine .inr ⟨?_, hdirectory⟩
    rcases h.entries place with heq | ⟨hnone', -⟩
    · rw [← heq, hnone]
    · exact hnone'

theorem GainsDirectories.keeps (h : t.GainsDirectories u) : t.Keeps u := by
  refine ⟨h.workingDirectory, fun place hplace => ?_, fun place hplace => ?_⟩
  all_goals
    rcases h.entries place with heq | ⟨hnone, -⟩
    · rwa [heq]
    · simp [hnone] at hplace

theorem GainsDirectories.file?_eq (h : t.GainsDirectories u) (place : Place) :
    u.file? place = t.file? place := by
  rcases h.entries place with heq | ⟨hnone, hdirectory⟩
  · exact file?_congr heq
  · rw [file?, hdirectory, file?, hnone]

theorem Keeps.trans (h : t.Keeps u) (h' : u.Keeps v) : t.Keeps v where
  workingDirectory := h'.workingDirectory.trans h.workingDirectory
  directories place hplace := h'.directories place (h.directories place hplace)
  places place hplace := h'.places place (h.places place hplace)

/-- A directory goes where nothing is. -/
theorem gainsDirectories_put (h : t.find? place = none) :
    t.GainsDirectories (t.put place .directory) := by
  refine ⟨rfl, fun other => ?_⟩
  by_cases heq : other = place
  · subst heq
    have hne : other ≠ [] := by
      rintro rfl
      simp [find?] at h
    exact .inr ⟨h, find?_put_self t hne _⟩
  · exact .inl (find?_put_of_ne t heq _)

/-- A file goes where no directory is. -/
theorem keeps_put {content : Bytes} (h : t.find? place ≠ some .directory) :
    t.Keeps (t.put place (.file content)) := by
  have hne : place ≠ [] := by
    rintro rfl
    simp [find?] at h
  refine ⟨rfl, fun other hother => ?_, fun other hother => ?_⟩
  · rw [find?_put_of_ne t (by rintro rfl; exact h hother), hother]
  · by_cases heq : other = place
    · rw [heq, find?_put_self t hne]
      rfl
    · rwa [find?_put_of_ne t heq]

/-! ## Directories -/

theorem gains_createDirectory (h : t.createDirectory names = .ok u) : t.GainsDirectories u := by
  unfold createDirectory at h
  dsimp only at h
  split at h
  · cases h
  obtain ⟨above, -, h⟩ := Stopping.bind_ok h
  split at h
  · cases h
  split at h
  · cases h
  split at h
  · cases h
  · next hnone =>
    cases h
    exact gainsDirectories_put (by simpa using hnone)

theorem gains_ensureDirectory (h : t.ensureDirectory names = .ok u) : t.GainsDirectories u := by
  unfold ensureDirectory at h
  split at h
  · next hcreate =>
    cases h
    exact gains_createDirectory hcreate
  · split at h
    · cases h
      exact .refl t
    · cases h

theorem gains_createAll (t : FileTree) (paths : List (List String)) :
    t.GainsDirectories (t.createAll paths).2 := by
  induction paths with
  | nil => exact .refl t
  | cons names above ih =>
    unfold createAll
    split
    · next hensure => exact gains_ensureDirectory hensure
    · generalize t.createAll above = result at ih
      split
      · exact ih
      · split
        · next hensure => exact ih.trans (gains_ensureDirectory hensure)
        · exact ih
    · exact .refl t

/-- Some directories may be created even if the one that is asked for is not. -/
theorem gains_createDirectories (t : FileTree) (names : List String) :
    t.GainsDirectories (t.createDirectories names).2 := by
  unfold createDirectories
  split
  · exact .refl t
  · exact gains_createAll t _

/-! ## Places of paths -/

theorem Keeps.requireDirectory (h : t.Keeps u) (hplace : t.requireDirectory place = .ok ()) :
    u.requireDirectory place = .ok () := by
  unfold FileTree.requireDirectory at *
  split at hplace
  · next hdirectory => rw [h.directories place hdirectory]
  · cases hplace
  · cases hplace

/-- What a path led to it still leads to. -/
theorem Keeps.walk (h : t.Keeps u) {here : Place} (hwalk : t.walk here names = .ok place) :
    u.walk here names = .ok place := by
  induction names generalizing here with
  | nil => exact hwalk
  | cons name rest ih =>
    unfold FileTree.walk at hwalk ⊢
    obtain ⟨⟨⟩, hhere, hwalk⟩ := Stopping.bind_ok hwalk
    rw [h.requireDirectory hhere]
    change (if _ then _ else _) = _
    split at hwalk
    · next hidle =>
      rw [if_pos hidle]
      exact ih hwalk
    next hidle =>
    rw [if_neg hidle]
    split at hwalk
    · next habove =>
      rw [if_pos habove]
      exact ih hwalk
    next habove =>
    rw [if_neg habove]
    split at hwalk
    · next hsome =>
      rw [if_pos (h.places _ hsome)]
      exact ih hwalk
    · cases hwalk

theorem Keeps.origin (h : t.Keeps u) (names : List String) : u.origin names = t.origin names := by
  unfold FileTree.origin
  rw [h.workingDirectory]

theorem Keeps.locate (h : t.Keeps u) (hplace : t.locate names = .ok place) :
    u.locate names = .ok place := by
  unfold FileTree.locate at *
  split at hplace
  · cases hplace
  · next hne =>
    rw [if_neg hne, h.origin]
    exact h.walk hplace

theorem walk_append (t : FileTree) (here : Place) (before after : List String) :
    t.walk here (before ++ after) = t.walk here before >>= fun place => t.walk place after := by
  induction before generalizing here with
  | nil => rfl
  | cons name rest ih =>
    simp only [List.cons_append, walk, ih]
    cases t.requireDirectory here with
    | error e => rfl
    | ok =>
      change (if _ then _ else _) = Except.bind (if _ then _ else _) _
      split
      · rfl
      split
      · rfl
      split
      · rfl
      · rfl

theorem requireDirectory_eq_ok_iff : t.requireDirectory place = .ok () ↔
    t.find? place = some .directory := by
  unfold requireDirectory
  split <;> simp_all

variable {name : String}

/-- The last step to a file. -/
theorem walk_name_eq_ok_iff {above : Place} (hname : Path.IsFileName name) :
    t.walk above [name] = .ok place ↔
      t.requireDirectory above = .ok () ∧ place = above ++ [name] ∧ (t.find? place).isSome := by
  simp only [walk, hname.busy, hname.notAbove, Bool.false_eq_true, if_false,
    Stopping.bind_ok_iff]
  constructor
  · rintro ⟨⟨⟩, habove, h⟩
    split at h
    · next hsome =>
      cases h
      exact ⟨habove, rfl, hsome⟩
    · cases h
  · rintro ⟨habove, rfl, hsome⟩
    exact ⟨(), habove, by rw [if_pos hsome]⟩

theorem parent_eq_ok_iff {above : Place} : t.parent names = .ok above ↔
    t.walk (t.origin names) names.dropLast = .ok above ∧ t.requireDirectory above = .ok () := by
  unfold parent
  rw [Stopping.bind_ok_iff]
  constructor
  · rintro ⟨place, hwalk, h⟩
    obtain ⟨⟨⟩, hplace, h⟩ := Stopping.bind_ok h
    cases h
    exact ⟨hwalk, hplace⟩
  · rintro ⟨hwalk, hplace⟩
    exact ⟨above, hwalk, by rw [hplace]; rfl⟩

/-- The directory that a path leads to. The empty path leads to the one that paths start from. -/
def directory (t : FileTree) (names : List String) : Except FileFault Place := do
  let place ← t.walk (t.origin names) names
  t.requireDirectory place
  return place

theorem origin_eq (t : FileTree) (names : List String) :
    t.origin names =
      if names.head? = some "" ∧ names.length ≠ 1 then [] else t.workingDirectory := by
  unfold origin
  split
  · simp
  · next hother =>
    rw [if_neg]
    rintro ⟨hhead, hlength⟩
    cases names with
    | nil => cases hhead
    | cons first rest =>
      cases rest with
      | nil => exact hlength rfl
      | cons second rest => exact hother second rest (by simpa using hhead)

/-- An empty name at the end leads nowhere, but only a directory has it. -/
theorem directory_concat_empty (t : FileTree) (before : List String) (name : String) :
    t.directory (before ++ [""]) = t.parent (before ++ [name]) := by
  have horigin : t.origin (before ++ [""]) = t.origin (before ++ [name]) := by
    cases before <;> simp [origin_eq]
  have hidle : Path.isIdle "" := by decide
  rw [directory, parent, horigin, walk_append, List.dropLast_concat, bind_assoc]
  refine bind_congr fun place => ?_
  simp only [walk, hidle, if_true]
  cases hplace : t.requireDirectory place with
  | error e => rfl
  | ok =>
    simp only [Stopping.ok_bind]
    rw [hplace]
    rfl

/-- What the name of a file is joined to is the directory that the file lies in, in every tree. -/
theorem parent_names_join (t : FileTree) (path : String) (h : '/' ∉ name.toList) :
    t.parent (Path.names (Path.join path name)) = t.directory (Path.names path) := by
  rcases Path.names_join path h with ⟨before, hnames, hjoin⟩ | ⟨hnames, hjoin⟩
  · rw [hnames, hjoin, directory_concat_empty]
  · have horigin : t.origin (Path.names path ++ [name]) = t.origin (Path.names path) := by
      generalize Path.names path = names at hnames
      cases names with
      | nil => simp [origin_eq]
      | cons first rest =>
        have hfirst : rest = [] → first ≠ "" := by
          rintro rfl rfl
          exact hnames rfl
        cases rest <;> simp_all [origin_eq]
    rw [hjoin, parent, directory, List.dropLast_concat, horigin]

/-- A path leads to a file directly in a directory: it goes one step further, to the name of a file,
and in every tree this name is looked up in the directory. -/
structure LiesIn (path directory : String) : Prop where
  isAbsolute : Path.isAbsolute path = Path.isAbsolute directory
  step : ∃ name, Path.IsFileName name ∧ (Path.names path).getLast? = some name ∧
    Path.steps path = Path.steps directory ++ [name]
  parent : ∀ t : FileTree, t.parent (Path.names path) = t.directory (Path.names directory)

theorem liesIn_join (directory : String) (hname : Path.IsFileName name) :
    LiesIn (Path.join directory name) directory where
  isAbsolute := Path.isAbsolute_join directory hname.noSlash
  step := ⟨name, hname, Path.getLast?_names_join directory hname.noSlash,
    Path.steps_join directory hname⟩
  parent t := parent_names_join t directory hname.noSlash

/-- The place of a file has the name of the file in the directory that it lies in. -/
theorem locate_eq_ok_iff (hlast : names.getLast? = some name) (hname : Path.IsFileName name) :
    t.locate names = .ok place ↔
      ∃ above, t.parent names = .ok above ∧ place = above ++ [name] ∧ (t.find? place).isSome := by
  obtain ⟨before, rfl⟩ := List.getLast?_eq_some_iff.mp hlast
  have hne : before ++ [name] ≠ [""] := by
    intro heq
    obtain ⟨-, heq⟩ := List.append_inj' (heq.trans (List.nil_append _).symm) rfl
    cases heq
    exact absurd hname.busy (by decide)
  unfold locate
  rw [if_neg hne, walk_append, Stopping.bind_ok_iff]
  simp only [walk_name_eq_ok_iff hname, parent_eq_ok_iff, List.dropLast_concat, and_assoc]

/-- A file that is written has its content, and nothing else has changed. -/
theorem write_ok {content : Bytes} (hlast : names.getLast? = some name)
    (hname : Path.IsFileName name) (h : t.write names content = .ok u) :
    t.Keeps u ∧ ∃ place, u.locate names = .ok place ∧ u.find? place = some (.file content) ∧
      ∀ other, other ≠ place → u.find? other = t.find? other := by
  unfold write at h
  dsimp only at h
  split at h
  · cases h
  obtain ⟨above, hparent, h⟩ := Stopping.bind_ok h
  rw [hlast] at h
  dsimp only at h
  split at h
  · cases h
  split at h
  · cases h
  · next hfree =>
    cases h
    have hkeeps : t.Keeps (t.put (above ++ [name]) (.file content)) := keeps_put hfree
    have hfind := find?_put_self t (List.concat_ne_nil name above) (.file content)
    obtain ⟨hwalk, hdirectory⟩ := parent_eq_ok_iff.mp hparent
    have hparent' := parent_eq_ok_iff.mpr
      ⟨hkeeps.origin names ▸ hkeeps.walk hwalk, hkeeps.requireDirectory hdirectory⟩
    refine ⟨hkeeps, above ++ [name], ?_, hfind, fun other hother => find?_put_of_ne t hother _⟩
    exact (locate_eq_ok_iff hlast hname).mpr ⟨above, hparent', rfl, by rw [hfind]; rfl⟩

theorem read_eq_ok_iff {content : Bytes} : t.read names = .ok content ↔
    ∃ place, t.locate names = .ok place ∧ t.find? place = some (.file content) := by
  unfold read
  rw [Stopping.bind_ok_iff]
  refine exists_congr fun place => and_congr_right fun _ => ?_
  split
  · next heq => simp [heq, pure, Except.pure]
  · next heq => simp [heq, throw, throwThe, MonadExceptOf.throw]
  · next heq => simp [heq, throw, throwThe, MonadExceptOf.throw]

/-! ## Trees that hang together -/

/-- Everything lies in a directory, and paths start from one. -/
structure Connected (t : FileTree) : Prop where
  above : ∀ place, (t.find? place).isSome → t.find? place.dropLast = some .directory
  workingDirectory : t.find? t.workingDirectory = some .directory

/-- What leads from a directory to a file is a name in the end. -/
theorem Connected.getLast?_of_walk (h : t.Connected) {here : Place} {content : Bytes}
    (hhere : t.find? here = some .directory) (hwalk : t.walk here names = .ok place)
    (hplace : t.find? place = some (.file content)) :
    ∃ name, names.getLast? = some name ∧ Path.isIdle name = false ∧ name ≠ ".." := by
  induction names generalizing here with
  | nil =>
    cases hwalk
    cases hhere.symm.trans hplace
  | cons first rest ih =>
    have hrest
        (hlast : ∃ name, rest.getLast? = some name ∧ Path.isIdle name = false ∧ name ≠ "..") :
        ∃ name, (first :: rest).getLast? = some name ∧ Path.isIdle name = false ∧ name ≠ ".." := by
      obtain ⟨name, hname, hbusy⟩ := hlast
      exact ⟨name, by rw [List.getLast?_cons, hname]; rfl, hbusy⟩
    unfold walk at hwalk
    obtain ⟨-, -, hwalk⟩ := Stopping.bind_ok hwalk
    split at hwalk
    · exact hrest (ih hhere hwalk)
    next hbusy =>
    split at hwalk
    · exact hrest (ih (h.above here (by rw [hhere]; rfl)) hwalk)
    next habove =>
    split at hwalk
    · cases hfound : t.find? (here ++ [first]) with
      | none => simp_all
      | some entry =>
        cases entry with
        | directory => exact hrest (ih hfound hwalk)
        | file =>
          -- nothing can follow the name of a file
          cases rest with
          | nil => exact ⟨first, rfl, by simpa using hbusy, habove⟩
          | cons second rest =>
            unfold walk at hwalk
            obtain ⟨⟨⟩, hfile, -⟩ := Stopping.bind_ok hwalk
            rw [requireDirectory_eq_ok_iff, hfound] at hfile
            cases hfile
    · cases hwalk

/-- A path that a file is read from ends in the name of a file. -/
theorem Connected.exists_fileName (h : t.Connected) {path : String} {content : Bytes}
    (hread : t.read (Path.names path) = .ok content) :
    ∃ name, Path.fileName? path = some name ∧ '/' ∉ name.toList := by
  obtain ⟨place, hlocate, hplace⟩ := read_eq_ok_iff.mp hread
  have hwalk : t.walk (t.origin (Path.names path)) (Path.names path) = .ok place := by
    unfold locate at hlocate
    split at hlocate
    · cases hlocate
    · exact hlocate
  have horigin : t.find? (t.origin (Path.names path)) = some .directory := by
    unfold origin
    split
    · rfl
    · exact h.workingDirectory
  obtain ⟨name, hlast, hbusy, habove⟩ := h.getLast?_of_walk horigin hwalk hplace
  obtain ⟨before, hbefore⟩ := List.getLast?_eq_some_iff.mp hlast
  refine ⟨name, ?_, Path.noSlash_of_mem_names (List.mem_of_mem_getLast? hlast)⟩
  simp [Path.fileName?, Path.steps, hbefore, hbusy, habove]

end FileTree
end TypedCollections
