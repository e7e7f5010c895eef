import TypedCollections.Files.Path

/-!
What a path tells after a name has been joined to it. `names_join` says what stands between the
slashes of the joined path; its steps are those of the directory and the name, and it starts where
the path of the directory starts.
-/

namespace TypedCollections.Path

/-- A name that a file may have. -/
structure IsFileName (name : String) : Prop where
  noSlash : '/' ∉ name.toList
  busy : isIdle name = false
  notAbove : name ≠ ".."

theorem noSlash_of_mem_names {path name : String} (h : name ∈ names path) : '/' ∉ name.toList := by
  obtain ⟨chars, hchars, rfl⟩ := List.mem_map.mp h
  rw [String.toList_ofList]
  clear h
  generalize path.toList = text at hchars
  induction text generalizing chars with
  | nil =>
    simp only [List.splitOnP_nil, List.mem_singleton] at hchars
    simp [hchars]
  | cons c rest ih =>
    rw [List.splitOnP_cons_eq_if_modifyHead] at hchars
    split at hchars
    · rcases List.mem_cons.mp hchars with rfl | hchars
      · simp
      · exact ih chars hchars
    · next hc =>
      -- the character goes to the front of the first name of the rest
      obtain ⟨first, others, hrest⟩ := List.exists_cons_of_ne_nil (List.splitOnP_ne_nil _ rest)
      rw [hrest, List.modifyHead_cons] at hchars
      rw [hrest] at ih
      rcases List.mem_cons.mp hchars with rfl | hchars
      · rw [List.mem_cons, not_or]
        exact ⟨fun heq => hc (by rw [← heq]; rfl), ih first List.mem_cons_self⟩
      · exact ih chars (List.mem_cons_of_mem _ hchars)

theorem names_of_noSlash {name : String} (h : '/' ∉ name.toList) : names name = [name] := by
  have hslash : ∀ c ∈ name.toList, (c == '/') = false := by
    intro c hc
    simpa using fun heq : c = '/' => h (heq ▸ hc)
  rw [names, List.splitOnP_eq_singleton hslash, List.map_singleton, String.ofList_toList]

theorem names_append_slash (before name : String) :
    names (before ++ "/" ++ name) = names before ++ names name := by
  have htext : (before ++ "/" ++ name).toList = before.toList ++ '/' :: name.toList := by simp
  rw [names, htext, List.splitOnP_append_cons _ _ (by rfl), List.map_append, ← names, ← names]

/-- Only the empty path has nothing but an empty name. -/
theorem eq_empty_of_names {path : String} (h : names path = [""]) : path = "" := by
  have hsplit : path.toList.splitOn '/' = [[]] := by
    have hchars := congrArg (List.map String.toList) h
    simpa [names, List.splitOn_eq_splitOnP, Function.comp_def] using hchars
  have hjoined : ['/'].intercalate (path.toList.splitOn '/') = path.toList :=
    List.intercalate_splitOn '/'
  rw [hsplit] at hjoined
  exact String.toList_injective hjoined.symm

/-- The name takes the place of an empty name at the end, or stands behind the names. -/
theorem names_join (directory : String) {name : String} (h : '/' ∉ name.toList) :
    (∃ before, names directory = before ++ [""] ∧ names (join directory name) = before ++ [name]) ∨
      (names directory ≠ [""] ∧ names (join directory name) = names directory ++ [name]) := by
  have hempty : names "" = [""] := rfl
  unfold join
  split
  · next habsolute =>
    simp only [isAbsolute, beq_iff_eq] at habsolute
    exact absurd (List.mem_of_mem_head? habsolute) h
  split
  · next hend =>
    refine .inl ?_
    rcases hend with rfl | hend
    · exact ⟨[], hempty, by simp [names_of_noSlash h]⟩
    · obtain ⟨before, hbefore⟩ := List.getLast?_eq_some_iff.mp hend
      have hdirectory : directory = String.ofList before ++ "/" := by
        apply String.toList_injective
        simp [hbefore]
      refine ⟨names (String.ofList before), ?_, ?_⟩
      · have hslash := names_append_slash (String.ofList before) ""
        rwa [String.append_empty, ← hdirectory, hempty] at hslash
      · rw [hdirectory, names_append_slash, names_of_noSlash h]
  · next hend =>
    refine .inr ⟨fun hnames => hend (.inl (eq_empty_of_names hnames)), ?_⟩
    rw [names_append_slash, names_of_noSlash h]

/-- The path of a file ends in the name of the file. -/
theorem getLast?_names_join (directory : String) {name : String} (h : '/' ∉ name.toList) :
    (names (join directory name)).getLast? = some name := by
  rcases names_join directory h with ⟨before, -, hjoin⟩ | ⟨-, hjoin⟩
  · rw [hjoin, List.getLast?_concat]
  · rw [hjoin, List.getLast?_concat]

theorem steps_join (directory : String) {name : String} (h : IsFileName name) :
    steps (join directory name) = steps directory ++ [name] := by
  have hidle : isIdle "" = true := by decide
  rcases names_join directory h.noSlash with ⟨before, hnames, hjoin⟩ | ⟨-, hjoin⟩
  · simp [steps, hnames, hjoin, h.busy, hidle]
  · simp [steps, hjoin, h.busy]

theorem isAbsolute_append {before : String} (h : before ≠ "") (after : String) :
    isAbsolute (before ++ after) = isAbsolute before := by
  have hchars : before.toList ≠ [] := by simpa using h
  obtain ⟨c, rest, hfirst⟩ := List.exists_cons_of_ne_nil hchars
  simp [isAbsolute, hfirst]

theorem isAbsolute_join (directory : String) {name : String} (h : '/' ∉ name.toList) :
    isAbsolute (join directory name) = isAbsolute directory := by
  have hrelative : isAbsolute name = false := by
    simp only [isAbsolute, beq_eq_false_iff_ne]
    exact fun hslash => h (List.mem_of_mem_head? hslash)
  unfold join
  rw [if_neg (by simp [hrelative])]
  by_cases hempty : directory = ""
  · rw [if_pos (.inl hempty), hempty, String.empty_append, hrelative]
    rfl
  · split
    · exact isAbsolute_append hempty _
    · rw [String.append_assoc, isAbsolute_append hempty]

end TypedCollections.Path
