import TypedCollections.Proofs.Model.Selection
import TypedCollections.Service.Options

/-!
The options of a call by their names. What is asked for is every option whose value is not empty, in
the order of the names; and it tells the values of all of them, also of those that are not asked
for, so different options are never asked for alike.
-/

namespace TypedCollections

/-- An option by its name and its value as a text; an empty value is one that is not asked for. -/
abbrev NamedOptions := List (String × String)

namespace NamedOptions

/-- The options that are asked for, in their order. -/
def asked (options : NamedOptions) : List (String × String) := options.filter fun p => p.2 ≠ ""

@[simp] theorem asked_nil : asked [] = [] := rfl

theorem asked_cons (first : String × String) (rest : NamedOptions) :
    asked (first :: rest) = if first.2 = "" then asked rest else first :: asked rest := by
  unfold asked
  split
  · next h => exact List.filter_cons_of_neg (by simp [h])
  · next h => exact List.filter_cons_of_pos (by simp [h])

theorem asked_append (options options' : NamedOptions) :
    asked (options ++ options') = asked options ++ asked options' := List.filter_append ..

theorem lookup_asked_of_notMem {options : NamedOptions} {name : String}
    (h : name ∉ options.map Prod.fst) : options.asked.lookup name = none := by
  refine List.lookup_eq_none_iff.mpr fun p hp => ?_
  have hne : name ≠ p.1 := by
    rintro rfl
    exact h (List.mem_map_of_mem (List.mem_of_mem_filter hp))
  simpa using hne

/-- What is asked for tells the value of every option, also of one that is not asked for. -/
theorem lookup_asked {options : NamedOptions} (hnodup : (options.map Prod.fst).Nodup)
    {name value : String} (h : (name, value) ∈ options) :
    (options.asked.lookup name).getD "" = value := by
  induction options with
  | nil => cases h
  | cons first rest ih =>
    obtain ⟨hfirst, hrest⟩ := List.nodup_cons.mp hnodup
    rw [asked_cons]
    rcases List.mem_cons.mp h with rfl | h
    · split
      · next hempty =>
        rw [lookup_asked_of_notMem hfirst]
        exact hempty.symm
      · simp
    · have hne : name ≠ first.1 := fun heq => hfirst (List.mem_map.mpr ⟨_, h, heq⟩)
      split
      · exact ih hrest h
      · rw [List.lookup_cons, beq_eq_false_iff_ne.mpr hne]
        exact ih hrest h

/-- The options are told by their names and what is asked for. -/
theorem eq_map_lookup {options : NamedOptions} (hnodup : (options.map Prod.fst).Nodup) :
    options = (options.map Prod.fst).map fun name =>
      (name, (options.asked.lookup name).getD "") := by
  rw [List.map_map]
  refine (List.map_id options).symm.trans (List.map_congr_left fun p hp => ?_)
  exact Prod.ext rfl (lookup_asked hnodup hp).symm

theorem eq_of_asked {options options' : NamedOptions}
    (hnames : options.map Prod.fst = options'.map Prod.fst) (hnodup : (options.map Prod.fst).Nodup)
    (h : options.asked = options'.asked) : options = options' := by
  calc
    options = _ := eq_map_lookup hnodup
    _ = _ := by rw [hnames, h]
    _ = options' := (eq_map_lookup (hnames ▸ hnodup)).symm

end NamedOptions

def RecordOptions.named (o : RecordOptions) : NamedOptions :=
  [("expand", o.expand), ("fields", o.fields)]

/-- A number as the value of an option; zero is not asked for. -/
def numberText (n : Nat) : String := if n = 0 then "" else toString n

def ListOptions.named (o : ListOptions) : NamedOptions :=
  [("page", numberText o.page), ("perPage", numberText o.perPage), ("sort", o.sort),
    ("filter", o.filter), ("expand", o.expand), ("fields", o.fields),
    ("skipTotal", if o.skipTotal then "true" else "")]

theorem textParameter_eq (name value : String) :
    textParameter name value = NamedOptions.asked [(name, value)] := by
  unfold textParameter
  split <;> simp_all [NamedOptions.asked]

theorem numberParameter_eq (name : String) (n : Nat) :
    numberParameter name n = NamedOptions.asked [(name, numberText n)] := by
  have hne : toString n ≠ "" := Nat.repr_ne_empty
  unfold numberParameter numberText
  split <;> simp_all [NamedOptions.asked]

theorem RecordOptions.query_eq (o : RecordOptions) : o.query = o.named.asked := by
  rw [query, textParameter_eq, textParameter_eq, ← NamedOptions.asked_append]
  rfl

theorem ListOptions.query_eq (o : ListOptions) : o.query = o.named.asked := by
  have hskip : (if o.skipTotal then [("skipTotal", "true")] else []) =
      NamedOptions.asked [("skipTotal", if o.skipTotal then "true" else "")] := by
    cases o.skipTotal <;> decide
  simp only [query, textParameter_eq, numberParameter_eq, hskip, ← NamedOptions.asked_append]
  rfl

theorem numberText_injective {n m : Nat} (h : numberText n = numberText m) : n = m := by
  have hne (k : Nat) : toString k ≠ "" := Nat.repr_ne_empty
  unfold numberText at h
  split at h
  · split at h
    · omega
    · exact absurd h.symm (hne m)
  · split at h
    · exact absurd h (hne n)
    · exact Selection.numbered_injective "" (congrArg ("" ++ ·) h)

theorem RecordOptions.named_injective {o o' : RecordOptions} (h : o.named = o'.named) : o = o' := by
  cases o
  cases o'
  simpa [named] using h

theorem ListOptions.named_injective {o o' : ListOptions} (h : o.named = o'.named) : o = o' := by
  simp only [named, List.cons.injEq, Prod.mk.injEq, true_and, and_true] at h
  obtain ⟨hpage, hperPage, hsort, hfilter, hexpand, hfields, hskip⟩ := h
  have hskip : o.skipTotal = o'.skipTotal := by
    revert hskip
    cases o.skipTotal <;> cases o'.skipTotal <;> decide
  cases o
  cases o'
  simp only [mk.injEq]
  exact ⟨numberText_injective hpage, numberText_injective hperPage, hsort, hfilter, hexpand,
    hfields, hskip⟩

/-- The options that are asked for tell all options. -/
theorem RecordOptions.eq_of_asked {o o' : RecordOptions} (h : o.named.asked = o'.named.asked) :
    o = o' :=
  named_injective (NamedOptions.eq_of_asked rfl (by simp [named]) h)

theorem ListOptions.eq_of_asked {o o' : ListOptions} (h : o.named.asked = o'.named.asked) :
    o = o' :=
  named_injective (NamedOptions.eq_of_asked rfl (by simp [named]) h)

end TypedCollections
