import TypedCollections.Proofs.Model.Files

/-!
What an index declares whatever its document is called. The name of the document stands in a
comment at the head of the index. Where it has no slash, as the name of a file has none, a line
that it breaks off is no line of an index, so the index cannot be read back; where it can, it
declares the modules of its collections.
-/

namespace TypedCollections

namespace Code

theorem readLines?_eq_none_of_mem {all : List (List Char)} {line : List Char} (h : line ∈ all)
    (hline : readLine? line = none) : readLines? all = none := by
  induction all with
  | nil => cases h
  | cons first rest ih =>
    rcases List.mem_cons.mp h with rfl | h
    · simp [readLines?, hline]
    · cases hfirst : readLine? first <;> simp [readLines?, hfirst, ih h]

theorem wordAfter?_suffix {phrase word : String} {line rest : List Char}
    (h : wordAfter? phrase line = some (word, rest)) : rest <:+ line := by
  unfold wordAfter? at h
  split at h
  · cases h
    exact (List.dropWhile_suffix _).trans (List.drop_suffix _ _)
  · cases h

/-- What an index says ends in a semicolon. -/
theorem readLine?_eq_none {line : List Char} {c : Char} (hfirst : line.head? ≠ some '/')
    (hlast : line.getLast? = some c) (hc : c ≠ ';') : readLine? line = none := by
  have hne : line ≠ [] := by
    rintro rfl
    cases hlast
  have hcomment : ¬"//".toList.isPrefixOf line := by
    cases line with
    | nil => exact absurd rfl hne
    | cons b line =>
      have hb : b ≠ '/' := by simpa using hfirst
      simp [List.isPrefixOf, Ne.symm hb]
  have hend : ¬[';'] <:+ line := by
    rintro ⟨before, rfl⟩
    rw [List.getLast?_concat] at hlast
    exact hc (Option.some.inj hlast).symm
  have hdeclaration : declaration? line = none := by
    unfold declaration?
    split
    · next hword => exact absurd (wordAfter?_suffix hword) hend
    · rfl
  have hexport : export? line = none := by
    unfold export?
    cases hmodule : wordAfter? "pub use " line with
    | none => rfl
    | some found =>
      obtain ⟨module, rest⟩ := found
      rw [Option.bind_eq_bind, Option.bind_some]
      dsimp only
      split
      · next hname =>
        exact absurd ((wordAfter?_suffix hname).trans (wordAfter?_suffix hmodule)) hend
      · rfl
  rw [readLine?, if_neg (not_or.mpr ⟨hne, hcomment⟩), hdeclaration, hexport]
  rfl

end Code

namespace SourceFile

open Code

variable {source : String} {collections : List Collection}

theorem readIndex?_of_lineFeed (hslash : '/' ∉ source.toList) (hsource : ¬OneLine source) :
    readIndex? (index source collections).content = none := by
  have hfeed : '\n' ∈ source.toList.reverse := by simpa [OneLine] using hsource
  obtain ⟨after, before, heq, hafter⟩ := List.eq_append_cons_of_mem hfeed
  have hparts : source.toList = before.reverse ++ '\n' :: after.reverse := by
    rw [← List.reverse_reverse source.toList, heq]
    simp
  have hline : ("//! Generated by pbgen from `" ++ source ++ "`. Do not edit.").toList =
      ("//! Generated by pbgen from `".toList ++ before.reverse) ++
        '\n' :: (after.reverse ++ "`. Do not edit.".toList) := by
    simp [String.toList_append, hparts]
  have hbroken : readLine? (after.reverse ++ "`. Do not edit.".toList) = none := by
    have hhead : (after.reverse ++ "`. Do not edit.".toList).head? ≠ some '/' := by
      cases hafter : after.reverse with
      | nil => simp
      | cons c rest =>
        have hc : c ∈ source.toList := by simp [hparts, hafter]
        simpa using fun heq : c = '/' => hslash (heq ▸ hc)
    have hlast : (after.reverse ++ "`. Do not edit.".toList).getLast? = some '.' := by simp
    exact readLine?_eq_none hhead hlast (by decide)
  have hfeedless : '\n' ∉ after.reverse ++ "`. Do not edit.".toList := by
    simp [hafter]
  rw [readIndex?, index_eq, indexCode, heading]
  simp only [List.cons_append]
  rw [lines, toList_text_cons, hline]
  refine readLines?_eq_none_of_mem ?_ hbroken
  rw [List.append_assoc, List.cons_append, List.splitOn_append_cons_self,
    List.splitOn_append_cons_self_of_not_mem hfeedless]
  simp

/-- An index that can be read back declares the modules of its collections only. -/
theorem exists_of_declares (h : ∀ c ∈ collections, c.IsNamed) (hslash : '/' ∉ source.toList)
    {items : List Item} (hread : readIndex? (index source collections).content = some items)
    {module : String} (hmodule : .declares module ∈ items) :
    ∃ c ∈ collections, c.moduleName = module := by
  by_cases hsource : OneLine source
  · rw [readIndex?_index h hsource] at hread
    cases hread
    simpa using hmodule
  · rw [readIndex?_of_lineFeed hslash hsource] at hread
    cases hread

end SourceFile
end TypedCollections
