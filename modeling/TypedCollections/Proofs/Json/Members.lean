import Mathlib.Data.String.Basic
import TypedCollections.Json.Value

/-!
Lists of entries in the order of their keys. `insert` keeps the order, and such a list is known by
what `get?` returns.
-/

namespace TypedCollections.Json.Members

variable {α : Type} {m m' : Members α}

/-- Each key is less than the keys behind it. -/
def Increasing (m : Members α) : Prop := m.Pairwise fun a b => a.1 < b.1

theorem increasing_nil : Increasing ([] : Members α) := List.Pairwise.nil

theorem increasing_cons {k : String} {v : α} :
    Increasing ((k, v) :: m) ↔ (∀ entry ∈ m, k < entry.1) ∧ Increasing m :=
  List.pairwise_cons

theorem eq_or_mem_of_mem_insert {key : String} {value : α} {entry : String × α}
    (h : entry ∈ insert key value m) : entry.1 = key ∨ entry ∈ m := by
  induction m with
  | nil => exact .inl (by rw [List.mem_singleton.mp h])
  | cons first rest ih =>
    obtain ⟨k, v⟩ := first
    simp only [insert] at h
    split at h
    · rcases List.mem_cons.mp h with rfl | h
      · exact .inl rfl
      · exact .inr (List.mem_cons_of_mem _ h)
    · split at h
      · rcases List.mem_cons.mp h with rfl | h
        · exact .inl rfl
        · exact .inr h
      · rcases List.mem_cons.mp h with rfl | h
        · exact .inr List.mem_cons_self
        · exact (ih h).imp_right (List.mem_cons_of_mem _)

theorem Increasing.insert (h : Increasing m) (key : String) (value : α) :
    Increasing (insert key value m) := by
  induction m with
  | nil => exact increasing_cons.mpr ⟨by simp, increasing_nil⟩
  | cons first rest ih =>
    obtain ⟨k, v⟩ := first
    obtain ⟨hk, hrest⟩ := increasing_cons.mp h
    simp only [Members.insert]
    split
    · next heq =>
      subst heq
      exact increasing_cons.mpr ⟨hk, hrest⟩
    next hne =>
    split
    · next hlt =>
      refine increasing_cons.mpr ⟨?_, h⟩
      intro entry hm
      rcases List.mem_cons.mp hm with rfl | hm
      · exact hlt
      · exact lt_trans hlt (hk entry hm)
    · next hlt =>
      refine increasing_cons.mpr ⟨?_, ih hrest⟩
      intro entry hm
      rcases eq_or_mem_of_mem_insert hm with heq | hm
      · rw [heq]
        exact lt_of_le_of_ne (not_lt.mp hlt) hne
      · exact hk entry hm

/-- Nothing lies under a key that comes before all others. -/
theorem get?_eq_none_of_lt {key : String} (h : ∀ entry ∈ m, key < entry.1) :
    get? key m = none := by
  induction m with
  | nil => rfl
  | cons first rest ih =>
    obtain ⟨k, v⟩ := first
    have hk : key < k := h (k, v) List.mem_cons_self
    rw [get?, if_neg hk.ne']
    exact ih fun entry hm => h entry (List.mem_cons_of_mem _ hm)

theorem get?_cons_self (k : String) (v : α) : get? k ((k, v) :: m) = some v := if_pos rfl

/-- The first keys of two lists with the same values are the same. -/
theorem not_lt_of_get?_eq {k k' : String} {v v' : α} (h' : Increasing ((k', v') :: m'))
    (hget : ∀ key, get? key ((k, v) :: m) = get? key ((k', v') :: m')) : ¬k < k' := by
  intro hlt
  have hnone : get? k ((k', v') :: m') = none := by
    refine get?_eq_none_of_lt ?_
    intro entry hm
    rcases List.mem_cons.mp hm with rfl | hm
    · exact hlt
    · exact lt_trans hlt ((increasing_cons.mp h').1 entry hm)
  rw [← hget k, get?_cons_self] at hnone
  cases hnone

theorem Increasing.ext (h : Increasing m) (h' : Increasing m')
    (hget : ∀ key, get? key m = get? key m') : m = m' := by
  induction m generalizing m' with
  | nil =>
    cases m' with
    | nil => rfl
    | cons first rest =>
      have := hget first.1
      rw [get?_cons_self] at this
      cases this
  | cons first rest ih =>
    obtain ⟨k, v⟩ := first
    cases m' with
    | nil =>
      have := hget k
      rw [get?_cons_self] at this
      cases this
    | cons first' rest' =>
      obtain ⟨k', v'⟩ := first'
      have hk : k = k' := le_antisymm
        (not_lt.mp (not_lt_of_get?_eq h fun key => (hget key).symm))
        (not_lt.mp (not_lt_of_get?_eq h' hget))
      subst hk
      have hv : v = v' := by simpa [get?_cons_self] using hget k
      subst hv
      obtain ⟨hlt, hrest⟩ := increasing_cons.mp h
      obtain ⟨hlt', hrest'⟩ := increasing_cons.mp h'
      have hsame : ∀ key, get? key rest = get? key rest' := by
        intro key
        by_cases heq : k = key
        · subst heq
          rw [get?_eq_none_of_lt hlt, get?_eq_none_of_lt hlt']
        · simpa [get?, heq] using hget key
      rw [ih hrest hrest' hsame]

end TypedCollections.Json.Members
