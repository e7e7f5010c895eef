import TypedCollections.Json.Reader
import TypedCollections.Proofs.Number.Rounding
import TypedCollections.Proofs.Stopping

/-!
The numbers that are read from a JSON text. However a number is spelled, it fits 64 bits as an
integer or is finite: what is out of range is refused.
-/

namespace TypedCollections.Json

open Binary64 (IsBounded)

/-- The numbers that have a JSON form. -/
def Number.IsJson : Number → Prop
  | .integer i => -2 ^ 63 ≤ i ∧ i < 2 ^ 64
  | .float x => x.isFinite

theorem Number.IsJson.isFinite {n : Number} (h : n.IsJson) : n.toBinary64.isFinite := by
  cases n with
  | float x => exact h
  | integer i =>
    obtain ⟨hleast, hmost⟩ := h
    have hsize : i.natAbs ≤ 2 ^ 64 := by omega
    refine (Binary64.isFinite_ofRatio _ _ Nat.one_pos).mpr ?_
    rw [Nat.cast_one, div_one]
    calc (i.natAbs : ℚ) ≤ 2 ^ (64 : ℤ) := by exact_mod_cast hsize
      _ ≤ 2 ^ (1023 : ℤ) := zpow_le_zpow_right₀ one_le_two (by decide)
      _ < Binary64.overflow := Binary64.overflow_bounds.1

namespace Numeral

theorem absorb_le {bound n : Nat} (hn : n ≤ bound) (ds : Bytes) :
    (absorb bound n ds).1 ≤ bound := by
  induction ds generalizing n with
  | nil => exact hn
  | cons d ds ih =>
    rw [absorb]
    split
    · exact hn
    · next hle => exact ih (Nat.not_lt.mp hle)

/-- Scaling stays below the bound. A product that leaves it is noticed, and a quotient is not
greater than what is divided. -/
theorem scale?_isBounded {x y : Binary64} {e : ℤ} (hx : x.IsBounded) (h : scale? x e = some y) :
    y.IsBounded := by
  rw [scale?] at h
  split at h
  · next hpos =>
    split at h
    · rw [Option.ite_none_right_eq_some] at h
      exact Option.some.inj h.2 ▸ hx
    · next hsmall =>
      obtain ⟨m, f, hpower, -⟩ := Binary64.powerOfTen_eq (k := e.toNat) (by omega)
      dsimp only at h
      rw [Option.ite_none_left_eq_some, hpower] at h
      obtain ⟨hfinite, h⟩ := h
      exact Option.some.inj h ▸ Binary64.isBounded_mul hx.isFinite rfl (by simpa using hfinite)
  · split at h
    · next hleast =>
      split at h
      · exact Option.some.inj h ▸ hx
      · obtain ⟨m, f, hpower, hone⟩ := Binary64.powerOfTen_eq (k := 308) (Nat.le_refl _)
        rw [hpower] at h
        exact scale?_isBounded (hx.div hone) h
    · obtain ⟨m, f, hpower, hone⟩ := Binary64.powerOfTen_eq (k := (-e).toNat) (by omega)
      rw [hpower] at h
      exact Option.some.inj h ▸ hx.div hone
termination_by e.natAbs
decreasing_by omega

theorem isJson_ofInteger (negative : Bool) {n : Nat} (hn : n < 2 ^ 64) :
    (ofInteger negative n).IsJson := by
  unfold ofInteger
  split
  · split
    · next hsize =>
      constructor <;> omega
    · exact (Binary64.isBounded_ofNat hn).neg.isFinite
  · constructor <;> omega

theorem isJson_of_float? {negative : Bool} {significand : Nat} {e : ℤ} {n : Number}
    (hs : significand < 2 ^ 64) (h : float? negative significand e = some n) : n.IsJson := by
  obtain ⟨x, hx, rfl⟩ := Option.map_eq_some_iff.mp h
  have hbounded := scale?_isBounded (Binary64.isBounded_ofNat hs) hx
  cases negative with
  | false => exact hbounded.isFinite
  | true => exact hbounded.neg.isFinite

theorem isJson_of_value {negative : Bool} {x : Numeral} {n : Number}
    (h : x.value negative = .ok n) : n.IsJson := by
  have hwhole := absorb_le (Nat.zero_le greatestSignificand) x.whole
  have hboth := absorb_le hwhole x.fraction
  have hlt : greatestSignificand < 2 ^ 64 := by decide
  unfold value at h
  dsimp only at h
  split at h
  · split at h
    · exact Except.ok.inj h ▸ isJson_ofInteger negative (Nat.lt_of_le_of_lt hwhole hlt)
    · split at h
      · next y hy => exact Except.ok.inj h ▸ isJson_of_float? (Nat.lt_of_le_of_lt hboth hlt) hy
      · cases h
  · split at h
    · split at h
      · next y hy => exact Except.ok.inj h ▸ isJson_of_float? (Nat.lt_of_le_of_lt hboth hlt) hy
      · cases h
    · split at h
      · cases h
      · obtain rfl := Except.ok.inj h
        rfl

end Numeral

theorem isJson_of_numeral {negative : Bool} {s : Bytes} {n : Number} {r : Rest s}
    (h : numeral negative s = .ok (n, r)) : n.IsJson := by
  unfold numeral at h
  obtain ⟨⟨x, t⟩, -, h⟩ := Stopping.bind_ok h
  dsimp only at h
  split at h
  · next m hm =>
    cases h
    exact Numeral.isJson_of_value hm
  · cases h

/-! ## What all parts of a list or an object have -/

section Invariant

variable {α σ : Type} {p : α → Prop} {q : σ → Prop}

theorem items_invariant {read : Reader α} (hread : ∀ s x r, read s = .ok (x, r) → p x)
    {before : List α} (hbefore : ∀ x ∈ before, p x) (s : Bytes) {all : List α} {r : Rest s}
    (h : items read before s = .ok (all, r)) : ∀ x ∈ all, p x := by
  unfold items at h
  obtain ⟨⟨y, mid, hmid⟩, hy, h⟩ := Stopping.bind_ok h
  have hbefore : ∀ x ∈ y :: before, p x :=
    List.forall_mem_cons.mpr ⟨hread s y _ hy, hbefore⟩
  dsimp only at h
  split at h
  · cases h
  next b t hs =>
  split at h
  · cases h
    exact fun x hx => hbefore x (List.mem_reverse.mp hx)
  split at h
  · split at h
    · cases h
    · obtain ⟨⟨more, u⟩, hmore, h⟩ := Stopping.bind_ok h
      cases h
      have hlt : t.length < s.length := Nat.lt_trans (length_lt_of_skipBlank hs) hmid
      exact items_invariant hread hbefore t hmore
  · cases h
termination_by s.length

/-- What every item has, all items of a list have. -/
theorem list_invariant {read : Reader α} (hread : ∀ s x r, read s = .ok (x, r) → p x) {s : Bytes}
    {all : List α} {r : Rest s} (h : list read s = .ok (all, r)) : ∀ x ∈ all, p x := by
  unfold list at h
  split at h
  · cases h
  split at h
  · cases h
    simp
  · exact items_invariant hread (by simp) s h

theorem members_invariant {member : σ → Reader σ}
    (hmember : ∀ x s y r, q x → member x s = .ok (y, r) → q y) {before x : σ} (hp : q before)
    (s : Bytes) {r : Rest s}
    (h : members member before s = .ok (x, r)) : q x := by
  unfold members at h
  obtain ⟨⟨y, mid, hmid⟩, hy, h⟩ := Stopping.bind_ok h
  have hp := hmember before s y _ hp hy
  dsimp only at h
  split at h
  · cases h
  next b t hs =>
  split at h
  · cases h
    exact hp
  split at h
  · split at h
    · cases h
    next c u hu =>
    split at h
    · obtain ⟨⟨all, v⟩, hmembers, h⟩ := Stopping.bind_ok h
      cases h
      have hlt : u.length < s.length :=
        Nat.lt_trans (length_lt_of_skipBlank hu) (Nat.lt_trans (length_lt_of_skipBlank hs) hmid)
      exact members_invariant hmember hp u hmembers
    split at h
    · cases h
    · cases h
  · cases h
termination_by s.length

/-- What every member preserves holds of the object. -/
theorem object_invariant {member : σ → Reader σ}
    (hmember : ∀ x s y r, q x → member x s = .ok (y, r) → q y) {start x : σ} (hp : q start)
    {s : Bytes} {r : Rest s} (h : object member start s = .ok (x, r)) : q x := by
  unfold object at h
  split at h
  · cases h
  split at h
  · cases h
    exact hp
  split at h
  · obtain ⟨⟨y, t⟩, hmembers, h⟩ := Stopping.map_ok h
    cases h
    exact members_invariant hmember hp _ hmembers
  · cases h

end Invariant

/-! ## Values -/

/-- The values that a JSON text can spell: every number in them has a JSON form. -/
inductive Value.IsJson : Value → Prop
  | null : IsJson .null
  | boolean (b : Bool) : IsJson (.boolean b)
  | number {n : Number} : n.IsJson → IsJson (.number n)
  | string (s : String) : IsJson (.string s)
  | array {items : List Value} : (∀ v ∈ items, v.IsJson) → IsJson (.array items)
  | object {members : Members Value} : (∀ e ∈ members, e.2.IsJson) → IsJson (.object members)

theorem isJson_of_scalar {b : UInt8} {s : Bytes} {v : Value} {r : Rest (b :: s)}
    (h : scalar b s = .ok (v, r)) : v.IsJson := by
  unfold scalar wordValue at h
  split at h
  · obtain ⟨⟨text, t⟩, -, h⟩ := Stopping.map_ok h
    cases h
    exact .string text
  split at h
  · obtain ⟨⟨n, t⟩, hn, h⟩ := Stopping.map_ok h
    cases h
    exact .number (isJson_of_numeral hn)
  split at h
  · obtain ⟨⟨n, t⟩, hn, h⟩ := Stopping.map_ok h
    cases h
    exact .number (isJson_of_numeral hn)
  split at h
  · obtain ⟨t, -, h⟩ := Stopping.map_ok h
    cases h
    exact .boolean true
  split at h
  · obtain ⟨t, -, h⟩ := Stopping.map_ok h
    cases h
    exact .boolean false
  split at h
  · obtain ⟨t, -, h⟩ := Stopping.map_ok h
    cases h
    exact .null
  · cases h

theorem Members.forall_insert {m : Members Value} {key : String} {v : Value} (hv : v.IsJson)
    (hm : ∀ e ∈ m, e.2.IsJson) : ∀ e ∈ insert key v m, e.2.IsJson := by
  induction m with
  | nil => simpa [insert] using hv
  | cons first rest ih =>
    obtain ⟨k, w⟩ := first
    obtain ⟨hw, hrest⟩ := List.forall_mem_cons.mp hm
    simp only [insert]
    split
    · exact List.forall_mem_cons.mpr ⟨hv, hrest⟩
    · split
      · exact List.forall_mem_cons.mpr ⟨hv, hm⟩
      · exact List.forall_mem_cons.mpr ⟨hw, ih hrest⟩

theorem Members.forall_ofList {entries : List (String × Value)}
    (h : ∀ e ∈ entries, e.2.IsJson) : ∀ e ∈ ofList entries, e.2.IsJson := by
  have hfold : ∀ m : Members Value, (∀ e ∈ m, e.2.IsJson) →
      ∀ e ∈ entries.foldl (fun m e => insert e.1 e.2 m) m, e.2.IsJson := by
    induction entries with
    | nil => exact fun m hm => hm
    | cons e entries ih =>
      obtain ⟨he, hrest⟩ := List.forall_mem_cons.mp h
      exact fun m hm => ih hrest _ (forall_insert he hm)
  exact hfold [] (by simp)

theorem isJson_of_value {depth : Nat} {s : Bytes} {v : Value} {r : Rest s}
    (h : value depth s = .ok (v, r)) : v.IsJson := by
  induction depth generalizing s v with
  | zero =>
    unfold value at h
    split at h
    · cases h
    split at h
    · cases h
    split at h
    · cases h
    · obtain ⟨⟨w, t⟩, hw, h⟩ := Stopping.map_ok h
      cases h
      exact isJson_of_scalar hw
  | succ depth ih =>
    unfold value at h
    split at h
    · cases h
    split at h
    · obtain ⟨⟨all, t⟩, hall, h⟩ := Stopping.map_ok h
      cases h
      exact .array (list_invariant (fun _ _ _ => ih) hall)
    split at h
    · obtain ⟨⟨all, t⟩, hall, h⟩ := Stopping.map_ok h
      cases h
      have hentries : ∀ e ∈ all, e.2.IsJson := by
        refine object_invariant (q := fun all => ∀ e ∈ all, e.2.IsJson) ?_ (by simp) hall
        intro before s after u hbefore hentry
        obtain ⟨⟨k, t⟩, -, hentry⟩ := Stopping.bind_ok hentry
        obtain ⟨c, -, hentry⟩ := Stopping.bind_ok hentry
        obtain ⟨⟨w, t⟩, hw, hentry⟩ := Stopping.bind_ok hentry
        cases hentry
        exact List.forall_mem_cons.mpr ⟨ih hw, hbefore⟩
      exact .object (Members.forall_ofList fun e he => hentries e (List.mem_reverse.mp he))
    · obtain ⟨⟨w, t⟩, hw, h⟩ := Stopping.map_ok h
      cases h
      exact isJson_of_scalar hw

end TypedCollections.Json
