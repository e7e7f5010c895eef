import TypedCollections.Proofs.Json.Complete.Reading

/-!
Objects and declarations with known keys, the other way round. The members of an object are taken in
one after the other, so what they make of a state is told along their list: `Run` leads from the
state before them to the one behind them.
-/
namespace TypedCollections.Json

variable {α σ ι : Type} {s t mid rest : Bytes} {tree : Tree}

/-- The items of a list, taken in one after the other, lead from one state to another. -/
inductive Run (step : σ → ι → σ → Prop) : σ → List ι → σ → Prop
  | nil (x : σ) : Run step x [] x
  | cons {x y z : σ} {i : ι} {items : List ι} : step x i y → Run step y items z →
      Run step x (i :: items) z

namespace Run

variable {step : σ → ι → σ → Prop} {x y z : σ}

theorem append {items more : List ι} (h : Run step x items y) (hmore : Run step y more z) :
    Run step x (items ++ more) z := by
  induction h with
  | nil => exact hmore
  | cons hstep _ ih => exact .cons hstep (ih hmore)

end Run

/-! ## Objects -/

/-- A member is taken in behind the mark that opens its key. -/
def MemberReads (member : σ → Reader σ) (step : σ → Bytes × Tree → σ → Prop) : Prop :=
  ∀ x raw tree y after t rest, step x (raw, tree) y → Blank after → AtFront tree t rest →
    Ended rest → Takes (member x (raw ++ Ascii.quote :: (after ++ Ascii.colon :: t))) y rest

theorem members_reads {member : σ → Reader σ} {step : σ → Bytes × Tree → σ → Prop}
    (hmember : MemberReads member step) {all : List (Bytes × Tree)} {x y : σ}
    (hrun : Run step x all y) (hne : all ≠ []) (h : MembersAtFront all s rest) :
    ∃ u, skipBlank s = Ascii.quote :: u ∧ Takes (members member x u) y rest := by
  induction hrun generalizing s with
  | nil => exact absurd rfl hne
  | @cons x z y entry all hstep hrun ih =>
    obtain ⟨mid, hentry, hended, hfollow⟩ := h.uncons
    obtain ⟨_, hs, after, t, ha, rfl, hvalue⟩ := hentry.skipBlank_eq
    obtain ⟨hlt, htakes⟩ := hmember x entry.1 entry.2 z after t mid hstep ha hvalue hended
    refine ⟨_, hs, ?_⟩
    unfold members
    rw [htakes, Stopping.ok_bind]
    dsimp only
    obtain ⟨rfl, hmid⟩ | ⟨v, hne, hmid, hall⟩ := hfollow
    · cases hrun
      split
      · next hnil => rw [hmid] at hnil; cases hnil
      next heq =>
      obtain ⟨rfl, rfl⟩ := List.cons.inj (hmid.symm.trans heq)
      rw [if_pos rfl]
      exact takes_ok rfl
    · obtain ⟨w, hv, hlt', hmembers⟩ := ih hne hall
      split
      · next hnil => rw [hmid] at hnil; cases hnil
      next heq =>
      obtain ⟨rfl, rfl⟩ := List.cons.inj (hmid.symm.trans heq)
      rw [if_neg (by decide), if_pos rfl]
      split
      · next hnil => rw [hv] at hnil; cases hnil
      next heq =>
      obtain ⟨rfl, rfl⟩ := List.cons.inj (hv.symm.trans heq)
      rw [if_pos rfl, hmembers, Stopping.ok_bind]
      exact takes_ok rfl

theorem object_reads {member : σ → Reader σ} {step : σ → Bytes × Tree → σ → Prop}
    (hmember : MemberReads member step) {all : List (Bytes × Tree)} {x y : σ}
    (hrun : Run step x all y) (h : MembersAtFront all s rest) : Takes (object member x s) y rest := by
  unfold object
  cases all with
  | nil =>
    cases hrun
    have hs := skipBlank_of_membersAtFront_nil h
    split
    · next hnil => rw [hs] at hnil; cases hnil
    next heq =>
    obtain ⟨rfl, rfl⟩ := List.cons.inj (hs.symm.trans heq)
    rw [if_pos rfl]
    exact takes_ok rfl
  | cons entry all =>
    obtain ⟨u, hs, htakes⟩ := members_reads hmember hrun (List.cons_ne_nil _ _) h
    split
    · next hnil => rw [hs] at hnil; cases hnil
    next heq =>
    obtain ⟨rfl, rfl⟩ := List.cons.inj (hs.symm.trans heq)
    rw [if_neg (by decide), if_pos rfl]
    exact htakes.map (fun _ => rfl) fun _ => rfl

/-! ## Declarations with known keys -/

namespace Shape

variable {shape : Shape σ} {fills : String → Tree → σ → σ → Prop}

/-- The value of a known key fills in a declaration. -/
def FillsEntry (shape : Shape σ) (fills : String → Tree → σ → σ → Prop) (x : σ)
    (entry : String × Tree) (y : σ) : Prop :=
  entry.1 ∈ shape.keys ∧ fills entry.1 entry.2 x y

theorem Filled.run {entries : List (String × Tree)} {x : σ} (h : shape.Filled fills entries x) :
    Run (shape.FillsEntry fills) shape.start entries x := by
  induction h with
  | start => exact .nil _
  | fill _ hkey hfills ih => exact ih.append (.cons ⟨hkey, hfills⟩ (.nil _))

theorem Filled.append_run {entries more : List (String × Tree)} {x y : σ}
    (h : shape.Filled fills entries x) (hrun : Run (shape.FillsEntry fills) x more y) :
    shape.Filled fills (entries ++ more) y := by
  induction hrun generalizing entries with
  | nil => rwa [List.append_nil]
  | cons hstep _ ih =>
    rw [List.append_cons]
    exact ih (h.fill hstep.1 hstep.2)

/-- A member is taken into a declaration and the keys that were met before it. -/
inductive TakesIn (shape : Shape σ) (fills : String → Tree → σ → σ → Prop) :
    σ × List String → Bytes × Tree → σ × List String → Prop
  | known {raw key tree x y met} : Denotes raw key → key ∈ shape.keys → key ∉ met →
      fills key tree x y → TakesIn shape fills (x, met) (raw, tree) (y, met ++ [key])
  | unknown {raw key tree before} : Denotes raw key → key ∉ shape.keys →
      TakesIn shape fills before (raw, tree) before

theorem member_reads (hfill : ∀ key ∈ shape.keys, ∀ x,
      Reads (shape.fill key x) fun tree y => fills key tree x y) :
    MemberReads shape.member (shape.TakesIn fills) := by
  intro before raw tree behind after t rest hstep hafter hvalue hrest
  obtain ⟨h₂, hcolon⟩ := colon_append hafter t
  cases hstep with
  | @known _ key _ x y met hraw hkey hnew hfills =>
    obtain ⟨h₁, hquotation⟩ := quotation_append hraw (after ++ Ascii.colon :: t)
    obtain ⟨h₃, hread⟩ := hfill key hkey x tree y t rest hfills hvalue hrest
    unfold member
    rw [hquotation, Stopping.ok_bind]
    dsimp only
    rw [if_pos hkey, if_neg hnew, hcolon, Stopping.ok_bind]
    dsimp only
    rw [hread, Stopping.ok_bind]
    exact takes_ok rfl
  | @unknown _ key _ _ hraw hkey =>
    obtain ⟨h₁, hquotation⟩ := quotation_append hraw (after ++ Ascii.colon :: t)
    obtain ⟨h₃, hskip⟩ := skip_atFront hvalue hrest
    unfold member
    rw [hquotation, Stopping.ok_bind]
    dsimp only
    rw [if_neg hkey, hcolon, Stopping.ok_bind]
    dsimp only
    rw [hskip, Stopping.ok_bind]
    exact takes_ok rfl

/-- The members of an object are taken in as the entries that they give. -/
theorem run_takesIn {members : List (Bytes × Tree)} {decoded : List (String × Tree)}
    (hdecoded : List.Forall₂ (fun member entry => Denotes member.1 entry.1 ∧ member.2 = entry.2)
      members decoded) {x y : σ} {met : List String}
    (hrun : Run (shape.FillsEntry fills) x (decoded.filter fun entry => entry.1 ∈ shape.keys) y)
    (hnodup : (met ++ (decoded.filter fun entry => entry.1 ∈ shape.keys).map Prod.fst).Nodup) :
    Run (shape.TakesIn fills) (x, met) members
      (y, met ++ (decoded.filter fun entry => entry.1 ∈ shape.keys).map Prod.fst) := by
  induction hdecoded generalizing x met with
  | nil =>
    cases hrun
    rw [List.filter_nil, List.map_nil, List.append_nil]
    exact .nil _
  | @cons member entry members decoded hentry _ ih =>
    obtain ⟨raw, tree⟩ := member
    obtain ⟨key, value⟩ := entry
    obtain ⟨hraw, rfl⟩ : Denotes raw key ∧ tree = value := hentry
    by_cases hkey : key ∈ shape.keys
    · rw [List.filter_cons_of_pos (by simpa using hkey)] at hrun hnodup ⊢
      rw [List.map_cons, List.append_cons] at hnodup ⊢
      cases hrun with
      | cons hstep hrun =>
        have hnew : key ∉ met := by
          intro hmet
          exact (List.nodup_append.mp (List.nodup_append.mp hnodup).1).2.2 key hmet key
            List.mem_cons_self rfl
        exact .cons (.known hraw hkey hnew hstep.2) (ih hrun hnodup)
    · rw [List.filter_cons_of_neg (by simpa using hkey)] at hrun hnodup ⊢
      exact .cons (.unknown hraw hkey) (ih hrun hnodup)

theorem closed_of_closing (hs : skipBlank s = Ascii.closeSquare :: rest) : Leaves (closed s) rest := by
  unfold closed
  split
  · next hnil => rw [hs] at hnil; cases hnil
  next heq =>
  obtain ⟨rfl, rfl⟩ := List.cons.inj (hs.symm.trans heq)
  rw [if_pos rfl]
  exact leaves_ok rfl

theorem skipBlank_of_remainAtFront_nil {met : List String} (h : RemainAtFront met [] s rest) :
    skipBlank s = Ascii.closeSquare :: rest := by
  unfold RemainAtFront at h
  split at h
  · exact skipBlank_of_itemsAtFront_nil h
  · obtain ⟨-, hs⟩ | ⟨_, hne, -⟩ := h
    · exact hs
    · exact absurd rfl hne

/-- Where a value is left, the next one starts behind a comma, or at once if it is the first. -/
theorem start_of_remainAtFront {met : List String} {items : List Tree}
    (h : RemainAtFront met (tree :: items) s rest) :
    ∃ b r u mid, skipBlank s = b :: r ∧ b ≠ Ascii.closeSquare ∧ AtFront tree u mid ∧ Ended mid ∧
      FollowAtFront items mid rest ∧ ∀ hr : r.length < s.length, Leaves (values.start met b r hr) u := by
  unfold RemainAtFront at h
  split at h
  · next hmet =>
    obtain ⟨mid, htree, hended, hfollow⟩ := h.uncons
    obtain ⟨text, ht, hs⟩ := htree.skipBlank_eq
    obtain ⟨b, more, rfl, -⟩ := ht.exists_cons
    rw [List.cons_append] at hs
    refine ⟨b, _, _, mid, hs, ?_, ⟨[], _, blank_nil, ht, rfl⟩, hended, hfollow, fun hr => ?_⟩
    · rintro rfl
      exact htree.skipBlank_ne (by decide) hs
    · unfold values.start
      rw [if_pos hmet]
      exact leaves_ok rfl
  · next hmet =>
    obtain ⟨hnil, -⟩ | ⟨t, -, hs, hitems⟩ := h
    · cases hnil
    obtain ⟨mid, htree, hended, hfollow⟩ := hitems.uncons
    refine ⟨Ascii.comma, t, t, mid, hs, by decide, htree, hended, hfollow, fun hr => ?_⟩
    unfold values.start
    rw [if_neg hmet, if_pos rfl]
    split
    · next hclose => exact absurd hclose (htree.skipBlank_ne (by decide))
    · exact leaves_ok rfl

theorem values_reads (hfill : ∀ key ∈ shape.keys, ∀ x,
      Reads (shape.fill key x) fun tree y => fills key tree x y) {keys met : List String}
    {items : List Tree} {x y : σ} (hlen : items.length ≤ keys.length)
    (hrun : Run (shape.FillsEntry fills) x (keys.zip items) y)
    (h : RemainAtFront met items s rest) :
    Takes (shape.values keys (x, met) s) (y, met ++ (keys.zip items).map Prod.fst) rest := by
  induction keys generalizing items x met s with
  | nil =>
    obtain rfl := List.eq_nil_of_length_eq_zero (Nat.le_zero.mp hlen)
    cases hrun
    rw [List.zip_nil_right, List.map_nil, List.append_nil]
    obtain ⟨hlt, hclosed⟩ := closed_of_closing (skipBlank_of_remainAtFront_nil h)
    rw [values, hclosed]
    exact takes_ok rfl
  | cons key keys ih =>
    cases items with
    | nil =>
      cases hrun
      rw [List.zip_nil_right, List.map_nil, List.append_nil]
      have hs := skipBlank_of_remainAtFront_nil h
      unfold values
      split
      · next hnil => rw [hs] at hnil; cases hnil
      next heq =>
      obtain ⟨rfl, rfl⟩ := List.cons.inj (hs.symm.trans heq)
      rw [if_pos rfl]
      exact takes_ok rfl
    | cons tree items =>
      obtain ⟨b, r, u, mid, hs, hb, htree, hended, hfollow, hstart⟩ := start_of_remainAtFront h
      rw [List.zip_cons_cons] at hrun
      cases hrun with
      | @cons _ z _ _ _ hstep hrun =>
        have hfollow : RemainAtFront (met ++ [key]) items mid rest := by
          rwa [RemainAtFront, if_neg (by simp)]
        obtain ⟨hlt', hread⟩ := hfill key hstep.1 x tree z u mid hstep.2 htree hended
        obtain ⟨hlt'', hvalues⟩ := ih (Nat.le_of_succ_le_succ hlen) hrun hfollow
        unfold values
        split
        · next hnil => rw [hs] at hnil; cases hnil
        next heq =>
        obtain ⟨rfl, rfl⟩ := List.cons.inj (hs.symm.trans heq)
        obtain ⟨hle, hstart⟩ := hstart (length_lt_of_skipBlank heq)
        rw [if_neg hb, hstart, Stopping.ok_bind]
        dsimp only
        rw [hread, Stopping.ok_bind]
        dsimp only
        rw [hvalues, Stopping.ok_bind, List.zip_cons_cons, List.map_cons, ← List.append_cons]
        exact takes_ok rfl

/-- A declaration is read from every tree that declares it. -/
theorem read_reads (hfill : ∀ key ∈ shape.keys, ∀ x,
      Reads (shape.fill key x) fun tree y => fills key tree x y) :
    Reads shape.read (shape.Means fills) := by
  rintro tree ⟨x, met⟩ s rest ⟨entries, hgives, hfilled, rfl⟩ h -
  obtain ⟨_, ht, hs⟩ := h.skipBlank_eq
  have hrun := hfilled.run
  unfold read
  cases hgives with
  | object hdecoded hnodup =>
    cases ht with
    | object hm =>
      rw [List.cons_append, List.append_assoc] at hs
      split
      · next hnil => rw [hs] at hnil; cases hnil
      next heq =>
      obtain ⟨rfl, rfl⟩ := List.cons.inj (hs.symm.trans heq)
      rw [if_pos rfl]
      refine (object_reads (member_reads hfill) ?_ ⟨_, hm, rfl⟩).map (fun _ => rfl) fun _ => rfl
      exact run_takesIn hdecoded hrun hnodup
  | list hlen =>
    cases ht with
    | list hi =>
      rw [List.cons_append, List.append_assoc] at hs
      split
      · next hnil => rw [hs] at hnil; cases hnil
      next heq =>
      obtain ⟨rfl, rfl⟩ := List.cons.inj (hs.symm.trans heq)
      rw [if_neg (by decide), if_pos rfl]
      have hremain : RemainAtFront [] _ _ rest := ⟨_, hi, rfl⟩
      exact (values_reads hfill hlen hrun hremain).map (fun _ => rfl) fun _ => rfl

end Shape

/-! ## Whole texts -/

theorem ended_of_blank (h : Blank s) : ended s = .ok () := by
  have hs : skipBlank s = [] := List.dropWhile_eq_nil_iff.mpr h
  unfold ended
  rw [hs]

/-- A text is read whole as what the value means that it spells. -/
theorem readAll_of_means {read : Reader α} {means : Tree → α → Prop} (hreads : Reads read means)
    (hs : SpellsPadded tree s) {x : α} (hmeans : means tree x) : readAll read s = .ok x := by
  obtain ⟨hb, ht, ha⟩ := hs
  have hended := delimited_nil.ended.append_blank ha
  rw [List.append_nil] at hended
  obtain ⟨hlt, htakes⟩ := hreads tree x _ _ hmeans ⟨_, _, hb, ht, rfl⟩ hended
  unfold readAll
  rw [htakes, Stopping.ok_bind]
  dsimp only
  rw [ended_of_blank ha]
  rfl

/-- It is read as nothing else. -/
theorem readAll_eq_ok_iff {read : Reader α} {means : Tree → α → Prop}
    (haccepts : Accepts read means) (hreads : Reads read means) (hs : SpellsPadded tree s) (x : α) :
    readAll read s = .ok x ↔ means tree x := by
  constructor
  · intro h
    obtain ⟨tree', htree, hmeans⟩ := readAll_ok haccepts h
    exact htree.tree_unique hs ▸ hmeans
  · exact readAll_of_means hreads hs

end TypedCollections.Json
