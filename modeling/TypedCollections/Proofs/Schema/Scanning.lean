import TypedCollections.Proofs.Json.Grammar
import TypedCollections.Schema.Dialect

/-!
The scan of a schema document, followed through the tree of a JSON text. It keeps no tree, only the
open brackets and a flag. Below two open brackets, and at the values of a collection, it passes over
a whole value and comes back unchanged; directly in a collection it records each key, and nothing
else; directly in the outermost list it counts the objects.
-/
namespace TypedCollections.Schema.Dialect

open Json

/-! ## Bytes that change nothing -/

/-- A byte that means nothing outside strings. -/
structure Inert (b : UInt8) : Prop where
  quote : b ≠ Ascii.quote
  openSquare : b ≠ Ascii.openSquare
  openCurly : b ≠ Ascii.openCurly
  closeSquare : b ≠ Ascii.closeSquare
  closeCurly : b ≠ Ascii.closeCurly
  comma : b ≠ Ascii.comma
  colon : b ≠ Ascii.colon

theorem inert_of_separator {b : UInt8} (h : isSeparator b) : Inert b := by
  constructor <;> rintro rfl <;> exact absurd h (by decide)

theorem inert_of_digit {b : UInt8} (h : Ascii.isDigit b) : Inert b := by
  constructor <;> rintro rfl <;> exact absurd h (by decide)

theorem inert_of_word {s : Bytes} (h : s ∈ [trueWord, falseWord, nullWord]) :
    ∀ b ∈ s, Inert b := by
  simp only [List.mem_cons, List.not_mem_nil, or_false] at h
  rcases h with rfl | rfl | rfl
  all_goals
    intro b hb
    simp only [trueWord, falseWord, nullWord, List.mem_cons, List.not_mem_nil, or_false] at hb
    constructor <;> rintro rfl <;> exact absurd hb (by decide)

theorem inert_of_number {s : Bytes} (h : IsNumber s) : ∀ b ∈ s, Inert b := by
  refine h.forall_mem (fun _ => inert_of_digit) fun b hb => ?_
  simp only [List.mem_cons, List.not_mem_nil, or_false] at hb
  rcases hb with rfl | rfl | rfl | rfl | rfl <;> constructor <;> decide

namespace Scan

variable {s t : Scan} {b : UInt8} {text rest : Bytes}

/-- The same state some bytes later. -/
def past (s : Scan) (n : Nat) : Scan := { s with offset := s.offset + n }

@[simp] theorem past_past (s : Scan) (m n : Nat) : (s.past m).past n = s.past (m + n) := by
  simp only [past, Nat.add_assoc]

@[simp] theorem next_past (s : Scan) (n : Nat) : s.next.past n = s.past (n + 1) := by
  simp only [past, next, Nat.add_assoc, Nat.add_comm 1]

@[simp] theorem past_next (s : Scan) (n : Nat) : (s.past n).next = s.past (n + 1) := rfl

theorem run_ok (h : s.step b = .ok t) (rest : Bytes) : s.run (b :: rest) = t.run rest := by
  simp only [run, h]

theorem run_error {v : Verdict} (h : s.step b = .error v) (rest : Bytes) :
    s.run (b :: rest) = v := by
  simp only [run, h]

theorem step_inert (hs : s.string = none) (h : Inert b) : s.step b = .ok s.next := by
  simp [step, hs, h.quote, h.openSquare, h.openCurly, h.closeSquare, h.closeCurly, h.comma,
    h.colon]

theorem run_inert (hs : s.string = none) (h : ∀ b ∈ text, Inert b) :
    s.run (text ++ rest) = (s.past text.length).run rest := by
  induction text generalizing s with
  | nil => rfl
  | cons b text ih =>
    have hb : Inert b := h b List.mem_cons_self
    have ht : ∀ c ∈ text, Inert c := fun c hc => h c (List.mem_cons_of_mem b hc)
    rw [List.cons_append, run_ok (step_inert hs hb), ih (s := s.next) hs ht, next_past]
    rfl

theorem run_blank (hs : s.string = none) (h : Blank text) :
    s.run (text ++ rest) = (s.past text.length).run rest :=
  run_inert hs fun b hb => inert_of_separator (h b hb)

/-! ## Strings -/

/-- The same state in a string that was opened at `start` and whose bytes so far are `read`. -/
def inside (s : Scan) (start : Nat) (read : Bytes) : Scan :=
  { s with string := some ⟨start, read, false⟩ }

/-- Inside a string a byte that neither ends it nor escapes is taken in. -/
theorem step_plain {start : Nat} {read : Bytes} (hq : b ≠ Ascii.quote)
    (hb : b ≠ Ascii.backslash) :
    (s.inside start read).step b = .ok (s.next.inside start (b :: read)) := by
  simp [step, inside, inString, next, hq, hb]

/-- A backslash is taken in together with the byte after it, whatever that is. -/
theorem run_escape {start : Nat} {read : Bytes} (c : UInt8) :
    (s.inside start read).run (Ascii.backslash :: c :: rest) =
      (s.next.next.inside start (c :: Ascii.backslash :: read)).run rest := by
  have hq : Ascii.backslash ≠ Ascii.quote := by decide
  have hb : (s.inside start read).step Ascii.backslash =
      .ok { s.next with string := some ⟨start, Ascii.backslash :: read, true⟩ } := by
    simp [step, inside, inString, next, hq]
  rw [run_ok hb]
  exact run_ok (by simp [step, inside, inString, next]) rest

theorem plain_of_hex (h : IsHexDigit b) : b ≠ Ascii.quote ∧ b ≠ Ascii.backslash := by
  unfold IsHexDigit at h
  constructor <;> rintro rfl <;> exact absurd h (by decide)

theorem run_hex {start : Nat} {read : Bytes} (h : IsHexDigit b) :
    (s.inside start read).run (b :: rest) = (s.next.inside start (b :: read)).run rest :=
  run_ok (step_plain (plain_of_hex h).1 (plain_of_hex h).2) rest

/-- The bytes of a string are taken in one by one, whatever they escape. -/
theorem run_quoted {raw : Bytes} (h : Quoted raw) {start : Nat} {read : Bytes} :
    (s.inside start read).run (raw ++ rest) =
      ((s.past raw.length).inside start (raw.reverse ++ read)).run rest := by
  induction h generalizing s read with
  | nil => rfl
  | plain _ hq hb _ ih =>
    rw [List.cons_append, run_ok (step_plain hq hb), ih]
    simp
  | escape _ _ ih =>
    simp only [List.cons_append]
    rw [run_escape, ih]
    simp
  | unicode ha hb hc hd _ ih =>
    simp only [List.cons_append]
    rw [run_escape, run_hex ha, run_hex hb, run_hex hc, run_hex hd, ih]
    simp

theorem run_opened {raw : Bytes} (h : Quoted raw) (hs : s.string = none) :
    s.run (Ascii.quote :: (raw ++ rest)) =
      ((s.past (raw.length + 1)).inside s.offset raw.reverse).run rest := by
  have hstep : s.step Ascii.quote = .ok (s.next.inside s.offset []) := by
    simp [step, hs, inside]
  rw [run_ok hstep, run_quoted h, List.append_nil, next_past]

/-- The same state some bytes later, after a key was recorded. -/
def recorded (s : Scan) (n : Nat) (seen : Seen) : Scan :=
  { s.past n with seen, expectsKey := false }

theorem past_recorded (s : Scan) (m n : Nat) (seen : Seen) :
    (s.past m).recorded n seen = s.recorded (m + n) seen := by
  simp only [recorded, past, Nat.add_assoc]

theorem recorded_past (s : Scan) (m n : Nat) (seen : Seen) :
    (s.recorded m seen).past n = s.recorded (m + n) seen := by
  simp only [recorded, past, Nat.add_assoc]

theorem step_closing_quote (hs : s.string = none) (start : Nat) (read : Bytes) :
    (s.inside start read).step Ascii.quote =
      if s.expectsKey && s.inCollection then
        (s.seen.record read.reverse (s.collections - 1)).map fun seen =>
          { s.next with seen, expectsKey := false }
      else .ok s.next := by
  have hi : (s.inside start read).inCollection = s.inCollection := rfl
  have hn : { s.next with string := none } = s.next := by rw [← hs]; rfl
  have hq : (s.inside start read).step Ascii.quote =
      (s.inside start read).inString ⟨start, read, false⟩ Ascii.quote := rfl
  rw [hq, inString, hi]
  cases hk : s.expectsKey && s.inCollection with
  | false =>
    simp only [inside, hk]
    exact congrArg Except.ok hn
  | true =>
    simp only [inside, next, hk, hs]
    cases s.seen.record read.reverse (s.collections - 1) <;> rfl

/-- A string where no key is expected is passed over. -/
theorem run_string {raw : Bytes} (h : Quoted raw) (hs : s.string = none)
    (hk : (s.expectsKey && s.inCollection) = false) :
    s.run (Ascii.quote :: (raw ++ Ascii.quote :: rest)) = (s.past (raw.length + 2)).run rest := by
  have hstep := step_closing_quote (s := s.past (raw.length + 1)) hs s.offset raw.reverse
  rw [if_neg (by exact ne_true_of_eq_false hk)] at hstep
  rw [run_opened h hs, run_ok hstep, past_next]

/-- A key of a collection is recorded in its own spelling. -/
theorem run_key {raw : Bytes} (h : Quoted raw) (hs : s.string = none)
    (hk : s.expectsKey = true) (hc : s.inCollection = true) :
    s.run (Ascii.quote :: (raw ++ Ascii.quote :: rest)) =
      match s.seen.record raw (s.collections - 1) with
      | .ok seen => (s.recorded (raw.length + 2) seen).run rest
      | .error v => v := by
  have hstep := step_closing_quote (s := s.past (raw.length + 1)) hs s.offset raw.reverse
  rw [if_pos (by exact Bool.and_eq_true_iff.mpr ⟨hk, hc⟩), List.reverse_reverse] at hstep
  change _ = (s.seen.record raw (s.collections - 1)).map _ at hstep
  rw [run_opened h hs]
  cases hr : s.seen.record raw (s.collections - 1) with
  | ok seen => exact run_ok (by rw [hstep, hr]; rfl) rest
  | error v => exact run_error (by rw [hstep, hr]; rfl) rest

/-! ## Values below the collections -/

/-- At a value that is no collection: no key is expected here, and every bracket that opens here
stands at least third. -/
structure Ready (s : Scan) : Prop where
  string : s.string = none
  opened : 2 ≤ s.opened.length
  quiet : (s.expectsKey && s.inCollection) = false

/-- Inside such a value. Commas and colons mean nothing here. -/
structure Deep (s : Scan) : Prop where
  string : s.string = none
  opened : 2 ≤ s.opened.length
  outside : s.inCollection = false

theorem Deep.ready (h : s.Deep) : s.Ready := ⟨h.string, h.opened, by simp [h.outside]⟩

theorem Ready.past (h : s.Ready) (n : Nat) : (s.past n).Ready := ⟨h.string, h.opened, h.quiet⟩

theorem Deep.past (h : s.Deep) (n : Nat) : (s.past n).Deep := ⟨h.string, h.opened, h.outside⟩

/-- The same state after one more bracket. -/
def within (s : Scan) (bracket : Bracket) : Scan := { s.next with opened := bracket :: s.opened }

theorem within_deep {bracket : Bracket} (hs : s.string = none) (ho : s.opened ≠ [])
    (hb : bracket :: s.opened ≠ [.curly, .square]) : (s.within bracket).Deep := by
  refine ⟨hs, ?_, beq_eq_false_iff_ne.mpr hb⟩
  exact Nat.succ_le_succ (List.length_pos_iff.mpr ho)

theorem Ready.ne (h : s.Ready) (bracket : Bracket) :
    s.opened ≠ [] ∧ bracket :: s.opened ≠ [.curly, .square] := by
  have hl := h.opened
  constructor
  · intro ho
    simp [ho] at hl
  · intro ho
    rw [(List.cons.inj ho).2] at hl
    exact absurd hl (by decide)

theorem step_open (bracket : Bracket) (hs : s.string = none)
    (hb : Bracket.open? b = some bracket) :
    s.step b = .ok (s.opening bracket) := by
  have hq : b ≠ Ascii.quote := by rintro rfl; cases hb
  unfold Bracket.open? at hb
  split at hb
  · next h => cases hb; simp [step, hs, h, show Ascii.openSquare ≠ Ascii.quote by decide]
  · next h =>
    split at hb
    · next h' =>
      cases hb
      simp [step, hs, h', show Ascii.openCurly ≠ Ascii.quote by decide,
        show Ascii.openCurly ≠ Ascii.openSquare by decide]
    · cases hb

theorem step_close (hs : s.string = none) (bracket : Bracket) :
    s.step bracket.closing = s.closing bracket := by
  cases bracket <;> simp [step, hs, Bracket.closing] <;> rfl

theorem opening_within {bracket : Bracket} (hb : bracket :: s.opened ≠ [.curly, .square]) :
    s.opening bracket = s.within bracket := by
  unfold Scan.opening
  rw [if_neg hb]
  rfl

/-- A bracket that closes is taken off again, as long as the outermost list stays open. -/
theorem closing_within {bracket : Bracket} (h : s.opened ≠ []) (n : Nat) :
    ((s.within bracket).past n).closing bracket = .ok (s.past (n + 2)) := by
  simp only [closing, within, past, next, ne_eq, not_true_eq_false, ↓reduceIte, h, Except.ok.injEq,
    Scan.mk.injEq, and_self, and_true]
  omega

/-- What stands between brackets is passed over, so the brackets are too. -/
theorem run_brackets (bracket : Bracket) (hs : s.string = none) (ho : s.opened ≠ [])
    (hc : bracket :: s.opened ≠ [.curly, .square]) (hb : Bracket.open? b = some bracket)
    (hin : ∀ t : Scan, t.Deep → ∀ rest, t.run (text ++ rest) = (t.past text.length).run rest) :
    s.run (b :: (text ++ [bracket.closing]) ++ rest) =
      (s.past (b :: (text ++ [bracket.closing])).length).run rest := by
  have hclose : ((s.within bracket).past text.length).step bracket.closing =
      .ok (s.past (text.length + 2)) := by
    rw [step_close (by exact hs), closing_within ho]
  rw [List.cons_append, run_ok (step_open bracket hs hb), opening_within hc, List.append_assoc,
    hin _ (within_deep hs ho hc), List.singleton_append, run_ok hclose]
  simp

theorem step_comma (hs : s.string = none) :
    s.step Ascii.comma =
      .ok (if s.inCollection then { s.next with expectsKey := true } else s.next) := by
  cases hc : s.inCollection <;> simp [step, hs, hc] <;> rfl

theorem step_colon (hs : s.string = none) :
    s.step Ascii.colon =
      .ok (if s.inCollection then { s.next with expectsKey := false } else s.next) := by
  cases hc : s.inCollection <;> simp [step, hs, hc] <;> rfl

theorem Deep.step_comma (h : s.Deep) : s.step Ascii.comma = .ok s.next := by
  simp [Scan.step_comma h.string, h.outside]

theorem Deep.step_colon (h : s.Deep) : s.step Ascii.colon = .ok s.next := by
  simp [Scan.step_colon h.string, h.outside]

mutual

/-- A value that is no collection changes nothing. -/
theorem run_value {tree : Tree} {text : Bytes} (h : Spells tree text) (s : Scan) (hs : s.Ready)
    (rest : Bytes) : s.run (text ++ rest) = (s.past text.length).run rest :=
  match h with
  | .word h => run_inert hs.string (inert_of_word h)
  | .number h => run_inert hs.string (inert_of_number h)
  | .string h => by
    rw [List.cons_append, List.append_assoc, List.singleton_append, run_string h hs.string hs.quiet]
    simp
  | .list h =>
    run_brackets .square hs.string (hs.ne .square).1 (hs.ne .square).2 rfl (run_items h)
  | .object h =>
    run_brackets .curly hs.string (hs.ne .curly).1 (hs.ne .curly).2 rfl (run_members h)

theorem run_padded {tree : Tree} {text : Bytes} (h : SpellsPadded tree text) (s : Scan)
    (hs : s.Ready) (rest : Bytes) : s.run (text ++ rest) = (s.past text.length).run rest :=
  match h with
  | .mk hb h ha => by
    rw [List.append_assoc, run_blank hs.string hb, List.append_assoc, run_value h _ (hs.past _),
      run_blank (by exact hs.string) ha]
    simp [Nat.add_assoc]

theorem run_items {items : List Tree} {text : Bytes} (h : SpellsItems items text) (s : Scan)
    (hs : s.Deep) (rest : Bytes) : s.run (text ++ rest) = (s.past text.length).run rest :=
  match h with
  | .none h => run_blank hs.string h
  | .last h => run_padded h s hs.ready rest
  | .more h hr => by
    rw [List.append_assoc, run_padded h s hs.ready, List.cons_append,
      run_ok (hs.past _).step_comma, past_next, run_items hr _ (hs.past _)]
    simp [Nat.add_assoc, Nat.add_comm 1]

theorem run_member {member : Bytes × Tree} {text : Bytes} (h : SpellsMember member text)
    (s : Scan) (hs : s.Deep) (rest : Bytes) :
    s.run (text ++ rest) = (s.past text.length).run rest :=
  match h with
  | .mk hb hk ha h => by
    simp only [List.append_assoc, List.cons_append]
    rw [run_blank hs.string hb, run_string hk (by exact hs.string) (by exact hs.ready.quiet),
      past_past, run_blank (by exact hs.string) ha, past_past, run_ok (hs.past _).step_colon,
      past_next, run_padded h _ (hs.past _).ready]
    simp [Nat.add_comm, Nat.add_left_comm]

theorem run_members {members : List (Bytes × Tree)} {text : Bytes}
    (h : SpellsMembers members text) (s : Scan) (hs : s.Deep) (rest : Bytes) :
    s.run (text ++ rest) = (s.past text.length).run rest :=
  match h with
  | .none h => run_blank hs.string h
  | .last h => run_member h s hs rest
  | .more h hr => by
    rw [List.append_assoc, run_member h s hs, List.cons_append,
      run_ok (hs.past _).step_comma, past_next, run_members hr _ (hs.past _)]
    simp [Nat.add_assoc, Nat.add_comm 1]

end

/-! ## Collections -/

end Scan

/-- Takes in the keys of one object, in order. -/
def Seen.recordAll (seen : Seen) (keys : List Bytes) (collection : Nat) : Except Verdict Seen :=
  keys.foldlM (fun seen key => seen.record key collection) seen

/-- Takes in an item of the outermost list. Only objects have keys, and only objects count. -/
def Seen.item (found : Seen × Nat) (tree : Tree) : Except Verdict (Seen × Nat) :=
  match tree with
  | .object members =>
    (found.1.recordAll (members.map Prod.fst) found.2).map fun seen => (seen, found.2 + 1)
  | _ => .ok found

namespace Scan

variable {s t : Scan} {b : UInt8} {text rest : Bytes}

/-- In front of a key of a collection. -/
structure AtKey (s : Scan) : Prop where
  string : s.string = none
  opened : s.opened = [.curly, .square]
  expects : s.expectsKey = true

theorem AtKey.inCollection (h : s.AtKey) : s.inCollection = true := by
  simp [Scan.inCollection, h.opened]

theorem AtKey.ready_recorded (h : s.AtKey) (n : Nat) (seen : Seen) : (s.recorded n seen).Ready :=
  ⟨h.string, by simp [recorded, past, h.opened], rfl⟩

theorem AtKey.step_colon (h : s.AtKey) (n : Nat) (seen : Seen) :
    (s.recorded n seen).step Ascii.colon = .ok (s.recorded (n + 1) seen) := by
  have hc : (s.recorded n seen).inCollection = true := h.inCollection
  rw [Scan.step_colon (by exact h.string), if_pos hc]
  rfl

/-- After a comma the scan stands in front of the next key. -/
theorem AtKey.step_comma (h : s.AtKey) (n : Nat) (seen : Seen) :
    (s.recorded n seen).step Ascii.comma = .ok { s.past (n + 1) with seen } := by
  have hc : (s.recorded n seen).inCollection = true := h.inCollection
  rw [Scan.step_comma (by exact h.string), if_pos hc]
  simp [recorded, next, past, h.expects, Nat.add_assoc]

/-- A member of a collection gives its key to the record, and its value changes nothing. -/
theorem run_keyed {member : Bytes × Tree} (h : SpellsMember member text) (hs : s.AtKey) :
    s.run (text ++ rest) =
      match s.seen.record member.1 (s.collections - 1) with
      | .ok seen => (s.recorded text.length seen).run rest
      | .error v => v := by
  obtain ⟨hb, hk, ha, hv⟩ := h
  rename_i key tree before after value
  simp only [List.append_assoc, List.cons_append]
  rw [run_blank hs.string hb, run_key hk (by exact hs.string) (by exact hs.expects)
    (by exact hs.inCollection)]
  simp only [past_recorded]
  change (match s.seen.record key (s.collections - 1) with | .ok seen => _ | .error v => _) = _
  cases s.seen.record key (s.collections - 1) with
  | error v => rfl
  | ok seen =>
    have hr := hs.ready_recorded
    simp only
    rw [run_blank (hr _ _).string ha, recorded_past, run_ok (hs.step_colon _ _),
      run_padded hv _ (hr _ _), recorded_past]
    simp [Nat.add_comm, Nat.add_left_comm]

/-- The members of a collection give their keys to the record, one after the other. After the last
of them a key is expected only if there was none. -/
theorem run_keyed_members {members : List (Bytes × Tree)} {text : Bytes}
    (h : SpellsMembers members text) (s : Scan) (hs : s.AtKey) (rest : Bytes) :
    s.run (text ++ rest) =
      match s.seen.recordAll (members.map Prod.fst) (s.collections - 1) with
      | .ok seen =>
        run ⟨s.offset + text.length, s.opened, s.collections, members.isEmpty, seen, none⟩ rest
      | .error v => v :=
  match h with
  | .none h => by
    rw [run_blank hs.string h]
    simp [Seen.recordAll, pure, Except.pure, past, hs.expects, hs.string]
  | .last h => by
    rw [run_keyed h hs]
    rename_i member
    simp only [Seen.recordAll, List.map_cons, List.map_nil, List.foldlM_cons, List.foldlM_nil]
    cases s.seen.record member.1 (s.collections - 1) with
    | error v => rfl
    | ok seen => simp [pure, Except.pure, bind, Except.bind, recorded, past, hs.string]
  | .more h hr => by
    rename_i member next members value others
    rw [List.append_assoc, run_keyed h hs]
    simp only [Seen.recordAll, List.map_cons, List.foldlM_cons]
    cases s.seen.record member.1 (s.collections - 1) with
    | error v => rfl
    | ok seen =>
      have hn : Scan.AtKey { s.past (value.length + 1) with seen } :=
        ⟨hs.string, hs.opened, hs.expects⟩
      have hm := run_keyed_members hr _ hn rest
      simp only [Seen.recordAll, List.map_cons, List.foldlM_cons] at hm
      simp only [List.cons_append, run_ok (hs.step_comma _ _)]
      rw [hm]
      simp only [past, List.length_append, List.length_cons, List.isEmpty_cons, Nat.add_assoc,
        Nat.add_comm 1, bind, Except.bind]

/-- Directly in the outermost list. -/
structure Outer (s : Scan) : Prop where
  string : s.string = none
  opened : s.opened = [.square]

theorem Outer.past (h : s.Outer) (n : Nat) : (s.past n).Outer := ⟨h.string, h.opened⟩

theorem Outer.outside (h : s.Outer) : s.inCollection = false := by
  simp [Scan.inCollection, h.opened]

/-- What a piece of the outermost list does to a scan: either the verdict is certain after it, or
the scan goes on directly in that list, with these keys seen in so many collections. -/
def Leads (s : Scan) (text : Bytes) : Except Verdict (Seen × Nat) → Prop
  | .error v => ∀ rest, s.run (text ++ rest) = v
  | .ok (seen, n) => ∃ t : Scan, t.Outer ∧ t.seen = seen ∧ t.collections = n ∧
      ∀ rest, s.run (text ++ rest) = t.run rest

/-- A piece that is passed over. -/
theorem Outer.leads_past (h : s.Outer) (n : Nat)
    (hrun : ∀ rest, s.run (text ++ rest) = (s.past n).run rest) :
    s.Leads text (.ok (s.seen, s.collections)) :=
  ⟨s.past n, h.past n, rfl, rfl, hrun⟩

/-- Pieces follow each other as checked computations do. -/
theorem Leads.append {first second : Bytes} {r : Except Verdict (Seen × Nat)}
    {f : Seen × Nat → Except Verdict (Seen × Nat)} (h : s.Leads first r)
    (hf : ∀ t : Scan, t.Outer → t.Leads second (f (t.seen, t.collections))) :
    s.Leads (first ++ second) (r >>= f) := by
  cases r with
  | error v =>
    intro rest
    rw [List.append_assoc]
    exact h _
  | ok found =>
    obtain ⟨seen, n⟩ := found
    obtain ⟨t, ho, rfl, rfl, ht⟩ := h
    have hs := hf t ho
    change Leads s (first ++ second) (f (t.seen, t.collections))
    cases hr : f (t.seen, t.collections) with
    | error v =>
      rw [hr] at hs
      intro rest
      rw [List.append_assoc, ht]
      exact hs rest
    | ok found =>
      rw [hr] at hs
      obtain ⟨u, hu, hseen, hn, hrun⟩ := hs
      refine ⟨u, hu, hseen, hn, fun rest => ?_⟩
      rw [List.append_assoc, ht]
      exact hrun rest

theorem Leads.cons {r : Except Verdict (Seen × Nat)} (h : t.Leads text r)
    (hb : s.step b = .ok t) : s.Leads (b :: text) r := by
  cases r with
  | error v =>
    intro rest
    rw [List.cons_append, run_ok hb]
    exact h rest
  | ok found =>
    obtain ⟨u, hu, hseen, hn, hrun⟩ := h
    refine ⟨u, hu, hseen, hn, fun rest => ?_⟩
    rw [List.cons_append, run_ok hb]
    exact hrun rest

/-- Behind the bracket that opens the next collection. -/
def entered (s : Scan) : Scan :=
  ⟨s.offset + 1, [.curly, .square], s.collections + 1, true, s.seen, none⟩

theorem Outer.step_open (h : s.Outer) : s.step Ascii.openCurly = .ok s.entered := by
  rw [Scan.step_open .curly h.string rfl]
  simp [opening, h.opened, entered, next, h.string]

/-- A collection counts, and its keys are recorded under its number. -/
theorem Outer.leads_object {members : List (Bytes × Tree)} (h : SpellsMembers members text)
    (hs : s.Outer) :
    s.Leads (Ascii.openCurly :: (text ++ [Ascii.closeCurly]))
      (Seen.item (s.seen, s.collections) (.object members)) := by
  have hrun := run_keyed_members h s.entered ⟨rfl, rfl, rfl⟩
  simp only [entered, Nat.add_sub_cancel] at hrun
  simp only [Seen.item]
  cases hr : s.seen.recordAll (members.map Prod.fst) s.collections with
  | error v =>
    simp only [hr] at hrun
    intro rest
    rw [List.cons_append, run_ok hs.step_open, List.append_assoc]
    exact hrun _
  | ok seen =>
    simp only [hr] at hrun
    refine ⟨⟨s.offset + 1 + text.length + 1, [.square], s.collections + 1, members.isEmpty, seen,
      none⟩, ⟨rfl, rfl⟩, rfl, rfl, fun rest => ?_⟩
    rw [List.cons_append, run_ok hs.step_open, List.append_assoc]
    refine (hrun _).trans (run_ok ?_ rest)
    exact step_close rfl .curly

/-- An item of the outermost list, whatever it is. -/
theorem Outer.leads_value {tree : Tree} (h : Spells tree text) (hs : s.Outer) :
    s.Leads text (Seen.item (s.seen, s.collections) tree) := by
  cases h with
  | word h => exact hs.leads_past _ fun _ => run_inert hs.string (inert_of_word h)
  | number h => exact hs.leads_past _ fun _ => run_inert hs.string (inert_of_number h)
  | @string raw h =>
    refine hs.leads_past (raw.length + 2) fun rest => ?_
    rw [List.cons_append, List.append_assoc, List.singleton_append,
      run_string h hs.string (by simp [hs.outside])]
  | @list items inner h =>
    refine hs.leads_past (Ascii.openSquare :: (inner ++ [Ascii.closeSquare])).length fun rest => ?_
    refine run_brackets .square hs.string ?_ ?_ rfl (run_items h)
    · simp [hs.opened]
    · simp [hs.opened]
  | object h => exact hs.leads_object h

theorem Outer.leads_blank (h : Blank text) (hs : s.Outer) :
    s.Leads text (.ok (s.seen, s.collections)) :=
  hs.leads_past text.length fun _ => run_blank hs.string h

theorem Outer.leads_padded {tree : Tree} (h : SpellsPadded tree text) (hs : s.Outer) :
    s.Leads text (Seen.item (s.seen, s.collections) tree) := by
  obtain ⟨hb, hv, ha⟩ := h
  refine (hs.leads_blank hb).append (f := fun found => Seen.item found tree) fun t ht => ?_
  have hr := (ht.leads_value hv).append (f := pure) fun u hu => hu.leads_blank ha
  rwa [bind_pure] at hr

/-- The items of the outermost list, in order. -/
theorem leads_items {items : List Tree} {text : Bytes} (h : SpellsItems items text) (s : Scan)
    (hs : s.Outer) : s.Leads text (items.foldlM Seen.item (s.seen, s.collections)) :=
  match h with
  | .none h => hs.leads_blank h
  | .last h => by
    simpa using hs.leads_padded h
  | .more h hr => by
    rw [List.foldlM_cons]
    refine (hs.leads_padded h).append fun t ht => ?_
    have hcomma : t.step Ascii.comma = .ok t.next := by
      simp [step_comma ht.string, ht.outside]
    exact (leads_items hr t.next ⟨ht.string, ht.opened⟩).cons hcomma

end Scan

end TypedCollections.Schema.Dialect
