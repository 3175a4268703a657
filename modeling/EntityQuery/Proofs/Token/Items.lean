-- SUMMARY: Lists are split at their commas outside of literals, and splitting undoes joining.
import EntityQuery.Proofs.Statement.Joined
import EntityQuery.Proofs.Token.Tokenization

/-!
# Items of lists

Splitting a list undoes joining its items, however many blanks stand around the
commas. Conversely what a text is split into are items, one more than the text
has commas outside of literals, and joined again they are the text up to blanks.
Only a text that is not blank and whose quotes are not closed is not split.
-/

namespace EntityQuery

namespace Text

/-- The number of commas outside of literals. The flag tells whether the text starts inside of a
    literal. -/
def commasFrom (inside : Bool) : Text → Nat
  | [] => 0
  | c :: t =>
    if c = '\'' then commasFrom (!inside) t
    else if c = ',' ∧ inside = false then commasFrom inside t + 1
    else commasFrom inside t

/-- The number of commas of a text outside of its literals. -/
def outerCommas (t : Text) : Nat :=
  commasFrom false t

/-- What an item of a list is: it has no blanks at its ends, its quotes are closed, and it has no
    comma outside of its literals. -/
structure IsItem (t : Text) : Prop where
  trim_eq : t.trim = t
  quotesClosed : t.QuotesClosed
  outerCommas_eq : t.outerCommas = 0

instance (t : Text) : Decidable t.IsItem :=
  decidable_of_iff (t.trim = t ∧ t.QuotesClosed ∧ t.outerCommas = 0)
    ⟨fun ⟨htrim, hclosed, hcommas⟩ => ⟨htrim, hclosed, hcommas⟩,
      fun h => ⟨h.trim_eq, h.quotesClosed, h.outerCommas_eq⟩⟩

end Text

/-- Whether a text consists of items with commas between them, and of blanks around the items. -/
def IsListOf (items : List Text) (t : Text) : Prop :=
  ∃ before joined after : Text, before.isBlank = true ∧ after.isBlank = true ∧
    Joined ',' items joined ∧ t = before ++ (joined ++ after)

namespace IsListOf

theorem single (u : Text) : IsListOf [u.trim] u := by
  obtain ⟨l, r, hl, hr, hu⟩ := Text.exists_eq_append_trim u
  exact ⟨l, u.trim, r, hl, hr, .single _, by simpa using hu⟩

/-- A text before a comma is one more item. -/
theorem cons (u : Text) {items : List Text} {t : Text} (h : IsListOf items t) :
    IsListOf (u.trim :: items) (u ++ ',' :: t) := by
  obtain ⟨l, r, hl, hr, hu⟩ := Text.exists_eq_append_trim u
  obtain ⟨before, joined, after, hbefore, hafter, hjoined, rfl⟩ := h
  refine ⟨l, _, after, hl, hafter, .cons u.trim hr hbefore hjoined, ?_⟩
  conv_lhs => rw [hu]
  simp

end IsListOf

/-! ## Commas outside of literals -/

namespace Skeleton

theorem commasFrom_literal {content : Text} (h : '\'' ∉ content) (t : Text) :
    Text.commasFrom true (content ++ '\'' :: t) = t.outerCommas := by
  induction content with
  | nil => rfl
  | cons c content ih =>
    obtain ⟨hc, hcontent⟩ := not_or.1 (mt List.mem_cons.2 h)
    simp [Text.commasFrom, Ne.symm hc, ih hcontent]

theorem outerCommas_text {s : Outline} (h : s.Proper) :
    (text () s).outerCommas = s.countP Slot.isComma := by
  induction s with
  | nil => rfl
  | cons slot s ih =>
    obtain ⟨hslot, hs⟩ := List.forall_mem_cons.1 h
    rw [List.countP_cons, ← ih hs]
    cases slot with
    | literal content =>
      have hliteral := commasFrom_literal (hslot ()) (text () s)
      simpa [Text.outerCommas, Text.commasFrom, Slot.source, Slot.isComma] using hliteral
    | char c =>
      have hquote : c ≠ '\'' := hslot
      by_cases hc : c = ',' <;>
        simp [Text.outerCommas, Text.commasFrom, Slot.source, Slot.isComma, hquote, hc]

/-- Outside of literals a text has no comma if and only if its mask has none. -/
theorem outerCommas_eq_zero_iff {t : Text} (h : t.QuotesClosed) :
    t.outerCommas = 0 ↔ ',' ∉ mask t := by
  obtain ⟨s, hs, rfl⟩ := exists_outline h
  rw [outerCommas_text hs, mask_text hs, masked, List.countP_eq_zero, List.mem_flatMap]
  push Not
  refine forall₂_congr fun slot hslot => ?_
  cases slot with
  | char c => simpa [Slot.isComma, Slot.masked] using ne_comm
  | literal content => simp [Slot.isComma, Slot.masked]

/-! ## Pieces -/

/-- An outline has no comma, or it is cut at its first one. -/
theorem comma_cases (s : Outline) : (∀ slot ∈ s, slot.isComma = false) ∨
    ∃ u v, (∀ slot ∈ u, slot.isComma = false) ∧ s = u ++ .char ',' :: v := by
  induction s with
  | nil => exact .inl (by simp)
  | cons slot s ih =>
    cases hslot : slot.isComma with
    | true =>
      cases slot with
      | literal content => cases hslot
      | char c =>
        obtain rfl : c = ',' := by simpa [Slot.isComma] using hslot
        exact .inr ⟨[], s, by simp, rfl⟩
    | false =>
      obtain h | ⟨u, v, hu, rfl⟩ := ih
      · exact .inl (List.forall_mem_cons.2 ⟨hslot, h⟩)
      · exact .inr ⟨slot :: u, v, List.forall_mem_cons.2 ⟨hslot, hu⟩, rfl⟩

theorem isItem_trim {s : Outline} (h : s.Proper) (hcomma : ∀ slot ∈ s, slot.isComma = false) :
    (text () s).trim.IsItem := by
  have htrim : (text () s).trim = text () s.trim := (text_trim () s).symm
  obtain ⟨before, after, -, -, hs⟩ := exists_trim s
  refine ⟨Text.trim_trim _, ?_, ?_⟩
  · rw [htrim]
    exact quotesClosed_text h.trim ()
  · rw [htrim, outerCommas_text h.trim, List.countP_eq_zero]
    intro slot hslot
    have hmem : slot ∈ s := by
      rw [hs]
      simp [hslot]
    simp [hcomma slot hmem]

/-- The pieces of an outline, trimmed, are items that the text is a list of. -/
theorem isListOf_pieces {s : Outline} (h : s.Proper) :
    let items := s.pieces.map fun piece => (text () piece).trim
    (∀ u ∈ items, u.IsItem) ∧ IsListOf items (text () s) ∧
      items.length = (text () s).outerCommas + 1 := by
  induction hn : s.length using Nat.strong_induction_on generalizing s with
  | h n ih =>
    obtain hcomma | ⟨u, v, hcomma, rfl⟩ := comma_cases s
    · have hone : s.pieces = [s] := List.splitOnP_eq_singleton hcomma
      have hzero : s.countP Slot.isComma = 0 := by simpa [List.countP_eq_zero] using hcomma
      rw [hone, outerCommas_text h, hzero]
      exact ⟨by simpa using isItem_trim h hcomma, .single _, rfl⟩
    · obtain ⟨hu, hcons⟩ := Proper.append_iff.1 h
      obtain ⟨-, hv⟩ := List.forall_mem_cons.1 hcons
      obtain ⟨hitems, hlist, hlength⟩ := ih v.length (by simp [← hn]; omega) hv rfl
      have hsplit : pieces (u ++ .char ',' :: v) = u :: pieces v :=
        List.splitOnP_append_cons_of_forall_mem hcomma (.char ',') rfl v
      have hzero : u.countP Slot.isComma = 0 := by simpa [List.countP_eq_zero] using hcomma
      have hcount : (u ++ .char ',' :: v).countP Slot.isComma = v.countP Slot.isComma + 1 := by
        simp [List.countP_append, hzero, Slot.isComma]
      rw [hsplit, List.map_cons]
      refine ⟨List.forall_mem_cons.2 ⟨isItem_trim hu hcomma, hitems⟩, ?_, ?_⟩
      · simpa [Slot.source] using hlist.cons (text () u)
      · rw [List.length_cons, hlength, outerCommas_text h, hcount, outerCommas_text hv]

end Skeleton

/-! ## Splitting -/

open Skeleton

variable {items : List Text} {t : Text}

theorem splitList_of_not_quotesClosed (hblank : t.isBlank = false) (h : ¬ t.QuotesClosed) :
    ∃ cause, splitList t = .error cause := by
  obtain ⟨before, content, rfl, hbefore, hcontent⟩ := Text.exists_unterminated h
  refine ⟨.unterminated before.length, ?_⟩
  rw [splitList, Text.isEmpty_trim, hblank, tokenize_unterminated hbefore hcontent]
  rfl

/-- A text whose quotes are closed is split into items that it is a list of. -/
theorem splitList_of_quotesClosed (hblank : t.isBlank = false) (h : t.QuotesClosed) :
    ∃ items, splitList t = .ok items ∧ (∀ u ∈ items, u.IsItem) ∧ IsListOf items t ∧
      items.length = t.outerCommas + 1 := by
  obtain ⟨s, hs, rfl⟩ := exists_outline h
  have hne : ¬ s.trim.isEmpty = true := by
    rw [Skeleton.isEmpty_trim (), hblank]
    exact Bool.false_ne_true
  refine ⟨s.pieces.map fun piece => (text () piece).trim, ?_, isListOf_pieces hs⟩
  rw [splitList_text hs, Skeleton.items, if_neg hne, List.map_map]
  simp [Function.comp_def, text_trim]

/-- Joined items are not blank, unless there is only one and it is empty. -/
theorem Joined.isBlank_eq_false (h : Joined ',' items t) (hne : items ≠ [[]])
    (htrim : ∀ u ∈ items, u.trim = u) : t.isBlank = false := by
  cases h with
  | single =>
    rw [← Bool.not_eq_true, ← Text.trim_eq_nil_iff, htrim t (.head _)]
    exact fun ht => hne (by rw [ht])
  | cons => simp [show isBlank ',' = false from rfl]

/-- Items that are joined are split again. -/
theorem splitList_of_isListOf (hitems : ∀ u ∈ items, u.IsItem) (hne : items ≠ [[]])
    (h : IsListOf items t) : splitList t = .ok items := by
  obtain ⟨before, joined, after, hbefore, hafter, hjoined, rfl⟩ := h
  refine hjoined.splitList_append (hjoined.isBlank_eq_false hne fun u hu => (hitems u hu).trim_eq)
    (fun u hu => ?_) hbefore hafter
  obtain ⟨htrim, hclosed, hcommas⟩ := hitems u hu
  exact ⟨hclosed, htrim, (outerCommas_eq_zero_iff hclosed).1 hcommas⟩

/-- Splitting undoes joining. It fails only for a text that is not blank and has an odd number of
    quotes; what any other text is split into are items, one more than there are commas outside
    of literals, that the text is a list of. -/
theorem splitList_undoes_joining :
    (∀ items t, items ≠ [[]] → (∀ u ∈ items, Text.IsItem u) → IsListOf items t →
      splitList t = .ok items) ∧
    (∀ t, (∃ cause, splitList t = .error cause) ↔ t.isBlank = false ∧ Odd (t.count '\'')) ∧
    (∀ t items, t.isBlank = false → splitList t = .ok items →
      items.length = t.outerCommas + 1 ∧ (∀ u ∈ items, Text.IsItem u) ∧ IsListOf items t) := by
  refine ⟨fun items t hne hitems => splitList_of_isListOf hitems hne, fun t => ⟨?_, ?_⟩, ?_⟩
  · rintro ⟨cause, hcause⟩
    cases hblank : t.isBlank with
    | true =>
      rw [splitList_of_isBlank hblank] at hcause
      cases hcause
    | false =>
      refine ⟨rfl, Nat.not_even_iff_odd.1 fun heven => ?_⟩
      obtain ⟨items, hsplit, -⟩ := splitList_of_quotesClosed hblank heven
      rw [hsplit] at hcause
      cases hcause
  · rintro ⟨hblank, hodd⟩
    exact splitList_of_not_quotesClosed hblank (Nat.not_even_iff_odd.2 hodd)
  · intro t items hblank hsplit
    by_cases hclosed : t.QuotesClosed
    · obtain ⟨found, hfound, hitems, hlist, hlength⟩ := splitList_of_quotesClosed hblank hclosed
      cases hsplit.symm.trans hfound
      exact ⟨hlength, hitems, hlist⟩
    · obtain ⟨cause, hcause⟩ := splitList_of_not_quotesClosed hblank hclosed
      cases hsplit.symm.trans hcause

/-- A list with commas and blanks inside of literals, with two literals side by side and one after
    other text, and with an empty item; and a text that is not split. -/
theorem splitList_undoes_joining_of_literals :
    let items : List Text := ["'x, y''  '".toList, [], "é\u00a0z=', '".toList]
    let t : Text := " 'x, y''  ' ,, é\u00a0z=', '\t".toList
    (∀ u ∈ items, u.IsItem) ∧ IsListOf items t ∧ splitList t = .ok items ∧
      items.length = t.outerCommas + 1 ∧ ∃ cause, splitList "x, 'y''z".toList = .error cause := by
  intro items t
  obtain ⟨hjoin, hfail, hsplit⟩ := splitList_undoes_joining
  have hitems : ∀ u ∈ items, u.IsItem := by decide +kernel
  have hlist : IsListOf items t :=
    ⟨[' '], _, ['\t'], rfl, rfl,
      .cons (l := [' ']) (r := []) _ rfl rfl
        (.cons (l := []) (r := [' ']) _ rfl rfl (.single _)), rfl⟩
  have hok := hjoin items t (by decide) hitems hlist
  exact ⟨hitems, hlist, hok, (hsplit t items rfl hok).1, (hfail _).2 ⟨rfl, by decide⟩⟩

end EntityQuery
