-- SUMMARY: Lists as they are written: items with separators and blanks between them, and how they are read.
import EntityQuery.Proofs.Skeleton.Closed
import EntityQuery.Proofs.Skeleton.List
import EntityQuery.Proofs.Statement.Body
import EntityQuery.Statement.Read
import Mathlib.Data.List.Forall2

/-!
# Lists as they are written

The items of a list are written with a comma between one and the next, and with
blanks around the commas or without. What is read from a list are its items
again, if none of them has a comma outside of a literal. A column and its value
are written in the same way, with an equals sign between them.
-/

namespace EntityQuery

/-- Whether a text consists of items with a separator and any blanks between them. -/
inductive Joined (x : Char) : List Text → Text → Prop where
  | single (u : Text) : Joined x [u] u
  | cons (u : Text) {l r : Text} {us : List Text} {t : Text} (hl : l.isBlank = true)
      (hr : r.isBlank = true) (h : Joined x us t) : Joined x (u :: us) (u ++ (l ++ x :: (r ++ t)))

/-- What is written from the items of a list are texts for the items, one after the other. -/
theorem exists_joined {items : List (List Mark)} (hne : items ≠ []) {t : Text}
    (h : Written (Mark.list items) t) : ∃ us, List.Forall₂ Written items us ∧ Joined ',' us t := by
  induction items generalizing t with
  | nil => exact absurd rfl hne
  | cons item items ih =>
    cases items with
    | nil => exact ⟨[t], .cons h .nil, .single t⟩
    | cons next items =>
      obtain ⟨u, _, rfl, hu, l, _, rfl, hl, _, _, rfl, rfl, r, t, rfl, hr, ht⟩ := written_append.1 h
      obtain ⟨us, hus, hjoined⟩ := ih (List.cons_ne_nil next items) ht
      exact ⟨u :: us, .cons hu hus, .cons (l := l) (r := r) u hl hr hjoined⟩

/-- If each item is read from whatever text it is written as, then so is the list of items. -/
theorem mapM_of_forall₂_written {α β ε : Type} {items : List α} {marks : α → List Mark}
    {us : List Text} (h : List.Forall₂ Written (items.map marks) us) {read : Text → Except ε β}
    {value : α → β} {P : Text → Prop} (hread : ∀ item ∈ items, ∀ u, Written (marks item) u →
      read u = .ok (value item) ∧ P u) :
    us.mapM read = .ok (items.map value) ∧ ∀ u ∈ us, P u := by
  rw [List.forall₂_map_left_iff] at h
  induction h with
  | nil => exact ⟨rfl, by simp⟩
  | cons hu _ ih =>
    obtain ⟨hitem, hitems⟩ := List.forall_mem_cons.1 hread
    obtain ⟨hfirst, hp⟩ := hitem _ hu
    obtain ⟨hmore, hall⟩ := ih hitems
    refine ⟨?_, List.forall_mem_cons.2 ⟨hp, hall⟩⟩
    rw [List.mapM_cons, hfirst, hmore]
    rfl

theorem joined_of_written {us : List Text} (hne : us ≠ []) {t : Text}
    (h : Written (Mark.list (us.map ([.text ·]))) t) : Joined ',' us t := by
  obtain ⟨vs, hvs, hjoined⟩ := exists_joined (by simpa using hne) h
  rw [List.forall₂_map_left_iff] at hvs
  have heq : List.Forall₂ (· = ·) us vs := hvs.imp fun u v h =>
    (written_text.1 h).symm
  rw [List.forall₂_eq_eq_eq] at heq
  rwa [heq]

namespace Joined

variable {x : Char} {us : List Text} {t : Text}

/-! ## Reading a list -/

/-- What is in no item is not in the list, unless it is the separator or a blank. -/
theorem notMem {d : Char} (hd : isBlank d = false) (hx : d ≠ x) (h : Joined x us t)
    (hus : ∀ u ∈ us, d ∉ u) : d ∉ t := by
  induction h with
  | single u => exact hus u (.head _)
  | @cons u l r us t hl hr h ih =>
    obtain ⟨hu, hmore⟩ := List.forall_mem_cons.1 hus
    simp [hu, Text.notMem_of_isBlank hl hd, Text.notMem_of_isBlank hr hd, hx, ih hmore]

/-- The pieces of a list are its items, also if blanks stand around the list. -/
theorem trimmedPieces_append (h : Joined ',' us t) (hus : ∀ u ∈ us, u.trim = u ∧ ',' ∉ u)
    {b e : Text} (hb : b.isBlank = true) (he : e.isBlank = true) :
    Statement.trimmedPieces (b ++ (t ++ e)) = us := by
  -- The blanks after a comma belong to the next piece.
  have hplain : isBlank ',' = false := rfl
  unfold Statement.trimmedPieces Text.pieces
  induction h generalizing b with
  | single u =>
    obtain ⟨hu, hcomma⟩ := hus u (.head _)
    rw [List.splitOn_eq_singleton (by simp [Text.notMem_of_isBlank hb hplain, hcomma,
      Text.notMem_of_isBlank he hplain]), List.map_singleton, Text.trim_append_of_isBlank hb he, hu]
  | @cons u l r us t hl hr h ih =>
    obtain ⟨⟨hu, hcomma⟩, hus⟩ := List.forall_mem_cons.1 hus
    have hfirst : ',' ∉ b ++ (u ++ l) := by
      simp [Text.notMem_of_isBlank hb hplain, hcomma, Text.notMem_of_isBlank hl hplain]
    have hsplit : (b ++ (u ++ (l ++ ',' :: (r ++ t)) ++ e)).splitOn ',' =
        (b ++ (u ++ l)) :: (r ++ (t ++ e)).splitOn ',' := by
      have := List.splitOnP_append_cons_of_forall_mem (p := (· == ','))
        (fun c hc => beq_eq_false_iff_ne.2 (ne_of_mem_of_not_mem hc hfirst)) ',' rfl (r ++ (t ++ e))
      simpa [List.splitOn] using this
    rw [hsplit, List.map_cons, Text.trim_append_of_isBlank hb hl, hu, ih hus hr]

theorem trimmedPieces (h : Joined ',' us t) (hus : ∀ u ∈ us, u.trim = u ∧ ',' ∉ u) :
    Statement.trimmedPieces t = us := by
  simpa using h.trimmedPieces_append hus Text.isBlank_nil Text.isBlank_nil

open Skeleton

/-- The pieces of a text without a comma outside of literals. -/
theorem exists_outline_of_comma_notMem {u : Text} (hu : u.QuotesClosed) (hcomma : ',' ∉ mask u) :
    ∃ s : Outline, s.Proper ∧ s.text () = u ∧ ∀ slot ∈ s, slot.isComma = false := by
  obtain ⟨s, hs, rfl⟩ := exists_outline hu
  refine ⟨s, hs, rfl, fun slot hslot => ?_⟩
  rw [mask_text hs] at hcomma
  cases slot with
  | literal content => rfl
  | char c =>
    have hmem : c ∈ masked () s := List.mem_flatMap.2 ⟨_, hslot, List.mem_singleton_self c⟩
    simpa [Slot.isComma] using ne_of_mem_of_not_mem hmem hcomma

theorem isComma_map_char {b : Text} (hb : b.isBlank = true) :
    ∀ slot ∈ (b.map Slot.char : Outline), slot.isComma = false := by
  intro slot hslot
  obtain ⟨c, hc, rfl⟩ := List.mem_map.1 hslot
  have hcomma : ',' ∉ b := Text.notMem_of_isBlank hb rfl
  simpa [Slot.isComma] using ne_of_mem_of_not_mem hc hcomma

theorem proper_of_isBlank {b : Text} (hb : b.isBlank = true) : Proper (b.map Slot.char : Outline) :=
  proper_map_char (Text.notMem_of_isBlank hb rfl)

/-- The skeleton of a list has the items as its pieces. -/
theorem exists_pieces (h : Joined ',' us t)
    (hus : ∀ u ∈ us, u.QuotesClosed ∧ u.trim = u ∧ ',' ∉ mask u) {b e : Text}
    (hb : b.isBlank = true) (he : e.isBlank = true) : ∃ s : Outline, s.Proper ∧
      s.text () = b ++ (t ++ e) ∧ s.pieces.map (fun p => (text () p).trim) = us := by
  induction h generalizing b with
  | single u =>
    obtain ⟨hclosed, hu, hcomma⟩ := hus u (.head _)
    obtain ⟨s, hs, rfl, hplain⟩ := exists_outline_of_comma_notMem hclosed hcomma
    have htrim := Text.trim_append_of_isBlank hb he (text () s)
    rw [hu] at htrim
    refine ⟨b.map Slot.char ++ (s ++ e.map Slot.char), ?_, by simp, ?_⟩
    · simp only [Proper.append_iff]
      exact ⟨proper_of_isBlank hb, hs, proper_of_isBlank he⟩
    · have hone : pieces (b.map Slot.char ++ (s ++ e.map Slot.char)) =
          [b.map Slot.char ++ (s ++ e.map Slot.char)] :=
        List.splitOnP_eq_singleton (List.forall_mem_append.2 ⟨isComma_map_char hb,
          List.forall_mem_append.2 ⟨hplain, isComma_map_char he⟩⟩)
      simp [hone, htrim]
  | @cons u l r us t hl hr h ih =>
    obtain ⟨⟨hclosed, hu, hcomma⟩, hmore⟩ := List.forall_mem_cons.1 hus
    obtain ⟨s, hs, rfl, hplain⟩ := exists_outline_of_comma_notMem hclosed hcomma
    obtain ⟨v, hv, htext, hpieces⟩ := ih hmore hr
    refine ⟨(b.map Slot.char ++ (s ++ l.map Slot.char)) ++ .char ',' :: v, ?_, ?_, ?_⟩
    · simp only [Proper.append_iff]
      exact ⟨⟨proper_of_isBlank hb, hs, proper_of_isBlank hl⟩,
        List.forall_mem_cons.2 ⟨(by decide : ',' ≠ '\''), hv⟩⟩
    · simp [Slot.source, htext]
    · have hsplit : pieces ((b.map Slot.char ++ (s ++ l.map Slot.char)) ++ .char ',' :: v) =
          (b.map Slot.char ++ (s ++ l.map Slot.char)) :: pieces v :=
        List.splitOnP_append_cons_of_forall_mem (List.forall_mem_append.2
          ⟨isComma_map_char hb, List.forall_mem_append.2 ⟨hplain, isComma_map_char hl⟩⟩) _ rfl v
      have htrim := Text.trim_append_of_isBlank hb hl (text () s)
      rw [hsplit, List.map_cons, hpieces]
      simp [htrim, hu]

/-- A list with literals in it is split into its items, also if blanks stand around the list. -/
theorem splitList_append (h : Joined ',' us t) (hblank : t.isBlank = false)
    (hus : ∀ u ∈ us, u.QuotesClosed ∧ u.trim = u ∧ ',' ∉ mask u) {b e : Text}
    (hb : b.isBlank = true) (he : e.isBlank = true) :
    EntityQuery.splitList (b ++ (t ++ e)) = .ok us := by
  obtain ⟨s, hs, htext, hpieces⟩ := h.exists_pieces hus hb he
  have hne : ¬ s.trim.isEmpty = true := by
    rw [isEmpty_trim (), htext]
    simp [hblank]
  rw [← htext, splitList_text hs, items, if_neg hne, List.map_map, ← hpieces]
  simp [Function.comp_def, text_trim]

/-! ## A list as a body -/

/-- A blank or the separator of a list. -/
def separates (x c : Char) : Bool :=
  isBlank c || c == x

theorem separates_of_isBlank {b : Text} (hb : b.isBlank = true) :
    ∀ c ∈ b, separates x c = true :=
  fun c hc => by simp [separates, Text.isBlank_iff.1 hb c hc]

theorem separates_self : separates x x = true := by
  simp [separates]

/-- The words of a list, if its separator ends words too, are those of its items. -/
theorem parts_eq (h : Joined x us t) :
    t.parts (separates x) = us.flatMap (Text.parts (separates x)) := by
  induction h with
  | single u => simp
  | @cons u l r us t hl hr h ih =>
    have hfirst : (u ++ l).parts (separates x) = u.parts (separates x) := by
      have hempty : ∀ c ∈ ([] : Text), separates x c = true := by simp
      exact Text.parts_append_append hempty (separates_of_isBlank hl) u
    rw [← List.append_assoc, Text.parts_append_cons separates_self, hfirst,
      Text.parts_append_of_separators (separates_of_isBlank hr), ih, List.flatMap_cons]

/-- No blank and no sign stands for a letter of a keyword. -/
theorem separates_of_keyword (hx : (foldCase x).isLower = false) {w : Text}
    (hw : Text.IsKeyword (w.map foldCase)) : ∀ c ∈ w, separates x c = false := by
  intro c hc
  have hmem : foldCase c ∈ w.map foldCase := List.mem_map_of_mem hc
  rw [separates, Bool.or_eq_false_iff]
  refine ⟨hw.isBlank_eq_false hmem, beq_eq_false_iff_ne.2 ?_⟩
  rintro rfl
  exact absurd (hx.symm.trans (hw.2 _ hmem)) (by decide)

/-- A list of bodies is a body. -/
theorem isBody {keywords : List Text} (hkeywords : ∀ w ∈ keywords, Text.IsKeyword w)
    (hx : (foldCase x).isLower = false) (hsemicolon : ';' ≠ x) (h : Joined x us t)
    (hus : ∀ u ∈ us, Statement.IsBody keywords u ∧ x ∉ u) : Statement.IsBody keywords t := by
  have hends : t ≠ [] ∧ (∀ c ∈ t.head?, isBlank c = false) ∧
      ∀ c ∈ t.getLast?, isBlank c = false := by
    induction h with
    | single u =>
      obtain ⟨hu, -⟩ := hus u (.head _)
      exact ⟨hu.ne_nil, hu.isBlank_head, hu.isBlank_last⟩
    | @cons u l r us t hl hr h ih =>
      obtain ⟨⟨hu, -⟩, hmore⟩ := List.forall_mem_cons.1 hus
      obtain ⟨hne, -, hlast⟩ := ih hmore
      obtain ⟨c, v, rfl⟩ := List.exists_cons_of_ne_nil hu.ne_nil
      refine ⟨List.cons_ne_nil _ _, hu.isBlank_head, ?_⟩
      have hend : (c :: v ++ (l ++ x :: (r ++ t))).getLast? = t.getLast? := by
        have hwhole : c :: v ++ (l ++ x :: (r ++ t)) = (c :: v ++ l ++ x :: r) ++ t := by simp
        rw [hwhole, List.getLast?_append_of_ne_nil _ hne]
      rwa [hend]
  obtain ⟨hne, hhead, hlast⟩ := hends
  have hnone : ';' ∉ t := h.notMem rfl hsemicolon fun u hu => (hus u hu).1.semicolon_notMem
  refine ⟨hne, hhead, hlast, hnone, fun w hw hmem => ?_⟩
  have hpart : w ∈ t.parts (separates x) :=
    Text.mem_parts_of_mem_parts (fun c hc => by simp [separates, hc])
      (separates_of_keyword hx (hkeywords _ hmem)) hw
  rw [h.parts_eq, List.mem_flatMap] at hpart
  obtain ⟨u, hu, hword⟩ := hpart
  obtain ⟨hbody, hxu⟩ := hus u hu
  have hsame : ∀ c ∈ u, separates x c = isBlank c := fun c hc => by
    simp [separates, beq_eq_false_iff_ne.2 (ne_of_mem_of_not_mem hc hxu)]
  rw [Text.parts_congr hsame] at hword
  exact hbody.words w hword hmem

/-- A list is masked item by item. -/
theorem masked (hx : '\'' ≠ x) (h : Joined x us t) (hus : ∀ u ∈ us, u.QuotesClosed) :
    t.QuotesClosed ∧ Joined x (us.map mask) (mask t) := by
  induction h with
  | single u => exact ⟨hus u (.head _), .single _⟩
  | @cons u l r us t hl hr h ih =>
    obtain ⟨hu, hmore⟩ := List.forall_mem_cons.1 hus
    obtain ⟨ht, hjoined⟩ := ih hmore
    have hquote : isBlank '\'' = false := rfl
    have hplain : '\'' ∉ l ++ x :: r := by
      simp [Text.notMem_of_isBlank hl hquote, Text.notMem_of_isBlank hr hquote, hx]
    have hwhole : u ++ (l ++ x :: (r ++ t)) = u ++ ((l ++ x :: r) ++ t) := by simp
    have hclosed := Text.quotesClosed_of_notMem hplain
    refine ⟨hwhole ▸ hu.append (hclosed.append ht), ?_⟩
    rw [hwhole, mask_append hu (hclosed.append ht), mask_append hclosed ht, mask_of_notMem hplain]
    simpa using hjoined.cons (l := l) (r := r) (mask u) hl hr

end Joined

/-- A text that is masked to a body has no blanks at its ends. -/
theorem Statement.IsBody.of_mask {keywords : List Text} {t : Text} (h : IsBody keywords (mask t))
    (ht : t.QuotesClosed) : t.trim = t ∧ t.isBlank = false := by
  obtain ⟨hhead, hlast⟩ := head?_mask ht
  have htrim : t.trim = t := Text.trim_of_ends (hhead ▸ h.isBlank_head) (hlast ▸ h.isBlank_last)
  refine ⟨htrim, ?_⟩
  by_contra hblank
  have hnil : t = [] := htrim ▸ Text.trim_eq_nil_iff.2 (by simpa using hblank)
  exact h.ne_nil (List.head?_eq_none_iff.1 (by rw [hhead, hnil]; rfl))

/-- A list whose items are bodies, apart from the literals in them, is one too, and is split into
    its items. -/
theorem Joined.splitList_of_isBody {keywords us : List Text} {t : Text} (h : Joined ',' us t)
    (hkeywords : ∀ w ∈ keywords, Text.IsKeyword w)
    (hus : ∀ u ∈ us, u.QuotesClosed ∧ Statement.IsBody keywords (mask u) ∧ ',' ∉ mask u) :
    t.QuotesClosed ∧ Statement.IsBody keywords (mask t) ∧
      ∀ b e : Text, b.isBlank = true → e.isBlank = true →
        EntityQuery.splitList (b ++ (t ++ e)) = .ok us := by
  obtain ⟨hclosed, hmasked⟩ := h.masked (by decide) fun u hu => (hus u hu).1
  have hbody : Statement.IsBody keywords (mask t) := by
    refine hmasked.isBody hkeywords (by decide) (by decide) fun v hv => ?_
    obtain ⟨u, hu, rfl⟩ := List.mem_map.1 hv
    exact (hus u hu).2
  refine ⟨hclosed, hbody, fun b e hb he =>
    h.splitList_append (hbody.of_mask hclosed).2 (fun u hu => ?_) hb he⟩
  obtain ⟨huclosed, hubody, hcomma⟩ := hus u hu
  exact ⟨huclosed, (hubody.of_mask huclosed).1, hcomma⟩

end EntityQuery
