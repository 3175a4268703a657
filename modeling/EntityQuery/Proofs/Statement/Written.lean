-- SUMMARY: How statements are written: clause by clause, up to the semicolon at the end.
import EntityQuery.Proofs.Statement.Clause
import EntityQuery.Proofs.Statement.Joined
import EntityQuery.Proofs.Statement.Name
import EntityQuery.Proofs.Statement.Part

/-!
# How statements are written

A statement is written from marks, with blanks around it and with a semicolon at
its end or without. Its clauses are found in the masked statement, each in its
place, and are read from the statement itself.
-/

namespace EntityQuery

/-! ## Clauses -/

namespace Mark

/-- The keywords of a clause and its body, with blanks between them. -/
def clause (words : List Text) (body : List Mark) : List Mark :=
  .gap :: phrase words ++ .gap :: body

/-- A part that may be absent. -/
def optional (part : Option (List Mark)) : List Mark :=
  part.getD []

end Mark

namespace Statement

open Skeleton

variable {words : List Text}

theorem exists_clause {body : List Mark} {t : Text} (h : Written (Mark.clause words body) t) :
    ∃ c : Clause, t = c.source ∧ c.Opens words ∧ Written body c.body := by
  have hmarks : Mark.clause words body = (.gap :: Mark.phrase words ++ [.gap]) ++ body := by
    simp [Mark.clause]
  rw [hmarks] at h
  obtain ⟨opening, body, rfl, hopening, hbody⟩ := written_append.1 h
  exact ⟨⟨opening, body⟩, rfl, hopening, hbody⟩

theorem exists_optional {β : Type} {part : Option β} {body : β → List Mark} {t : Text}
    (h : Written (Mark.optional (part.map fun b => Mark.clause words (body b))) t) :
    ∃ c : β → Clause, t = Clause.sourceOf (part.map c) ∧
      ∀ b ∈ part, (c b).Opens words ∧ Written (body b) (c b).body := by
  cases part with
  | none => exact ⟨fun _ => ⟨[], []⟩, h, by simp⟩
  | some b =>
    obtain ⟨c, rfl, hc, hbody⟩ := exists_clause h
    exact ⟨fun _ => c, rfl, by simpa using ⟨hc, hbody⟩⟩

namespace Clause

/-- A character that is neither a letter nor blank does not come before the body of a clause. -/
theorem Opens.notMem {c : Clause} (hc : c.Opens words) (hwords : ∀ w ∈ words, Text.IsKeyword w)
    {x : Char} (hx : isBlank x = false ∧ (foldCase x).isLower = false) : x ∉ c.opening := by
  obtain ⟨g, rest, hopening, hg, hrest⟩ := hc
  obtain ⟨p, g', rfl, hp, hg'⟩ := written_append.1 hrest
  have hg' : g'.isBlank = true := (written_singleton.1 hg').2
  have hphrase : x ∉ p := Text.notMem_of_written_phrase hwords hp hx
  simp [hopening, Text.notMem_of_isBlank hg.2 hx.1, hphrase, Text.notMem_of_isBlank hg' hx.1]

theorem body_suffix (c : Clause) (after : Text) : c.body ++ after <:+ c.source ++ after := by
  rw [source, List.append_assoc]
  exact List.suffix_append _ _

theorem Opens.quote_notMem {c : Clause} (hc : c.Opens words)
    (hwords : ∀ w ∈ words, Text.IsKeyword w) : '\'' ∉ c.opening :=
  hc.notMem hwords (by decide)

theorem notMem_sourceOf {c : Option Clause} (hwords : ∀ w ∈ words, Text.IsKeyword w) {x : Char}
    (hx : isBlank x = false ∧ (foldCase x).isLower = false)
    (hc : ∀ d ∈ c, d.Opens words ∧ x ∉ d.body) : x ∉ sourceOf c := by
  cases c with
  | none => exact List.not_mem_nil
  | some d =>
    obtain ⟨hopens, hbody⟩ := hc d rfl
    exact fun hmem => (List.mem_append.1 hmem).elim (hopens.notMem hwords hx) hbody

/-- A clause with the literals in its body masked. -/
def masked (c : Clause) : Clause :=
  ⟨c.opening, mask c.body⟩

/-- Whether a clause opens with some keywords and has a body that none of some words ends early.
    There may be literals in the body. -/
structure Stands (words stops : List Text) (c : Clause) : Prop where
  opens : c.Opens words
  closed : c.body.QuotesClosed
  isBody : IsBody stops (mask c.body)

theorem stands_of_quote_notMem {c : Clause} {stops : List Text} (hc : c.Opens words)
    (hquote : '\'' ∉ c.body) (hbody : IsBody stops c.body) : c.Stands words stops :=
  ⟨hc, Text.quotesClosed_of_notMem hquote, by rwa [mask_of_notMem hquote]⟩

theorem masked_of_quote_notMem {c : Clause} (h : '\'' ∉ c.body) : c.masked = c := by
  rw [masked, mask_of_notMem h]

variable {stops : List Text} {c : Option Clause}

theorem stands_masked (hc : ∀ d ∈ c, d.Stands words stops) :
    ∀ d ∈ c.map masked, d.Opens words ∧ IsBody stops d.body := by
  intro d hd
  obtain ⟨b, hb, rfl⟩ := Option.map_eq_some_iff.1 hd
  exact ⟨(hc b hb).opens, (hc b hb).isBody⟩

/-- A clause is masked in its body only. -/
theorem mask_source_append (hwords : ∀ w ∈ words, Text.IsKeyword w) {c : Clause}
    (hc : c.Stands words stops) {after : Text} (hafter : after.QuotesClosed) :
    (c.source ++ after).QuotesClosed ∧
      mask (c.source ++ after) = c.masked.source ++ mask after := by
  have hquote := hc.opens.quote_notMem hwords
  have hopening := Text.quotesClosed_of_notMem hquote
  refine ⟨(hopening.append hc.closed).append hafter, ?_⟩
  rw [source, mask_append (hopening.append hc.closed) hafter, mask_append hopening hc.closed,
    mask_of_notMem hquote]
  rfl

theorem mask_sourceOf_append (hwords : ∀ w ∈ words, Text.IsKeyword w)
    (hc : ∀ d ∈ c, d.Stands words stops) {after : Text} (hafter : after.QuotesClosed) :
    (sourceOf c ++ after).QuotesClosed ∧
      mask (sourceOf c ++ after) = sourceOf (c.map masked) ++ mask after := by
  cases c with
  | none => exact ⟨hafter, rfl⟩
  | some d => exact mask_source_append hwords (hc d rfl) hafter

end Clause

/-! ## Parts -/

/-- A part of a statement is read from where it is. -/
theorem readPart_of_suffix {statement part after : Text} (hstatement : statement.QuotesClosed)
    (hpart : part.QuotesClosed) (hafter : after.QuotesClosed) (h : part ++ after <:+ statement) :
    readPart statement ⟨mask part ++ mask after, mask after⟩ = part := by
  obtain ⟨before, rfl⟩ := h
  obtain ⟨s, hs, rfl⟩ := exists_outline (hstatement.of_append_right (hpart.append hafter))
  obtain ⟨u, hu, rfl⟩ := exists_outline hpart
  obtain ⟨v, hv, rfl⟩ := exists_outline hafter
  have hproper : (s ++ (u ++ v)).Proper := by
    simp only [Proper.append_iff]
    exact ⟨hs, hu, hv⟩
  have hread := readPart_extent (p := ⟨u, v⟩) hproper (List.suffix_append s (u ++ v)) ()
  simpa [Part.extent, Part.start, mask_text hu, mask_text hv] using hread

theorem readPart_sourceOf {statement after : Text} {c : Option Clause} {stops : List Text}
    (hstatement : statement.QuotesClosed) (hc : ∀ d ∈ c, d.Stands words stops)
    (hafter : after.QuotesClosed) (h : Clause.sourceOf c ++ after <:+ statement) :
    ((c.map Clause.masked).map (Clause.extent (mask after))).map (readPart statement) =
      c.map Clause.body := by
  cases c with
  | none => rfl
  | some d =>
    have hread := readPart_of_suffix hstatement (hc d rfl).closed hafter ((d.body_suffix _).trans h)
    exact congrArg some hread

theorem readPart_sourceOf_of_notMem {statement after : Text} {c : Option Clause}
    (hstatement : statement.QuotesClosed) (hquote : '\'' ∉ Clause.sourceOf c ++ after)
    (h : Clause.sourceOf c ++ after <:+ statement) :
    (c.map (Clause.extent after)).map (readPart statement) = c.map Clause.body := by
  cases c with
  | none => rfl
  | some d =>
    simp only [Clause.sourceOf, Option.elim_some, Clause.source, List.mem_append, not_or] at hquote
    obtain ⟨⟨-, hbody⟩, hafter⟩ := hquote
    have hread := readPart_of_suffix hstatement (Text.quotesClosed_of_notMem hbody)
      (Text.quotesClosed_of_notMem hafter) ((d.body_suffix _).trans h)
    rw [mask_of_notMem hbody, mask_of_notMem hafter] at hread
    exact congrArg some hread

/-- A name is read for an entity. -/
theorem readEntity_append {name : Text} (h : name.IsEntityName) (after : Text) :
    readEntity ⟨name ++ after, after⟩ = .ok name := by
  rw [readEntity, Extent.text_append, h.2]
  rfl

/-! ## The ends of a statement -/

/-- Whether a text states what is written from marks: blanks may stand around it, and the semicolon
    at its end may be missing. -/
def States (marks : List Mark) (t : Text) : Prop :=
  ∃ s, Written marks s ∧ (t.trim = s ∨ ∃ w : Text, w.isBlank = true ∧ t.trim = s ++ (w ++ [';']))

theorem quote_notMem_end {w : Text} (hw : w.isBlank = true) : '\'' ∉ w ++ [';'] := by
  have hblank : '\'' ∉ w := Text.notMem_of_isBlank hw rfl
  simp [hblank]

/-- What ends with a semicolon is a statement as it is. -/
theorem ofText?_of_trim_append {t s w : Text} (hne : s ≠ []) (htrim : t.trim = s ++ (w ++ [';'])) :
    ofText? t = some (s ++ (w ++ [';'])) := by
  have hend : (s ++ (w ++ [';'])).getLast? = some ';' := by simp
  have hlong : s ++ (w ++ [';']) ≠ [';'] := by
    simp [List.append_eq_singleton_iff, hne]
  simp [ofText?, htrim, hend, hlong]

/-- What does not end with a semicolon gets one. -/
theorem ofText?_of_trim {t s : Text} (hne : s ≠ []) (hlast : s.getLast? ≠ some ';')
    (htrim : t.trim = s) : ofText? t = some (s ++ [';']) := by
  have hlong : s ≠ [';'] := by
    rintro rfl
    exact hlast rfl
  simp [ofText?, htrim, hne, hlong, hlast]

/-- A text becomes a statement, with the semicolon that it may lack. -/
theorem exists_ofText?_of_getLast? {marks : List Mark} {t : Text} (ht : States marks t)
    (hmarks : ∀ s, Written marks s → s ≠ [] ∧ s.getLast? ≠ some ';') :
    ∃ s w : Text, Written marks s ∧ w.isBlank = true ∧ ofText? t = some (s ++ (w ++ [';'])) := by
  obtain ⟨s, hs, htrim⟩ := ht
  obtain ⟨hne, hlast⟩ := hmarks s hs
  obtain htrim | ⟨w, hw, htrim⟩ := htrim
  · exact ⟨s, [], hs, rfl, ofText?_of_trim hne hlast htrim⟩
  · exact ⟨s, w, hs, hw, ofText?_of_trim_append hne htrim⟩

theorem exists_ofText? {marks : List Mark} {t : Text} (ht : States marks t)
    (hmarks : ∀ s, Written marks s → s ≠ [] ∧ s.QuotesClosed ∧ ';' ∉ mask s) :
    ∃ s w : Text, Written marks s ∧ w.isBlank = true ∧ ofText? t = some (s ++ (w ++ [';'])) := by
  refine exists_ofText?_of_getLast? ht fun s hs => ?_
  obtain ⟨hne, hclosed, hsemicolon⟩ := hmarks s hs
  rw [← (head?_mask hclosed).2]
  exact ⟨hne, fun h => hsemicolon (List.mem_of_getLast? h)⟩

/-- The operation of a statement is told by its first word. -/
theorem ofWord?_leadingWord {op : Operation} {word keyword g : Text}
    (hword : word.lower = op.word.lower) (hkeyword : keyword.sameWord word = true) (hg : g.IsGap)
    (rest : Text) : Operation.ofWord? (leadingWord (keyword ++ (g ++ rest))) = some op := by
  have hlower : keyword.lower = op.word.lower := by
    rw [← hword]
    simpa [Text.sameWord] using hkeyword
  have halpha : ∀ c ∈ keyword, c.isAlpha = true := by
    intro c hc
    have hmem : c.toLower ∈ op.word.lower := hlower ▸ List.mem_map_of_mem hc
    have hall : ∀ d ∈ op.word.lower, d.isLower = true := by cases op <;> decide
    exact Text.isAlpha_of_isLower_toLower (hall _ hmem)
  have hstop : ∀ c, (g ++ rest).head? = some c → c.isAlpha = false := by
    intro c hc
    have hblank := hg.head?_append rest c hc
    simpa using of_isBlank (p := fun c => !c.isAlpha) (by decide +kernel) hblank
  rw [leadingWord, (takeWhile_append_of_head? halpha hstop).1, Operation.ofWord?]
  simp only [Text.sameWord, hlower]
  cases op <;> decide

/-- A text is read as the statement that it becomes. -/
theorem ofText_of_readOperation {checks : Checks} {t statement : Text} {op : Operation} {q : Query}
    (hstatement : ofText? t = some statement)
    (hword : Operation.ofWord? (leadingWord statement) = some op)
    (hread : readOperation checks statement op = .ok q)
    (hscoped : (checks.filter && q.isUnscoped) = false) : Query.ofText checks t = .ok q := by
  simp [Query.ofText, hstatement, hword, hread, bind, Except.bind, hscoped]

/-- A selection needs no filter, whatever is checked. -/
theorem ofText_of_readSelect {checks : Checks} {t statement : Text} {q : Select}
    (hstatement : ofText? t = some statement)
    (hword : Operation.ofWord? (leadingWord statement) = some .select)
    (hread : readSelect statement = .ok q) : Query.ofText checks t = .ok (.select q) :=
  ofText_of_readOperation hstatement hword (congrArg (Except.map Query.select) hread)
    (Bool.and_false _)

end Statement

end EntityQuery
