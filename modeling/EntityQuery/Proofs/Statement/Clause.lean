-- SUMMARY: Clauses as they are written, and what is read from them one after the other.
import EntityQuery.Proofs.Statement.Body

/-!
# Clauses as they are written

A clause is written as its keywords between blanks and a body. Clauses stand
one after the other up to the semicolon, each in its place or absent. The first
letter after the blanks tells which clause comes next, so an absent clause is
not looked for in vain.
-/

namespace EntityQuery.Statement

/-- A clause as it is written: what comes before its body, and the body. -/
structure Clause where
  opening : Text
  body : Text

namespace Clause

/-- The text of a clause. -/
def source (c : Clause) : Text :=
  c.opening ++ c.body

/-- The text of a clause that may be absent. -/
def sourceOf (c : Option Clause) : Text :=
  c.elim [] source

/-- Whether a clause opens with some keywords. -/
def Opens (words : List Text) (c : Clause) : Prop :=
  Written (.gap :: Mark.phrase words ++ [.gap]) c.opening

/-- The place of the body of a clause before a text. -/
def extent (after : Text) (c : Clause) : Extent :=
  ⟨c.body ++ after, after⟩

end Clause

/-! ## What comes next -/

/-- Whether a text can follow a body, and after blanks starts with one of some letters. -/
structure GoesOn (letters : List Char) (t : Text) : Prop where
  endsBody : EndsBody t
  letter : ∀ c ∈ t.trimStart.head?, foldCase c ∈ letters

theorem goesOn_end {w : Text} (hw : w.isBlank = true) : GoesOn [';'] (w ++ [';']) where
  endsBody c hc := by
    cases w with
    | nil => exact .inr (by simpa [eq_comm] using hc)
    | cons d w =>
      obtain rfl : d = c := by simpa using hc
      exact .inl (Text.isBlank_iff.1 hw d (.head _))
  letter c hc := by
    rw [Text.trimStart_append_of_isBlank hw] at hc
    obtain rfl : ';' = c := by simpa [Text.trimStart, show isBlank ';' = false from rfl] using hc
    decide

theorem readEnd_append {w : Text} (hw : w.isBlank = true) : readEnd (w ++ [';']) = some () := by
  rw [readEnd, Text.trimStart_append_of_isBlank hw]
  rfl

section

variable {l : Char} {words keywords : List Text} {letters : List Char} {after : Text}

/-- What the opening of a clause consists of. -/
theorem Clause.Opens.exists_eq {c : Clause} (hc : c.Opens words) (hne : words ≠ [])
    (hwords : ∀ w ∈ words, Text.IsKeyword w) : ∃ g p g' : Text, c.opening = g ++ (p ++ g') ∧
      g.IsGap ∧ g'.IsGap ∧ Written (Mark.phrase words) p ∧ ∃ (d : Char) (q : Text), p = d :: q ∧
        Text.initial? words = some (foldCase d) ∧ isBlank d = false := by
  obtain ⟨g, rest, hopening, hg, hrest⟩ := hc
  obtain ⟨p, g', rfl, hp, hg'⟩ := written_append.1 hrest
  obtain ⟨d, q, rfl, hd⟩ := Text.exists_cons_of_written_phrase hwords hne hp
  refine ⟨g, _, g', hopening, hg, written_singleton.1 hg', hp, d, q, rfl, hd, ?_⟩
  obtain ⟨word, more, rfl⟩ := Text.exists_of_initial? hd
  exact (hwords _ (.head _)).isBlank_eq_false (.head _)

theorem Clause.Opens.endsBody {c : Clause} (hc : c.Opens words) (t : Text) :
    EndsBody (c.source ++ t) := by
  obtain ⟨g, rest, hopening, hg, -⟩ := hc
  intro d hd
  rw [Clause.source, hopening, List.append_assoc, List.append_assoc] at hd
  exact .inl (hg.head?_append _ d hd)

theorem ne_nil_of_initial? (hl : Text.initial? words = some l) : words ≠ [] := by
  rintro rfl
  cases hl

theorem goesOn_sourceOf {part : Option Clause} (hl : Text.initial? words = some l)
    (hwords : ∀ w ∈ words, Text.IsKeyword w) (hpart : ∀ c ∈ part, c.Opens words)
    (hafter : GoesOn letters after) : GoesOn (l :: letters) (Clause.sourceOf part ++ after) := by
  cases part with
  | none => exact ⟨hafter.endsBody, fun c hc => .tail _ (hafter.letter c hc)⟩
  | some c =>
    obtain ⟨g, p, g', hopening, hg, -, -, d, q, rfl, hd, hblank⟩ :=
      (hpart c rfl).exists_eq (ne_nil_of_initial? hl) hwords
    obtain rfl : l = foldCase d := Option.some.inj (hl.symm.trans hd)
    have hsource : Clause.sourceOf (some c) ++ after =
        g ++ (d :: (q ++ (g' ++ (c.body ++ after)))) := by
      simp [Clause.sourceOf, Clause.source, hopening]
    rw [hsource]
    refine ⟨fun e he => .inl (hg.head?_append _ e he), fun e he => ?_⟩
    rw [Text.trimStart_append_of_isBlank hg.2,
      Text.trimStart_of_head? (by simpa using hblank)] at he
    obtain rfl : d = e := by simpa using he
    exact .head _

/-! ## Reading clauses -/

variable {α : Type} {k : Text → Option α} {a : α}

/-- The keywords of a clause are read, up to the blanks before its body. -/
theorem Clause.Opens.afterPhrase? {c : Clause} (hc : c.Opens words) (hne : words ≠ [])
    (hwords : ∀ w ∈ words, Text.IsKeyword w) (after : Text) : ∃ g : Text, g.IsGap ∧
      (c.source ++ after).afterBlanks?.bind (Text.afterPhrase? words) =
        some (g ++ (c.body ++ after)) := by
  obtain ⟨g, p, g', hopening, hg, hg', hp, d, q, rfl, -, hblank⟩ := hc.exists_eq hne hwords
  have hsource : c.source ++ after = g ++ ((d :: q) ++ (g' ++ (c.body ++ after))) := by
    simp [Clause.source, hopening]
  have hstart : Text.trimStart ((d :: q) ++ (g' ++ (c.body ++ after))) =
      (d :: q) ++ (g' ++ (c.body ++ after)) :=
    Text.trimStart_of_head? (by simpa using hblank)
  refine ⟨g', hg', ?_⟩
  rw [hsource, Text.afterBlanks?_append hg, hstart, Option.bind_some,
    Text.afterPhrase?_append_of_written hwords hp]

/-- A clause is read from where it is written. -/
theorem readClause_append {c : Clause} (hc : c.Opens words) (hne : words ≠ [])
    (hwords : ∀ w ∈ words, Text.IsKeyword w) (hbody : IsBody keywords c.body)
    (hk : OpensWith keywords k) (hkeywords : ∀ w ∈ keywords, Text.IsKeyword w)
    (hafter : EndsBody after) (ha : k after = some a) :
    readClause words k (c.source ++ after) = some (c.extent after, a) := by
  obtain ⟨g, hg, hread⟩ := hc.afterPhrase? hne hwords after
  rw [readClause, Option.bind_eq_bind, ← Option.bind_assoc, hread]
  exact readBody_append hbody hk hkeywords hafter ha hg

/-- Keywords are not read from a text that goes on with another letter. -/
theorem GoesOn.afterPhrase? (hafter : GoesOn letters after) (hl : Text.initial? words = some l)
    (hother : l ∉ letters) : (after.afterBlanks?.bind (Text.afterPhrase? words)) = none := by
  obtain ⟨word, more, rfl⟩ := Text.exists_of_initial? hl
  refine Option.bind_eq_none_iff.2 fun u hu => Text.afterPhrase?_of_head? fun c hc => ?_
  rw [Text.eq_trimStart_of_afterBlanks? hu] at hc
  exact ne_of_mem_of_not_mem (hafter.letter c hc) hother

theorem readClause_of_goesOn (hafter : GoesOn letters after) (hl : Text.initial? words = some l)
    (hother : l ∉ letters) : readClause words k after = none := by
  rw [readClause, Option.bind_eq_bind, ← Option.bind_assoc, hafter.afterPhrase? hl hother]
  rfl

/-- A clause that may be absent is read if it is there. -/
theorem readOptional_append {part : Option Clause}
    (hpart : ∀ c ∈ part, c.Opens words ∧ IsBody keywords c.body)
    (hwords : ∀ w ∈ words, Text.IsKeyword w) (hk : OpensWith keywords k)
    (hkeywords : ∀ w ∈ keywords, Text.IsKeyword w) (hafter : GoesOn letters after)
    (hl : Text.initial? words = some l) (hother : l ∉ letters) (ha : k after = some a) :
    readOptional words k (Clause.sourceOf part ++ after) =
      some (part.map (Clause.extent after), a) := by
  cases part with
  | none =>
    rw [readOptional, Clause.sourceOf, Option.elim_none, List.nil_append,
      readClause_of_goesOn hafter hl hother, ha]
    rfl
  | some c =>
    obtain ⟨hc, hbody⟩ := hpart c rfl
    rw [readOptional, Clause.sourceOf, Option.elim_some,
      readClause_append hc (ne_nil_of_initial? hl) hwords hbody hk hkeywords hafter.endsBody ha]
    rfl

/-- A text without blanks ends before the semicolon and the blanks before it. -/
theorem readLongest_of_end {w : Text} (hw : w.isBlank = true) :
    readLongest (!isBlank ·) (fun t => (readEnd t).map fun _ => t) (w ++ [';']) = none := by
  cases w with
  | nil => rfl
  | cons c w =>
    have hc : isBlank c = true := Text.isBlank_iff.1 hw c (.head _)
    exact readLongest_of_head? (by simpa using hc)

/-- The limit is read up to the blanks before the semicolon. -/
theorem readLimitAndEnd_append {part : Option Clause}
    (hpart : ∀ c ∈ part, c.Opens ["limit".toList] ∧ c.body ≠ [] ∧ ∀ d ∈ c.body, isBlank d = false)
    {w : Text} (hw : w.isBlank = true) :
    readLimitAndEnd (Clause.sourceOf part ++ (w ++ [';'])) =
      some (part.map (Clause.extent (w ++ [';']))) := by
  have hphrase (t : Text) : readLimit t =
      (t.afterBlanks?.bind (Text.afterPhrase? ["limit".toList])).bind fun t =>
        t.afterBlanks?.bind fun start =>
          (readLongest (!isBlank ·) (fun t => (readEnd t).map fun _ => t) start).bind fun stop =>
            some ⟨start, stop⟩ := by
    rw [Option.bind_assoc]
    rfl
  cases part with
  | none =>
    have hnone : readLimit (w ++ [';']) = none := by
      rw [hphrase, (goesOn_end hw).afterPhrase? rfl (by decide : 'l' ∉ [';']), Option.bind_none]
    rw [readLimitAndEnd, Clause.sourceOf, Option.elim_none, List.nil_append, hnone,
      readEnd_append hw]
    rfl
  | some c =>
    obtain ⟨hc, hne, hplain⟩ := hpart c rfl
    obtain ⟨g, hg, hopen⟩ := hc.afterPhrase? (by decide) (by decide) (w ++ [';'])
    have hbody : Text.trimStart (c.body ++ (w ++ [';'])) = c.body ++ (w ++ [';']) := by
      obtain ⟨e, r, hr⟩ := List.exists_cons_of_ne_nil hne
      exact Text.trimStart_of_head? (by simpa [hr] using hplain e (by simp [hr]))
    have hread : readLimit (c.source ++ (w ++ [';'])) = some (c.extent (w ++ [';'])) := by
      rw [hphrase, hopen, Option.bind_some, Text.afterBlanks?_append hg, hbody, Option.bind_some,
        readLongest_append hne (by simpa using hplain) (readLongest_of_end hw)
          (by rw [readEnd_append hw]; rfl)]
      rfl
    rw [Clause.sourceOf, Option.elim_some, readLimitAndEnd, hread]
    rfl

end

end EntityQuery.Statement
