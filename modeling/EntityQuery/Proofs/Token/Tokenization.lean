-- SUMMARY: The lexer moves on with every call, and what it reads is the only way to cut a text into tokens.
import EntityQuery.Proofs.Skeleton.Outline
import Mathlib.Algebra.Ring.Parity
import Mathlib.Data.List.Chain

/-!
# Tokenizations

A lexer that has not read the whole text moves on with every call, and at the
end it stays where it is. What it reads on the way is a tokenization: the text
cut into literals, runs and commas, without a character lost and without two
runs side by side. No text has more than one tokenization, and those whose
quotes are not closed have none. There the lexer stops at the last quote.
-/

namespace EntityQuery

open Skeleton

/-! ## One call -/

namespace Lexer

/-- A lexer that has read a text up to its position, and has the rest of the text before it. -/
structure Tracks (t : Text) (l : Lexer) : Prop where
  position_le : l.position ≤ t.length
  rest_eq : l.rest = t.drop l.position

variable {t : Text} {l : Lexer}

theorem tracks_start (t : Text) : (start t).Tracks t :=
  ⟨Nat.zero_le _, rfl⟩

theorem Tracks.rest_eq_nil_iff (h : l.Tracks t) : l.rest = [] ↔ l.position = t.length := by
  rw [h.rest_eq, List.drop_eq_nil_iff]
  have := h.position_le
  omega

theorem Tracks.length_rest (h : l.Tracks t) : l.position + l.rest.length = t.length := by
  rw [h.rest_eq, List.length_drop]
  have := h.position_le
  omega

/-- A lexer that goes over some of the characters before it is on the text still. -/
theorem Tracks.advance (h : l.Tracks t) {read rest : Text} (hrest : l.rest = read ++ rest) :
    (l.advance read.length rest).Tracks t := by
  have hlength := h.length_rest
  rw [hrest, List.length_append] at hlength
  refine ⟨by dsimp only [Lexer.advance]; omega, ?_⟩
  have hdrop : t.drop (l.position + read.length) = (read ++ rest).drop read.length := by
    rw [← hrest, h.rest_eq, List.drop_drop]
  rw [List.drop_left] at hdrop
  exact hdrop.symm

theorem Tracks.next (h : l.Tracks t) : l.next.2.Tracks t := by
  have hstep := l.step_next
  generalize l.next = outcome at hstep
  cases hstep with
  | ended hrest => exact h
  | read token hne hrest => exact h.advance hrest
  | refused hquote hrest => exact h.advance (List.append_nil _).symm

/-- A call moves the lexer on, unless it is at the end. -/
theorem position_lt_next (hl : l.rest ≠ []) : l.position < l.next.2.position := by
  have hstep := l.step_next
  generalize l.next = outcome at hstep
  cases hstep with
  | ended hrest => exact absurd hrest hl
  | read token hne hrest => exact Nat.lt_add_of_pos_right (List.length_pos_iff.2 hne)
  | refused hquote hrest => exact Nat.lt_add_of_pos_right (List.length_pos_iff.2 hl)

theorem next_of_rest_eq_nil (hl : l.rest = []) : l.next = (.ok none, l) := by
  have hstep := l.step_next
  generalize l.next = outcome at hstep
  cases hstep with
  | ended hrest => rfl
  | read token hne hrest =>
    rw [hl] at hrest
    exact absurd (List.append_eq_nil_iff.1 hrest.symm).1 hne
  | refused hquote hrest =>
    rw [hl] at hrest
    cases hrest

/-- A call that fails names the place where the lexer is, and leaves nothing to read. -/
theorem of_next_error {e : Error} (he : l.next.1 = .error e) :
    e = .unterminated l.position ∧ l.next.2.rest = [] := by
  have hstep := l.step_next
  generalize l.next = outcome at hstep he
  cases hstep with
  | ended hrest => cases he
  | read token hne hrest => cases he
  | refused hquote hrest =>
    cases he
    exact ⟨rfl, rfl⟩

/-! ## Repeated calls -/

/-- The lexer after some number of calls. -/
def after (l : Lexer) : Nat → Lexer
  | 0 => l
  | n + 1 => (l.after n).next.2

theorem Tracks.after (h : l.Tracks t) (n : Nat) : (l.after n).Tracks t := by
  induction n with
  | zero => exact h
  | succ n ih => exact ih.next

theorem after_of_rest_eq_nil (hl : l.rest = []) (n : Nat) : l.after n = l := by
  induction n with
  | zero => rfl
  | succ n ih => rw [after, ih, next_of_rest_eq_nil hl]

end Lexer

/-! ## All tokens -/

variable {t : Text}

/-- The lexer stops at the last quote if it opens a literal. -/
theorem tokenize_unterminated {before content : Text} (hbefore : before.QuotesClosed)
    (hcontent : '\'' ∉ content) :
    tokenize (before ++ '\'' :: content) = .error (.unterminated before.length) := by
  obtain ⟨s, hs, rfl⟩ := exists_outline hbefore
  have hread := Lexer.readAll_unterminated 0 (canonical_tokens () hs) hcontent
  rw [sources_tokens] at hread
  simp [tokenize, Lexer.start, hread]

theorem exists_tokenize_of_quotesClosed (h : t.QuotesClosed) :
    ∃ tokens, tokenize t = .ok tokens ∧ Token.Canonical tokens ∧ Token.sources tokens = t := by
  obtain ⟨s, hs, rfl⟩ := exists_outline h
  exact ⟨s.tokens (), tokenize_text hs (), canonical_tokens () hs, sources_tokens () s⟩

/-- A text has tokens if and only if its quotes are closed. -/
theorem exists_tokenize_iff : (∃ tokens, tokenize t = .ok tokens) ↔ t.QuotesClosed := by
  constructor
  · rintro ⟨tokens, htokens⟩
    by_contra h
    obtain ⟨before, content, rfl, hbefore, hcontent⟩ := Text.exists_unterminated h
    rw [tokenize_unterminated hbefore hcontent] at htokens
    cases htokens
  · intro h
    obtain ⟨tokens, htokens, -⟩ := exists_tokenize_of_quotesClosed h
    exact ⟨tokens, htokens⟩

/-- The tokens of a text are the canonical ones that are written as the text. -/
theorem tokenize_eq_ok_iff {tokens : List Token} :
    tokenize t = .ok tokens ↔ Token.Canonical tokens ∧ Token.sources tokens = t := by
  constructor
  · intro h
    obtain ⟨found, hfound, hcanonical, hsources⟩ :=
      exists_tokenize_of_quotesClosed (exists_tokenize_iff.1 ⟨tokens, h⟩)
    cases h.symm.trans hfound
    exact ⟨hcanonical, hsources⟩
  · rintro ⟨hcanonical, rfl⟩
    exact tokenize_sources hcanonical

/-- Whether a character stands at an offset of a text, counted in characters, and nowhere after
    it. -/
def Text.IsLastAt (t : Text) (mark : Char) (offset : Nat) : Prop :=
  t[offset]? = some mark ∧ mark ∉ t.drop (offset + 1)

instance (t : Text) (mark : Char) (offset : Nat) : Decidable (t.IsLastAt mark offset) :=
  inferInstanceAs (Decidable (_ ∧ _))

theorem Text.isLastAt_iff {mark : Char} {offset : Nat} : t.IsLastAt mark offset ↔
    ∃ before after : Text, t = before ++ mark :: after ∧ mark ∉ after ∧ before.length = offset := by
  constructor
  · rintro ⟨hmark, hafter⟩
    obtain ⟨hlt, hmark⟩ := List.getElem?_eq_some_iff.1 hmark
    refine ⟨t.take offset, t.drop (offset + 1), ?_, hafter, List.length_take_of_le hlt.le⟩
    rw [← hmark, List.getElem_cons_drop, List.take_append_drop]
  · rintro ⟨before, after, rfl, hafter, rfl⟩
    exact ⟨by simp, by simpa using hafter⟩

/-- The last place of a character is one. -/
theorem Text.IsLastAt.unique {mark : Char} {i j : Nat} (hi : t.IsLastAt mark i)
    (hj : t.IsLastAt mark j) : i = j := by
  obtain ⟨before, after, rfl, hafter, rfl⟩ := isLastAt_iff.1 hi
  obtain ⟨front, rest, heq, hrest, rfl⟩ := isLastAt_iff.1 hj
  have hlast := afterLast_append_cons hrest front
  rw [← heq, afterLast_append_cons hafter, Option.some_inj] at hlast
  have hlength := congrArg List.length heq
  simp only [List.length_append, List.length_cons, hlast] at hlength
  omega

/-- Where reading fails, it fails at the last quote of a text whose quotes are not closed. -/
theorem tokenize_eq_error_iff {position : Nat} : tokenize t = .error (.unterminated position) ↔
    ¬ t.QuotesClosed ∧ t.IsLastAt '\'' position := by
  have hstop (h : ¬ t.QuotesClosed) :
      ∃ last, t.IsLastAt '\'' last ∧ tokenize t = .error (.unterminated last) := by
    obtain ⟨before, content, rfl, hbefore, hcontent⟩ := Text.exists_unterminated h
    exact ⟨before.length, Text.isLastAt_iff.2 ⟨before, content, rfl, hcontent, rfl⟩,
      tokenize_unterminated hbefore hcontent⟩
  constructor
  · intro herror
    have hclosed : ¬ t.QuotesClosed := by
      intro h
      obtain ⟨tokens, htokens⟩ := exists_tokenize_iff.2 h
      cases herror.symm.trans htokens
    obtain ⟨last, hlast, htokenize⟩ := hstop hclosed
    cases herror.symm.trans htokenize
    exact ⟨hclosed, hlast⟩
  · rintro ⟨hclosed, hposition⟩
    obtain ⟨last, hlast, htokenize⟩ := hstop hclosed
    rw [htokenize, hlast.unique hposition]

/-! ## Pieces of a text -/

/-- What a token is. The end of a text is none. -/
inductive Token.Kind where
  | quoted
  | run
  | comma
deriving DecidableEq, Repr

/-- A piece of a text that is taken for a token of some kind. -/
structure Piece where
  kind : Token.Kind
  source : Text
deriving DecidableEq, Repr

def Token.kind : Token → Token.Kind
  | .quoted _ => .quoted
  | .run _ => .run
  | .comma => .comma

/-- The piece of the text that a token is read from. -/
def Token.piece (token : Token) : Piece :=
  ⟨token.kind, token.source⟩

namespace Piece

/-- Whether a piece is written as tokens of its kind are: a literal from a quote to the next one, a
    run as characters that are neither quotes nor commas. -/
def IsToken : Piece → Prop
  | ⟨.quoted, source⟩ =>
    source.head? = some '\'' ∧ source.getLast? = some '\'' ∧ source.count '\'' = 2
  | ⟨.run, source⟩ => source ≠ [] ∧ '\'' ∉ source ∧ ',' ∉ source
  | ⟨.comma, source⟩ => source = [',']

instance IsToken.decidable : (piece : Piece) → Decidable piece.IsToken
  | ⟨.quoted, _⟩ => inferInstanceAs (Decidable (_ ∧ _ ∧ _))
  | ⟨.run, _⟩ => inferInstanceAs (Decidable (_ ∧ _ ∧ _))
  | ⟨.comma, _⟩ => inferInstanceAs (Decidable (_ = _))

/-- Whether two pieces may stand side by side: two runs would be one. -/
def Apart (left right : Piece) : Prop :=
  ¬ (left.kind = .run ∧ right.kind = .run)

instance (left right : Piece) : Decidable (left.Apart right) :=
  inferInstanceAs (Decidable (¬ _))

end Piece

/-- A text cut into pieces that are tokens, with no two runs side by side. -/
structure IsTokenization (pieces : List Piece) (t : Text) : Prop where
  source_eq : pieces.flatMap Piece.source = t
  isToken : ∀ piece ∈ pieces, piece.IsToken
  apart : pieces.IsChain Piece.Apart

theorem Token.flatMap_source_piece (tokens : List Token) :
    (tokens.map Token.piece).flatMap Piece.source = Token.sources tokens := by
  rw [List.flatMap_map]
  rfl

/-- A text with two quotes that stand at its ends is a content between quotes. -/
theorem Text.exists_quoted_of_count {source : Text} (hhead : source.head? = some '\'')
    (hlast : source.getLast? = some '\'') (hcount : source.count '\'' = 2) :
    ∃ content : Text, source = content.quoted ∧ '\'' ∉ content := by
  have hne : source ≠ ['\''] := by
    rintro rfl
    exact absurd hcount (by decide)
  obtain ⟨content, rfl⟩ := Text.exists_eq_quoted hne hhead hlast
  have hnone : content.count '\'' = 0 := by simpa [Text.quoted] using hcount
  exact ⟨content, rfl, List.count_eq_zero.1 hnone⟩

/-- Pieces that are tokens, with no two runs side by side, are those of canonical tokens. -/
theorem Token.exists_canonical {pieces : List Piece} (htoken : ∀ piece ∈ pieces, piece.IsToken)
    (hapart : pieces.IsChain Piece.Apart) :
    ∃ tokens, Canonical tokens ∧ pieces = tokens.map Token.piece := by
  induction pieces with
  | nil => exact ⟨[], .nil, rfl⟩
  | cons piece pieces ih =>
    obtain ⟨hpiece, hrest⟩ := List.forall_mem_cons.1 htoken
    obtain ⟨tokens, hcanonical, rfl⟩ := ih hrest hapart.tail
    obtain ⟨kind, source⟩ := piece
    cases kind with
    | quoted =>
      obtain ⟨hhead, hlast, hcount⟩ := hpiece
      obtain ⟨content, rfl, hcontent⟩ := Text.exists_quoted_of_count hhead hlast hcount
      exact ⟨.quoted content :: tokens, .quoted hcontent hcanonical, rfl⟩
    | run =>
      obtain ⟨hne, hquote, hcomma⟩ := hpiece
      refine ⟨.run source :: tokens, .run hne ?_ ?_ hcanonical, rfl⟩
      · intro c hc
        have hcquote : c ≠ '\'' := ne_of_mem_of_not_mem hc hquote
        have hccomma : c ≠ ',' := ne_of_mem_of_not_mem hc hcomma
        simp [isRunChar, hcquote, hccomma]
      · intro other hother
        obtain ⟨more, rfl⟩ := List.head?_eq_some_iff.1 hother
        exact (List.isChain_cons_cons.1 hapart).1 ⟨rfl, rfl⟩
    | comma =>
      obtain rfl : source = [','] := hpiece
      exact ⟨.comma :: tokens, .comma hcanonical, rfl⟩

theorem Token.Canonical.isToken {tokens : List Token} (h : Canonical tokens) :
    ∀ piece ∈ tokens.map Token.piece, piece.IsToken := by
  induction h with
  | nil => simp
  | quoted hcontent h ih =>
    refine List.forall_mem_cons.2 ⟨⟨rfl, ?_, ?_⟩, ih⟩
    · rw [Token.source, List.getLast?_concat]
    · simp [Token.source, List.count_eq_zero.2 hcontent]
  | comma h ih => exact List.forall_mem_cons.2 ⟨rfl, ih⟩
  | run hne hall hnext h ih =>
    refine List.forall_mem_cons.2 ⟨⟨hne, ?_, ?_⟩, ih⟩
    · exact fun hmem => absurd (hall _ hmem) (by decide)
    · exact fun hmem => absurd (hall _ hmem) (by decide)

theorem Token.Canonical.apart {tokens : List Token} (h : Canonical tokens) :
    (tokens.map Token.piece).IsChain Piece.Apart := by
  induction h with
  | nil => exact .nil
  | quoted hcontent h ih => exact ih.cons fun right _ => fun hruns => by cases hruns.1
  | comma h ih => exact ih.cons fun right _ => fun hruns => by cases hruns.1
  | run hne hall hnext h ih =>
    next tokens =>
    refine ih.cons fun right hright hruns => ?_
    cases tokens with
    | nil => cases hright
    | cons token tokens =>
      cases hright
      cases token with
      | quoted content => cases hruns.2
      | run other => exact hnext other rfl
      | comma => cases hruns.2

/-- A text is cut into tokens in one way only, which is how it is read. -/
theorem isTokenization_iff {pieces : List Piece} : IsTokenization pieces t ↔
    ∃ tokens, tokenize t = .ok tokens ∧ pieces = tokens.map Token.piece := by
  constructor
  · rintro ⟨rfl, htoken, hapart⟩
    obtain ⟨tokens, hcanonical, rfl⟩ := Token.exists_canonical htoken hapart
    refine ⟨tokens, ?_, rfl⟩
    rw [Token.flatMap_source_piece]
    exact tokenize_sources hcanonical
  · rintro ⟨tokens, htokens, rfl⟩
    obtain ⟨hcanonical, hsources⟩ := tokenize_eq_ok_iff.1 htokens
    exact ⟨(Token.flatMap_source_piece tokens).trans hsources, hcanonical.isToken,
      hcanonical.apart⟩

/-! ## The lexer on every text -/

/-- On every text the lexer stays on the text, moves on with every call until it is at the end, and
    stays there for ever; a literal that is not terminated takes it there. A text is read if and
    only if the number of its quotes is even, and otherwise the last quote is reported. What is read
    is the only tokenization of the text. -/
theorem tokenize_lossless_canonical (t : Text) :
    (∀ n, let l := (Lexer.start t).after n
      l.position ≤ t.length ∧ l.rest = t.drop l.position ∧
      (l.position < t.length → l.position < l.next.2.position) ∧
      (l.position = t.length → ∀ m, (l.after m).next = (.ok none, l)) ∧
      ∀ e, l.next.1 = .error e →
        e = .unterminated l.position ∧ l.next.2.position = t.length) ∧
    ((∃ tokens, tokenize t = .ok tokens) ↔ Even (t.count '\'')) ∧
    (∀ position, tokenize t = .error (.unterminated position) ↔
      Odd (t.count '\'') ∧ t.IsLastAt '\'' position) ∧
    ∀ pieces, IsTokenization pieces t ↔
      ∃ tokens, tokenize t = .ok tokens ∧ pieces = tokens.map Token.piece := by
  refine ⟨fun n => ?_, exists_tokenize_iff, fun position => ?_, fun pieces => isTokenization_iff⟩
  · have htracks := (Lexer.tracks_start t).after n
    generalize (Lexer.start t).after n = l at htracks
    refine ⟨htracks.position_le, htracks.rest_eq, fun hlt => ?_, fun hend m => ?_, fun e he => ?_⟩
    · exact Lexer.position_lt_next fun hrest => hlt.ne (htracks.rest_eq_nil_iff.1 hrest)
    · have hrest := htracks.rest_eq_nil_iff.2 hend
      rw [Lexer.after_of_rest_eq_nil hrest, Lexer.next_of_rest_eq_nil hrest]
    · obtain ⟨hposition, hrest⟩ := Lexer.of_next_error he
      exact ⟨hposition, htracks.next.rest_eq_nil_iff.1 hrest⟩
  · rw [← Nat.not_even_iff_odd]
    exact tokenize_eq_error_iff

/-- Two literals side by side, a comma inside of one of them and runs around them, after a character
    of several bytes; and a text whose last literal is not terminated, up to the error and after
    it. -/
theorem tokenize_lossless_canonical_of_literals :
    let t : Text := "é,'x,y''z'w".toList
    let pieces : List Piece := [⟨.run, ['é']⟩, ⟨.comma, [',']⟩, ⟨.quoted, "'x,y'".toList⟩,
      ⟨.quoted, "'z'".toList⟩, ⟨.run, ['w']⟩]
    let broken : Text := "é = 'x".toList
    IsTokenization pieces t ∧
      (∃ tokens, tokenize t = .ok tokens ∧ pieces = tokens.map Token.piece) ∧
      tokenize broken = .error (.unterminated 4) ∧
      ((Lexer.start broken).after 1).position < ((Lexer.start broken).after 2).position ∧
      (((Lexer.start broken).after 2).after 7).next = (.ok none, (Lexer.start broken).after 2) := by
  intro t pieces broken
  obtain ⟨-, -, -, hpieces⟩ := tokenize_lossless_canonical t
  obtain ⟨hcalls, -, herror, -⟩ := tokenize_lossless_canonical broken
  have htokenization : IsTokenization pieces t :=
    ⟨by decide +kernel, by decide +kernel, by decide +kernel⟩
  obtain ⟨-, -, hmoves, -⟩ := hcalls 1
  obtain ⟨-, -, -, hstays, -⟩ := hcalls 2
  exact ⟨htokenization, (hpieces pieces).1 htokenization,
    (herror 4).2 ⟨by decide +kernel, by decide +kernel⟩, hmoves (by decide +kernel),
    hstays (by decide +kernel) 7⟩

end EntityQuery
