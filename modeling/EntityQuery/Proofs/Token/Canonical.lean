-- SUMMARY: Canonical tokens: the tokens that the lexer gives are known from their sources alone.
import EntityQuery.Token

/-!
# Canonical tokens

Tokens are canonical if no literal has a quote inside, runs are not empty and
have neither quotes nor commas, and no two runs stand side by side. The lexer
finds canonical tokens again in the text that they are written as.
-/

namespace EntityQuery

/-- Tokens as the lexer gives them. -/
inductive Token.Canonical : List Token → Prop where
  | nil : Canonical []
  | quoted {content : Text} {tokens : List Token} :
      '\'' ∉ content → Canonical tokens → Canonical (.quoted content :: tokens)
  | comma {tokens : List Token} : Canonical tokens → Canonical (.comma :: tokens)
  | run {text : Text} {tokens : List Token} :
      text ≠ [] → (∀ c ∈ text, isRunChar c = true) →
      (∀ other, tokens.head? ≠ some (.run other)) → Canonical tokens →
      Canonical (.run text :: tokens)

@[simp] theorem Token.sources_nil : Token.sources [] = [] := rfl

@[simp] theorem Token.sources_cons (token : Token) (tokens : List Token) :
    Token.sources (token :: tokens) = token.source ++ Token.sources tokens := rfl

/-! ## Where a run ends -/

theorem takeWhile_append_of_head? {p : Char → Bool} {s t : Text} (hs : ∀ c ∈ s, p c = true)
    (ht : ∀ c, t.head? = some c → p c = false) :
    (s ++ t).takeWhile p = s ∧ (s ++ t).dropWhile p = t := by
  induction s with
  | nil =>
    cases t with
    | nil => simp
    | cons c t => simp [ht c rfl]
  | cons c s ih =>
    obtain ⟨hc, hs⟩ := List.forall_mem_cons.1 hs
    obtain ⟨htake, hdrop⟩ := ih hs
    simp [hc, htake, hdrop]

/-- What stands after tokens and does not go on with a run. -/
def EndsRun (tail : Text) : Prop :=
  ∀ c, tail.head? = some c → isRunChar c = false

/-- What follows a run does not start with a character of runs. -/
theorem Token.endsRun_sources_append {tokens : List Token} (h : Canonical tokens)
    (hrun : ∀ other, tokens.head? ≠ some (.run other)) {tail : Text} (htail : EndsRun tail) :
    EndsRun (Token.sources tokens ++ tail) := by
  cases h with
  | nil => exact htail
  | quoted hq h =>
    intro c hc
    cases hc
    rfl
  | comma h =>
    intro c hc
    cases hc
    rfl
  | run hne hall hnext h => exact absurd rfl (hrun _)

/-! ## Reading canonical tokens -/

/-- The first of canonical tokens is what the lexer reads next. -/
theorem Lexer.next_sources {token : Token} {tokens : List Token} (position : Nat)
    (h : Token.Canonical (token :: tokens)) {tail : Text} (htail : EndsRun tail) :
    (⟨position, Token.sources (token :: tokens) ++ tail⟩ : Lexer).next =
      (.ok (some token), ⟨position + token.source.length, Token.sources tokens ++ tail⟩) := by
  cases h with
  | quoted hq h =>
    next content =>
    obtain ⟨htake, hdrop⟩ := takeWhile_append_of_head? (p := (· != '\'')) (s := content)
      (t := '\'' :: (Token.sources tokens ++ tail))
      (fun c hc => by simpa using ne_of_mem_of_not_mem hc hq) (fun c hc => by cases hc; rfl)
    simp [Lexer.next, Token.source, Lexer.advance, htake, hdrop]
  | comma h => simp [Lexer.next, Token.source, Lexer.advance]
  | run hne hall hnext h =>
    next text =>
    cases text with
    | nil => exact absurd rfl hne
    | cons c text =>
      obtain ⟨hc, hall⟩ := List.forall_mem_cons.1 hall
      obtain ⟨htake, hdrop⟩ :=
        takeWhile_append_of_head? hall (Token.endsRun_sources_append h hnext htail)
      have hquote : c ≠ '\'' := by
        rintro rfl
        cases hc
      have hcomma : c ≠ ',' := by
        rintro rfl
        cases hc
      simp [Lexer.next, Token.source, Lexer.advance, htake, hdrop]

/-- Canonical tokens are read back from their sources, and then what stands after them. -/
theorem Lexer.readAll_sources_append {tokens : List Token} (position : Nat)
    (h : Token.Canonical tokens) {tail : Text} (htail : EndsRun tail) :
    (⟨position, Token.sources tokens ++ tail⟩ : Lexer).readAll =
      (tokens ++ (⟨position + (Token.sources tokens).length, tail⟩ : Lexer).readAll.1,
        (⟨position + (Token.sources tokens).length, tail⟩ : Lexer).readAll.2) := by
  induction tokens generalizing position with
  | nil => rfl
  | cons token tokens ih =>
    have hrest : Token.Canonical tokens := by cases h <;> assumption
    have hn := Lexer.next_sources position h htail
    rw [Lexer.readAll]
    split
    · next he => rw [hn] at he; cases he
    · next he => rw [hn] at he; cases he
    · next he =>
      rw [hn] at he
      cases he
      rw [ih _ hrest, Token.sources_cons, List.length_append, Nat.add_assoc]
      rfl

/-- Canonical tokens are read back from their sources, without an error. -/
theorem Lexer.readAll_sources {tokens : List Token} (position : Nat) (h : Token.Canonical tokens) :
    (⟨position, Token.sources tokens⟩ : Lexer).readAll = (tokens, none) := by
  have hend : ∀ p, (⟨p, []⟩ : Lexer).readAll = ([], none) := by
    intro p
    rw [Lexer.readAll]
    rfl
  have hnil : EndsRun [] := by
    rintro c ⟨⟩
  have hread := Lexer.readAll_sources_append position h hnil
  rwa [List.append_nil, hend, List.append_nil] at hread

/-- After canonical tokens the lexer stops at a quote that no other quote follows. -/
theorem Lexer.readAll_unterminated {tokens : List Token} (position : Nat)
    (h : Token.Canonical tokens) {content : Text} (hcontent : '\'' ∉ content) :
    (⟨position, Token.sources tokens ++ '\'' :: content⟩ : Lexer).readAll =
      (tokens, some (.unterminated (position + (Token.sources tokens).length))) := by
  have hnone : content.dropWhile (· != '\'') = [] := by
    obtain ⟨-, hdrop⟩ := takeWhile_append_of_head? (p := (· != '\'')) (s := content) (t := [])
      (fun c hc => by simpa using ne_of_mem_of_not_mem hc hcontent) (by rintro c ⟨⟩)
    rwa [List.append_nil] at hdrop
  have hstop : ∀ p, (⟨p, '\'' :: content⟩ : Lexer).readAll = ([], some (.unterminated p)) := by
    intro p
    have hn : (⟨p, '\'' :: content⟩ : Lexer).next = (.error (.unterminated p),
        (⟨p, '\'' :: content⟩ : Lexer).advance
          ((content.takeWhile (· != '\'')).length + 1) []) := by
      simp [Lexer.next, hnone]
    rw [Lexer.readAll]
    split
    · next he => rw [hn] at he; cases he
    · next he => rw [hn] at he; cases he; rfl
    · next he => rw [hn] at he; cases he
  rw [Lexer.readAll_sources_append position h (by rintro c ⟨⟩; rfl), hstop, List.append_nil]

theorem tokenize_sources {tokens : List Token} (h : Token.Canonical tokens) :
    tokenize (Token.sources tokens) = .ok tokens := by
  simp [tokenize, Lexer.start, Lexer.readAll_sources 0 h]

theorem mask_sources {tokens : List Token} (h : Token.Canonical tokens) :
    mask (Token.sources tokens) = tokens.flatMap Token.masked := by
  simp [mask, Lexer.start, Lexer.readAll_sources 0 h, Lexer.tail]

/-- From a quote on that no other quote follows nothing is masked. -/
theorem mask_sources_unterminated {tokens : List Token} (h : Token.Canonical tokens)
    {content : Text} (hcontent : '\'' ∉ content) :
    mask (Token.sources tokens ++ '\'' :: content) =
      tokens.flatMap Token.masked ++ '\'' :: content := by
  simp [mask, Lexer.start, Lexer.readAll_unterminated 0 h hcontent, Lexer.tail]

end EntityQuery
