-- SUMMARY: The tokens of a filter are the tokens of its condition, with the runs rewritten.
import EntityQuery.Proofs.Filter.Rewrite
import EntityQuery.Proofs.Skeleton.Outline
import EntityQuery.Proofs.Skeleton.Filter

/-!
# Tokens of filters

A condition is rewritten token by token, and what is written is read as the same
tokens again: literals and commas stay as they are, and each run of text is
rewritten on its own. Only at the two ends something is lost, where the filter
is trimmed: blanks of the first and of the last run, and the run itself if it has
nothing else.
-/

namespace EntityQuery

namespace Filter

/-- Rewriting leaves something of every run. -/
theorem ofRun_ne_nil {t : Text} (h : t ≠ []) : ofRun t ≠ [] := by
  rw [ofRun, Text.collapse, ← rewriteFrom]
  obtain ⟨c, t, rfl⟩ := List.exists_cons_of_ne_nil h
  cases hread : Operator.read? false (c :: t) with
  | some p =>
    obtain ⟨op, rest⟩ := p
    rw [rewriteFrom_operator hread]
    simp
  | none =>
    cases hc : isBlank c with
    | true =>
      rw [rewriteFrom_blank hc]
      exact List.cons_ne_nil _ _
    | false =>
      rw [rewriteFrom_kept hc hread]
      exact List.cons_ne_nil _ _

theorem isRunChar_of_mem_ofRun {t : Text} (h : ∀ c ∈ t, isRunChar c = true) {c : Char}
    (hc : c ∈ ofRun t) : isRunChar c = true := by
  by_contra hrun
  exact notMem_ofRun (by simpa using hrun) (fun hmem => hrun (h c hmem)) hc

end Filter

namespace Token

variable {tokens : List Token}

/-- Whether a token is a run of text, and neither a literal nor a comma. -/
def isRun : Token → Bool
  | run _ => true
  | _ => false

/-! ## Rewriting tokens -/

/-- A token with the text of a run rewritten. -/
def rewritten : Token → Token
  | run t => run (Filter.ofRun t)
  | token => token

theorem source_rewritten (token : Token) : token.rewritten.source = Filter.ofToken token := by
  cases token <;> rfl

theorem sources_map_rewritten (tokens : List Token) :
    sources (tokens.map rewritten) = tokens.flatMap Filter.ofToken := by
  rw [sources, List.flatMap_map]
  simp only [source_rewritten]

theorem Canonical.map_rewritten (h : Canonical tokens) : Canonical (tokens.map rewritten) := by
  induction h with
  | nil => exact .nil
  | quoted hcontent _ ih => exact .quoted hcontent ih
  | comma _ ih => exact .comma ih
  | @run t tokens hne hall hnext _ ih =>
    refine .run (Filter.ofRun_ne_nil hne) (fun c => Filter.isRunChar_of_mem_ofRun hall) ?_ ih
    intro other hother
    rcases tokens with _ | ⟨content | text | _, tokens⟩
    · cases hother
    · cases hother
    · exact hnext text rfl
    · cases hother

theorem filter_map_rewritten (tokens : List Token) :
    (tokens.map rewritten).filter (!·.isRun) = tokens.filter (!·.isRun) := by
  induction tokens with
  | nil => rfl
  | cons token tokens ih =>
    cases token with
    | run t => exact ih
    | quoted content => exact congrArg (quoted content :: ·) ih
    | comma => exact congrArg (comma :: ·) ih

/-! ## Trimming tokens -/

/-- Tokens without the blanks that they start with. -/
def trimFirst : List Token → List Token
  | run t :: tokens => if t.isBlank then tokens else run t.trimStart :: tokens
  | tokens => tokens

/-- Tokens without the blanks that they end with. -/
def trimLast : List Token → List Token
  | [] => []
  | [run t] => if t.isBlank then [] else [run t.trimEnd]
  | token :: tokens => token :: trimLast tokens

/-- A literal and a comma start and end with a character that is no blank. -/
theorem trim_source {token : Token} (h : ∀ t, token ≠ run t) :
    Text.isBlank token.source = false ∧ Text.trimStart token.source = token.source ∧
      Text.trimEnd token.source = token.source := by
  cases token with
  | run t => exact absurd rfl (h t)
  | comma => exact ⟨rfl, rfl, rfl⟩
  | quoted content =>
    refine ⟨rfl, rfl, Text.trimEnd_of_getLast? fun c hc => ?_⟩
    rw [source, List.getLast?_concat] at hc
    cases hc
    rfl

/-- Before a literal and before a comma nothing is trimmed. -/
theorem trimStart_sources (h : ∀ t, tokens.head? ≠ some (run t)) :
    (sources tokens).trimStart = sources tokens := by
  cases tokens with
  | nil => rfl
  | cons token tokens =>
    have hrun : ∀ t, token ≠ run t := fun t ht => h t (ht ▸ rfl)
    obtain ⟨hblank, hstart, -⟩ := trim_source hrun
    rw [sources_cons, Text.trimStart_append_of_not_isBlank hblank, hstart]

theorem trimLast_cons {token : Token} (h : ∀ t, token ≠ run t) (tokens : List Token) :
    trimLast (token :: tokens) = token :: trimLast tokens := by
  cases token with
  | run t => exact absurd rfl (h t)
  | quoted content => rfl
  | comma => rfl

/-- After a literal and after a comma the tokens that follow are trimmed. -/
theorem trimEnd_sources_cons {token : Token} (h : ∀ t, token ≠ run t) (tokens : List Token) :
    (sources (token :: tokens)).trimEnd = token.source ++ (sources tokens).trimEnd := by
  rw [sources_cons]
  cases hblank : (sources tokens).isBlank with
  | true =>
    rw [Text.trimEnd_append_of_isBlank hblank, (trim_source h).2.2,
      Text.trimEnd_eq_nil_iff.2 hblank, List.append_nil]
  | false => exact Text.trimEnd_append_of_not_isBlank hblank _

theorem Canonical.trimFirst (h : Canonical tokens) :
    Canonical (Token.trimFirst tokens) ∧
      sources (Token.trimFirst tokens) = (sources tokens).trimStart := by
  cases h with
  | nil => exact ⟨.nil, rfl⟩
  | quoted hcontent h => exact ⟨.quoted hcontent h, rfl⟩
  | comma h => exact ⟨.comma h, rfl⟩
  | @run t tokens hne hall hnext h =>
    rw [sources_cons, Token.trimFirst]
    cases hblank : t.isBlank with
    | true =>
      rw [if_pos rfl, source, Text.trimStart_append_of_isBlank hblank, trimStart_sources hnext]
      exact ⟨h, rfl⟩
    | false =>
      rw [if_neg Bool.false_ne_true, source, Text.trimStart_append_of_not_isBlank hblank]
      refine ⟨.run ?_ (fun c hc => hall c ((List.dropWhile_suffix _).subset hc)) hnext h, rfl⟩
      rw [Ne, Text.trimStart_eq_nil_iff, hblank]
      exact Bool.false_ne_true

theorem Canonical.trimLast (h : Canonical tokens) :
    Canonical (Token.trimLast tokens) ∧
      sources (Token.trimLast tokens) = (sources tokens).trimEnd := by
  induction h with
  | nil => exact ⟨.nil, rfl⟩
  | @quoted content tokens hcontent h ih =>
    have hrun : ∀ t, Token.quoted content ≠ Token.run t := by simp
    rw [trimLast_cons hrun, trimEnd_sources_cons hrun, sources_cons, ih.2]
    exact ⟨.quoted hcontent ih.1, rfl⟩
  | @comma tokens h ih =>
    have hrun : ∀ t, Token.comma ≠ Token.run t := by simp
    rw [trimLast_cons hrun, trimEnd_sources_cons hrun, sources_cons, ih.2]
    exact ⟨.comma ih.1, rfl⟩
  | @run t tokens hne hall hnext h ih =>
    cases tokens with
    | nil =>
      rw [Token.trimLast, sources_cons, sources_nil, List.append_nil, source]
      cases hblank : t.isBlank with
      | true => exact ⟨.nil, (Text.trimEnd_eq_nil_iff.2 hblank).symm⟩
      | false =>
        obtain ⟨g, -, ht⟩ := Text.exists_eq_trimEnd_append t
        refine ⟨.run ?_ (fun c hc => hall c (ht ▸ List.mem_append_left g hc)) hnext h, ?_⟩
        · rw [Ne, Text.trimEnd_eq_nil_iff, hblank]
          exact Bool.false_ne_true
        · exact List.append_nil _
    | cons token tokens =>
      have hrun : ∀ other, token ≠ Token.run other := fun other heq => hnext other (heq ▸ rfl)
      have hlast : Token.trimLast (Token.run t :: token :: tokens) =
          Token.run t :: Token.trimLast (token :: tokens) := rfl
      have hblank : (sources (token :: tokens)).isBlank = false := by
        rw [sources_cons, Text.isBlank_append, (trim_source hrun).1, Bool.false_and]
      rw [hlast, sources_cons, ih.2, sources_cons (Token.run t),
        Text.trimEnd_append_of_not_isBlank hblank]
      refine ⟨.run hne hall ?_ ih.1, rfl⟩
      rw [trimLast_cons hrun]
      exact hnext

theorem filter_trimFirst (tokens : List Token) :
    (trimFirst tokens).filter (!·.isRun) = tokens.filter (!·.isRun) := by
  rcases tokens with _ | ⟨content | t | _, tokens⟩
  · rfl
  · rfl
  · rw [trimFirst]
    split <;> rfl
  · rfl

theorem filter_trimLast (tokens : List Token) :
    (trimLast tokens).filter (!·.isRun) = tokens.filter (!·.isRun) := by
  fun_induction trimLast tokens with
  | case1 => rfl
  | case2 t _ => rfl
  | case3 t _ => rfl
  | case4 token tokens _ ih => rw [List.filter_cons, List.filter_cons, ih]

end Token

/-! ## Tokens of filters -/

namespace Filter

open Skeleton

variable {condition : Text}

/-- A condition whose quotes are closed is read as canonical tokens. -/
theorem exists_tokens (h : condition.QuotesClosed) : ∃ tokens, Token.Canonical tokens ∧
    Token.sources tokens = condition ∧ tokenize condition = .ok tokens := by
  obtain ⟨s, hs, rfl⟩ := exists_outline h
  refine ⟨s.tokens (), canonical_tokens () hs, sources_tokens () s, ?_⟩
  rw [← sources_tokens, tokenize_sources (canonical_tokens () hs)]

/-- The tokens of a filter, by those of its condition. -/
theorem tokenize_ofCondition {tokens : List Token} (h : tokenize condition = .ok tokens)
    (hcanonical : Token.Canonical tokens) : tokenize (ofCondition condition) =
      .ok (Token.trimLast (Token.trimFirst (tokens.map Token.rewritten))) := by
  obtain ⟨hfirst, hstart⟩ := hcanonical.map_rewritten.trimFirst
  obtain ⟨hlast, hend⟩ := hfirst.trimLast
  rw [ofCondition, h]
  dsimp only
  rw [← Token.sources_map_rewritten, Text.trim, ← hstart, ← hend, tokenize_sources hlast]

/-- Literals and commas are the same in a filter, in the same order. Each run between them is
    rewritten on its own, and at the two ends of the filter blanks are dropped. -/
theorem literals_and_commas_survive (h : condition.QuotesClosed) :
    ∃ tokens filtered, tokenize condition = .ok tokens ∧
      tokenize (ofCondition condition) = .ok filtered ∧
      filtered = Token.trimLast (Token.trimFirst (tokens.map Token.rewritten)) ∧
      filtered.filter (!·.isRun) = tokens.filter (!·.isRun) := by
  obtain ⟨tokens, hcanonical, -, htokens⟩ := exists_tokens h
  refine ⟨tokens, _, htokens, tokenize_ofCondition htokens hcanonical, rfl, ?_⟩
  rw [Token.filter_trimLast, Token.filter_trimFirst, Token.filter_map_rewritten]

/-- A condition with literals that hold operators, commas and blanks, two of them side by side, and
    with blanks at its ends. -/
def awkwardCondition : Text :=
  "\t a>='x  AND y, z''  ' \n,b IS  NULL OR' = 'LIKE\t".toList

theorem literals_and_commas_survive_of_awkwardCondition :
    awkwardCondition.QuotesClosed ∧ ∃ tokens filtered,
      tokenize awkwardCondition = .ok tokens ∧
      tokenize (ofCondition awkwardCondition) = .ok filtered ∧
      filtered = Token.trimLast (Token.trimFirst (tokens.map Token.rewritten)) ∧
      filtered.filter (!·.isRun) = tokens.filter (!·.isRun) :=
  ⟨by decide +kernel, literals_and_commas_survive (by decide +kernel)⟩

example : tokenize (ofCondition awkwardCondition) = .ok
    [.run "a ge ".toList, .quoted "x  AND y, z".toList, .quoted "  ".toList, .run " ".toList, .comma,
      .run "b eq null or ".toList, .quoted " = ".toList, .run " contains".toList] := by
  decide +kernel

end Filter

end EntityQuery
