-- SUMMARY: Tokens of a statement: quoted literals, runs of other text, and commas; the lexer that reads them.
import EntityQuery.Text.Blank

/-!
# Tokens

A statement is cut only as far as its quotes demand. A single quote opens a
literal and the next one closes it; a doubled quote is no escape, so
`'O''Brien'` is two literals side by side. Outside of literals a comma is a
token of its own, and everything between is a run of text.

No character is dropped: the sources of the tokens, one after the other, are
the text that was read.
-/

namespace EntityQuery

/-- A token, without the quotes in the case of a literal. -/
inductive Token where
  | quoted (content : Text)
  | run (text : Text)
  | comma
deriving DecidableEq, Repr

/-- The text that a token is written as. -/
def Token.source : Token → Text
  | .quoted content => '\'' :: content ++ ['\'']
  | .run text => text
  | .comma => [',']

/-- The text that tokens are written as. -/
def Token.sources (tokens : List Token) : Text :=
  tokens.flatMap Token.source

/-- The only way in which reading tokens fails: a quote that no other quote follows. -/
inductive Lexer.Error where
  | unterminated (position : Nat)
deriving DecidableEq, Repr

/-- The message of an error. -/
def Lexer.Error.message : Lexer.Error → Text
  | .unterminated position =>
    "unterminated string literal starting at offset ".toList ++ Nat.toDigits 10 position

/-! ## Reading one token -/

/-- A character that runs of text are made of. -/
def isRunChar (c : Char) : Bool :=
  c != '\'' && c != ','

/-- A lexer: how many characters it has read, and those that it has not. -/
structure Lexer where
  position : Nat
  rest : Text
deriving DecidableEq, Repr

/-- The lexer at the start of a text. -/
def Lexer.start (t : Text) : Lexer :=
  ⟨0, t⟩

/-- The lexer after some characters. -/
def Lexer.advance (l : Lexer) (count : Nat) (rest : Text) : Lexer :=
  ⟨l.position + count, rest⟩

/-- One token, or none at the end of the text. After an unterminated literal the lexer is at the
    end. -/
def Lexer.next (l : Lexer) : Except Lexer.Error (Option Token) × Lexer :=
  match l.rest with
  | [] => (.ok none, l)
  | ',' :: rest => (.ok (some .comma), l.advance 1 rest)
  | '\'' :: rest =>
    let content := rest.takeWhile (· != '\'')
    match rest.dropWhile (· != '\'') with
    | [] => (.error (.unterminated l.position), l.advance (content.length + 1) [])
    | _ :: after => (.ok (some (.quoted content)), l.advance (content.length + 2) after)
  | c :: rest =>
    let more := rest.takeWhile isRunChar
    (.ok (some (.run (c :: more))), l.advance (more.length + 1) (rest.dropWhile isRunChar))

/-- A text up to a character, that character, and what follows it. -/
theorem takeWhile_append_of_dropWhile {q c : Char} {t after : Text}
    (h : t.dropWhile (· != q) = c :: after) : t.takeWhile (· != q) ++ q :: after = t := by
  have hc : c = q := by
    have hq := List.head?_dropWhile_not (· != q) t
    simpa [h] using hq
  rw [← hc, ← h, hc, List.takeWhile_append_dropWhile]

/-- What reading one token does. -/
inductive Lexer.Step (l : Lexer) : Except Lexer.Error (Option Token) × Lexer → Prop where
  /-- At the end there is no token. -/
  | ended : l.rest = [] → Step l (.ok none, l)
  /-- A token is read from its source, and the lexer moves by as many characters. -/
  | read (token : Token) {rest : Text} : token.source ≠ [] → l.rest = token.source ++ rest →
      Step l (.ok (some token), l.advance token.source.length rest)
  /-- A quote that no other quote follows is refused where it stands, and the lexer goes to the
      end. -/
  | refused {content : Text} : '\'' ∉ content → l.rest = '\'' :: content →
      Step l (.error (.unterminated l.position), l.advance l.rest.length [])

theorem Lexer.step_next (l : Lexer) : l.Step l.next := by
  rw [next]
  split
  · next hrest => exact .ended hrest
  · next hrest => exact .read .comma (List.cons_ne_nil _ _) hrest
  · next rest hrest =>
    dsimp only
    split
    · next hdrop =>
      have htake : rest.takeWhile (· != '\'') = rest := by
        simpa [hdrop] using List.takeWhile_append_dropWhile (p := (· != '\'')) (l := rest)
      have hquote : '\'' ∉ rest := by
        intro hmem
        rw [← htake] at hmem
        exact absurd (List.all_eq_true.1 List.all_takeWhile _ hmem) (by decide)
      have hlength : (rest.takeWhile (· != '\'')).length + 1 = l.rest.length := by
        rw [htake, hrest, List.length_cons]
      rw [hlength]
      exact .refused hquote hrest
    · next after hdrop =>
      have hliteral := takeWhile_append_of_dropWhile hdrop
      have hlength (content : Text) :
          content.length + 2 = (Token.quoted content).source.length := by
        simp [Token.source]
      rw [hlength]
      exact .read (.quoted _) (by simp [Token.source]) (by simp [Token.source, hrest, hliteral])
  · next c rest _ _ hrest =>
    exact .read (.run (c :: rest.takeWhile isRunChar)) (List.cons_ne_nil _ _)
      (by simp [Token.source, hrest])

/-- A token is read from its source, and the lexer moves by as many characters. -/
theorem Lexer.source_append_of_next {l l' : Lexer} {token : Token}
    (h : l.next = (.ok (some token), l')) :
    token.source ++ l'.rest = l.rest ∧ l'.position = l.position + token.source.length := by
  have hstep := h ▸ l.step_next
  cases hstep with
  | read token hne hrest => exact ⟨hrest.symm, rfl⟩

/-- The source of a token has at least one character. -/
theorem Lexer.source_ne_nil_of_next {l l' : Lexer} {token : Token}
    (h : l.next = (.ok (some token), l')) : token.source ≠ [] := by
  have hstep := h ▸ l.step_next
  cases hstep with
  | read token hne hrest => exact hne

/-- A token takes at least one character. -/
theorem Lexer.rest_length_lt_of_next {l l' : Lexer} {token : Token}
    (h : l.next = (.ok (some token), l')) : l'.rest.length < l.rest.length := by
  have hs := List.length_pos_iff.2 (Lexer.source_ne_nil_of_next h)
  rw [← (Lexer.source_append_of_next h).1, List.length_append]
  omega

/-- Only at the end of the text there is no token. -/
theorem Lexer.rest_eq_nil_of_next {l l' : Lexer} (h : l.next = (.ok none, l')) : l.rest = [] := by
  have hstep := h ▸ l.step_next
  cases hstep with
  | ended hrest => exact hrest

/-- An unterminated literal starts where the lexer is. -/
theorem Lexer.position_of_next_error {l l' : Lexer} {position : Nat}
    (h : l.next = (.error (.unterminated position), l')) : position = l.position := by
  have hstep := h ▸ l.step_next
  cases hstep with
  | refused hquote hrest => rfl

/-! ## Reading all tokens -/

/-- The tokens up to the end of the text or up to an unterminated literal, and the error in that
    case. -/
def Lexer.readAll (l : Lexer) : List Token × Option Lexer.Error :=
  match _h : l.next with
  | (.ok none, _) => ([], none)
  | (.error e, _) => ([], some e)
  | (.ok (some token), l') =>
    let (tokens, failure) := l'.readAll
    (token :: tokens, failure)
termination_by l.rest.length
decreasing_by exact Lexer.rest_length_lt_of_next _h

/-- What is left of a text from an unterminated literal on. -/
def Lexer.tail (t : Text) : Option Lexer.Error → Text
  | none => []
  | some (.unterminated position) => t.drop position

/-- No character is lost: the sources of the tokens, and what is left, are the text. -/
theorem Lexer.sources_append_of_readAll (l : Lexer) (before : Text)
    (h : before.length = l.position) :
    Token.sources l.readAll.1 ++ Lexer.tail (before ++ l.rest) l.readAll.2 = l.rest := by
  fun_induction Lexer.readAll l generalizing before with
  | case1 l l' hn => simp [Token.sources, Lexer.tail, Lexer.rest_eq_nil_of_next hn]
  | case2 l e l' hn =>
    obtain ⟨position⟩ := e
    simp [Token.sources, Lexer.tail, Lexer.position_of_next_error hn, ← h]
  | case3 l token l' hn tokens failure ht ih =>
    obtain ⟨hr, hp⟩ := Lexer.source_append_of_next hn
    have hi := ih (before ++ token.source) (by simp [h, hp])
    simp only [ht, List.append_assoc, hr] at hi
    simp only [Token.sources, List.flatMap_cons, List.append_assoc] at hi ⊢
    rw [hi, hr]

/-- The tokens of a text. -/
def tokenize (t : Text) : Except Lexer.Error (List Token) :=
  match (Lexer.start t).readAll with
  | (tokens, none) => .ok tokens
  | (_, some e) => .error e

/-! ## Lists -/

/-- The items of a list with commas between them, trimmed. A comma inside a literal is no
    separator. A blank text is the empty list; an empty item between commas is kept. -/
def splitList (t : Text) : Except Lexer.Error (List Text) :=
  if t.trim.isEmpty then .ok []
  else do
    let tokens ← tokenize t
    .ok ((tokens.splitOn .comma).map fun item => (Token.sources item).trim)

/-! ## Masking -/

/-- A token with the inside of a literal blanked, byte by byte. -/
def Token.masked : Token → Text
  | .quoted content => '\'' :: List.replicate content.byteSize '_' ++ ['\'']
  | token => token.source

/-- A text with the inside of every literal blanked. It has as many bytes as the text, and what
    lies outside of the literals keeps its place. From an unterminated quote on, the text is kept
    as it is. -/
def mask (t : Text) : Text :=
  let (tokens, failure) := (Lexer.start t).readAll
  tokens.flatMap Token.masked ++ Lexer.tail t failure

theorem Text.byteSize_replicate (n : Nat) (c : Char) :
    Text.byteSize (List.replicate n c) = n * c.utf8Size := by
  induction n with
  | zero => simp
  | succ n ih => simp [List.replicate_succ, ih, Nat.succ_mul, Nat.add_comm]

@[simp] theorem Token.byteSize_masked (token : Token) :
    Text.byteSize token.masked = Text.byteSize token.source := by
  cases token with
  | quoted content =>
    simp [Token.masked, Token.source, Text.byteSize_replicate, show '_'.utf8Size = 1 from rfl]
  | run t => rfl
  | comma => rfl

theorem Token.byteSize_flatMap_masked (tokens : List Token) :
    Text.byteSize (tokens.flatMap Token.masked) = Text.byteSize (Token.sources tokens) := by
  induction tokens with
  | nil => rfl
  | cons token tokens ih => simpa [Token.sources] using ih

/-- A masked text has as many bytes as the text. -/
theorem byteSize_mask (t : Text) : Text.byteSize (mask t) = Text.byteSize t := by
  have h := Lexer.sources_append_of_readAll (Lexer.start t) [] rfl
  calc Text.byteSize (mask t)
      = Text.byteSize ((Lexer.start t).readAll.1.flatMap Token.masked
          ++ Lexer.tail t (Lexer.start t).readAll.2) := rfl
    _ = Text.byteSize (Token.sources (Lexer.start t).readAll.1
          ++ Lexer.tail ([] ++ (Lexer.start t).rest) (Lexer.start t).readAll.2) := by
        simp [Token.byteSize_flatMap_masked, Lexer.start]
    _ = Text.byteSize t := by rw [h]; rfl

end EntityQuery
