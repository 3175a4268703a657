-- SUMMARY: Reading clauses: bodies of unknown length between keywords, and optional clauses.
import EntityQuery.Text.Keyword
import EntityQuery.Text.Span

/-!
# Clauses

A clause is a keyword and a body. The body may be any text, so where it ends is
decided by what has to follow it. A reader of a clause therefore takes a reader
`k` of everything that follows, and tries the possible ends in a fixed order
until `k` succeeds:

- a body is as short as possible, and at least one character long;
- blanks before a body are as many as possible, so a body starts with a blank
  only if it could not be read otherwise;
- an optional clause is read if it can be read, and is absent otherwise.

A place in a text is given by the rest of the text from there on.
-/

namespace EntityQuery.Statement

/-! ## Extents -/

/-- A part of a text, given by the rest of the text at its start and at its end. -/
structure Extent where
  start : Text
  stop : Text
deriving DecidableEq, Repr

/-- The characters of a part. -/
def Extent.text (e : Extent) : Text :=
  e.start.take (e.start.length - e.stop.length)

/-- The place of a part in the text that it is a part of, in bytes. -/
def Extent.span (e : Extent) (whole : Text) : Span :=
  ⟨whole.byteSize - e.start.byteSize, whole.byteSize - e.stop.byteSize⟩

/-! ## Runs -/

/-- One or more characters of a class, as many as possible, and then `k`. -/
def readLongest {α : Type} (p : Char → Bool) (k : Text → Option α) : Text → Option α
  | [] => none
  | c :: t => if p c then readLongest p k t <|> k t else none

/-- Any characters, as few as possible, and then `k`. Also gives the place where `k` succeeded. -/
def readShortest {α : Type} (k : Text → Option α) : Text → Option (Text × α)
  | [] => (k []).map fun a => ([], a)
  | c :: t =>
    match k (c :: t) with
    | some a => some (c :: t, a)
    | none => readShortest k t

/-- A text up to its last place where `k` succeeds. -/
def readUpToLast {α : Type} (k : Text → Option α) : Text → Option (Text × α)
  | [] => (k []).map fun a => ([], a)
  | c :: t => readUpToLast k t <|> (k (c :: t)).map fun a => (c :: t, a)

/-! ## Bodies -/

/-- Blanks and the body of a clause, and then `k`. -/
def readBody {α : Type} (k : Text → Option α) (t : Text) : Option (Extent × α) :=
  readLongest isBlank (body k) t
where
  /-- A body of one character at least, and then `k`. -/
  body {α : Type} (k : Text → Option α) : Text → Option (Extent × α)
    | [] => none
    | c :: t => (readShortest k t).map fun (stop, a) => (⟨c :: t, stop⟩, a)

/-- Blanks, the keywords of a clause, and its body, and then `k`. -/
def readClause {α : Type} (keywords : List Text) (k : Text → Option α) (t : Text) :
    Option (Extent × α) := do
  let t ← t.afterBlanks?
  let t ← Text.afterPhrase? keywords t
  readBody k t

/-- A clause that may be absent, and then `k`. -/
def readOptional {α : Type} (keywords : List Text) (k : Text → Option α) (t : Text) :
    Option (Option Extent × α) :=
  ((readClause keywords k t).map fun (e, a) => (some e, a)) <|> (k t).map fun a => (none, a)

/-! ## Names -/

/-- A character that the name of an entity can start with: an ASCII letter, one of the two other
    characters that stand for ASCII letters without regard to case, or the underscore. -/
def isNameStart (c : Char) : Bool :=
  (foldCase c).isAlpha || c == '_'

/-- A character that the name of an entity can go on with. -/
def isNameChar (c : Char) : Bool :=
  isNameStart c || c.isDigit

/-- The name of an entity, and what follows it. -/
def readName : Text → Option (Extent × Text)
  | [] => none
  | c :: t =>
    if isNameStart c then some (⟨c :: t, t.dropWhile isNameChar⟩, t.dropWhile isNameChar) else none

/-! ## The end -/

/-- The semicolon that ends a statement, after blanks. -/
def readEnd (t : Text) : Option Unit :=
  if t.trimStart = [';'] then some () else none

end EntityQuery.Statement
