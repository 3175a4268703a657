-- SUMMARY: Blank characters, and what depends on them: trimming, words, and runs of blanks made one space.
import EntityQuery.Text.Basic

/-!
# Blank characters

A character is blank if Unicode gives it the property `White_Space`. That is
more than the blanks of ASCII and less than everything invisible: the
zero-width space and the byte order mark are no blanks.
-/

namespace EntityQuery

/-- The characters with the Unicode property `White_Space`. -/
def isBlank (c : Char) : Bool :=
  let n := c.toNat
  (9 ≤ n && n ≤ 13) || n == 0x20 || n == 0x85 || n == 0xA0 || n == 0x1680 ||
    (0x2000 ≤ n && n ≤ 0x200A) || n == 0x2028 || n == 0x2029 || n == 0x202F ||
    n == 0x205F || n == 0x3000

theorem isBlank_of_isWhitespace {c : Char} (h : c.isWhitespace = true) : isBlank c = true := by
  simp only [Char.isWhitespace, Bool.or_eq_true, decide_eq_true_eq] at h
  rcases h with ((rfl | rfl) | rfl) | rfl <;> decide

example : isBlank '\u200b' = false ∧ isBlank '\ufeff' = false ∧ isBlank '\u2003' = true := by decide

/-! ## Trimming -/

/-- A text without the blanks at its start. -/
def Text.trimStart (t : Text) : Text :=
  t.dropWhile isBlank

/-- A text without the blanks at its end. -/
def Text.trimEnd (t : Text) : Text :=
  (t.reverse.dropWhile isBlank).reverse

/-- A text without the blanks at either end. -/
def Text.trim (t : Text) : Text :=
  t.trimStart.trimEnd

/-- A text of blanks only, the empty one included. -/
def Text.isBlank (t : Text) : Bool :=
  t.all EntityQuery.isBlank

/-! ## Words and runs -/

/-- The maximal runs of characters that are not blank. -/
def Text.words (t : Text) : List Text :=
  (t.splitOnP EntityQuery.isBlank).filter (!·.isEmpty)

/-- Every run of blanks made one space. The flag tells whether the character before was blank. -/
def Text.collapseFrom : Bool → Text → Text
  | _, [] => []
  | afterBlank, c :: t =>
    if EntityQuery.isBlank c then
      if afterBlank then Text.collapseFrom true t else ' ' :: Text.collapseFrom true t
    else c :: Text.collapseFrom false t

/-- Every run of blanks made one space. -/
def Text.collapse (t : Text) : Text :=
  Text.collapseFrom false t

/-- The rest of a text after one or more blanks, all of them taken. -/
def Text.afterBlanks? : Text → Option Text
  | [] => none
  | c :: t => if EntityQuery.isBlank c then some (Text.trimStart t) else none

end EntityQuery
