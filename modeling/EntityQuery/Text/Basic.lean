-- SUMMARY: Text as a list of characters: size in bytes, comparison without regard to case, splitting and joining.

/-!
# Text

Every text of the library is a list of characters: statements, filters, URLs,
bodies and messages. Sizes and offsets that a service or a caller sees are
counted in bytes of UTF-8, so `Text.byteSize` stands beside `List.length`.
-/

namespace EntityQuery

/-- A text, character by character. -/
abbrev Text := List Char

/-! ## Size -/

/-- The number of bytes that a text takes in UTF-8. -/
def Text.byteSize : Text → Nat
  | [] => 0
  | c :: t => c.utf8Size + Text.byteSize t

@[simp] theorem Text.byteSize_nil : Text.byteSize [] = 0 := rfl

@[simp] theorem Text.byteSize_cons (c : Char) (t : Text) :
    Text.byteSize (c :: t) = c.utf8Size + Text.byteSize t := rfl

@[simp] theorem Text.byteSize_append (s t : Text) :
    Text.byteSize (s ++ t) = Text.byteSize s + Text.byteSize t := by
  induction s with
  | nil => simp
  | cons c s ih => simp [ih, Nat.add_assoc]

/-! ## Case -/

/-- The ASCII letters in lower case; every other character is kept. -/
def Text.lower (t : Text) : Text :=
  t.map Char.toLower

/-- Two texts that differ at most in the case of ASCII letters. -/
def Text.sameWord (s t : Text) : Bool :=
  s.lower == t.lower

theorem Text.sameWord_refl (t : Text) : Text.sameWord t t = true := by
  simp [Text.sameWord]

/-! ## Splitting and joining -/

/-- The pieces between the occurrences of a separator; there is always one. -/
def Text.pieces (separator : Char) (t : Text) : List Text :=
  t.splitOn separator

/-- Texts one after the other, with a separator between them. -/
def Text.join (separator : Text) (ts : List Text) : Text :=
  separator.intercalate ts

/-- A text between single quotes. -/
def Text.quoted (t : Text) : Text :=
  '\'' :: t ++ ['\'']

/-- The texts before and after the first occurrence of a character. -/
def Text.splitFirst (mark : Char) : Text → Option (Text × Text)
  | [] => none
  | c :: t =>
    if c = mark then some ([], t)
    else (Text.splitFirst mark t).map fun (before, after) => (c :: before, after)

/-- The texts before and after the first occurrence of a text. -/
def Text.splitFirstText (mark : Text) : Text → Option (Text × Text)
  | [] => if mark.isEmpty then some ([], []) else none
  | c :: t =>
    if mark.isPrefixOf (c :: t) then some ([], (c :: t).drop mark.length)
    else (Text.splitFirstText mark t).map fun (before, after) => (c :: before, after)

/-- The text after the last occurrence of a character. -/
def Text.afterLast (mark : Char) (t : Text) : Option Text :=
  if mark ∈ t then some (t.reverse.takeWhile (· ≠ mark)).reverse else none

theorem Text.splitFirst_eq_some {mark : Char} {t before after : Text}
    (h : Text.splitFirst mark t = some (before, after)) :
    t = before ++ mark :: after ∧ mark ∉ before := by
  induction t generalizing before after with
  | nil => simp [Text.splitFirst] at h
  | cons c t ih =>
    by_cases hc : c = mark
    · simp [Text.splitFirst, hc] at h
      obtain ⟨rfl, rfl⟩ := h
      simp [hc]
    · simp only [Text.splitFirst, hc, if_false, Option.map_eq_some_iff] at h
      obtain ⟨⟨b, a⟩, hb, he⟩ := h
      simp only [Prod.mk.injEq] at he
      obtain ⟨rfl, rfl⟩ := he
      obtain ⟨rfl, hm⟩ := ih hb
      exact ⟨rfl, by simpa using ⟨fun h => hc h.symm, hm⟩⟩

theorem Text.splitFirst_eq_none {mark : Char} {t : Text} :
    Text.splitFirst mark t = none ↔ mark ∉ t := by
  induction t with
  | nil => simp [Text.splitFirst]
  | cons c t ih =>
    by_cases hc : c = mark
    · simp [Text.splitFirst, hc]
    · have hm : mark ≠ c := fun h => hc h.symm
      simp [Text.splitFirst, hc, hm, ← ih]

theorem Text.afterLast_append_cons {mark : Char} {after : Text} (h : mark ∉ after)
    (before : Text) : Text.afterLast mark (before ++ mark :: after) = some after := by
  have hlast : ∀ c ∈ after.reverse, decide (c ≠ mark) = true := by
    intro c hc
    have hc : c ∈ after := List.mem_reverse.1 hc
    exact decide_eq_true fun heq => h (heq ▸ hc)
  rw [Text.afterLast, if_pos (by simp), List.reverse_append, List.reverse_cons, List.append_assoc,
    List.takeWhile_append_of_pos hlast]
  simp

/-- After the last occurrence of a character there are no more of them. -/
theorem Text.afterLast_eq_some {mark : Char} {t after : Text} :
    Text.afterLast mark t = some after ↔
      ∃ before : Text, t = before ++ mark :: after ∧ mark ∉ after := by
  constructor
  · intro h
    by_cases hmem : mark ∈ t
    · obtain ⟨last, before, ht, hlast⟩ := List.eq_append_cons_of_mem (List.mem_reverse.2 hmem)
      obtain rfl : t = before.reverse ++ mark :: last.reverse := by
        rw [← List.reverse_reverse t, ht]
        simp
      have hlast : mark ∉ last.reverse := by simpa using hlast
      rw [afterLast_append_cons hlast, Option.some_inj] at h
      subst h
      exact ⟨_, rfl, hlast⟩
    · rw [Text.afterLast, if_neg hmem] at h
      cases h
  · rintro ⟨before, rfl, h⟩
    exact afterLast_append_cons h before

end EntityQuery
