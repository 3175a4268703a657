-- SUMMARY: How literals are typed: the form of a literal decides which value it is, and each form is said on its own.
import EntityQuery.Proofs.Value
import EntityQuery.Proofs.Statement.Literal
import EntityQuery.Proofs.Statement.WellFormed

/-!
# Typing of literals

The forms of literals are whole numbers, decimal numerals, three words, and
texts in quotes. Here each form is described as a text of parts, without a
reader. A literal is typed by its form and by nothing else: a text in quotes
first, then a whole number of 64 bits, a numeral whose double is finite, and a
word. What has none of these forms is a string as it is written.
-/

namespace EntityQuery

/-! ## Forms of numbers -/

/-- A sign that may be absent. The flag tells whether it is a minus. -/
inductive IsSign : Bool → Text → Prop where
  | absent : IsSign false []
  | plus : IsSign false ['+']
  | minus : IsSign true ['-']

/-- Whether a text is a whole number: a sign that may be absent, and digits that denote it. -/
def Text.IsInteger (n : Int) (t : Text) : Prop :=
  ∃ negative sign digits, IsSign negative sign ∧ Text.isDigits digits = true ∧ t = sign ++ digits ∧
    n = if negative then -(Text.digitsValue digits : Int) else Text.digitsValue digits

namespace Numeral

/-- The digits after the point, with the point before them. Without digits the point may be
    absent. -/
inductive IsFraction : Text → Text → Prop where
  | absent : IsFraction [] []
  | point {digits : Text} : (∀ c ∈ digits, c.isDigit = true) → IsFraction digits ('.' :: digits)

/-- An exponent that may be absent. -/
inductive IsExponent : Int → Text → Prop where
  | absent : IsExponent 0 []
  | power {e : Char} {n : Int} {t : Text} : e = 'e' ∨ e = 'E' → t.IsInteger n →
      IsExponent n (e :: t)

/-- Whether a numeral is written as a text. There is a digit before the point or after it. -/
structure IsWritten (n : Numeral) (t : Text) : Prop where
  whole : ∀ c ∈ n.whole, c.isDigit = true
  digits : ¬ (n.whole = [] ∧ n.fraction = [])
  parts : ∃ sign fraction exponent, IsSign n.negative sign ∧ IsFraction n.fraction fraction ∧
    IsExponent n.exponent exponent ∧ t = sign ++ (n.whole ++ (fraction ++ exponent))

end Numeral

/-! ## Reading whole numbers -/

namespace Text

variable {t : Text}

theorem exists_isSign (t : Text) :
    ∃ sign, IsSign (splitSign t).1 sign ∧ t = sign ++ (splitSign t).2 := by
  unfold splitSign
  split
  · exact ⟨_, .plus, rfl⟩
  · exact ⟨_, .minus, rfl⟩
  · exact ⟨_, .absent, rfl⟩

theorem splitSign_append {negative : Bool} {sign rest : Text} (h : IsSign negative sign)
    (hrest : ∀ c ∈ rest.head?, c ≠ '+' ∧ c ≠ '-') : splitSign (sign ++ rest) = (negative, rest) := by
  cases h with
  | absent => exact Literal.splitSign_of_head? hrest
  | plus => rfl
  | minus => rfl

theorem ne_sign_of_isDigit {c : Char} (h : c.isDigit = true) : c ≠ '+' ∧ c ≠ '-' := by
  constructor <;> rintro rfl <;> cases h

theorem isDigits_iff : t.isDigits = true ↔ t ≠ [] ∧ ∀ c ∈ t, c.isDigit = true := by
  simp [isDigits]

/-- A whole number is recognised after its sign is split off. -/
theorem isInteger_iff {n : Int} : t.IsInteger n ↔ (splitSign t).2.isDigits = true ∧
    n = if (splitSign t).1 then -((splitSign t).2.digitsValue : Int)
      else (splitSign t).2.digitsValue := by
  constructor
  · rintro ⟨negative, sign, digits, hsign, hdigits, rfl, hn⟩
    have hsplit : splitSign (sign ++ digits) = (negative, digits) :=
      splitSign_append hsign fun c hc =>
        ne_sign_of_isDigit ((isDigits_iff.1 hdigits).2 c (List.mem_of_head? hc))
    rw [hsplit]
    exact ⟨hdigits, hn⟩
  · rintro ⟨hdigits, hn⟩
    obtain ⟨sign, hsign, ht⟩ := exists_isSign t
    exact ⟨_, sign, _, hsign, hdigits, ht, hn⟩

/-- The whole numbers of 64 bits are read, and no other text is. -/
theorem toInt64?_eq_some_iff {n : Int64} : t.toInt64? = some n ↔ t.IsInteger n.toInt := by
  rw [isInteger_iff]
  unfold toInt64?
  dsimp only
  generalize (splitSign t).2.isDigits = digits
  generalize (if (splitSign t).1 = true then -((splitSign t).2.digitsValue : Int)
    else (splitSign t).2.digitsValue) = value
  constructor
  · intro h
    split at h
    · next hread =>
      obtain ⟨hdigits, hmin, hmax⟩ := hread
      refine ⟨hdigits, ?_⟩
      rw [← Option.some.inj h, Int64.toInt_ofInt_of_le hmin (by
        rw [Int64.toInt_maxValue] at hmax
        omega)]
    · cases h
  · rintro ⟨hdigits, rfl⟩
    rw [if_pos ⟨hdigits, n.minValue_le_toInt, n.toInt_le⟩, Int64.ofInt_toInt]

end Text

/-! ## Reading numerals -/

namespace Numeral

variable {t : Text}

theorem readExponent?_eq_some_iff {n : Int} : readExponent? t = some n ↔ IsExponent n t := by
  constructor
  · intro h
    cases t with
    | nil =>
      cases h
      exact .absent
    | cons e t =>
      unfold readExponent? at h
      dsimp only at h
      split at h
      · next hread => exact .power hread.1 (Text.isInteger_iff.2 ⟨hread.2, (Option.some.inj h).symm⟩)
      · cases h
  · intro h
    cases h with
    | absent => rfl
    | power he ht =>
      obtain ⟨hdigits, rfl⟩ := Text.isInteger_iff.1 ht
      unfold readExponent?
      exact if_pos ⟨he, hdigits⟩

/-- An exponent starts with its letter. -/
theorem IsExponent.head?_eq {n : Int} (h : IsExponent n t) : ∀ c ∈ t.head?, c = 'e' ∨ c = 'E' := by
  cases h with
  | absent => simp
  | power he _ => simpa using he

/-- What follows the digits of the whole part is a point or the letter of an exponent. -/
theorem IsFraction.head?_eq {digits fraction : Text} (h : IsFraction digits fraction) {tail : Text}
    (htail : ∀ c ∈ tail.head?, c = 'e' ∨ c = 'E') :
    ∀ c ∈ (fraction ++ tail).head?, c = '.' ∨ c = 'e' ∨ c = 'E' := by
  cases h with
  | absent => exact fun c hc => .inr (htail c hc)
  | point _ => exact fun c hc => .inl (Option.some.inj hc).symm

/-- The parts that are read off a text are the parts that it is written of. -/
theorem isWritten_of_parts {fraction digits tail : Text} {exponent : Int}
    (hfraction : IsFraction digits fraction)
    (ht : (Text.splitSign t).2.dropWhile Char.isDigit = fraction ++ tail)
    (hne : ¬ ((((Text.splitSign t).2.takeWhile Char.isDigit).isEmpty && digits.isEmpty) = true))
    (hexponent : readExponent? tail = some exponent) :
    IsWritten ⟨(Text.splitSign t).1, (Text.splitSign t).2.takeWhile Char.isDigit, digits,
      exponent⟩ t := by
  obtain ⟨sign, hsign, hsplit⟩ := Text.exists_isSign t
  refine ⟨fun c hc => List.mem_takeWhile_imp hc, by simpa using hne, sign, fraction, tail, hsign,
    hfraction, readExponent?_eq_some_iff.1 hexponent, ?_⟩
  rw [← ht, List.takeWhile_append_dropWhile, ← hsplit]

theorem isWritten_of_ofText? {n : Numeral} (h : ofText? t = some n) : n.IsWritten t := by
  unfold ofText? at h
  dsimp only at h
  split at h
  · next rest hrest =>
    split at h
    · cases h
    · next hne =>
      obtain ⟨exponent, hexponent, h⟩ := Option.bind_eq_some_iff.1 h
      obtain rfl := Option.some.inj h
      have hfraction : IsFraction (rest.takeWhile Char.isDigit)
          ('.' :: rest.takeWhile Char.isDigit) := .point fun c hc => List.mem_takeWhile_imp hc
      refine isWritten_of_parts hfraction ?_ hne hexponent
      rw [hrest, List.cons_append, List.takeWhile_append_dropWhile]
  · split at h
    · cases h
    · next hne =>
      obtain ⟨exponent, hexponent, h⟩ := Option.bind_eq_some_iff.1 h
      obtain rfl := Option.some.inj h
      exact isWritten_of_parts .absent rfl hne hexponent

theorem ofText?_of_isWritten {n : Numeral} (h : n.IsWritten t) : ofText? t = some n := by
  obtain ⟨negative, whole, digits, power⟩ := n
  obtain ⟨hwhole, hne, sign, fraction, exponent, hsign, hfraction, hexponent, rfl⟩ := h
  dsimp only at hwhole hne hsign hfraction hexponent
  have htail := hexponent.head?_eq
  have hrest := hfraction.head?_eq htail
  have hnodigit : ∀ c, (fraction ++ exponent).head? = some c → c.isDigit = false := by
    intro c hc
    obtain rfl | rfl | rfl := hrest c hc <;> rfl
  have hunsigned : ∀ c ∈ (whole ++ (fraction ++ exponent)).head?, c ≠ '+' ∧ c ≠ '-' := by
    cases whole with
    | nil =>
      intro c hc
      obtain rfl | rfl | rfl := hrest c hc <;> decide
    | cons d whole =>
      intro c hc
      obtain rfl : d = c := Option.some.inj hc
      exact Text.ne_sign_of_isDigit (hwhole d (.head _))
  have hempty : ¬ ((whole.isEmpty && digits.isEmpty) = true) := by simpa using hne
  obtain ⟨htake, hdrop⟩ := takeWhile_append_of_head? hwhole hnodigit
  unfold ofText?
  rw [Text.splitSign_append hsign hunsigned]
  dsimp only
  rw [htake, hdrop]
  cases hfraction with
  | absent =>
    rw [List.nil_append]
    split
    · obtain h | h := htail '.' rfl <;> cases h
    · rw [if_neg hempty, readExponent?_eq_some_iff.2 hexponent]
      rfl
  | point hdigits =>
    obtain ⟨htake, hdrop⟩ := takeWhile_append_of_head? hdigits fun c hc => by
      obtain rfl | rfl := htail c hc <;> rfl
    rw [List.cons_append]
    split
    · next rest heq =>
      obtain rfl := (List.cons.inj heq).2
      rw [htake, hdrop, if_neg hempty, readExponent?_eq_some_iff.2 hexponent]
      rfl
    · next hpoint => exact absurd rfl (hpoint _)

/-- A numeral is read off exactly the texts that it is written as. -/
theorem ofText?_eq_some_iff {n : Numeral} : ofText? t = some n ↔ n.IsWritten t :=
  ⟨isWritten_of_ofText?, ofText?_of_isWritten⟩

end Numeral

/-! ## Stages of a literal -/

namespace Value

variable {t u : Text}

theorem unquote?_eq_some_iff {s : Text} : unquote? t = some s ↔ t = s.quoted := by
  constructor
  · intro h
    unfold unquote? at h
    split at h
    · next rest =>
      split at h
      · next hlast =>
        rw [← Option.some.inj h, Text.quoted, List.cons_append,
          List.dropLast_append_getLast? _ hlast]
      · cases h
    · cases h
  · rintro rfl
    simp [Text.quoted, unquote?]

/-- The doubles that a text stands for. There is one at most, and it is finite. -/
def IsDouble (x : Float) (u : Text) : Prop :=
  ∃ n : Numeral, n.IsWritten u ∧ n.nearest = x ∧ x.isFinite = true

theorem ofNumeral?_eq_some_integer {n : Int64} :
    ofNumeral? u = some (.integer n) ↔ u.IsInteger n.toInt := by
  rw [← Text.toInt64?_eq_some_iff]
  unfold ofNumeral?
  split
  · next m _ hread => simp [hread]
  · next hread _ =>
    rw [hread]
    split <;> simp
  · next hread _ => simp [hread]

theorem ofNumeral?_eq_some_float {x : Float} : ofNumeral? u = some (.float x) ↔
    (∀ n : Int64, ¬ u.IsInteger n.toInt) ∧ IsDouble x u := by
  simp only [IsDouble, ← Text.toInt64?_eq_some_iff, ← Numeral.ofText?_eq_some_iff]
  unfold ofNumeral?
  split
  · next m _ hread => simp [hread]
  · next m hread hnumeral =>
    simp only [hread, hnumeral]
    constructor
    · intro h
      split at h
      · next hfinite =>
        obtain rfl := Value.float.inj (Option.some.inj h)
        exact ⟨by simp, m, rfl, rfl, hfinite⟩
      · cases h
    · rintro ⟨-, m', heq, rfl, hfinite⟩
      obtain rfl := Option.some.inj heq
      exact if_pos hfinite
  · next hread hnumeral => simp [hread, hnumeral]

/-- A number is an integer or a double. -/
theorem ofNumeral?_cases {v : Value} (h : ofNumeral? u = some v) :
    (∃ n, v = .integer n) ∨ ∃ x, v = .float x := by
  unfold ofNumeral? at h
  split at h
  · exact .inl ⟨_, (Option.some.inj h).symm⟩
  · split at h
    · exact .inr ⟨_, (Option.some.inj h).symm⟩
    · cases h
  · cases h

theorem ofNumeral?_eq_none_iff : ofNumeral? u = none ↔
    (∀ n : Int64, ¬ u.IsInteger n.toInt) ∧ ∀ x, ¬ IsDouble x u := by
  constructor
  · intro h
    have hinteger (n : Int64) : ¬ u.IsInteger n.toInt := by
      rw [← ofNumeral?_eq_some_integer, h]
      nofun
    refine ⟨hinteger, fun x hx => ?_⟩
    have hfloat := ofNumeral?_eq_some_float.2 ⟨hinteger, hx⟩
    rw [h] at hfloat
    cases hfloat
  · rintro ⟨hinteger, hfloat⟩
    by_contra hsome
    obtain ⟨v, hv⟩ := Option.ne_none_iff_exists'.1 hsome
    obtain ⟨n, rfl⟩ | ⟨x, rfl⟩ := ofNumeral?_cases hv
    · exact hinteger n (ofNumeral?_eq_some_integer.1 hv)
    · exact hfloat x (ofNumeral?_eq_some_float.1 hv).2

/-- A word is one of three, and they are not the same. -/
theorem ofWord?_eq_some_iff {v : Value} : ofWord? u = some v ↔
    (v = .boolean true ∧ u.sameWord "true".toList = true) ∨
      (v = .boolean false ∧ u.sameWord "false".toList = true) ∨
        (v = .null ∧ u.sameWord "null".toList = true) := by
  have hother (word other : Text) (hne : word.lower ≠ other.lower)
      (h : u.sameWord word = true) : u.sameWord other = false := by
    have hlower : u.lower = word.lower := by simpa [Text.sameWord] using h
    simpa [Text.sameWord, hlower] using hne
  have htrueFalse := hother "true".toList "false".toList (by decide)
  have htrueNull := hother "true".toList "null".toList (by decide)
  have hfalseNull := hother "false".toList "null".toList (by decide)
  clear hother
  unfold ofWord?
  generalize u.sameWord "true".toList = isTrue at *
  generalize u.sameWord "false".toList = isFalse at *
  generalize u.sameWord "null".toList = isNull at *
  cases isTrue <;> cases isFalse <;> cases isNull <;> simp_all [eq_comm]

theorem ofWord?_eq_none_iff : ofWord? u = none ↔ u.sameWord "true".toList = false ∧
    u.sameWord "false".toList = false ∧ u.sameWord "null".toList = false := by
  unfold ofWord?
  generalize u.sameWord "true".toList = isTrue
  generalize u.sameWord "false".toList = isFalse
  generalize u.sameWord "null".toList = isNull
  cases isTrue <;> cases isFalse <;> cases isNull <;> simp

/-- A word starts with a letter, so it is no number. -/
theorem ofNumeral?_of_ofWord? {v : Value} (h : ofWord? u = some v) : ofNumeral? u = none := by
  have hword {word : Text} (hkeyword : Text.IsKeyword word.lower) (h : u.sameWord word = true) :
      ofNumeral? u = none := by
    have hlower : u.lower = word.lower := by simpa [Text.sameWord] using h
    obtain ⟨c, rest, rfl⟩ := List.exists_cons_of_ne_nil (Text.isPlain_of_sameWord hkeyword h).1
    have hmem : c.toLower ∈ word.lower := hlower ▸ List.mem_map_of_mem (.head _)
    exact Literal.ofNumeral?_cons (Text.isAlpha_of_isLower_toLower (hkeyword.2 _ hmem)) rest
  obtain ⟨-, h⟩ | ⟨-, h⟩ | ⟨-, h⟩ := ofWord?_eq_some_iff.1 h <;> exact hword (by decide) h

/-- A literal without quotes that is no string is a number or a word. -/
theorem ofBare_eq_iff {v : Value} (hv : ∀ s, v ≠ .string s) :
    (ofNumeral? u <|> ofWord? u).getD (.string u) = v ↔
      ofNumeral? u = some v ∨ ofWord? u = some v := by
  cases hnumber : ofNumeral? u with
  | some w =>
    have hword : ofWord? u = none := by
      by_contra hsome
      obtain ⟨w, hw⟩ := Option.ne_none_iff_exists'.1 hsome
      exact absurd (hnumber.symm.trans (ofNumeral?_of_ofWord? hw)) (by simp)
    simp [hword]
  | none =>
    cases hword : ofWord? u with
    | some w => simp
    | none => simpa using (hv u).symm

/-- A literal without quotes is a string if it is neither a number nor a word. -/
theorem ofBare_eq_string_iff {s : Text} :
    (ofNumeral? u <|> ofWord? u).getD (.string u) = .string s ↔
      s = u ∧ ofNumeral? u = none ∧ ofWord? u = none := by
  constructor
  · intro h
    have hnumber : ofNumeral? u = none := by
      by_contra hsome
      obtain ⟨v, hv⟩ := Option.ne_none_iff_exists'.1 hsome
      obtain ⟨n, rfl⟩ | ⟨x, rfl⟩ := ofNumeral?_cases hv <;> simp [hv] at h
    have hword : ofWord? u = none := by
      by_contra hsome
      obtain ⟨v, hv⟩ := Option.ne_none_iff_exists'.1 hsome
      rw [hnumber, hv] at h
      obtain ⟨rfl, -⟩ | ⟨rfl, -⟩ | ⟨rfl, -⟩ := ofWord?_eq_some_iff.1 hv <;> cases h
    rw [hnumber, hword] at h
    exact ⟨(Value.string.inj h).symm, hnumber, hword⟩
  · rintro ⟨rfl, hnumber, hword⟩
    rw [hnumber, hword]
    rfl

/-! ## Typing -/

/-- What a literal without quotes around it is typed as. -/
structure IsBare (u : Text) (v : Value) : Prop where
  integer (n : Int64) : v = .integer n ↔ u.IsInteger n.toInt
  float (x : Float) : v = .float x ↔ (∀ n : Int64, ¬ u.IsInteger n.toInt) ∧ IsDouble x u
  boolean (b : Bool) : v = .boolean b ↔
    u.sameWord (if b then "true".toList else "false".toList) = true
  null : v = .null ↔ u.sameWord "null".toList = true
  string (s : Text) : v = .string s ↔ s = u ∧
    ((∀ n : Int64, ¬ u.IsInteger n.toInt) ∧ ∀ x, ¬ IsDouble x u) ∧
      u.sameWord "true".toList = false ∧ u.sameWord "false".toList = false ∧
        u.sameWord "null".toList = false

/-- Without quotes a literal is typed as a number, as a word, or not at all. -/
theorem isBare_ofBare (u : Text) : IsBare u ((ofNumeral? u <|> ofWord? u).getD (.string u)) := by
  have hnumber {v : Value} (hv : (∀ n, v ≠ .integer n) ∧ ∀ x, v ≠ .float x) :
      ofNumeral? u ≠ some v := by
    intro h
    obtain ⟨n, rfl⟩ | ⟨x, rfl⟩ := ofNumeral?_cases h
    · exact hv.1 n rfl
    · exact hv.2 x rfl
  refine ⟨fun n => ?integer, fun x => ?float, fun b => ?boolean, ?null, fun s => ?string⟩
  case integer =>
    rw [ofBare_eq_iff (by simp), ofNumeral?_eq_some_integer, ofWord?_eq_some_iff]
    simp
  case float =>
    rw [ofBare_eq_iff (by simp), ofNumeral?_eq_some_float, ofWord?_eq_some_iff]
    simp
  case boolean =>
    rw [ofBare_eq_iff (by simp), ofWord?_eq_some_iff, or_iff_right (hnumber (by simp))]
    cases b <;> simp
  case null =>
    rw [ofBare_eq_iff (by simp), ofWord?_eq_some_iff, or_iff_right (hnumber (by simp))]
    simp
  case string =>
    rw [ofBare_eq_string_iff, ofNumeral?_eq_none_iff, ofWord?_eq_none_iff]

theorem ofLiteral_of_trim_eq {s : Text} (h : t.trim = s.quoted) : ofLiteral t = .string s := by
  simp only [ofLiteral, h, unquote?_eq_some_iff.2 rfl]

theorem isBare_ofLiteral (h : ∀ s : Text, t.trim ≠ s.quoted) : IsBare t.trim (ofLiteral t) := by
  have hunquote : unquote? t.trim = none := by
    by_contra hsome
    obtain ⟨s, hs⟩ := Option.ne_none_iff_exists'.1 hsome
    exact h s (unquote?_eq_some_iff.1 hs)
  simp only [ofLiteral, hunquote]
  exact isBare_ofBare t.trim

/-- No value but null has the JSON form of null if it comes from a literal. -/
theorem toJson_ofLiteral_eq_null_iff : (ofLiteral t).toJson = .null ↔
    t.trim.sameWord "null".toList = true := by
  have hjson : (ofLiteral t).toJson = .null ↔ ofLiteral t = .null := by
    cases h : ofLiteral t with
    | float x => simp [toJson, Statement.isFinite_of_ofLiteral h]
    | _ => simp [toJson]
  rw [hjson]
  by_cases hquoted : ∃ s : Text, t.trim = s.quoted
  · obtain ⟨s, hs⟩ := hquoted
    rw [ofLiteral_of_trim_eq hs, hs]
    have hquote : '\'' ∈ s.quoted := List.mem_cons_self
    have hword := ofWord?_eq_none_iff.1 (ofWord?_of_quote_mem hquote)
    exact iff_of_false nofun (ne_true_of_eq_false hword.2.2)
  · exact (isBare_ofLiteral (not_exists.1 hquoted)).null

/-- A literal is typed by its form. Quotes around it make it a string of all that stands between
    them. Otherwise it is a whole number of 64 bits, a finite double or one of three words exactly
    if it has that form, and in every other case a string as it is written. So only the word null
    has the JSON form of null, and numbers and texts in quotes are read back. -/
theorem ofLiteral_typing (t : Text) :
    (∀ s : Text, t.trim = s.quoted → ofLiteral t = .string s) ∧
      ((∀ s : Text, t.trim ≠ s.quoted) → IsBare t.trim (ofLiteral t)) ∧
        ((ofLiteral t).toJson = .null ↔ t.trim.sameWord "null".toList = true) ∧
          (∀ n : Int64, ofLiteral (Text.ofInt n.toInt) = .integer n) ∧
            ∀ s : Text, ofLiteral s.quoted = .string s := by
  refine ⟨fun s => ofLiteral_of_trim_eq, isBare_ofLiteral, toJson_ofLiteral_eq_null_iff,
    fun n => ?_, fun s => ofLiteral_of_trim_eq (Literal.trim_quoted s)⟩
  exact Literal.ofLiteral_of_written (l := .integer n) trivial (written_text.2 rfl)

/-- A quote between quotes, and a quote on its own. -/
theorem ofLiteral_typing_of_odd_quotes :
    (Text.trim " 'it's' ".toList = Text.quoted "it's".toList ∧
      ofLiteral " 'it's' ".toList = .string "it's".toList) ∧
    ((∀ s : Text, Text.trim ['\''] ≠ s.quoted) ∧ IsBare ['\''] (ofLiteral ['\''])) := by
  have hquoted : Text.trim " 'it's' ".toList = Text.quoted "it's".toList := by decide +kernel
  have hbare (s : Text) : Text.trim ['\''] ≠ s.quoted := by
    intro h
    have hlength : (Text.trim ['\'']).length = s.quoted.length := congrArg List.length h
    simp [Text.quoted, show Text.trim ['\''] = ['\''] from rfl] at hlength
  exact ⟨⟨hquoted, (ofLiteral_typing _).1 _ hquoted⟩, hbare, (ofLiteral_typing ['\'']).2.1 hbare⟩

end Value

end EntityQuery
