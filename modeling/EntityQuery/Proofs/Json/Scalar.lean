-- SUMMARY: JSON strings, the parts of numbers and whole numbers are read back as they were written.
import EntityQuery.Json.Printer
import EntityQuery.Json.Reader
import EntityQuery.Proofs.Token.Canonical

/-!
# Scalars read back

A string is written character by character, and each character is read back
from what it is written as, whatever stands after it. A number is read back in
its parts; it ends where no character follows that could continue it.
-/

namespace EntityQuery.Json

/-! ## Strings -/

theorem hexValue?_digitChar {n : Nat} (h : n < 16) : hexValue? (Nat.digitChar n) = some n := by
  have hall : ∀ m < 16, hexValue? (Nat.digitChar m) = some m := by decide
  exact hall n h

/-- The escape of a control character by its number stands for that character. -/
theorem readEscape?_unit {c : Char} (h : c.toNat < 0x20) (rest : Text) :
    readEscape? ('u' :: '0' :: '0' :: Nat.digitChar (c.toNat / 16) ::
      Nat.digitChar (c.toNat % 16) :: rest) = some (c, rest) := by
  have hzero : hexValue? '0' = some 0 := by decide
  have hhigh : hexValue? (Nat.digitChar (c.toNat / 16)) = some (c.toNat / 16) :=
    hexValue?_digitChar (by omega)
  have hlow : hexValue? (Nat.digitChar (c.toNat % 16)) = some (c.toNat % 16) :=
    hexValue?_digitChar (by omega)
  have hunit : readUnit? ('0' :: '0' :: Nat.digitChar (c.toNat / 16) ::
      Nat.digitChar (c.toNat % 16) :: rest) = some (c.toNat, rest) := by
    have hsum : c.toNat / 16 * 16 + c.toNat % 16 = c.toNat := by omega
    simp [readUnit?, hzero, hhigh, hlow, hsum]
  have hsecond : ¬ (0xDC00 ≤ c.toNat ∧ c.toNat ≤ 0xDFFF) := by omega
  have hfirst : ¬ (0xD800 ≤ c.toNat ∧ c.toNat ≤ 0xDBFF) := by omega
  simp only [readEscape?, hunit, Option.bind_eq_bind, Option.bind_some, if_neg hsecond, if_neg hfirst,
    Char.ofNat_toNat]

/-- A character is read back from what it is written as, and the rest of the string after it. -/
theorem readStringBody?_charText (c : Char) (fuel : Nat) (rest : Text) :
    readStringBody? (fuel + 1) (charText c ++ rest) =
      (readStringBody? fuel rest).map fun (s, rest) => (c :: s, rest) := by
  have hescape : ∀ escape, readEscape? (escape ++ rest) = some (c, rest) →
      readStringBody? (fuel + 1) (('\\' :: escape) ++ rest) =
        (readStringBody? fuel rest).map fun (s, rest) => (c :: s, rest) := by
    intro escape h
    rw [List.cons_append, readStringBody?, if_neg (by decide), if_pos rfl, h,
      Option.bind_eq_bind, Option.bind_some]
    dsimp only
    cases readStringBody? fuel rest <;> rfl
  unfold charText
  split
  · next h => exact hescape ['"'] (by rw [h]; rfl)
  split
  · next h => exact hescape ['\\'] (by rw [h]; rfl)
  split
  · next h => exact hescape ['b'] (by rw [h]; rfl)
  split
  · next h => exact hescape ['t'] (by rw [h]; rfl)
  split
  · next h => exact hescape ['n'] (by rw [h]; rfl)
  split
  · next h => exact hescape ['f'] (by rw [h]; rfl)
  split
  · next h => exact hescape ['r'] (by rw [h]; rfl)
  split
  · next h =>
    exact hescape ['u', '0', '0', Nat.digitChar (c.toNat / 16), Nat.digitChar (c.toNat % 16)]
      (readEscape?_unit h rest)
  · next hquote hbackslash _ _ _ _ _ hcontrol =>
    rw [List.singleton_append, readStringBody?, if_neg hquote, if_neg hbackslash, if_neg hcontrol]
    cases readStringBody? fuel rest <;> rfl

theorem readStringBody?_flatMap (s rest : Text) {fuel : Nat} (h : s.length < fuel) :
    readStringBody? fuel (s.flatMap charText ++ '"' :: rest) = some (s, rest) := by
  obtain ⟨fuel, rfl⟩ := Nat.exists_eq_add_of_lt h
  induction s generalizing fuel with
  | nil => rfl
  | cons c s ih =>
    have hfuel : (c :: s).length + fuel + 1 = s.length + fuel + 1 + 1 := by
      simp only [List.length_cons]
      omega
    rw [hfuel, List.flatMap_cons, List.append_assoc, readStringBody?_charText,
      ih fuel (by omega), Option.map_some]

theorem length_le_flatMap_charText (s : Text) : s.length ≤ (s.flatMap charText).length := by
  induction s with
  | nil => exact Nat.le_refl _
  | cons c s ih =>
    have hc : 1 ≤ (charText c).length := by
      unfold charText
      repeat' split
      all_goals simp
    simp only [List.flatMap_cons, List.length_append, List.length_cons]
    omega

/-- A string is read back from what it is written as, whatever stands after it. -/
theorem readString?_stringText (s rest : Text) :
    readString? (stringText s ++ rest) = some (s, rest) := by
  have htext : stringText s ++ rest = '"' :: (s.flatMap charText ++ '"' :: rest) := by
    simp [stringText]
  rw [htext, readString?]
  apply readStringBody?_flatMap
  have := length_le_flatMap_charText s
  simp only [List.length_append, List.length_cons]
  omega

/-! ## Digits -/

/-- What stands after a number does not continue it. -/
def EndsNumber (rest : Text) : Prop :=
  ∀ c, rest.head? = some c → c.isDigit = false ∧ c ≠ '.' ∧ c ≠ 'e' ∧ c ≠ 'E'

theorem endsNumber_nil : EndsNumber [] := by
  intro c hc
  cases hc

theorem head?_of_append {s t : Text} {c : Char} (hs : s ≠ []) (h : (s ++ t).head? = some c) :
    s.head? = some c := by
  cases s with
  | nil => exact absurd rfl hs
  | cons d s => exact h

/-- Only zero starts with the digit zero. -/
theorem eq_zero_of_head?_ofNat {n : Nat} (h : (Text.ofNat n).head? = some '0') : n = 0 := by
  induction n using Nat.strongRecOn with
  | _ n ih =>
    by_cases hn : n < 10
    · have hall : ∀ m < 10, (Nat.toDigits 10 m).head? = some '0' → m = 0 := by decide
      exact hall n hn h
    · rw [Text.ofNat, Nat.toDigits_of_base_le (by decide) (by omega)] at h
      have := ih (n / 10) (by omega) (head?_of_append Nat.toDigits_ne_nil h)
      omega

theorem le_ofDigitChars (t : Text) (start : Nat) : start ≤ Nat.ofDigitChars 10 t start := by
  induction t generalizing start with
  | nil => exact Nat.le_refl _
  | cons d t ih =>
    rw [Nat.ofDigitChars_cons]
    have := ih (10 * start + (d.toNat - '0'.toNat))
    omega

/-- Digits of a number that fits a significand are all taken. -/
theorem takeSignificand_eq {t : Text} {start : Nat}
    (h : Nat.ofDigitChars 10 t start < UInt64.size) :
    takeSignificand start t = (Nat.ofDigitChars 10 t start, []) := by
  induction t generalizing start with
  | nil => rfl
  | cons d t ih =>
    rw [Nat.ofDigitChars_cons] at h ⊢
    have hlonger := Nat.lt_of_le_of_lt (le_ofDigitChars t _) h
    rw [takeSignificand]
    simp only [hlonger, ↓reduceIte]
    exact ih h

/-! ## The parts of a number -/

namespace NumberParts

/-- The text of a fraction, if there is one. -/
def fractionText : Option Text → Text
  | none => []
  | some digits => '.' :: digits

/-- The text of an exponent, if there is one. It shows its sign. -/
def exponentText : Option Int → Text
  | none => []
  | some n => 'e' :: (if n < 0 then '-' else '+') :: Text.ofNat n.natAbs

/-- The text of a number in its parts. -/
def text (n : NumberParts) : Text :=
  (if n.negative then ['-'] else []) ++ (n.whole ++ (fractionText n.fraction ++ exponentText n.exponent))

/-- Parts that a number can be written in. -/
structure IsWritten (n : NumberParts) : Prop where
  whole : ∀ c ∈ n.whole, c.isDigit = true
  whole_ne_nil : n.whole ≠ []
  zero : n.whole.head? = some '0' → n.whole = ['0']
  fraction : ∀ digits, n.fraction = some digits → digits ≠ [] ∧ ∀ c ∈ digits, c.isDigit = true

end NumberParts

open NumberParts

/-- The parts of a number at the start of a text, and what follows it. -/
def readParts? (t : Text) : Option (NumberParts × Text) := do
  let (negative, t) := match t with
    | '-' :: rest => (true, rest)
    | _ => (false, t)
  let (whole, t) ← readWhole? t
  let (fraction, t) ← readFraction? t
  let (exponent, t) ← readExponent? t
  some (⟨negative, whole, fraction, exponent⟩, t)

/-- A number is read in its parts, and then their value is computed. -/
theorem readNumber?_eq (t : Text) :
    readNumber? t = (readParts? t).bind fun (n, rest) => n.value?.map (·, rest) := by
  simp only [readNumber?, readParts?, Option.bind_eq_bind, Option.bind_assoc, Option.bind_some,
    Option.map_eq_bind]
  rfl

theorem readDigits?_append {digits rest : Text} (hdigits : ∀ c ∈ digits, c.isDigit = true)
    (hne : digits ≠ []) (h : ∀ c, rest.head? = some c → c.isDigit = false) :
    readDigits? (digits ++ rest) = some (digits, rest) := by
  obtain ⟨htake, hdrop⟩ := takeWhile_append_of_head? hdigits h
  simp [readDigits?, htake, hdrop, hne]

/-- The exponent ends where no digit follows, and an absent one where none begins. -/
theorem readExponent?_append (exponent : Option Int) {rest : Text} (h : EndsNumber rest) :
    readExponent? (exponentText exponent ++ rest) = some (exponent, rest) := by
  cases exponent with
  | none =>
    cases rest with
    | nil => rfl
    | cons c rest =>
      have hletter : ¬ (c = 'e' ∨ c = 'E') := not_or.2 (h c rfl).2.2
      rw [exponentText, List.nil_append, readExponent?, if_neg hletter]
  | some n =>
    have hdigits : readDigits? (Text.ofNat n.natAbs ++ rest) = some (Text.ofNat n.natAbs, rest) :=
      readDigits?_append (fun c hc => Nat.isDigit_of_mem_toDigits (by decide) (by decide) hc)
        Nat.toDigits_ne_nil fun c hc => (h c hc).1
    rw [exponentText, List.cons_append, List.cons_append, readExponent?, if_pos (.inl rfl)]
    by_cases hneg : n < 0
    · have hn : -(n.natAbs : Int) = n := by omega
      simp only [if_pos hneg, Text.splitSign, hdigits, Option.map_some, Text.digitsValue_ofNat, hn,
        if_true]
    · have hn : (n.natAbs : Int) = n := by omega
      simp only [if_neg hneg, Text.splitSign, hdigits, Option.map_some, Text.digitsValue_ofNat, hn,
        Bool.false_eq_true, if_false]

/-- What starts an exponent is no digit and no point, and what ends a number neither. -/
theorem head?_exponentText_append (exponent : Option Int) {rest : Text} (h : EndsNumber rest) (c : Char)
    (hc : (exponentText exponent ++ rest).head? = some c) : c.isDigit = false ∧ c ≠ '.' := by
  cases exponent with
  | none => exact ⟨(h c hc).1, (h c hc).2.1⟩
  | some n =>
    cases hc
    decide

theorem readFraction?_append {fraction : Option Text} {rest : Text}
    (hdigits : ∀ digits, fraction = some digits → digits ≠ [] ∧ ∀ c ∈ digits, c.isDigit = true)
    (h : ∀ c, rest.head? = some c → c.isDigit = false ∧ c ≠ '.') :
    readFraction? (fractionText fraction ++ rest) = some (fraction, rest) := by
  cases fraction with
  | none =>
    unfold readFraction?
    split
    · next heq => exact absurd rfl (h '.' (congrArg List.head? heq)).2
    · rfl
  | some digits =>
    obtain ⟨hne, hdigits⟩ := hdigits digits rfl
    rw [fractionText, List.cons_append, readFraction?,
      readDigits?_append hdigits hne fun c hc => (h c hc).1]
    rfl

theorem head?_fractionText_append (fraction : Option Text) {rest : Text}
    (h : ∀ c, rest.head? = some c → c.isDigit = false ∧ c ≠ '.') (c : Char)
    (hc : (fractionText fraction ++ rest).head? = some c) : c.isDigit = false := by
  cases fraction with
  | none => exact (h c hc).1
  | some digits =>
    cases hc
    decide

/-- A number is read back in the parts that it was written in, whatever stands after it. -/
theorem readParts?_text {n : NumberParts} (hn : n.IsWritten) {rest : Text} (h : EndsNumber rest) :
    readParts? (n.text ++ rest) = some (n, rest) := by
  obtain ⟨negative, whole, fraction, exponent⟩ := n
  have hexponent := readExponent?_append exponent h
  have hafter := head?_exponentText_append exponent h
  have hfraction := readFraction?_append hn.fraction hafter
  have hdigits := readDigits?_append hn.whole hn.whole_ne_nil (head?_fractionText_append fraction hafter)
  have hwhole : readWhole? (whole ++ (fractionText fraction ++ (exponentText exponent ++ rest))) =
      some (whole, fractionText fraction ++ (exponentText exponent ++ rest)) := by
    have hzero : ¬ (whole.head? = some '0' ∧ whole ≠ ['0']) := fun h => h.2 (hn.zero h.1)
    rw [readWhole?, hdigits, Option.bind_eq_bind, Option.bind_some]
    exact if_neg hzero
  have htext : NumberParts.text ⟨negative, whole, fraction, exponent⟩ ++ rest = (if negative then ['-'] else []) ++
      (whole ++ (fractionText fraction ++ (exponentText exponent ++ rest))) := by
    simp only [NumberParts.text, List.append_assoc]
  rw [htext]
  cases negative with
  | true => simp [readParts?, hwhole, hfraction, hexponent]
  | false =>
    have hsign : ∀ t, whole ++ (fractionText fraction ++ (exponentText exponent ++ rest)) ≠ '-' :: t := by
      intro t heq
      have hhead := head?_of_append hn.whole_ne_nil (congrArg List.head? heq)
      exact absurd (hn.whole _ (List.mem_of_head? hhead)) (by decide)
    unfold readParts?
    split
    next negative t heq =>
    split at heq
    · next t' htext => exact absurd htext (hsign t')
    · cases heq
      simp [hwhole, hfraction, hexponent]

/-- A number starts with a digit or a minus. -/
theorem NumberParts.IsWritten.exists_text_eq_cons {n : NumberParts} (hn : n.IsWritten) :
    ∃ c t, n.text = c :: t ∧ (c.isDigit = true ∨ c = '-') := by
  obtain ⟨c, t, hwhole⟩ := List.exists_cons_of_ne_nil hn.whole_ne_nil
  rw [text]
  split
  · exact ⟨_, _, rfl, .inr rfl⟩
  · rw [hwhole]
    exact ⟨_, _, rfl, .inl (hn.whole c (hwhole ▸ List.mem_cons_self))⟩

/-- The text of a number determines its parts and what follows it. -/
theorem NumberParts.text_append_inj {m n : NumberParts} (hm : m.IsWritten) (hn : n.IsWritten)
    {s t : Text} (hs : EndsNumber s) (ht : EndsNumber t) (h : m.text ++ s = n.text ++ t) :
    m = n ∧ s = t := by
  have hread := readParts?_text hm hs
  rw [h, readParts?_text hn ht] at hread
  obtain ⟨rfl, rfl⟩ := Prod.mk.inj (Option.some.inj hread)
  exact ⟨rfl, rfl⟩

/-! ## Whole numbers -/

/-- The parts of a whole number. -/
def NumberParts.ofInt (n : Int) : NumberParts :=
  ⟨decide (n < 0), Text.ofNat n.natAbs, none, none⟩

theorem NumberParts.text_ofInt (n : Int) : (ofInt n).text = Text.ofInt n := by
  by_cases hneg : n < 0 <;> simp [text, ofInt, Text.ofInt, hneg, fractionText, exponentText]

theorem NumberParts.isWritten_ofInt (n : Int) : (ofInt n).IsWritten where
  whole _ hc := Nat.isDigit_of_mem_toDigits (by decide) (by decide) hc
  whole_ne_nil := Nat.toDigits_ne_nil
  zero h := by
    rw [ofInt, eq_zero_of_head?_ofNat h]
    rfl
  fraction digits h := by cases h

/-- The value of the digits of a whole number of 64 bits, with its sign. -/
theorem value?_ofInt {n : Int} (hmin : -0x8000000000000000 ≤ n) (hmax : n < 0x10000000000000000) :
    (NumberParts.ofInt n).value? = some (int n) := by
  have hvalue : Nat.ofDigitChars 10 (Text.ofNat n.natAbs) 0 = n.natAbs :=
    Text.digitsValue_ofNat n.natAbs
  have hsize : Nat.ofDigitChars 10 (Text.ofNat n.natAbs) 0 < UInt64.size := by
    rw [hvalue, UInt64.size]
    omega
  have htake : takeSignificand 0 (Text.ofNat n.natAbs) = (n.natAbs, []) := by
    rw [takeSignificand_eq hsize, hvalue]
  simp only [NumberParts.value?, NumberParts.ofInt, htake]
  by_cases hneg : n < 0
  · have hrange : ¬ (n.natAbs = 0 ∨ 0x8000000000000000 < n.natAbs) := by omega
    have hn : -(n.natAbs : Int) = n := by omega
    simp only [hneg, decide_true, Bool.not_true, Bool.false_eq_true, if_false, if_neg hrange, hn]
  · have hn : (n.natAbs : Int) = n := by omega
    simp [hneg, hn]

/-- A whole number of 64 bits is read back from what it is written as. -/
theorem readNumber?_ofInt {n : Int} (hmin : -0x8000000000000000 ≤ n)
    (hmax : n < 0x10000000000000000) {rest : Text} (h : EndsNumber rest) :
    readNumber? (Text.ofInt n ++ rest) = some (int n, rest) := by
  rw [readNumber?_eq, ← NumberParts.text_ofInt, readParts?_text (NumberParts.isWritten_ofInt n) h,
    Option.bind_some]
  simp only [value?_ofInt hmin hmax, Option.map_some]

end EntityQuery.Json
