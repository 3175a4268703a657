-- SUMMARY: Literals with a quote in them are strings.
import EntityQuery.Value

/-!
# Literals with quotes

No number has a quote in it, and none of the words that stand for a boolean or
null. So a literal with a quote, wherever in it, is a string.
-/

namespace EntityQuery

namespace Text

/-! ## Trimming -/

theorem mem_trimStart {c : Char} (hc : EntityQuery.isBlank c = false) {t : Text} :
    c ∈ t.trimStart ↔ c ∈ t := by
  constructor
  · intro h
    exact (List.dropWhile_suffix _).subset h
  · intro h
    rw [← List.takeWhile_append_dropWhile (p := EntityQuery.isBlank) (l := t)] at h
    obtain h | h := List.mem_append.1 h
    · have hblank := List.all_eq_true.1 List.all_takeWhile c h
      rw [hc] at hblank
      cases hblank
    · exact h

/-- Trimming takes nothing but blanks. -/
theorem mem_trim {c : Char} (hc : EntityQuery.isBlank c = false) {t : Text} :
    c ∈ t.trim ↔ c ∈ t := by
  have hend : c ∈ t.trimStart.trimEnd ↔ c ∈ t.trimStart := by
    unfold trimEnd
    rw [List.mem_reverse, ← trimStart, mem_trimStart hc, List.mem_reverse]
  exact hend.trans (mem_trimStart hc)

/-! ## Numbers -/

/-- A number is read from its decimal numeral. -/
theorem toUInt64?_ofNat (n : UInt64) : (ofNat n.toNat).toUInt64? = some n := by
  have hdigits := isDigits_ofNat n.toNat
  have hsize : n.toNat < UInt64.size := n.toNat_lt_size
  have hplus (rest : Text) : ofNat n.toNat ≠ '+' :: rest := by
    intro h
    rw [h] at hdigits
    cases hdigits
  rw [toUInt64?, if_pos ⟨hdigits, by simpa using hsize⟩]
  · simp
  · exact hplus

theorem quote_notMem_of_isDigits {t : Text} (h : t.isDigits = true) : '\'' ∉ t := by
  intro hmem
  have hdigits := (Bool.and_eq_true_iff.1 h).2
  have hquote := List.all_eq_true.1 hdigits '\'' hmem
  cases hquote

theorem mem_splitSign {t : Text} (h : '\'' ∈ t) : '\'' ∈ (splitSign t).2 := by
  unfold splitSign
  split
  · simpa using h
  · simpa using h
  · exact h

theorem toInt64?_of_quote_mem {t : Text} (h : '\'' ∈ t) : t.toInt64? = none := by
  have hdigits : ¬ (splitSign t).2.isDigits = true := by
    intro hd
    exact quote_notMem_of_isDigits hd (mem_splitSign h)
  unfold toInt64?
  exact if_neg fun hd => hdigits hd.1

end Text

theorem Numeral.readExponent?_of_quote_mem {t : Text} (h : '\'' ∈ t) :
    Numeral.readExponent? t = none := by
  cases t with
  | nil => cases h
  | cons e t =>
    unfold Numeral.readExponent?
    refine if_neg fun ⟨he, hdigits⟩ => ?_
    obtain h | h := List.mem_cons.1 h
    · subst h
      revert he
      decide
    · exact Text.quote_notMem_of_isDigits hdigits (Text.mem_splitSign h)

theorem mem_dropWhile_isDigit {t : Text} (h : '\'' ∈ t) : '\'' ∈ t.dropWhile Char.isDigit := by
  rw [← List.takeWhile_append_dropWhile (p := Char.isDigit) (l := t)] at h
  obtain h | h := List.mem_append.1 h
  · have hdigit := List.all_eq_true.1 List.all_takeWhile _ h
    cases hdigit
  · exact h

theorem Numeral.ofText?_of_quote_mem {t : Text} (h : '\'' ∈ t) : Numeral.ofText? t = none := by
  have hrest := mem_dropWhile_isDigit (Text.mem_splitSign h)
  unfold Numeral.ofText?
  dsimp only
  -- The quote is in what the digits leave over, and no exponent has one.
  split
  · next rest hd =>
    rw [hd] at hrest
    have htail := mem_dropWhile_isDigit (List.mem_of_ne_of_mem (by decide) hrest)
    simp [Numeral.readExponent?_of_quote_mem htail]
  · simp [Numeral.readExponent?_of_quote_mem hrest]

namespace Value

theorem ofNumeral?_of_quote_mem {t : Text} (h : '\'' ∈ t) : ofNumeral? t = none := by
  unfold ofNumeral?
  rw [Text.toInt64?_of_quote_mem h, Numeral.ofText?_of_quote_mem h]

theorem ofWord?_of_quote_mem {t : Text} (h : '\'' ∈ t) : ofWord? t = none := by
  have hlower : '\'' ∈ t.lower := List.mem_map.2 ⟨'\'', h, rfl⟩
  have hword : ∀ word : Text, '\'' ∉ word.lower → t.sameWord word = false := by
    intro word hnot
    refine beq_eq_false_iff_ne.2 fun he => hnot ?_
    rwa [← he]
  unfold ofWord?
  rw [hword _ (by decide), hword _ (by decide), hword _ (by decide)]
  rfl

/-- A literal with a quote in it is a string. -/
theorem ofLiteral_of_quote_mem {t : Text} (h : '\'' ∈ t) : ∃ s, ofLiteral t = string s := by
  have htrim := (Text.mem_trim (by decide)).2 h
  unfold ofLiteral
  dsimp only
  split
  · exact ⟨_, rfl⟩
  · rw [ofNumeral?_of_quote_mem htrim, ofWord?_of_quote_mem htrim]
    exact ⟨_, rfl⟩

end Value

end EntityQuery
