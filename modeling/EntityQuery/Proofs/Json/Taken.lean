-- SUMMARY: How much of a text the readers of strings and numbers take.
import EntityQuery.Proofs.Json.Scalar

/-!
# What the readers of strings and numbers take

A reader takes a prefix of its text, and it takes the same prefix again from any
other text that starts with it. Strings end at their last quotation mark,
whatever follows. Numbers end where nothing continues them, so here the text
that follows has to be one that ends a number.
-/

namespace EntityQuery.Json

variable {t r : Text}

/-! ## Strings -/

theorem exists_of_readUnit? {n : Nat} (h : readUnit? t = some (n, r)) :
    ∃ u, t = u ++ r ∧ ∀ rest, readUnit? (u ++ rest) = some (n, rest) := by
  unfold readUnit? at h
  split at h
  · next a b c d _ =>
    simp only [Option.bind_eq_bind, Option.bind_eq_some_iff] at h
    obtain ⟨w, ha, x, hb, y, hc, z, hd, h⟩ := h
    cases h
    exact ⟨[a, b, c, d], rfl, fun rest => by simp [readUnit?, ha, hb, hc, hd]⟩
  · cases h

theorem exists_of_readEscape? {c : Char} (h : readEscape? t = some (c, r)) :
    ∃ u, t = u ++ r ∧ ∀ rest, readEscape? (u ++ rest) = some (c, rest) := by
  unfold readEscape? at h
  split at h
  case h_9 t =>
    obtain ⟨⟨first, v⟩, hfirst, h⟩ := Option.bind_eq_some_iff.1 h
    obtain ⟨u, ht, hu⟩ := exists_of_readUnit? hfirst
    dsimp only at h
    split at h
    · cases h
    · next hlow =>
      split at h
      · next hhigh =>
        split at h
        · next w =>
          obtain ⟨⟨second, x⟩, hsecond, h⟩ := Option.bind_eq_some_iff.1 h
          obtain ⟨u', hw, hu'⟩ := exists_of_readUnit? hsecond
          dsimp only at h
          split at h
          · next hpair =>
            obtain ⟨rfl, rfl⟩ := Prod.mk.inj (Option.some.inj h)
            refine ⟨'u' :: (u ++ '\\' :: 'u' :: u'), by simp [ht, hw], fun rest => ?_⟩
            rw [List.cons_append, List.append_assoc, List.cons_append, List.cons_append]
            simp only [readEscape?, hu, hu', Option.bind_eq_bind, Option.bind_some, if_neg hlow,
              if_pos hhigh, if_pos hpair]
          · cases h
        · cases h
      · next hhigh =>
        cases h
        refine ⟨'u' :: u, by rw [ht, List.cons_append], fun rest => ?_⟩
        rw [List.cons_append]
        simp only [readEscape?, hu, Option.bind_eq_bind, Option.bind_some, if_neg hlow,
          if_neg hhigh]
  all_goals cases h
  all_goals exact ⟨[_], rfl, fun _ => rfl⟩

/-- A text that is not empty leaves fuel for its first character. -/
theorem readStringBody?_of_succ {c : Char} {u s : Text}
    (hread : ∀ more rest, u.length ≤ more →
      readStringBody? (more + 1) (c :: u ++ rest) = some (s, rest)) (more : Nat) (rest : Text)
    (hmore : (c :: u).length ≤ more) : readStringBody? more (c :: u ++ rest) = some (s, rest) := by
  obtain ⟨more, rfl⟩ := Nat.exists_eq_succ_of_ne_zero (Nat.ne_zero_of_lt hmore)
  exact hread more rest (Nat.le_of_succ_le_succ hmore)

theorem exists_of_readStringBody? {s : Text} {fuel : Nat}
    (h : readStringBody? fuel t = some (s, r)) :
    ∃ u, t = u ++ r ∧ ∀ more rest, u.length ≤ more →
      readStringBody? more (u ++ rest) = some (s, rest) := by
  induction fuel generalizing t s with
  | zero => cases h
  | succ fuel ih =>
    cases t with
    | nil => cases h
    | cons c t =>
      rw [readStringBody?] at h
      split at h
      · next hc =>
        cases h
        refine ⟨[c], rfl, readStringBody?_of_succ fun more rest _ => ?_⟩
        rw [List.cons_append, readStringBody?, if_pos hc, List.nil_append]
      · next hquote =>
        split at h
        · next hbackslash =>
          obtain ⟨⟨d, v⟩, hescape, h⟩ := Option.bind_eq_some_iff.1 h
          obtain ⟨⟨s, w⟩, hbody, h⟩ := Option.bind_eq_some_iff.1 h
          cases h
          obtain ⟨e, rfl, he⟩ := exists_of_readEscape? hescape
          obtain ⟨u, rfl, hu⟩ := ih hbody
          refine ⟨c :: (e ++ u), by simp, readStringBody?_of_succ fun more rest hmore => ?_⟩
          rw [List.length_append] at hmore
          rw [List.cons_append, List.append_assoc, readStringBody?, if_neg hquote,
            if_pos hbackslash, he, Option.bind_eq_bind, Option.bind_some]
          simp only [hu more rest (by omega)]
          rfl
        · next hbackslash =>
          split at h
          · cases h
          · next hcontrol =>
            obtain ⟨⟨s, w⟩, hbody, h⟩ := Option.bind_eq_some_iff.1 h
            cases h
            obtain ⟨u, rfl, hu⟩ := ih hbody
            refine ⟨c :: u, rfl, readStringBody?_of_succ fun more rest hmore => ?_⟩
            rw [List.cons_append, readStringBody?, if_neg hquote, if_neg hbackslash,
              if_neg hcontrol, hu more rest hmore]
            rfl

/-- A string is taken with its quotation marks, whatever follows it. -/
theorem exists_of_readString? {s : Text} (h : readString? t = some (s, r)) :
    ∃ u, t = u ++ r ∧ ∀ rest, readString? (u ++ rest) = some (s, rest) := by
  unfold readString? at h
  split at h
  · obtain ⟨u, rfl, hu⟩ := exists_of_readStringBody? h
    exact ⟨'"' :: u, rfl, fun rest => hu _ rest (by simp)⟩
  · cases h

theorem readString?_append {s : Text} (h : readString? t = some (s, [])) (rest : Text) :
    readString? (t ++ rest) = some (s, rest) := by
  obtain ⟨u, rfl, hu⟩ := exists_of_readString? h
  rw [List.append_nil, hu]

theorem exists_cons_of_readString? {s : Text} (h : readString? t = some (s, r)) :
    ∃ u, t = '"' :: u := by
  unfold readString? at h
  split at h
  · exact ⟨_, rfl⟩
  · cases h

/-! ## Numbers -/

theorem eq_append_of_readDigits? {digits : Text} (h : readDigits? t = some (digits, r)) :
    t = digits ++ r ∧ digits ≠ [] ∧ ∀ c ∈ digits, c.isDigit = true := by
  simp only [readDigits?] at h
  split at h
  · cases h
  · next hne =>
    cases h
    exact ⟨List.takeWhile_append_dropWhile.symm, by simpa using hne,
      List.all_eq_true.1 List.all_takeWhile⟩

theorem eq_append_of_readWhole? {digits : Text} (h : readWhole? t = some (digits, r)) :
    t = digits ++ r ∧ ∃ c u, c.isDigit = true ∧ digits = c :: u ∧
      ∀ rest, (∀ c, rest.head? = some c → c.isDigit = false) →
        readWhole? (digits ++ rest) = some (digits, rest) := by
  obtain ⟨⟨whole, u⟩, hdigits, h⟩ := Option.bind_eq_some_iff.1 h
  obtain ⟨ht, hne, hall⟩ := eq_append_of_readDigits? hdigits
  dsimp only at h
  split at h
  · cases h
  · next hzero =>
    cases h
    obtain ⟨c, u, rfl⟩ := List.exists_cons_of_ne_nil hne
    refine ⟨ht, c, u, hall c (.head _), rfl, fun rest hrest => ?_⟩
    rw [readWhole?, readDigits?_append hall hne hrest, Option.bind_eq_bind, Option.bind_some]
    exact if_neg hzero

/-- A fraction is written in one way only. -/
theorem eq_append_of_readFraction? {fraction : Option Text}
    (h : readFraction? t = some (fraction, r)) :
    t = NumberParts.fractionText fraction ++ r ∧
      ∀ digits, fraction = some digits → digits ≠ [] ∧ ∀ c ∈ digits, c.isDigit = true := by
  unfold readFraction? at h
  split at h
  · obtain ⟨⟨digits, u⟩, hdigits, heq⟩ := Option.map_eq_some_iff.1 h
    cases heq
    obtain ⟨rfl, hne, hall⟩ := eq_append_of_readDigits? hdigits
    refine ⟨rfl, ?_⟩
    rintro _ ⟨⟩
    exact ⟨hne, hall⟩
  · cases h
    exact ⟨rfl, nofun⟩

/-- A sign is split off alike if the same text follows it first. -/
theorem exists_of_splitSign {negative : Bool} {u : Text}
    (h : Text.splitSign t = (negative, u ++ r)) (hne : u ≠ []) :
    ∃ v, t = v ++ r ∧ ∀ rest, Text.splitSign (v ++ rest) = (negative, u ++ rest) := by
  unfold Text.splitSign at h
  split at h
  · cases h
    exact ⟨'+' :: u, rfl, fun _ => rfl⟩
  · cases h
    exact ⟨'-' :: u, rfl, fun _ => rfl⟩
  · next hplus hminus =>
    cases h
    obtain ⟨c, u, rfl⟩ := List.exists_cons_of_ne_nil hne
    have hsign : c ≠ '+' ∧ c ≠ '-' :=
      ⟨fun hc => hplus _ (by rw [hc]; rfl), fun hc => hminus _ (by rw [hc]; rfl)⟩
    exact ⟨c :: u, rfl, fun rest => by simp [Text.splitSign, hsign]⟩

/-- An exponent is taken up to its last digit, and it starts with no digit and no point. -/
theorem exists_of_readExponent? {exponent : Option Int}
    (h : readExponent? t = some (exponent, r)) :
    ∃ u, t = u ++ r ∧ ∀ rest, EndsNumber rest →
      readExponent? (u ++ rest) = some (exponent, rest) ∧
        ∀ c, (u ++ rest).head? = some c → c.isDigit = false ∧ c ≠ '.' := by
  have hnone (rest : Text) (hrest : EndsNumber rest) :
      readExponent? ([] ++ rest) = some (none, rest) ∧
        ∀ c, ([] ++ rest).head? = some c → c.isDigit = false ∧ c ≠ '.' :=
    ⟨readExponent?_append none hrest, head?_exponentText_append none hrest⟩
  cases t with
  | nil =>
    cases h
    exact ⟨[], rfl, hnone⟩
  | cons e t =>
    rw [readExponent?] at h
    split at h
    · next he =>
      cases hsplit : Text.splitSign t with | mk negative v =>
      rw [hsplit] at h
      obtain ⟨⟨digits, w⟩, hdigits, heq⟩ := Option.map_eq_some_iff.1 h
      cases heq
      obtain ⟨rfl, hne, hall⟩ := eq_append_of_readDigits? hdigits
      obtain ⟨u, ht, hu⟩ := exists_of_splitSign hsplit hne
      refine ⟨e :: u, by rw [ht, List.cons_append], fun rest hends => ⟨?_, ?_⟩⟩
      · rw [List.cons_append, readExponent?, if_pos he, hu]
        simp only [readDigits?_append hall hne fun c hc => (hends c hc).1, Option.map_some]
      · rintro c ⟨⟩
        obtain rfl | rfl := he <;> decide
    · cases h
      exact ⟨[], rfl, hnone⟩

/-- The parts of a number after its sign. -/
def readUnsigned? (negative : Bool) (t : Text) : Option (NumberParts × Text) := do
  let (whole, t) ← readWhole? t
  let (fraction, t) ← readFraction? t
  let (exponent, t) ← readExponent? t
  some (⟨negative, whole, fraction, exponent⟩, t)

theorem readParts?_of_ne (h : ∀ u, t ≠ '-' :: u) : readParts? t = readUnsigned? false t := by
  unfold readParts?
  split
  next negative u heq =>
  split at heq
  · next v => exact absurd rfl (h v)
  · cases heq
    rfl

/-- The parts of a number after its sign start with a digit. -/
theorem exists_of_readUnsigned? {negative : Bool} {n : NumberParts}
    (h : readUnsigned? negative t = some (n, r)) :
    ∃ c u, c.isDigit = true ∧ t = c :: u ++ r ∧
      ∀ rest, EndsNumber rest → readUnsigned? negative (c :: u ++ rest) = some (n, rest) := by
  obtain ⟨⟨whole, u⟩, hwhole, h⟩ := Option.bind_eq_some_iff.1 h
  obtain ⟨⟨fraction, v⟩, hfraction, h⟩ := Option.bind_eq_some_iff.1 h
  obtain ⟨⟨exponent, w⟩, hexponent, h⟩ := Option.bind_eq_some_iff.1 h
  cases h
  obtain ⟨ht, c, digits, hc, rfl, hreadWhole⟩ := eq_append_of_readWhole? hwhole
  obtain ⟨hu, hproper⟩ := eq_append_of_readFraction? hfraction
  obtain ⟨e, hv, hreadExponent⟩ := exists_of_readExponent? hexponent
  refine ⟨c, digits ++ (NumberParts.fractionText fraction ++ e), hc, ?_, fun rest hrest => ?_⟩
  · rw [ht, hu, hv]
    simp only [List.cons_append, List.append_assoc]
  obtain ⟨hread, hends⟩ := hreadExponent rest hrest
  rw [← List.cons_append, List.append_assoc, List.append_assoc, readUnsigned?,
    hreadWhole _ (head?_fractionText_append fraction hends), Option.bind_eq_bind, Option.bind_some]
  simp only [readFraction?_append hproper hends, hread, Option.bind_eq_bind, Option.bind_some]

/-- The parts of a number are taken up to where nothing continues it. A number starts with a digit
    or a minus. -/
theorem exists_of_readParts? {n : NumberParts} (h : readParts? t = some (n, r)) :
    ∃ c u, (c.isDigit = true ∨ c = '-') ∧ t = c :: u ++ r ∧
      ∀ rest, EndsNumber rest → readParts? (c :: u ++ rest) = some (n, rest) := by
  by_cases hminus : ∃ v, t = '-' :: v
  · obtain ⟨v, rfl⟩ := hminus
    have h : readUnsigned? true v = some (n, r) := h
    obtain ⟨c, u, -, rfl, hu⟩ := exists_of_readUnsigned? h
    exact ⟨'-', c :: u, .inr rfl, rfl, hu⟩
  · rw [readParts?_of_ne (not_exists.1 hminus)] at h
    obtain ⟨c, u, hc, rfl, hu⟩ := exists_of_readUnsigned? h
    refine ⟨c, u, .inl hc, rfl, fun rest hrest => ?_⟩
    rw [readParts?_of_ne (by rintro _ ⟨⟩; cases hc), hu rest hrest]

/-- A number is taken up to where nothing continues it, and starts with a digit or a minus. -/
theorem exists_of_readNumber? {v : Json} (h : readNumber? t = some (v, r)) :
    ∃ c u, (c.isDigit = true ∨ c = '-') ∧ t = c :: u ++ r ∧
      ∀ rest, EndsNumber rest → readNumber? (c :: u ++ rest) = some (v, rest) := by
  rw [readNumber?_eq] at h
  obtain ⟨⟨n, _⟩, hparts, h⟩ := Option.bind_eq_some_iff.1 h
  obtain ⟨w, hvalue, heq⟩ := Option.map_eq_some_iff.1 h
  cases heq
  obtain ⟨c, u, hc, rfl, hu⟩ := exists_of_readParts? hparts
  refine ⟨c, u, hc, rfl, fun rest hrest => ?_⟩
  rw [readNumber?_eq, hu rest hrest, Option.bind_some]
  simp only [hvalue, Option.map_some]

end EntityQuery.Json
