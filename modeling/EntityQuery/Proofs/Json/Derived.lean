-- SUMMARY: The reader reads no JSON text but those that the grammar derives.
import EntityQuery.Proofs.Json.Grammar

/-!
# What is read is derived

The three readers go down together, so they are handled together: with more
fuel each of them reads what the other two have read with less. In the end the
grammar and the reader accept the same texts for the same values.
-/

namespace EntityQuery.Json

variable {t r : Text} {p : Text → Json → Prop} {depth fuel : Nat}

/-! ## Blanks -/

theorem exists_eq_append_skipSpace (t : Text) : ∃ l, IsSpaces l ∧ t = l ++ skipSpace t :=
  ⟨t.takeWhile isSpace, List.all_eq_true.1 List.all_takeWhile,
    List.takeWhile_append_dropWhile.symm⟩

theorem IsSpaces.append {l u : Text} (hl : IsSpaces l) (hu : IsSpaces u) : IsSpaces (l ++ u) :=
  List.forall_mem_append.2 ⟨hl, hu⟩

theorem Padded.append_left {l u : Text} (hl : IsSpaces l) (h : Padded u t) : Padded u (l ++ t) := by
  obtain ⟨l', r, hl', hr, rfl⟩ := h
  exact ⟨l ++ l', r, hl.append hl', hr, by rw [List.append_assoc]⟩

theorem SpellsItems.append_left {l : Text} (hl : IsSpaces l) {items : List (Text × Json)}
    (h : SpellsItems p t items) : SpellsItems p (l ++ t) items := by
  cases h with
  | last ht hv => exact .last (ht.append_left hl) hv
  | more ht hv hrest =>
    rw [← List.append_assoc]
    exact .more (ht.append_left hl) hv hrest

theorem SpellsMembers.append_left {l : Text} (hl : IsSpaces l) {members : List (Text × Text × Json)}
    (h : SpellsMembers p t members) : SpellsMembers p (l ++ t) members := by
  cases h with
  | last hn hq ht hv =>
    rw [← List.append_assoc]
    exact .last (hn.append_left hl) hq ht hv
  | more hn hq ht hv hrest =>
    rw [← List.append_assoc]
    exact .more (hn.append_left hl) hq ht hv hrest

/-! ## Readers that follow the grammar -/

/-- With this fuel a value is read only from a text that starts with one, after blanks. -/
def DerivesValue (fuel : Nat) : Prop :=
  ∀ {depth : Nat} {t r : Text} {v : Json}, readValue? fuel depth t = some (v, r) →
    ∃ l u, IsSpaces l ∧ t = l ++ (u ++ r) ∧ Spells depth u v

/-- With this fuel items are read only from a text that starts with items and a bracket. -/
def DerivesItems (fuel : Nat) : Prop :=
  ∀ {depth : Nat} {t r : Text} {values : List Json}, readItems? fuel depth t = some (values, r) →
    ∃ u items, t = u ++ ']' :: r ∧ SpellsItems (Spells depth) u items ∧
      values = items.map Prod.snd

/-- With this fuel members are read only from a text that starts with members and a brace. -/
def DerivesMembers (fuel : Nat) : Prop :=
  ∀ {depth : Nat} {t r : Text} {named : List (Text × Json)},
    readMembers? fuel depth t = some (named, r) →
      ∃ u members, t = u ++ '}' :: r ∧ SpellsMembers (Spells depth) u members ∧
        named = namedValues members

/-- A value is read with the blanks around it. -/
theorem DerivesValue.exists_padded (h : DerivesValue fuel) {v : Json} {c : Char} {rest : Text}
    (hread : readValue? fuel depth t = some (v, r)) (hskip : skipSpace r = c :: rest) :
    ∃ u s, t = s ++ c :: rest ∧ Padded u s ∧ Spells depth u v := by
  obtain ⟨l, u, hl, rfl, hu⟩ := h hread
  obtain ⟨l', hl', hr⟩ := exists_eq_append_skipSpace r
  rw [hskip] at hr
  exact ⟨u, l ++ (u ++ l'), by simp [hr], ⟨l, l', hl, hl', rfl⟩, hu⟩

theorem derivesItems_succ (hvalue : DerivesValue fuel) (hitems : DerivesItems fuel) :
    DerivesItems (fuel + 1) := by
  intro depth t r values h
  rw [readItems?] at h
  obtain ⟨⟨v, rest⟩, hread, h⟩ := Option.bind_eq_some_iff.1 h
  dsimp only at h
  split at h
  · next hskip =>
    obtain ⟨⟨more, _⟩, hmore, heq⟩ := Option.map_eq_some_iff.1 h
    cases heq
    obtain ⟨u, s, rfl, hs, hu⟩ := hvalue.exists_padded hread hskip
    obtain ⟨body, items, rfl, hbody, rfl⟩ := hitems hmore
    exact ⟨s ++ ',' :: body, _, by simp, .more hs hu hbody, rfl⟩
  · next hskip =>
    cases h
    obtain ⟨u, s, rfl, hs, hu⟩ := hvalue.exists_padded hread hskip
    exact ⟨s, _, rfl, .last hs hu, rfl⟩
  · cases h

/-- The name of a member is read with the blanks around it. -/
theorem exists_padded_of_name {name rest : Text}
    (hread : readString? (skipSpace t) = some (name, r)) (hskip : skipSpace r = ':' :: rest) :
    ∃ q s, t = s ++ ':' :: rest ∧ Padded q s ∧ readString? q = some (name, []) := by
  obtain ⟨l, hl, ht⟩ := exists_eq_append_skipSpace t
  obtain ⟨q, hq, hname⟩ := exists_of_readString? hread
  obtain ⟨l', hl', hr⟩ := exists_eq_append_skipSpace r
  have hname := hname []
  rw [List.append_nil] at hname
  rw [hskip] at hr
  exact ⟨q, l ++ (q ++ l'), by rw [ht, hq, hr]; simp, ⟨l, l', hl, hl', rfl⟩, hname⟩

theorem derivesMembers_succ (hvalue : DerivesValue fuel) (hmembers : DerivesMembers fuel) :
    DerivesMembers (fuel + 1) := by
  intro depth t r named h
  rw [readMembers?] at h
  obtain ⟨⟨name, afterName⟩, hname, h⟩ := Option.bind_eq_some_iff.1 h
  dsimp only at h
  split at h
  · next hcolon =>
    obtain ⟨⟨v, afterValue⟩, hread, h⟩ := Option.bind_eq_some_iff.1 h
    obtain ⟨q, n, ht, hn, hq⟩ := exists_padded_of_name hname hcolon
    dsimp only at h
    split at h
    · next hskip =>
      obtain ⟨⟨more, _⟩, hmore, heq⟩ := Option.map_eq_some_iff.1 h
      cases heq
      obtain ⟨u, s, rfl, hs, hu⟩ := hvalue.exists_padded hread hskip
      obtain ⟨body, members, rfl, hbody, rfl⟩ := hmembers hmore
      exact ⟨n ++ ':' :: (s ++ ',' :: body), _, by simp [ht], .more hn hq hs hu hbody, rfl⟩
    · next hskip =>
      cases h
      obtain ⟨u, s, rfl, hs, hu⟩ := hvalue.exists_padded hread hskip
      exact ⟨n ++ ':' :: s, _, by simp [ht], .last hn hq hs hu, rfl⟩
    · cases h
  · cases h

theorem eq_append_of_readWord? {word : Text} {v w : Json} (h : readWord? word v t = some (w, r)) :
    t = word ++ r ∧ w = v := by
  unfold readWord? at h
  split at h
  · next hword =>
    obtain ⟨s, rfl⟩ := List.isPrefixOf_iff_prefix.1 hword
    cases h
    exact ⟨by rw [List.drop_left], rfl⟩
  · cases h

/-- An array is read from its opening bracket to its closing one. -/
theorem exists_of_readArray (hitems : DerivesItems fuel) {v : Json} {rest : Text}
    (hskip : skipSpace t = '[' :: rest) (h : readValue? (fuel + 1) depth t = some (v, r)) :
    ∃ u, skipSpace t = u ++ r ∧ Spells depth u v := by
  simp only [readValue?, hskip] at h
  obtain ⟨l, hl, hrest⟩ := exists_eq_append_skipSpace rest
  cases depth with
  | zero => cases h
  | succ depth =>
    rw [if_neg (Nat.succ_ne_zero depth)] at h
    split at h
    · next hclose =>
      cases h
      refine ⟨'[' :: l ++ [']'], ?_, .inr (.emptyArray hl)⟩
      rw [hskip, hrest, hclose]
      simp
    · obtain ⟨⟨values, _⟩, hread, heq⟩ := Option.map_eq_some_iff.1 h
      cases heq
      obtain ⟨body, items, hbody, hspells, rfl⟩ := hitems hread
      refine ⟨'[' :: (l ++ body) ++ [']'], ?_, .inr (.array (hspells.append_left hl))⟩
      rw [hskip, hrest, hbody]
      simp

/-- An object is read from its opening brace to its closing one. -/
theorem exists_of_readObject (hmembers : DerivesMembers fuel) {v : Json} {rest : Text}
    (hskip : skipSpace t = '{' :: rest) (h : readValue? (fuel + 1) depth t = some (v, r)) :
    ∃ u, skipSpace t = u ++ r ∧ Spells depth u v := by
  simp only [readValue?, hskip] at h
  obtain ⟨l, hl, hrest⟩ := exists_eq_append_skipSpace rest
  cases depth with
  | zero => cases h
  | succ depth =>
    rw [if_neg (Nat.succ_ne_zero depth)] at h
    split at h
    · next hclose =>
      cases h
      refine ⟨'{' :: l ++ ['}'], ?_, .inr (.emptyObject hl)⟩
      rw [hskip, hrest, hclose]
      simp
    · obtain ⟨⟨named, _⟩, hread, heq⟩ := Option.map_eq_some_iff.1 h
      cases heq
      obtain ⟨body, members, hbody, hspells, rfl⟩ := hmembers hread
      refine ⟨'{' :: (l ++ body) ++ ['}'], ?_, .inr (.object (hspells.append_left hl))⟩
      rw [hskip, hrest, hbody]
      simp

/-- A value is read from what stands after the blanks at the start of a text. -/
theorem exists_of_readValue?_skipSpace (hitems : DerivesItems fuel) (hmembers : DerivesMembers fuel)
    {v : Json} (h : readValue? (fuel + 1) depth t = some (v, r)) :
    ∃ u, skipSpace t = u ++ r ∧ Spells depth u v := by
  have hvalue := h
  rw [readValue?] at h
  split at h
  · next hskip =>
    obtain ⟨rfl, rfl⟩ := eq_append_of_readWord? h
    exact ⟨"null".toList, hskip, .scalar .null⟩
  · next hskip =>
    obtain ⟨rfl, rfl⟩ := eq_append_of_readWord? h
    exact ⟨"true".toList, hskip, .scalar .true⟩
  · next hskip =>
    obtain ⟨rfl, rfl⟩ := eq_append_of_readWord? h
    exact ⟨"false".toList, hskip, .scalar .false⟩
  · next hskip =>
    obtain ⟨⟨s, _⟩, hread, heq⟩ := Option.map_eq_some_iff.1 h
    cases heq
    obtain ⟨u, hu, hstring⟩ := exists_of_readString? hread
    have hstring := hstring []
    rw [List.append_nil] at hstring
    exact ⟨u, hskip.trans hu, .scalar (.string hstring)⟩
  · next hskip => exact exists_of_readArray hitems hskip hvalue
  · next hskip => exact exists_of_readObject hmembers hskip hvalue
  · obtain ⟨c, u, -, hu, hnumber⟩ := exists_of_readNumber? h
    have hnumber := hnumber [] endsNumber_nil
    rw [List.append_nil] at hnumber
    exact ⟨c :: u, hu, .scalar (.number hnumber)⟩

theorem derives (fuel : Nat) : DerivesValue fuel ∧ DerivesItems fuel ∧ DerivesMembers fuel := by
  induction fuel with
  | zero => exact ⟨nofun, nofun, nofun⟩
  | succ fuel ih =>
    obtain ⟨hvalue, hitems, hmembers⟩ := ih
    refine ⟨fun {depth t r v} h => ?_, derivesItems_succ hvalue hitems,
      derivesMembers_succ hvalue hmembers⟩
    obtain ⟨l, hl, ht⟩ := exists_eq_append_skipSpace t
    obtain ⟨u, hskip, hu⟩ := exists_of_readValue?_skipSpace hitems hmembers h
    exact ⟨l, u, hl, by rw [← hskip, ← ht], hu⟩

/-- A text is read as a value if and only if the grammar derives it for the value, with blanks
    around it. -/
theorem ofText?_eq_some_iff {v : Json} :
    ofText? t = some v ↔ ∃ u, Padded u t ∧ Spells 127 u v := by
  constructor
  · intro h
    rw [ofText?] at h
    obtain ⟨⟨w, rest⟩, hread, h⟩ := Option.bind_eq_some_iff.1 h
    dsimp only at h
    split at h
    · next hend =>
      cases h
      obtain ⟨l, u, hl, ht, hu⟩ := (derives _).1 hread
      obtain ⟨l', hl', hrest⟩ := exists_eq_append_skipSpace rest
      rw [List.isEmpty_iff.1 hend, List.append_nil] at hrest
      exact ⟨u, ⟨l, l', hl, hl', by rw [ht, hrest]⟩, hu⟩
    · cases h
  · rintro ⟨u, ht, hu⟩
    exact ofText?_of_spells hu ht

/-! ## Texts of numbers, arrays and objects -/

theorem takeSignificand_lt {start : Nat} (h : start < UInt64.size) (digits : Text) :
    (takeSignificand start digits).1 < UInt64.size := by
  induction digits generalizing start with
  | nil => exact h
  | cons d digits ih =>
    simp only [takeSignificand]
    split
    · next hlonger => exact ih hlonger
    · exact h

/-- A number is read as a double unless it is a whole one of 64 bits. -/
theorem value?_cases {n : NumberParts} (h : n.value? = some v) :
    (∃ m : Int, -0x8000000000000000 ≤ m ∧ m < 0x10000000000000000 ∧ v = int m) ∨
      ∃ x, v = float x := by
  have hdouble (h : n.double? = some v) : ∃ x, v = float x := by
    simp only [NumberParts.double?] at h
    split at h
    · obtain ⟨x, -, rfl⟩ := Option.map_eq_some_iff.1 h
      exact ⟨_, rfl⟩
    · split at h
      · cases h
        exact ⟨_, rfl⟩
      · cases h
  have hlt := takeSignificand_lt (show 0 < UInt64.size by decide) n.whole
  unfold NumberParts.value? at h
  split at h
  · next size _ _ hsize =>
    rw [hsize, UInt64.size] at hlt
    split at h
    · cases h
      exact .inl ⟨size, by omega, by omega, rfl⟩
    · split at h
      · cases h
        exact .inr ⟨_, rfl⟩
      · cases h
        exact .inl ⟨-size, by omega, by omega, rfl⟩
  · exact .inr (hdouble h)

variable {v : Json}

theorem SpellsScalar.ne_composite (h : SpellsScalar t v) :
    (∀ items, v ≠ array items) ∧ ∀ members, v ≠ object members := by
  cases h with
  | number h =>
    rw [readNumber?_eq] at h
    obtain ⟨⟨n, _⟩, -, hvalue⟩ := Option.bind_eq_some_iff.1 h
    obtain ⟨w, hw, heq⟩ := Option.map_eq_some_iff.1 hvalue
    cases heq
    obtain ⟨m, -, -, rfl⟩ | ⟨x, rfl⟩ := value?_cases hw <;> exact ⟨nofun, nofun⟩
  | _ => exact ⟨nofun, nofun⟩

/-- Only a text in brackets spells an array. -/
theorem Spells.exists_of_array {items : List Json} (h : Spells (depth + 1) t (array items)) :
    ∃ u, t = '[' :: u ++ [']'] ∧ ((IsSpaces u ∧ items = []) ∨
      ∃ spelled, SpellsItems (Spells depth) u spelled ∧ items = spelled.map Prod.snd) := by
  obtain h | h := h
  · exact absurd rfl (h.ne_composite.1 items)
  · cases h with
    | emptyArray hu => exact ⟨_, rfl, .inl ⟨hu, rfl⟩⟩
    | array hitems => exact ⟨_, rfl, .inr ⟨_, hitems, rfl⟩⟩

/-- Only a text in braces spells an object. -/
theorem Spells.exists_of_object {named : List (Text × Json)}
    (h : Spells (depth + 1) t (object named)) :
    ∃ u, t = '{' :: u ++ ['}'] ∧ (IsSpaces u ∨
      ∃ members, SpellsMembers (Spells depth) u members) := by
  obtain h | h := h
  · exact absurd rfl (h.ne_composite.2 named)
  · cases h with
    | emptyObject hu => exact ⟨_, rfl, .inl hu⟩
    | object hmembers => exact ⟨_, rfl, .inr ⟨_, hmembers⟩⟩

/-- A text that starts with a bracket spells nothing but an array. -/
theorem Spells.exists_eq_array (h : Spells depth ('[' :: t) v) : ∃ items, v = array items := by
  have hscalar : ¬ SpellsScalar ('[' :: t) v := by
    generalize hu : '[' :: t = u
    intro hscalar
    cases hscalar with
    | string hread =>
      obtain ⟨w, rfl⟩ := exists_cons_of_readString? hread
      cases hu
    | number hread =>
      obtain ⟨c, w, hc, rfl, -⟩ := exists_of_readNumber? hread
      cases hu
      exact absurd hc (by decide)
    | _ => exact absurd (List.cons.inj hu).1 (by decide)
  cases depth with
  | zero => exact absurd h hscalar
  | succ depth =>
    obtain h | h := h
    · exact absurd h hscalar
    · generalize hu : '[' :: t = u at h
      cases h with
      | emptyArray => exact ⟨_, rfl⟩
      | array => exact ⟨_, rfl⟩
      | emptyObject => cases hu
      | object => cases hu

end EntityQuery.Json
