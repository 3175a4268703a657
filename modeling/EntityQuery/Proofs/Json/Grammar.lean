-- SUMMARY: The grammar of JSON texts, and that the reader reads whatever it derives.
import EntityQuery.Proofs.Json.Taken
import EntityQuery.Proofs.Keyed

/-!
# JSON texts

The grammar says which texts spell a value: words, strings and numbers, and
arrays and objects with blanks between their parts. It keeps the text of every
item and of every member beside its value. Strings and numbers are whatever
their readers take all of, so what is left to the grammar is where one part ends
and the next one begins.
-/

namespace EntityQuery.Json

variable {t : Text}

/-! ## Blanks -/

/-- A text of blanks of JSON. -/
def IsSpaces (t : Text) : Prop :=
  ∀ c ∈ t, isSpace c = true

/-- A text with blanks around it. -/
def Padded (u t : Text) : Prop :=
  ∃ l r, IsSpaces l ∧ IsSpaces r ∧ t = l ++ (u ++ r)

theorem Padded.refl (t : Text) : Padded t t :=
  ⟨[], [], nofun, nofun, by simp⟩

theorem skipSpace_cons {c : Char} (h : isSpace c = false) (rest : Text) :
    skipSpace (c :: rest) = c :: rest := by
  simp [skipSpace, h]

theorem IsSpaces.skipSpace_append {l : Text} (h : IsSpaces l) (t : Text) :
    skipSpace (l ++ t) = skipSpace t :=
  List.dropWhile_append_of_pos h

theorem endsNumber_cons {c : Char} (h : isSpace c = true ∨ c ∈ [',', ']', '}']) (rest : Text) :
    EndsNumber (c :: rest) := by
  have hall : ∀ c ∈ [' ', '\t', '\n', '\r', ',', ']', '}'],
      c.isDigit = false ∧ c ≠ '.' ∧ c ≠ 'e' ∧ c ≠ 'E' := by
    decide
  rintro d ⟨⟩
  refine hall c ?_
  simp only [isSpace, Bool.or_eq_true, beq_iff_eq, List.mem_cons, List.not_mem_nil, or_false] at h ⊢
  tauto

theorem IsSpaces.endsNumber {l : Text} (hl : IsSpaces l) {c : Char} (h : c ∈ [',', ']', '}'])
    (rest : Text) : EndsNumber (l ++ c :: rest) := by
  cases l with
  | nil => exact endsNumber_cons (.inr h) rest
  | cons d l => exact endsNumber_cons (.inl (hl d (.head _))) _

theorem IsSpaces.readValue?_append {l : Text} (h : IsSpaces l) (fuel depth : Nat) (t : Text) :
    readValue? fuel depth (l ++ t) = readValue? fuel depth t := by
  cases fuel with
  | zero => rfl
  | succ fuel => rw [readValue?, readValue?, h.skipSpace_append]

theorem IsSpaces.readItems?_append {l : Text} (h : IsSpaces l) (fuel depth : Nat) (t : Text) :
    readItems? fuel depth (l ++ t) = readItems? fuel depth t := by
  cases fuel with
  | zero => rfl
  | succ fuel => rw [readItems?, readItems?, h.readValue?_append]

theorem IsSpaces.readMembers?_append {l : Text} (h : IsSpaces l) (fuel depth : Nat) (t : Text) :
    readMembers? fuel depth (l ++ t) = readMembers? fuel depth t := by
  cases fuel with
  | zero => rfl
  | succ fuel => rw [readMembers?, readMembers?, h.skipSpace_append]

/-! ## The grammar -/

/-- The texts of values that nest nothing. -/
inductive SpellsScalar : Text → Json → Prop
  | null : SpellsScalar "null".toList null
  | true : SpellsScalar "true".toList (bool true)
  | false : SpellsScalar "false".toList (bool false)
  | string {t s : Text} : readString? t = some (s, []) → SpellsScalar t (string s)
  | number {t : Text} {v : Json} : readNumber? t = some (v, []) → SpellsScalar t v

section

variable (p : Text → Json → Prop)

/-- The items between the brackets of an array, each a text for a value. -/
inductive SpellsItems : Text → List (Text × Json) → Prop
  | last {t u : Text} {v : Json} : Padded u t → p u v → SpellsItems t [(u, v)]
  | more {t u rest : Text} {v : Json} {items : List (Text × Json)} : Padded u t → p u v →
      SpellsItems rest items → SpellsItems (t ++ ',' :: rest) ((u, v) :: items)

/-- The members between the braces of an object, each a name and a text for a value. -/
inductive SpellsMembers : Text → List (Text × Text × Json) → Prop
  | last {n q name t u : Text} {v : Json} : Padded q n → readString? q = some (name, []) →
      Padded u t → p u v → SpellsMembers (n ++ ':' :: t) [(name, u, v)]
  | more {n q name t u rest : Text} {v : Json} {members : List (Text × Text × Json)} :
      Padded q n → readString? q = some (name, []) → Padded u t → p u v →
      SpellsMembers rest members →
      SpellsMembers (n ++ ':' :: (t ++ ',' :: rest)) ((name, u, v) :: members)

/-- The names and the values of members, without their texts. -/
def namedValues (members : List (Text × Text × Json)) : List (Text × Json) :=
  members.map fun m => (m.1, m.2.2)

/-- The texts of arrays and objects. -/
inductive SpellsComposite : Text → Json → Prop
  | emptyArray {t : Text} : IsSpaces t → SpellsComposite ('[' :: t ++ [']']) (array [])
  | array {t : Text} {items : List (Text × Json)} : SpellsItems p t items →
      SpellsComposite ('[' :: t ++ [']']) (array (items.map Prod.snd))
  | emptyObject {t : Text} : IsSpaces t → SpellsComposite ('{' :: t ++ ['}']) (object [])
  | object {t : Text} {members : List (Text × Text × Json)} : SpellsMembers p t members →
      SpellsComposite ('{' :: t ++ ['}'])
        (object (Keyed.ofList (namedValues members)))

end

/-- Whether a text spells a value, without blanks around it. Values nest at most as deep as the
    depth says. -/
def Spells : Nat → Text → Json → Prop
  | 0 => SpellsScalar
  | depth + 1 => fun t v => SpellsScalar t v ∨ SpellsComposite (Spells depth) t v

theorem Spells.scalar {depth : Nat} {v : Json} (h : SpellsScalar t v) : Spells depth t v := by
  cases depth with
  | zero => exact h
  | succ depth => exact .inl h

/-! ## Scalars -/

/-- How a text is read that spells a value: up to its end, unless what stands there continues it.
    It starts with no blank, and with nothing that closes an array. -/
structure Reads (depth : Nat) (t : Text) (v : Json) : Prop where
  starts : ∃ c rest, t = c :: rest ∧ isSpace c = false ∧ c ≠ ']'
  read : ∀ fuel rest, EndsNumber rest → 2 * t.length ≤ fuel →
    readValue? fuel depth (t ++ rest) = some (v, rest)

/-- What starts a number is no blank and starts no other value. -/
theorem ne_of_startsNumber {c : Char} (hc : c.isDigit = true ∨ c = '-') :
    ∀ d ∈ [' ', '\t', '\n', '\r', 'n', 't', 'f', '"', '[', '{', ']'], c ≠ d := by
  rintro d hd rfl
  have hall : ∀ d ∈ [' ', '\t', '\n', '\r', 'n', 't', 'f', '"', '[', '{', ']'],
      ¬ (d.isDigit = true ∨ d = '-') := by decide
  exact hall c hd hc

theorem isSpace_of_startsNumber {c : Char} (hc : c.isDigit = true ∨ c = '-') :
    isSpace c = false := by
  simp [isSpace, ne_of_startsNumber hc]

/-- A text that starts with a digit or a minus is read as a number. -/
theorem readValue?_number {c : Char} (hc : c.isDigit = true ∨ c = '-') (fuel depth : Nat)
    (t : Text) :
    readValue? (fuel + 1) depth (c :: t) = readNumber? (c :: t) := by
  have hother := ne_of_startsNumber hc
  rw [readValue?, skipSpace_cons (isSpace_of_startsNumber hc)]
  split
  all_goals try rfl
  all_goals next heq => exact absurd (List.cons.inj heq).1 (hother _ (by decide))

/-- A value has a text, so there is fuel for one step of the reader. -/
theorem reads_of_succ {depth : Nat} {v : Json}
    (hstarts : ∃ c rest, t = c :: rest ∧ isSpace c = false ∧ c ≠ ']')
    (h : ∀ fuel rest, EndsNumber rest → 2 * t.length ≤ fuel + 1 →
      readValue? (fuel + 1) depth (t ++ rest) = some (v, rest)) : Reads depth t v := by
  refine ⟨hstarts, fun fuel rest hends hfuel => ?_⟩
  obtain ⟨c, u, rfl, -⟩ := hstarts
  rw [List.length_cons] at hfuel
  obtain ⟨fuel, rfl⟩ := Nat.exists_eq_succ_of_ne_zero (show fuel ≠ 0 by omega)
  exact h fuel rest hends hfuel

theorem reads_of_scalar {v : Json} (h : SpellsScalar t v) (depth : Nat) : Reads depth t v := by
  cases h with
  | null => exact reads_of_succ ⟨_, _, rfl, rfl, by decide⟩ fun _ _ _ _ => rfl
  | true => exact reads_of_succ ⟨_, _, rfl, rfl, by decide⟩ fun _ _ _ _ => rfl
  | false => exact reads_of_succ ⟨_, _, rfl, rfl, by decide⟩ fun _ _ _ _ => rfl
  | @string _ s h =>
    obtain ⟨u, rfl⟩ := exists_cons_of_readString? h
    refine reads_of_succ ⟨_, _, rfl, rfl, by decide⟩ fun fuel rest _ _ => ?_
    have hread := readString?_append h rest
    rw [List.cons_append] at hread
    rw [List.cons_append, readValue?, skipSpace_cons rfl]
    simp only [hread, Option.map_some]
  | number h =>
    obtain ⟨c, u, hc, rfl, hread⟩ := exists_of_readNumber? h
    have hstarts := And.intro (isSpace_of_startsNumber hc) (ne_of_startsNumber hc ']' (by decide))
    rw [List.append_nil]
    refine reads_of_succ ⟨c, u, rfl, hstarts⟩ fun fuel rest hends _ => ?_
    rw [← hread rest hends, List.cons_append, readValue?_number hc]

/-! ## Arrays and objects -/

variable {p : Text → Json → Prop} {depth fuel : Nat} {u : Text} {v : Json}

/-- A value with blanks around it is read up to what follows the blanks. -/
theorem Reads.exists_of_padded (h : Reads depth u v) (ht : Padded u t)
    (hfuel : 2 * t.length ≤ fuel) {c : Char} (hc : c ∈ [',', ']', '}']) (rest : Text) :
    ∃ r, readValue? fuel depth (t ++ c :: rest) = some (v, r) ∧ skipSpace r = c :: rest := by
  obtain ⟨l, r, hl, hr, rfl⟩ := ht
  have hspace : isSpace c = false := by
    have hall : ∀ c ∈ [',', ']', '}'], isSpace c = false := by decide
    exact hall c hc
  simp only [List.length_append] at hfuel
  refine ⟨r ++ c :: rest, ?_, by rw [hr.skipSpace_append, skipSpace_cons hspace]⟩
  rw [List.append_assoc, List.append_assoc, hl.readValue?_append,
    h.read fuel _ (hr.endsNumber hc rest) (by omega)]

theorem SpellsItems.read (hp : ∀ u v, p u v → Reads depth u v) {items : List (Text × Json)}
    (h : SpellsItems p t items) (hfuel : 2 * t.length < fuel) (rest : Text) :
    readItems? fuel depth (t ++ ']' :: rest) = some (items.map Prod.snd, rest) := by
  induction h generalizing fuel with
  | last ht hv =>
    obtain ⟨fuel, rfl⟩ := Nat.exists_eq_succ_of_ne_zero (Nat.ne_zero_of_lt hfuel)
    have hclose : ']' ∈ [',', ']', '}'] := by decide
    obtain ⟨r, hread, hskip⟩ :=
      (hp _ _ hv).exists_of_padded ht (Nat.le_of_lt_succ hfuel) hclose rest
    rw [readItems?, hread, Option.bind_eq_bind, Option.bind_some]
    simp [hskip]
  | @more t u more v items ht hv _ ih =>
    obtain ⟨fuel, rfl⟩ := Nat.exists_eq_succ_of_ne_zero (Nat.ne_zero_of_lt hfuel)
    rw [List.length_append, List.length_cons] at hfuel
    have hcomma : ',' ∈ [',', ']', '}'] := by decide
    have ht_fuel : 2 * t.length ≤ fuel := by omega
    have hmore_fuel : 2 * more.length < fuel := by omega
    obtain ⟨r, hread, hskip⟩ := (hp _ _ hv).exists_of_padded ht ht_fuel hcomma (more ++ ']' :: rest)
    rw [List.append_assoc, List.cons_append, readItems?, hread, Option.bind_eq_bind,
      Option.bind_some]
    simp only [hskip, ih hmore_fuel, Option.map_some, List.map_cons]

/-- The name of a member is read up to its colon. -/
theorem exists_of_name {q n name : Text} (hn : Padded q n) (hq : readString? q = some (name, []))
    (rest : Text) :
    ∃ r, readString? (skipSpace (n ++ ':' :: rest)) = some (name, r) ∧
      skipSpace r = ':' :: rest := by
  obtain ⟨l, r, hl, hr, rfl⟩ := hn
  obtain ⟨q, rfl⟩ := exists_cons_of_readString? hq
  refine ⟨r ++ ':' :: rest, ?_, by rw [hr.skipSpace_append, skipSpace_cons rfl]⟩
  have hread := readString?_append hq (r ++ ':' :: rest)
  rwa [List.append_assoc, List.append_assoc, hl.skipSpace_append, List.cons_append,
    skipSpace_cons rfl]

theorem SpellsMembers.read (hp : ∀ u v, p u v → Reads depth u v)
    {members : List (Text × Text × Json)} (h : SpellsMembers p t members)
    (hfuel : 2 * t.length < fuel) (rest : Text) :
    readMembers? fuel depth (t ++ '}' :: rest) =
      some (namedValues members, rest) := by
  induction h generalizing fuel with
  | @last n q name t u v hn hq ht hv =>
    obtain ⟨fuel, rfl⟩ := Nat.exists_eq_succ_of_ne_zero (Nat.ne_zero_of_lt hfuel)
    rw [List.length_append, List.length_cons] at hfuel
    have hclose : '}' ∈ [',', ']', '}'] := by decide
    have ht_fuel : 2 * t.length ≤ fuel := by omega
    obtain ⟨r, hname, hcolon⟩ := exists_of_name hn hq (t ++ '}' :: rest)
    obtain ⟨r', hread, hskip⟩ := (hp _ _ hv).exists_of_padded ht ht_fuel hclose rest
    rw [List.append_assoc, List.cons_append, readMembers?, hname, Option.bind_eq_bind,
      Option.bind_some]
    simp only [hcolon, hread, Option.bind_eq_bind, Option.bind_some, hskip, namedValues,
      List.map_cons, List.map_nil]
  | @more n q name t u more v members hn hq ht hv _ ih =>
    obtain ⟨fuel, rfl⟩ := Nat.exists_eq_succ_of_ne_zero (Nat.ne_zero_of_lt hfuel)
    rw [List.length_append, List.length_cons, List.length_append, List.length_cons] at hfuel
    have hcomma : ',' ∈ [',', ']', '}'] := by decide
    have ht_fuel : 2 * t.length ≤ fuel := by omega
    have hmore_fuel : 2 * more.length < fuel := by omega
    obtain ⟨r, hname, hcolon⟩ := exists_of_name hn hq (t ++ ',' :: (more ++ '}' :: rest))
    obtain ⟨r', hread, hskip⟩ :=
      (hp _ _ hv).exists_of_padded ht ht_fuel hcomma (more ++ '}' :: rest)
    rw [List.append_assoc, List.cons_append, List.append_assoc, List.cons_append, readMembers?,
      hname, Option.bind_eq_bind, Option.bind_some]
    simp only [hcolon, hread, Option.bind_eq_bind, Option.bind_some, hskip, ih hmore_fuel,
      Option.map_some, namedValues, List.map_cons]

theorem SpellsItems.exists_start (hp : ∀ u v, p u v → Reads depth u v)
    {items : List (Text × Json)} (h : SpellsItems p t items) :
    ∃ l c rest, IsSpaces l ∧ t = l ++ c :: rest ∧ isSpace c = false ∧ c ≠ ']' := by
  have hpadded {t u : Text} {v : Json} (ht : Padded u t) (hv : p u v) :
      ∃ l c rest, IsSpaces l ∧ t = l ++ c :: rest ∧ isSpace c = false ∧ c ≠ ']' := by
    obtain ⟨l, r, hl, -, rfl⟩ := ht
    obtain ⟨c, rest, rfl, hc⟩ := (hp _ _ hv).starts
    exact ⟨l, c, rest ++ r, hl, rfl, hc⟩
  cases h with
  | last ht hv => exact hpadded ht hv
  | @more _ _ more _ _ ht hv _ =>
    obtain ⟨l, c, rest, hl, rfl, hc⟩ := hpadded ht hv
    exact ⟨l, c, rest ++ ',' :: more, hl, by simp, hc⟩

theorem SpellsMembers.exists_start {members : List (Text × Text × Json)}
    (h : SpellsMembers p t members) : ∃ l rest, IsSpaces l ∧ t = l ++ '"' :: rest := by
  have hpadded {q n name : Text} (hn : Padded q n) (hq : readString? q = some (name, [])) :
      ∃ l rest, IsSpaces l ∧ n = l ++ '"' :: rest := by
    obtain ⟨l, r, hl, -, rfl⟩ := hn
    obtain ⟨q, rfl⟩ := exists_cons_of_readString? hq
    exact ⟨l, q ++ r, hl, rfl⟩
  cases h with
  | last hn hq =>
    obtain ⟨l, rest, hl, rfl⟩ := hpadded hn hq
    exact ⟨l, _, hl, by rw [List.append_assoc, List.cons_append]⟩
  | more hn hq =>
    obtain ⟨l, rest, hl, rfl⟩ := hpadded hn hq
    exact ⟨l, _, hl, by rw [List.append_assoc, List.cons_append]⟩

theorem readValue?_array {c : Char} (h : skipSpace t = c :: u) (hc : c ≠ ']') (fuel depth : Nat) :
    readValue? (fuel + 1) (depth + 1) ('[' :: t) =
      (readItems? fuel depth (c :: u)).map fun (items, rest) => (array items, rest) := by
  rw [readValue?, skipSpace_cons rfl]
  simp only [h, Nat.add_one_ne_zero, if_false, Nat.add_sub_cancel]
  split
  · next heq => exact absurd (List.cons.inj heq).1 hc
  · rfl

theorem readValue?_object (h : skipSpace t = '"' :: u) (fuel depth : Nat) :
    readValue? (fuel + 1) (depth + 1) ('{' :: t) =
      (readMembers? fuel depth ('"' :: u)).map fun (members, rest) =>
        (object (Keyed.ofList members), rest) := by
  rw [readValue?, skipSpace_cons rfl]
  simp only [h, Nat.add_one_ne_zero, if_false, Nat.add_sub_cancel]
  rfl

theorem readValue?_emptyArray (h : skipSpace t = ']' :: u) (fuel depth : Nat) :
    readValue? (fuel + 1) (depth + 1) ('[' :: t) = some (array [], u) := by
  rw [readValue?, skipSpace_cons rfl]
  simp only [h, Nat.add_one_ne_zero, if_false]

theorem readValue?_emptyObject (h : skipSpace t = '}' :: u) (fuel depth : Nat) :
    readValue? (fuel + 1) (depth + 1) ('{' :: t) = some (object [], u) := by
  rw [readValue?, skipSpace_cons rfl]
  simp only [h, Nat.add_one_ne_zero, if_false]

/-- An array or an object is read if everything in it is. -/
theorem reads_of_composite (hp : ∀ u v, p u v → Reads depth u v) (h : SpellsComposite p t v) :
    Reads (depth + 1) t v := by
  have hbody (b : Char) (body rest : Text) (e : Char) :
      b :: body ++ [e] ++ rest = b :: (body ++ e :: rest) := by simp
  cases h with
  | @emptyArray t ht =>
    refine reads_of_succ ⟨_, _, rfl, rfl, by decide⟩ fun fuel rest _ _ => ?_
    rw [hbody, readValue?_emptyArray (by rw [ht.skipSpace_append, skipSpace_cons rfl])]
  | @emptyObject t ht =>
    refine reads_of_succ ⟨_, _, rfl, rfl, by decide⟩ fun fuel rest _ _ => ?_
    rw [hbody, readValue?_emptyObject (by rw [ht.skipSpace_append, skipSpace_cons rfl])]
  | @array t items hitems =>
    refine reads_of_succ ⟨_, _, rfl, rfl, by decide⟩ fun fuel rest _ hfuel => ?_
    simp only [List.length_append, List.length_cons, List.length_nil] at hfuel
    have hread := hitems.read hp (show 2 * t.length < fuel by omega) rest
    obtain ⟨l, c, body, hl, rfl, hspace, hclose⟩ := hitems.exists_start hp
    rw [List.append_assoc, hl.readItems?_append, List.cons_append] at hread
    rw [hbody, List.append_assoc, List.cons_append,
      readValue?_array (by rw [hl.skipSpace_append, skipSpace_cons hspace]) hclose, hread]
    rfl
  | @object t members hmembers =>
    refine reads_of_succ ⟨_, _, rfl, rfl, by decide⟩ fun fuel rest _ hfuel => ?_
    simp only [List.length_append, List.length_cons, List.length_nil] at hfuel
    have hread := hmembers.read hp (show 2 * t.length < fuel by omega) rest
    obtain ⟨l, body, hl, rfl⟩ := hmembers.exists_start
    rw [List.append_assoc, hl.readMembers?_append, List.cons_append] at hread
    rw [hbody, List.append_assoc, List.cons_append,
      readValue?_object (by rw [hl.skipSpace_append, skipSpace_cons rfl]), hread]
    rfl

/-- What the grammar derives is read. -/
theorem reads_of_spells (h : Spells depth t v) : Reads depth t v := by
  induction depth generalizing t v with
  | zero => exact reads_of_scalar h 0
  | succ depth ih =>
    obtain h | h := h
    · exact reads_of_scalar h _
    · exact reads_of_composite (fun _ _ => ih) h

/-- A text is read as the value that it spells, with blanks around it. -/
theorem ofText?_of_spells (h : Spells 127 u v) (ht : Padded u t) : ofText? t = some v := by
  obtain ⟨l, r, hl, hr, rfl⟩ := ht
  have hends : EndsNumber r := by
    cases r with
    | nil => rintro c ⟨⟩
    | cons c r => exact endsNumber_cons (.inl (hr c (.head _))) r
  have hrest : skipSpace r = [] := by
    have hskip := hr.skipSpace_append []
    rwa [List.append_nil] at hskip
  have hfuel : 2 * u.length ≤ 2 * (l ++ (u ++ r)).length + 2 := by
    simp only [List.length_append]
    omega
  rw [ofText?, hl.readValue?_append, (reads_of_spells h).read _ r hends hfuel, Option.bind_eq_bind,
    Option.bind_some]
  simp [hrest]

/-- A text spells one value. -/
theorem Spells.unique {w : Json} (hv : Spells depth t v) (hw : Spells depth t w) : v = w := by
  have hread := (reads_of_spells hv).read _ [] nofun (Nat.le_refl _)
  rw [(reads_of_spells hw).read _ [] nofun (Nat.le_refl _)] at hread
  exact (Prod.mk.inj (Option.some.inj hread)).1.symm

/-! ## Deeper nesting -/

theorem SpellsItems.mono {q : Text → Json → Prop} (hpq : ∀ u v, p u v → q u v)
    {items : List (Text × Json)} (h : SpellsItems p t items) : SpellsItems q t items := by
  induction h with
  | last ht hv => exact .last ht (hpq _ _ hv)
  | more ht hv _ ih => exact .more ht (hpq _ _ hv) ih

theorem SpellsMembers.mono {q : Text → Json → Prop} (hpq : ∀ u v, p u v → q u v)
    {members : List (Text × Text × Json)} (h : SpellsMembers p t members) :
    SpellsMembers q t members := by
  induction h with
  | last hn hq ht hv => exact .last hn hq ht (hpq _ _ hv)
  | more hn hq ht hv _ ih => exact .more hn hq ht (hpq _ _ hv) ih

/-- A text that spells a value does so where values may nest deeper. -/
theorem Spells.succ (h : Spells depth t v) : Spells (depth + 1) t v := by
  induction depth generalizing t v with
  | zero => exact .inl h
  | succ depth ih =>
    obtain h | h := h
    · exact .inl h
    · right
      cases h with
      | emptyArray ht => exact .emptyArray ht
      | array hitems => exact .array (hitems.mono fun _ _ => ih)
      | emptyObject ht => exact .emptyObject ht
      | object hmembers => exact .object (hmembers.mono fun _ _ => ih)

theorem Spells.mono (h : Spells depth t v) {deeper : Nat} (hle : depth ≤ deeper) :
    Spells deeper t v := by
  induction hle with
  | refl => exact h
  | step _ ih => exact ih.succ

/-! ## Items and members -/

theorem SpellsItems.of_mem {items : List (Text × Json)} (h : SpellsItems p t items) :
    ∀ m ∈ items, p m.1 m.2 := by
  induction h with
  | last ht hv => exact List.forall_mem_singleton.2 hv
  | more ht hv _ ih => exact List.forall_mem_cons.2 ⟨hv, ih⟩

theorem SpellsMembers.of_mem {members : List (Text × Text × Json)} (h : SpellsMembers p t members) :
    ∀ m ∈ members, p m.2.1 m.2.2 := by
  induction h with
  | last hn hq ht hv => exact List.forall_mem_singleton.2 hv
  | more hn hq ht hv _ ih => exact List.forall_mem_cons.2 ⟨hv, ih⟩

/-- Whether a text is that of an object with these members, each with its name, its text and its
    value. The object is one level of nesting, so there are 126 left for its members. -/
def HasMembers (t : Text) (members : List (Text × Text × Json)) : Prop :=
  ∃ body, Padded ('{' :: body ++ ['}']) t ∧
    ((IsSpaces body ∧ members = []) ∨ SpellsMembers (Spells 126) body members)

/-- The text of an object is read as the object with its members in order. -/
theorem HasMembers.ofText?_eq {members : List (Text × Text × Json)} (h : HasMembers t members) :
    ofText? t = some (object (Keyed.ofList (namedValues members))) := by
  obtain ⟨body, ht, ⟨hspaces, rfl⟩ | hmembers⟩ := h
  · exact ofText?_of_spells (.inr (.emptyObject hspaces)) ht
  · exact ofText?_of_spells (.inr (.object hmembers)) ht

/-! ## Members of one text -/

/-- Where two values with blanks around them start one text, they are the same, and so is what follows
    their blanks. -/
theorem Reads.eq_of_padded (hu : Reads depth u v) {t' u' : Text} {v' : Json} (hu' : Reads depth u' v')
    (ht : Padded u t) (ht' : Padded u' t') {c c' : Char} (hc : c ∈ [',', ']', '}'])
    (hc' : c' ∈ [',', ']', '}']) {rest rest' : Text} (heq : t ++ c :: rest = t' ++ c' :: rest') :
    u = u' ∧ v = v' ∧ c :: rest = c' :: rest' := by
  obtain ⟨l, r, hl, hr, rfl⟩ := ht
  obtain ⟨l', r', hl', hr', rfl⟩ := ht'
  have hspace : ∀ c ∈ [',', ']', '}'], isSpace c = false := by decide
  have hskip {u : Text} {v : Json} (hu : Reads depth u v) (rest : Text) :
      skipSpace (u ++ rest) = u ++ rest := by
    obtain ⟨d, more, rfl, hd, -⟩ := hu.starts
    exact skipSpace_cons hd _
  have hstart : u ++ (r ++ c :: rest) = u' ++ (r' ++ c' :: rest') := by
    have hboth := congrArg skipSpace heq
    simp only [List.append_assoc] at hboth
    rwa [hl.skipSpace_append, hl'.skipSpace_append, hskip hu, hskip hu'] at hboth
  have hread := hu.read (2 * u.length + 2 * u'.length) _ (hr.endsNumber hc rest) (by omega)
  rw [hstart, hu'.read _ _ (hr'.endsNumber hc' rest') (by omega)] at hread
  obtain ⟨rfl, hrest⟩ := Prod.mk.inj (Option.some.inj hread)
  rw [hrest] at hstart
  refine ⟨List.append_cancel_right hstart, rfl, ?_⟩
  have hends := congrArg skipSpace hrest
  rwa [hr.skipSpace_append, hr'.skipSpace_append, skipSpace_cons (hspace c hc),
    skipSpace_cons (hspace c' hc'), eq_comm] at hends

/-- Where two names with colons start one text, they are the same, and so is what follows. -/
theorem eq_of_name {n q name n' q' name' : Text} (hn : Padded q n)
    (hq : readString? q = some (name, [])) (hn' : Padded q' n')
    (hq' : readString? q' = some (name', [])) {rest rest' : Text}
    (heq : n ++ ':' :: rest = n' ++ ':' :: rest') : name = name' ∧ rest = rest' := by
  obtain ⟨r, hname, hcolon⟩ := exists_of_name hn hq rest
  obtain ⟨r', hname', hcolon'⟩ := exists_of_name hn' hq' rest'
  rw [heq, hname'] at hname
  obtain ⟨rfl, rfl⟩ := Prod.mk.inj (Option.some.inj hname)
  exact ⟨rfl, (List.cons.inj (hcolon.symm.trans hcolon')).2⟩

theorem SpellsMembers.unique (hp : ∀ u v, p u v → Reads depth u v) {t' rest rest' : Text}
    {members members' : List (Text × Text × Json)} (h : SpellsMembers p t members)
    (h' : SpellsMembers p t' members') (heq : t ++ '}' :: rest = t' ++ '}' :: rest') :
    members = members' := by
  have hcomma : ',' ∈ [',', ']', '}'] := by decide
  have hclose : '}' ∈ [',', ']', '}'] := by decide
  induction h generalizing t' members' with
  | last hn hq ht hv =>
    cases h' with
    | last hn' hq' ht' hv' =>
      simp only [List.append_assoc, List.cons_append] at heq
      obtain ⟨rfl, heq⟩ := eq_of_name hn hq hn' hq' heq
      obtain ⟨rfl, rfl, -⟩ := (hp _ _ hv).eq_of_padded (hp _ _ hv') ht ht' hclose hclose heq
      rfl
    | more hn' hq' ht' hv' _ =>
      simp only [List.append_assoc, List.cons_append] at heq
      obtain ⟨rfl, heq⟩ := eq_of_name hn hq hn' hq' heq
      obtain ⟨-, -, heq⟩ := (hp _ _ hv).eq_of_padded (hp _ _ hv') ht ht' hclose hcomma heq
      exact absurd (List.cons.inj heq).1 (by decide)
  | more hn hq ht hv _ ih =>
    cases h' with
    | last hn' hq' ht' hv' =>
      simp only [List.append_assoc, List.cons_append] at heq
      obtain ⟨rfl, heq⟩ := eq_of_name hn hq hn' hq' heq
      obtain ⟨-, -, heq⟩ := (hp _ _ hv).eq_of_padded (hp _ _ hv') ht ht' hcomma hclose heq
      exact absurd (List.cons.inj heq).1 (by decide)
    | more hn' hq' ht' hv' hmore' =>
      simp only [List.append_assoc, List.cons_append] at heq
      obtain ⟨rfl, heq⟩ := eq_of_name hn hq hn' hq' heq
      obtain ⟨rfl, rfl, heq⟩ := (hp _ _ hv).eq_of_padded (hp _ _ hv') ht ht' hcomma hcomma heq
      rw [ih hmore' (List.cons.inj heq).2]

/-- Between braces there are members or blanks, and not both. -/
theorem SpellsMembers.ne_spaces {members : List (Text × Text × Json)} (h : SpellsMembers p t members)
    {l : Text} (hl : IsSpaces l) (rest rest' : Text) : t ++ '}' :: rest ≠ l ++ '}' :: rest' := by
  intro heq
  obtain ⟨l', more, hl', rfl⟩ := h.exists_start
  have hskip := congrArg skipSpace heq
  rw [List.append_assoc, hl'.skipSpace_append, hl.skipSpace_append, List.cons_append,
    skipSpace_cons rfl, skipSpace_cons rfl] at hskip
  exact absurd (List.cons.inj hskip).1 (by decide)

/-- The text of an object has the members of one object only. -/
theorem HasMembers.unique {members members' : List (Text × Text × Json)} (h : HasMembers t members)
    (h' : HasMembers t members') : members = members' := by
  obtain ⟨body, ⟨l, r, hl, -, rfl⟩, hbody⟩ := h
  obtain ⟨body', ⟨l', r', hl', -, heq⟩, hbody'⟩ := h'
  have heq : body ++ '}' :: r = body' ++ '}' :: r' := by
    have hskip := congrArg skipSpace heq
    simp only [List.append_assoc, List.cons_append, List.nil_append, hl.skipSpace_append,
      hl'.skipSpace_append] at hskip
    rw [skipSpace_cons rfl, skipSpace_cons rfl] at hskip
    exact (List.cons.inj hskip).2
  obtain ⟨hspaces, rfl⟩ | hmembers := hbody
  · obtain ⟨-, rfl⟩ | hmembers' := hbody'
    · rfl
    · exact absurd heq.symm (hmembers'.ne_spaces hspaces _ _)
  · obtain ⟨hspaces', rfl⟩ | hmembers' := hbody'
    · exact absurd heq (hmembers.ne_spaces hspaces' _ _)
    · exact hmembers.unique (fun _ _ => reads_of_spells) hmembers' heq

end EntityQuery.Json
