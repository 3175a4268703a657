-- SUMMARY: Readers of statements that differ in the blanks before the semicolon: what they find is in front of them.
import EntityQuery.Proofs.Skeleton.Reader
import EntityQuery.Proofs.Statement.Clause

/-!
# Blanks before the semicolon

Blanks may stand before the semicolon that ends a statement. What the readers
find in front of them does not depend on how many they are, with one exception:
where keywords of a clause come last, the body of the clause can only be one of
the blanks. That takes two of them, one to end the keywords and one for the
body.

The masks of such statements are a text `m` with the ending of `w i` after it,
one for each `i`. A reader is known on all of them if it is known on every
suffix of `m` with these endings.
-/

namespace EntityQuery

namespace Statement

/-! ## Endings -/

/-- Blanks and the semicolon after them. -/
def ending (b : Text) : Text :=
  b ++ [';']

/-- The last blank before a semicolon, as a part. -/
def lastBlank (b : Text) : Extent :=
  ⟨b.getLast?.toList ++ [';'], [';']⟩

theorem mem_ending {b : Text} (hb : b.isBlank = true) {c : Char} (hc : c ∈ ending b) :
    isBlank c = true ∨ c = ';' := by
  obtain hc | hc := List.mem_append.1 hc
  · exact .inl (Text.isBlank_iff.1 hb c hc)
  · exact .inr (List.mem_singleton.1 hc)

theorem ending_ne_nil (b : Text) : ending b ≠ [] := by
  simp [ending]

/-- What holds of blanks and of the semicolon holds of the characters of an ending. -/
theorem forall_mem_ending {p : Char → Bool} {b : Text} (hb : b.isBlank = true)
    (hblank : ∀ n ∈ blankPoints, p (Char.ofNat n) = true) (hsemicolon : p ';' = true) :
    ∀ c ∈ ending b, p c = true := by
  intro c hc
  obtain hc | rfl := mem_ending hb hc
  · exact of_isBlank hblank hc
  · exact hsemicolon

theorem trimStart_ending {b : Text} (hb : b.isBlank = true) : (ending b).trimStart = [';'] := by
  rw [ending, Text.trimStart_append_of_isBlank hb]
  rfl

/-- After the blanks of an ending there is only the semicolon. -/
theorem bind_afterBlanks?_ending {α : Type} {f : Text → Option α} (hf : f [';'] = none) {b : Text}
    (hb : b.isBlank = true) : (ending b).afterBlanks?.bind f = none := by
  refine Option.bind_eq_none_iff.2 fun rest hrest => ?_
  rwa [Text.eq_trimStart_of_afterBlanks? hrest, trimStart_ending hb]

theorem endsKeyword_ending {word b : Text} (hword : Text.IsKeyword word) (hb : b.isBlank = true) :
    Text.EndsKeyword word (ending b) :=
  (goesOn_end hb).endsBody.endsKeyword hword

/-! ## Keywords before an ending -/

section

variable {α : Type} {b u : Text}

/-- What follows blanks is read before the ending, unless it is read from the semicolon. -/
theorem bind_afterBlanks?_append_ending {f : Text → Option α} (hf : f [';'] = none)
    (hb : b.isBlank = true) (hu : u.IsTight) :
    (u ++ ending b).afterBlanks?.bind f = u.afterBlanks?.bind fun v => f (v ++ ending b) := by
  by_cases hne : u = []
  · subst hne
    exact bind_afterBlanks?_ending hf hb
  · rw [Text.afterBlanks?_append_of_not_isBlank (hu.isBlank_eq_false hne), Option.bind_map]
    rfl

theorem afterKeyword?_append_ending {word : Text} (hword : Text.IsKeyword word)
    (hb : b.isBlank = true) (u : Text) :
    Text.afterKeyword? word (u ++ ending b) = (Text.afterKeyword? word u).map (· ++ ending b) :=
  Text.afterKeyword?_append_of_ends (endsKeyword_ending hword hb) u

theorem afterPhrase?_semicolon {words : List Text} (hne : words ≠ [])
    (hwords : ∀ word ∈ words, Text.IsKeyword word) : Text.afterPhrase? words [';'] = none := by
  cases words with
  | nil => exact absurd rfl hne
  | cons word words =>
    obtain ⟨hnil, hlower⟩ := hwords word (.head _)
    cases word with
    | nil => exact absurd rfl hnil
    | cons k word =>
      refine Text.afterPhrase?_of_head? fun c hc => ?_
      rintro rfl
      obtain rfl : ';' = c := by simpa using hc
      exact absurd (hlower _ (.head _)) (by decide)

theorem afterPhrase?_append_ending {words : List Text} (hne : words ≠ [])
    (hwords : ∀ word ∈ words, Text.IsKeyword word) (hb : b.isBlank = true) (hu : u.IsTight) :
    Text.afterPhrase? words (u ++ ending b) =
      (Text.afterPhrase? words u).map (· ++ ending b) := by
  induction words generalizing u with
  | nil => exact absurd rfl hne
  | cons word words ih =>
    obtain ⟨hword, hmore⟩ := List.forall_mem_cons.1 hwords
    cases words with
    | nil => exact afterKeyword?_append_ending hword hb u
    | cons next words =>
      rw [Text.afterPhrase?_cons_cons, Text.afterPhrase?_cons_cons,
        afterKeyword?_append_ending hword hb]
      cases hkeyword : Text.afterKeyword? word u with
      | none => rfl
      | some v =>
        have hv := hu.of_suffix (Text.suffix_of_afterKeyword? hkeyword)
        rw [Option.map_some, Option.bind_some, Option.bind_some, bind_afterBlanks?_append_ending
          (afterPhrase?_semicolon (List.cons_ne_nil _ _) hmore) hb hv]
        cases hblanks : v.afterBlanks? with
        | none => rfl
        | some rest =>
          exact ih (List.cons_ne_nil _ _) hmore (hv.of_suffix (Text.suffix_of_afterBlanks? hblanks))

/-- The keywords of a clause are looked for before the ending. -/
theorem afterBlanks?_afterPhrase?_append_ending {words : List Text} (hne : words ≠ [])
    (hwords : ∀ word ∈ words, Text.IsKeyword word) (hb : b.isBlank = true) (hu : u.IsTight) :
    (u ++ ending b).afterBlanks?.bind (Text.afterPhrase? words) =
      (u.afterBlanks?.bind (Text.afterPhrase? words)).map (· ++ ending b) := by
  rw [bind_afterBlanks?_append_ending (afterPhrase?_semicolon hne hwords) hb hu, Option.map_bind]
  cases hblanks : u.afterBlanks? with
  | none => rfl
  | some v =>
    exact afterPhrase?_append_ending hne hwords hb (hu.of_suffix (Text.suffix_of_afterBlanks? hblanks))

theorem suffix_of_afterLeading? {word t rest : Text} (h : afterLeading? word t = some rest) :
    rest <:+ t := by
  obtain ⟨v, hv, hrest⟩ := Option.bind_eq_some_iff.1 h
  exact (Text.suffix_of_afterBlanks? hrest).trans (Text.suffix_of_afterKeyword? hv)

theorem bind_afterLeading?_append_ending {word : Text} {f : Text → Option α}
    (hword : Text.IsKeyword word) (hf : f [';'] = none) (hb : b.isBlank = true) (hu : u.IsTight) :
    (afterLeading? word (u ++ ending b)).bind f =
      (afterLeading? word u).bind fun v => f (v ++ ending b) := by
  rw [afterLeading?, afterLeading?, afterKeyword?_append_ending hword hb]
  cases hkeyword : Text.afterKeyword? word u with
  | none => rfl
  | some v =>
    exact bind_afterBlanks?_append_ending hf hb (hu.of_suffix (Text.suffix_of_afterKeyword? hkeyword))

end

/-! ## Readers at an ending -/

section

variable {α : Type} {k : Text → Option α} {o : Option α} {b : Text}

/-- A reader that finds the same before every semicolon, whatever blanks come first, and nothing
    after it. -/
structure AtEnd (k : Text → Option α) (o : Option α) : Prop where
  nil_eq : k [] = none
  ending_eq : ∀ b, Text.isBlank b = true → k (ending b) = o

theorem atEnd_readEnd : AtEnd readEnd (some ()) :=
  ⟨rfl, fun _ hb => readEnd_append hb⟩

theorem readClause_ending {words : List Text} (hne : words ≠ [])
    (hwords : ∀ word ∈ words, Text.IsKeyword word) (hb : b.isBlank = true) :
    readClause words k (ending b) = none := by
  rw [readClause, Option.bind_eq_bind, ← Option.bind_assoc,
    bind_afterBlanks?_ending (afterPhrase?_semicolon hne hwords) hb]
  rfl

theorem atEnd_readOptional {words : List Text} (hk : AtEnd k o) (hne : words ≠ [])
    (hwords : ∀ word ∈ words, Text.IsKeyword word) :
    AtEnd (readOptional words k) (o.map fun a => (none, a)) where
  nil_eq := by
    rw [readOptional, hk.nil_eq]
    rfl
  ending_eq b hb := by
    rw [readOptional, readClause_ending hne hwords hb, hk.ending_eq b hb]
    rfl

theorem readShortest_ending (hk : AtEnd k o) (hb : b.isBlank = true) :
    readShortest k (ending b) = o.map fun a => (ending b, a) := by
  have hend := hk.ending_eq b hb
  induction b with
  | nil =>
    rw [ending, List.nil_append] at hend ⊢
    rw [readShortest, hend]
    cases o with
    | none => simp [readShortest, hk.nil_eq]
    | some a => rfl
  | cons c b ih =>
    have hblank := (Bool.and_eq_true_iff.1 hb).2
    have hrest := ih hblank (hk.ending_eq b hblank)
    rw [ending, List.cons_append] at hend ⊢
    rw [readShortest, hend]
    cases o with
    | none => exact hrest
    | some a => rfl

/-- A body that starts in an ending is the last blank. -/
theorem readBody_ending (hk : AtEnd k o) (hb : b.isBlank = true) :
    readBody k (ending b) = if 2 ≤ b.length then o.map fun a => (lastBlank b, a) else none := by
  induction b with
  | nil => rfl
  | cons c b ih =>
    obtain ⟨hc, hb⟩ := Bool.and_eq_true_iff.1 hb
    -- Of two bodies the one that starts further to the right is tried first.
    have hcons : readBody k (ending (c :: b)) =
        (readBody k (ending b) <|> readBody.body k (ending b)) := by
      simp [readBody, ending, readLongest, hc]
    rw [hcons, ih hb]
    cases b with
    | nil => simp [ending, readBody.body, readShortest, hk.nil_eq]
    | cons d b =>
      have hbody : readBody.body k (ending (d :: b)) =
          o.map fun a => (⟨ending (d :: b), ending b⟩, a) := by
        have hrest := readShortest_ending hk (Bool.and_eq_true_iff.1 hb).2
        rw [ending] at hrest
        simp [ending, readBody.body, hrest, Function.comp_def]
      rw [hbody]
      cases b with
      | nil => simp [lastBlank, ending]
      | cons e b => cases o <;> simp [lastBlank]

end

/-! ## Results for all endings -/

section

variable {ι α β : Type} {P P' : (ι → α) → Prop} {Q : (ι → β) → Prop} {x y : ι → Option α}

/-- Results that are absent for all statements, or there for all of them and fit `P` together. -/
abbrev Alike (P : (ι → α) → Prop) (x : ι → Option α) : Prop :=
  Uniform P (fun a i => a i) x

/-- Pairs whose sides fit two conditions. -/
def Both (P : (ι → α) → Prop) (Q : (ι → β) → Prop) (pairs : ι → α × β) : Prop :=
  P (fun i => (pairs i).1) ∧ Q fun i => (pairs i).2

theorem Alike.none_or_some (hx : Alike P x) :
    (∀ i, x i = none) ∨ ∃ a, P a ∧ ∀ i, x i = some (a i) := hx

theorem Alike.bind {k : ι → α → Option β} (hx : Alike P x)
    (hk : ∀ a, P a → Alike Q fun i => k i (a i)) : Alike Q fun i => (x i).bind (k i) :=
  Uniform.bind hx hk

theorem Alike.map {f : ι → α → β} (hx : Alike P x) (hf : ∀ a, P a → Q fun i => f i (a i)) :
    Alike Q fun i => (x i).map (f i) :=
  Uniform.map (fun a i => f i (a i)) hx hf fun _ _ _ => rfl

end

/-- Statements that differ in their endings: what is in front of the ending, with literals masked,
    and the blanks of each statement. -/
structure Endings {ι : Type} (m : Text) (w : ι → Text) : Prop where
  tight : m.IsTight
  blank : ∀ i, (w i).isBlank = true

section

variable {ι α β : Type} {m : Text} {w : ι → Text} {P : (ι → α) → Prop} {Q : (ι → β) → Prop}
  {k : Text → Option α} {o : Option α}

/-- What follows after something was read, with the ending of each statement. -/
def Rests (m : Text) (w : ι → Text) (rest : ι → Text) : Prop :=
  ∃ v : Text, v <:+ m ∧ ∀ i, rest i = v ++ ending (w i)

/-- Parts that end at the same place of `m`. -/
def Within (m : Text) (w : ι → Text) (e : ι → Extent) : Prop :=
  ∃ start stop : Text, stop <:+ start ∧ start <:+ m ∧
    ∀ i, e i = ⟨start ++ ending (w i), stop ++ ending (w i)⟩

/-- Parts that end at the same place of `m`, or else each is the last of two blanks or more. -/
def Placed (m : Text) (w : ι → Text) (e : ι → Extent) : Prop :=
  Within m w e ∨ ∀ i, 2 ≤ (w i).length ∧ e i = lastBlank (w i)

/-- A reader that finds the same in all statements, wherever in `m` it starts. -/
def ReadsAlike (m : Text) (w : ι → Text) (P : (ι → α) → Prop) (k : Text → Option α) : Prop :=
  ∀ u : Text, u <:+ m → Alike P fun i => k (u ++ ending (w i))

theorem Rests.of_suffix {u : Text} {rest : ι → Text} (hu : u <:+ m) (h : Rests u w rest) :
    Rests m w rest := by
  obtain ⟨v, hv, hrest⟩ := h
  exact ⟨v, hv.trans hu, hrest⟩

/-- What follows is read alike. -/
theorem Alike.bind_rests {x : ι → Option Text} {k : ι → Text → Option α}
    (hx : Alike (Rests m w) x)
    (hk : ∀ v : Text, v <:+ m → Alike P fun i => k i (v ++ ending (w i))) :
    Alike P fun i => (x i).bind (k i) := by
  refine hx.bind fun rest hrest => ?_
  obtain ⟨v, hv, heq⟩ := hrest
  simp only [heq]
  exact hk v hv

theorem ReadsAlike.orElse {k' : Text → Option α} (hk : ReadsAlike m w P k)
    (hk' : ReadsAlike m w P k') : ReadsAlike m w P fun t => k t <|> k' t :=
  fun u hu => Uniform.orElse (hk u hu) (hk' u hu)

/-! ## Keywords -/

theorem readsAlike_readEnd (h : Endings m w) : ReadsAlike m w (fun _ => True) readEnd := by
  intro u hu
  by_cases hne : u = []
  · subst hne
    exact .inr ⟨fun _ => (), trivial, fun i => readEnd_append (h.blank i)⟩
  · left
    intro i
    have hblank := (h.tight.of_suffix hu).isBlank_eq_false hne
    have hstart : u.trimStart ≠ [] := mt Text.trimStart_eq_nil_iff.1 (by simp [hblank])
    simp only [readEnd, Text.trimStart_append_of_not_isBlank hblank]
    rw [if_neg]
    intro heq
    obtain ⟨hnil, -⟩ | ⟨-, hnil⟩ := List.append_eq_singleton_iff.1 heq
    · exact hstart hnil
    · exact ending_ne_nil _ hnil

theorem ReadsAlike.afterBlanks (h : Endings m w) (hk : ReadsAlike m w P k)
    (hsemicolon : k [';'] = none) : ReadsAlike m w P fun t => t.afterBlanks?.bind k := by
  intro u hu
  simp only [bind_afterBlanks?_append_ending hsemicolon (h.blank _) (h.tight.of_suffix hu)]
  cases hblanks : u.afterBlanks? with
  | none => exact Uniform.absent
  | some v => exact hk v ((Text.suffix_of_afterBlanks? hblanks).trans hu)

theorem readsAlike_afterKeyword (h : Endings m w) {word : Text} (hword : Text.IsKeyword word) :
    ReadsAlike m w (Rests m w) (Text.afterKeyword? word) := by
  intro u hu
  simp only [afterKeyword?_append_ending hword (h.blank _)]
  cases hkeyword : Text.afterKeyword? word u with
  | none => exact Uniform.absent
  | some v =>
    exact Uniform.present ⟨v, (Text.suffix_of_afterKeyword? hkeyword).trans hu, fun _ => rfl⟩

theorem ReadsAlike.afterKeyword (h : Endings m w) {word : Text} (hword : Text.IsKeyword word)
    (hk : ReadsAlike m w P k) : ReadsAlike m w P fun t => (Text.afterKeyword? word t).bind k :=
  fun u hu => (readsAlike_afterKeyword h hword u hu).bind_rests hk

/-- Blanks are dropped at the start, and what follows is read. -/
theorem ReadsAlike.trimStart (h : Endings m w) (hk : ReadsAlike m w P k)
    (hsemicolon : k [';'] = none) : ReadsAlike m w P fun t => k t.trimStart := by
  intro u hu
  by_cases hne : u = []
  · subst hne
    simp only [List.nil_append, trimStart_ending (h.blank _), hsemicolon]
    exact Uniform.absent
  · have hblank := (h.tight.of_suffix hu).isBlank_eq_false hne
    have hsuffix : u.trimStart <:+ u := List.dropWhile_suffix _
    simp only [Text.trimStart_append_of_not_isBlank hblank]
    exact hk _ (hsuffix.trans hu)

theorem ReadsAlike.afterLeading (h : Endings m w) {word : Text} (hword : Text.IsKeyword word)
    (hk : ReadsAlike m w P k) (hsemicolon : k [';'] = none) :
    ReadsAlike m w P fun t => (afterLeading? word t).bind k := by
  have hread := (hk.afterBlanks h hsemicolon).afterKeyword h hword
  intro u hu
  simpa only [afterLeading?, Option.bind_eq_bind, Option.bind_assoc] using hread u hu

theorem ReadsAlike.readNoise (h : Endings m w) {word : Text} (hword : Text.IsKeyword word)
    (hk : ReadsAlike m w P k) (hsemicolon : k [';'] = none) :
    ReadsAlike m w P (readNoise word k) :=
  ((hk.afterBlanks h hsemicolon).afterKeyword h hword).orElse hk

/-! ## Bodies -/

/-- A run ends at the same place if it ends before the ending. -/
theorem alike_readLongest {p : Char → Bool}
    (hk : ∀ u, u ≠ [] → u <:+ m → Alike P fun i => k (u ++ ending (w i)))
    (hlast : ∀ c ∈ m.getLast?, p c = true →
      Alike P fun i => readLongest p k (ending (w i)) <|> k (ending (w i)))
    {u : Text} (hne : u ≠ []) (hu : u <:+ m) :
    Alike P fun i => readLongest p k (u ++ ending (w i)) := by
  induction u with
  | nil => exact absurd rfl hne
  | cons c u ih =>
    simp only [List.cons_append, readLongest]
    cases hc : p c with
    | false => exact Uniform.absent
    | true =>
      have hsuffix := (List.suffix_cons c u).trans hu
      by_cases hnil : u = []
      · subst hnil
        obtain ⟨before, rfl⟩ := hu
        exact hlast c (by simp) hc
      · exact Uniform.orElse (ih hnil hsuffix) (hk u hnil hsuffix)

/-- A body goes on to the same place. -/
theorem alike_readShortest (h : Endings m w) (hk : ReadsAlike m w P k) (hend : AtEnd k o)
    {u : Text} (hu : u <:+ m) :
    Alike (Both (Rests u w) P) fun i => readShortest k (u ++ ending (w i)) := by
  induction u with
  | nil =>
    have hhere := hk [] hu
    simp only [List.nil_append, hend.ending_eq _ (h.blank _)] at hhere
    simp only [List.nil_append, readShortest_ending hend (h.blank _)]
    exact Alike.map hhere fun a ha => ⟨⟨[], List.suffix_refl _, fun _ => rfl⟩, ha⟩
  | cons c u ih =>
    obtain hnone | ⟨a, ha, hsome⟩ := (hk (c :: u) hu).none_or_some
    · simp only [List.cons_append] at hnone
      simp only [List.cons_append, readShortest, hnone]
      refine (ih ((List.suffix_cons c u).trans hu)).mono fun r hr => ?_
      exact hr.imp_left (Rests.of_suffix (List.suffix_cons c u))
    · refine .inr ⟨fun i => (c :: u ++ ending (w i), a i), ⟨?_, ha⟩, fun i => ?_⟩
      · exact ⟨c :: u, List.suffix_refl _, fun _ => rfl⟩
      · simp only [List.cons_append] at hsome
        simp only [List.cons_append, readShortest, hsome]

theorem alike_body (h : Endings m w) (hk : ReadsAlike m w P k) (hend : AtEnd k o) {u : Text}
    (hne : u ≠ []) (hu : u <:+ m) :
    Alike (Both (Within m w) P) fun i => readBody.body k (u ++ ending (w i)) := by
  cases u with
  | nil => exact absurd rfl hne
  | cons c u =>
    refine (alike_readShortest h hk hend ((List.suffix_cons c u).trans hu)).map fun r hr => ?_
    obtain ⟨⟨v, hv, hstop⟩, ha⟩ := hr
    refine ⟨⟨c :: u, v, hv.trans (List.suffix_cons c u), hu, fun i => ?_⟩, ha⟩
    simp only [← hstop]
    rfl

/-- A body ends at the same place if it does not start in the ending. -/
theorem alike_readBody (h : Endings m w) (hk : ReadsAlike m w P k) (hend : AtEnd k o) {u : Text}
    (hne : u ≠ []) (hu : u <:+ m) :
    Alike (Both (Within m w) P) fun i => readBody k (u ++ ending (w i)) := by
  refine alike_readLongest (fun v => alike_body h hk hend) (fun c hc hblank => ?_) hne hu
  exact absurd (hblank.symm.trans (h.tight c hc)) (by decide)

/-! ## Clauses -/

/-- Keywords, after blanks, at the end of a text. -/
def EndsWith (words : List Text) (m : Text) : Prop :=
  ∃ u : Text, u <:+ m ∧ u.afterBlanks?.bind (Text.afterPhrase? words) = some []

/-- Whether all statements have two blanks or more before the semicolon, or none of them has. -/
def LongAlike (w : ι → Text) : Prop :=
  (∀ i, 2 ≤ (w i).length) ∨ ∀ i, ¬ 2 ≤ (w i).length

variable {words : List Text}

/-- What follows the keywords of a clause is its body. -/
theorem readClause_append_ending (h : Endings m w) (hne : words ≠ [])
    (hwords : ∀ word ∈ words, Text.IsKeyword word) {u : Text} (hu : u <:+ m) (i : ι) :
    readClause words k (u ++ ending (w i)) =
      (u.afterBlanks?.bind (Text.afterPhrase? words)).bind fun v =>
        readBody k (v ++ ending (w i)) := by
  rw [readClause, Option.bind_eq_bind, ← Option.bind_assoc,
    afterBlanks?_afterPhrase?_append_ending hne hwords (h.blank i) (h.tight.of_suffix hu),
    Option.bind_map]
  rfl

/-- A clause with something after its keywords has its body in front of the ending. -/
theorem alike_readClause (h : Endings m w) (hk : ReadsAlike m w P k) (hend : AtEnd k o)
    (hne : words ≠ []) (hwords : ∀ word ∈ words, Text.IsKeyword word) {u : Text} (hu : u <:+ m)
    (hphrase : u.afterBlanks?.bind (Text.afterPhrase? words) ≠ some []) :
    Alike (Both (Within m w) P) fun i => readClause words k (u ++ ending (w i)) := by
  simp only [readClause_append_ending h hne hwords hu]
  cases hrest : u.afterBlanks?.bind (Text.afterPhrase? words) with
  | none => exact Uniform.absent
  | some v =>
    obtain ⟨t, ht, hv⟩ := Option.bind_eq_some_iff.1 hrest
    have hsuffix := (Text.suffix_of_afterPhrase? hne hv).trans (Text.suffix_of_afterBlanks? ht)
    refine alike_readBody h hk hend ?_ (hsuffix.trans hu)
    rintro rfl
    exact hphrase hrest

/-- A clause with nothing after its keywords has a blank as its body, if there is one to spare. -/
theorem readClause_append_ending_of_nil (h : Endings m w) (hend : AtEnd k o) (hne : words ≠ [])
    (hwords : ∀ word ∈ words, Text.IsKeyword word) {u : Text} (hu : u <:+ m)
    (hphrase : u.afterBlanks?.bind (Text.afterPhrase? words) = some []) (i : ι) :
    readClause words k (u ++ ending (w i)) =
      if 2 ≤ (w i).length then o.map fun a => (lastBlank (w i), a) else none := by
  rw [readClause_append_ending h hne hwords hu, hphrase]
  exact readBody_ending hend (h.blank i)

theorem readsAlike_readClause (h : Endings m w) (hk : ReadsAlike m w P k) (hend : AtEnd k o)
    (hne : words ≠ []) (hwords : ∀ word ∈ words, Text.IsKeyword word)
    (hlong : EndsWith words m → LongAlike w) :
    ReadsAlike m w (Both (Placed m w) P) (readClause words k) := by
  intro u hu
  by_cases hphrase : u.afterBlanks?.bind (Text.afterPhrase? words) = some []
  · simp only [readClause_append_ending_of_nil h hend hne hwords hu hphrase]
    obtain hall | hnone := hlong ⟨u, hu, hphrase⟩
    · have hhere := hk [] List.nil_suffix
      simp only [List.nil_append, hend.ending_eq _ (h.blank _)] at hhere
      simp only [if_pos (hall _)]
      exact Alike.map hhere fun a ha => ⟨.inr fun i => ⟨hall i, rfl⟩, ha⟩
    · simp only [if_neg (hnone _)]
      exact Uniform.absent
  · exact (alike_readClause h hk hend hne hwords hu hphrase).mono fun r hr => hr.imp_left .inl

/-- A clause that may be absent is absent in all statements or in none. -/
theorem readsAlike_readOptional (h : Endings m w) (hk : ReadsAlike m w P k) (hend : AtEnd k o)
    (hne : words ≠ []) (hwords : ∀ word ∈ words, Text.IsKeyword word)
    (hlong : EndsWith words m → LongAlike w) :
    ReadsAlike m w (Both (Alike (Placed m w)) P) (readOptional words k) := by
  refine ReadsAlike.orElse (fun u hu => ?_) fun u hu => ?_
  · refine (readsAlike_readClause h hk hend hne hwords hlong u hu).map fun r hr => ?_
    exact ⟨Uniform.present hr.1, hr.2⟩
  · exact Alike.map (hk u hu) fun a ha => ⟨Uniform.absent, ha⟩

end

end Statement

end EntityQuery
