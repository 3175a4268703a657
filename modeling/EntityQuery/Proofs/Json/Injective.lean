-- SUMMARY: The text of a JSON value determines the value and where its text ends.
import EntityQuery.Proofs.Json.RoundTrip

/-!
# JSON text determines the value

A text is written from one value only, in either layout. What stands after a
value has to end a number, and in return the text also tells where the value
ends: so the items of an array and the members of an object are told apart by
the commas between them.
-/

namespace EntityQuery.Json

variable {layout : Layout} {depth : Nat}

/-! ## What a text starts with -/

/-- What a value's text starts with. All numbers are of one kind, that of their digits. -/
def lead : Json → Char
  | null => 'n'
  | bool true => 't'
  | bool false => 'f'
  | int _ => '0'
  | float _ => '0'
  | string _ => '"'
  | array _ => '['
  | object _ => '{'

/-- The kind of value that a character starts. -/
def leadOf (c : Char) : Char :=
  if c.isDigit = true ∨ c = '-' then '0' else c

theorem lead_mem (v : Json) : v.lead ∈ ['n', 't', 'f', '0', '"', '[', '{'] := by
  cases v with
  | bool b => cases b <;> simp [lead]
  | _ => simp [lead]

/-- A space or a closing bracket starts no value. -/
theorem not_isSpace_of_leadOf {v : Json} {c : Char} (h : leadOf c = v.lead) :
    isSpace c = false ∧ c ≠ ']' := by
  have hother : ∀ d ∈ [' ', '\t', '\n', '\r', ']'], c ≠ d := by
    rintro d hd rfl
    have hall : ∀ d ∈ [' ', '\t', '\n', '\r', ']'], leadOf d ∉ ['n', 't', 'f', '0', '"', '[', '{'] := by
      decide
    exact hall c hd (h ▸ lead_mem v)
  exact ⟨by simp [isSpace, hother], hother _ (by decide)⟩

theorem exists_textAt_eq_cons {v : Json} (h : Readable depth v) (layout : Layout) (k : Nat) :
    ∃ c t, v.textAt layout k = c :: t ∧ leadOf c = v.lead := by
  have hnumber {n : NumberParts} (hn : n.IsWritten) : ∃ c t, n.text = c :: t ∧ leadOf c = '0' := by
    obtain ⟨c, t, htext, hc⟩ := hn.exists_text_eq_cons
    exact ⟨c, t, htext, if_pos hc⟩
  cases h with
  | null => exact ⟨_, _, rfl, rfl⟩
  | bool b => cases b <;> exact ⟨_, _, rfl, rfl⟩
  | @int _ n _ _ =>
    rw [textAt, ← NumberParts.text_ofInt]
    exact hnumber (NumberParts.isWritten_ofInt n)
  | @float _ x hx =>
    rw [textAt, ← text_floatParts hx]
    exact hnumber (isWritten_floatParts hx)
  | string s => exact ⟨_, _, rfl, rfl⟩
  | @array _ items _ => cases items <;> exact ⟨_, _, rfl, rfl⟩
  | @object _ members _ => cases members <;> exact ⟨_, _, rfl, rfl⟩

/-! ## What a text ends with -/

theorem stringText_append_inj {s t r u : Text} (h : stringText s ++ r = stringText t ++ u) :
    s = t ∧ r = u := by
  have hread := readString?_stringText s r
  rw [h, readString?_stringText] at hread
  obtain ⟨rfl, rfl⟩ := Prod.mk.inj (Option.some.inj hread)
  exact ⟨rfl, rfl⟩

/-- A value is determined by its text, whatever readable value the same text is written from and
    whatever stands after the two. -/
def Determined (layout : Layout) (v : Json) : Prop :=
  ∀ (depth : Nat) (w : Json) (k : Nat) (r s : Text), Readable depth w → EndsNumber r → EndsNumber s →
    v.textAt layout k ++ r = w.textAt layout k ++ s → v = w ∧ r = s

/-- What closes an array or an object: no comma, and nothing that continues a number. -/
structure EndsItems (rest : Text) : Prop where
  ends : EndsNumber rest
  comma : rest.head? ≠ some ','

theorem endsItems_break (layout : Layout) (k : Nat) {c : Char} (h : c ∈ [']', '}']) (rest : Text) :
    EndsItems (layout.break k ++ c :: rest) := by
  have hall : ∀ c ∈ [']', '}'], c ∈ [',', ']', '}'] ∧ c ≠ ',' := by decide
  obtain ⟨hmem, hcomma⟩ := hall c h
  refine ⟨(isSpaces_break layout k).endsNumber hmem rest, ?_⟩
  cases layout with
  | compact => simpa [Layout.break] using hcomma
  | lines => simp [Layout.break]

theorem endsNumber_moreItems (k : Nat) (items : List Json) {rest : Text} (h : EndsNumber rest) :
    EndsNumber (moreItems layout k items ++ rest) := by
  cases items with
  | nil => exact h
  | cons v items =>
    rw [moreItems, List.cons_append, List.cons_append, List.cons_append]
    exact endsNumber_cons (by decide) _

theorem endsNumber_moreMembers (k : Nat) (members : List (Text × Json)) {rest : Text}
    (h : EndsNumber rest) : EndsNumber (moreMembers layout k members ++ rest) := by
  cases members with
  | nil => exact h
  | cons m members =>
    obtain ⟨name, v⟩ := m
    rw [moreMembers]
    exact endsNumber_cons (by decide) _

theorem moreItems_append_inj {items others : List Json} (hitems : ∀ v ∈ items, Determined layout v)
    (hothers : ∀ w ∈ others, Readable depth w) {k : Nat} {r s : Text} (hr : EndsItems r) (hs : EndsItems s)
    (h : moreItems layout k items ++ r = moreItems layout k others ++ s) : items = others ∧ r = s := by
  induction items generalizing others with
  | nil =>
    cases others with
    | nil => exact ⟨rfl, h⟩
    | cons w others =>
      refine absurd ?_ hr.comma
      rw [show r = moreItems layout k (w :: others) ++ s from h]
      rfl
  | cons v items ih =>
    cases others with
    | nil =>
      refine absurd ?_ hs.comma
      rw [show s = moreItems layout k (v :: items) ++ r from h.symm]
      rfl
    | cons w others =>
      obtain ⟨hv, hmore⟩ := List.forall_mem_cons.1 hitems
      obtain ⟨hw, hrest⟩ := List.forall_mem_cons.1 hothers
      simp only [moreItems, List.cons_append, List.append_assoc, List.cons.injEq, true_and,
        List.append_cancel_left_eq] at h
      obtain ⟨rfl, htail⟩ := hv depth w k _ _ hw (endsNumber_moreItems k items hr.ends)
        (endsNumber_moreItems k others hs.ends) h
      obtain ⟨rfl, rfl⟩ := ih hmore hrest htail
      exact ⟨rfl, rfl⟩

theorem moreMembers_append_inj {members others : List (Text × Json)}
    (hmembers : ∀ m ∈ members, Determined layout m.2) (hothers : ∀ m ∈ others, Readable depth m.2)
    {k : Nat} {r s : Text} (hr : EndsItems r) (hs : EndsItems s)
    (h : moreMembers layout k members ++ r = moreMembers layout k others ++ s) :
    members = others ∧ r = s := by
  induction members generalizing others with
  | nil =>
    cases others with
    | nil => exact ⟨rfl, h⟩
    | cons w others =>
      refine absurd ?_ hr.comma
      rw [show r = moreMembers layout k (w :: others) ++ s from h]
      rfl
  | cons m members ih =>
    cases others with
    | nil =>
      refine absurd ?_ hs.comma
      rw [show s = moreMembers layout k (m :: members) ++ r from h.symm]
      rfl
    | cons w others =>
      obtain ⟨name, v⟩ := m
      obtain ⟨other, w⟩ := w
      obtain ⟨hv, hmore⟩ := List.forall_mem_cons.1 hmembers
      obtain ⟨hw, hrest⟩ := List.forall_mem_cons.1 hothers
      simp only [moreMembers, List.cons_append, List.append_assoc, List.cons.injEq, true_and,
        List.append_cancel_left_eq] at h
      obtain ⟨rfl, hvalue⟩ := stringText_append_inj h
      obtain ⟨rfl, htail⟩ := hv depth w k _ _ hw (endsNumber_moreMembers k members hr.ends)
        (endsNumber_moreMembers k others hs.ends) (List.append_cancel_left hvalue)
      obtain ⟨rfl, rfl⟩ := ih hmore hrest htail
      exact ⟨rfl, rfl⟩

/-- Values with the same text are of one kind. -/
theorem lead_eq_of_textAt_append {v w : Json} {d : Nat} (hv : Readable depth v) (hw : Readable d w)
    {k : Nat} {r s : Text} (h : v.textAt layout k ++ r = w.textAt layout k ++ s) : v.lead = w.lead := by
  obtain ⟨c, t, hvtext, hvlead⟩ := exists_textAt_eq_cons hv layout k
  obtain ⟨e, u, hwtext, hwlead⟩ := exists_textAt_eq_cons hw layout k
  rw [hvtext, hwtext] at h
  rw [← hvlead, ← hwlead, (List.cons.inj h).1]

/-- An empty array closes where another one has its first item. -/
theorem textAt_array_nil_ne {v : Json} (hv : Readable depth v) (items : List Json) (k : Nat)
    (r s : Text) :
    (array []).textAt layout k ++ r ≠ (array (v :: items)).textAt layout k ++ s := by
  intro heq
  obtain ⟨c, rest, htext, hlead⟩ := exists_textAt_eq_cons hv layout (k + 1)
  simp only [textAt, htext, List.cons_append, List.append_assoc, List.cons.injEq, true_and,
    List.nil_append] at heq
  cases layout with
  | compact => exact (not_isSpace_of_leadOf hlead).2 (List.cons.inj heq).1.symm
  | lines => exact absurd (List.cons.inj heq).1 (by decide)

theorem determined_array {items : List Json} (hreadable : ∀ v ∈ items, Readable depth v)
    (hitems : ∀ v ∈ items, Determined layout v) : Determined layout (.array items) := by
  intro d w k r s hw hr hs h
  have hlead := lead_eq_of_textAt_append (.array hreadable) hw h
  cases hw with
  | @array d others hothers =>
    cases items with
    | nil =>
      cases others with
      | nil => exact ⟨rfl, List.append_cancel_left h⟩
      | cons w others => exact absurd h (textAt_array_nil_ne (hothers w (.head _)) others k r s)
    | cons v items =>
      cases others with
      | nil => exact absurd h.symm (textAt_array_nil_ne (hreadable v (.head _)) items k s r)
      | cons w others =>
        obtain ⟨hv, hmore⟩ := List.forall_mem_cons.1 hitems
        obtain ⟨hw, hrest⟩ := List.forall_mem_cons.1 hothers
        have hafter := endsItems_break layout k (c := ']') (by decide)
        simp only [textAt, List.cons_append, List.append_assoc, List.cons.injEq, true_and,
          List.append_cancel_left_eq, List.nil_append] at h
        obtain ⟨rfl, htail⟩ := hv d w (k + 1) _ _ hw (endsNumber_moreItems _ items (hafter r).ends)
          (endsNumber_moreItems _ others (hafter s).ends) h
        obtain ⟨rfl, hend⟩ := moreItems_append_inj hmore hrest (hafter r) (hafter s) htail
        exact ⟨rfl, (List.cons.inj (List.append_cancel_left hend)).2⟩
  | bool b => cases b <;> cases hlead
  | _ => cases hlead

/-- An empty object closes where another one has its first name. -/
theorem textAt_object_nil_ne (m : Text × Json) (members : List (Text × Json)) (k : Nat)
    (r s : Text) :
    (object []).textAt layout k ++ r ≠ (object (m :: members)).textAt layout k ++ s := by
  intro heq
  simp only [textAt, List.cons_append, List.append_assoc, List.cons.injEq, true_and,
    List.nil_append] at heq
  cases layout with
  | compact => exact absurd (List.cons.inj heq).1 (by decide)
  | lines => exact absurd (List.cons.inj heq).1 (by decide)

theorem determined_object {members : List (Text × Json)} (hreadable : ∀ m ∈ members, Readable depth m.2)
    (hmembers : ∀ m ∈ members, Determined layout m.2) : Determined layout (.object members) := by
  intro d w k r s hw hr hs h
  have hlead := lead_eq_of_textAt_append (.object hreadable) hw h
  cases hw with
  | @object d others hothers =>
    cases members with
    | nil =>
      cases others with
      | nil => exact ⟨rfl, List.append_cancel_left h⟩
      | cons m others => exact absurd h (textAt_object_nil_ne m others k r s)
    | cons m members =>
      cases others with
      | nil => exact absurd h.symm (textAt_object_nil_ne m members k s r)
      | cons other others =>
        obtain ⟨name, v⟩ := m
        obtain ⟨name', w⟩ := other
        obtain ⟨hv, hmore⟩ := List.forall_mem_cons.1 hmembers
        obtain ⟨hw, hrest⟩ := List.forall_mem_cons.1 hothers
        have hafter := endsItems_break layout k (c := '}') (by decide)
        simp only [textAt, List.cons_append, List.append_assoc, List.cons.injEq, true_and,
          List.append_cancel_left_eq, List.nil_append] at h
        obtain ⟨rfl, hvalue⟩ := stringText_append_inj h
        obtain ⟨rfl, htail⟩ := hv d w (k + 1) _ _ hw
          (endsNumber_moreMembers _ members (hafter r).ends)
          (endsNumber_moreMembers _ others (hafter s).ends) (List.append_cancel_left hvalue)
        obtain ⟨rfl, hend⟩ := moreMembers_append_inj hmore hrest (hafter r) (hafter s) htail
        exact ⟨rfl, (List.cons.inj (List.append_cancel_left hend)).2⟩
  | bool b => cases b <;> cases hlead
  | _ => cases hlead

/-! ## Numbers -/

theorem NumberParts.ofInt_inj {m n : Int} (h : NumberParts.ofInt m = NumberParts.ofInt n) : m = n := by
  obtain ⟨hsign, htext⟩ := NumberParts.mk.inj h
  have hsize := congrArg Text.digitsValue htext.1
  rw [Text.digitsValue_ofNat, Text.digitsValue_ofNat] at hsize
  simp only [decide_eq_decide] at hsign
  omega

/-- A number and the parts that it is written in. -/
inductive HasParts : Json → NumberParts → Prop
  | int (n : Int) : HasParts (.int n) (.ofInt n)
  | float {x : Float} : x.isFinite = true → HasParts (.float x) (floatParts x)

theorem HasParts.isWritten {v : Json} {n : NumberParts} (h : HasParts v n) : n.IsWritten := by
  cases h with
  | int n => exact NumberParts.isWritten_ofInt n
  | float hx => exact isWritten_floatParts hx

theorem HasParts.textAt_eq {v : Json} {n : NumberParts} (h : HasParts v n) (layout : Layout) (k : Nat) :
    v.textAt layout k = n.text := by
  cases h with
  | int n => rw [textAt, NumberParts.text_ofInt]
  | float hx => rw [textAt, text_floatParts hx]

theorem Readable.exists_hasParts {v : Json} (h : Readable depth v) (hlead : v.lead = '0') :
    ∃ n, HasParts v n := by
  cases h with
  | int _ _ => exact ⟨_, .int _⟩
  | float hx => exact ⟨_, .float hx⟩
  | bool b => cases b <;> cases hlead
  | _ => cases hlead

/-- Numbers are told apart by their parts: a double has a fraction or an exponent, and a whole number
    has neither. -/
theorem HasParts.inj {v w : Json} {n : NumberParts} (hv : HasParts v n) (hw : HasParts w n) : v = w := by
  have hwhole (m : Int) (x : Float) : NumberParts.ofInt m ≠ floatParts x := by
    intro heq
    have htail := hasTail_floatParts x
    rw [← heq] at htail
    simp [NumberParts.HasTail, NumberParts.ofInt] at htail
  generalize hn : n = parts at hw
  cases hv with
  | int m =>
    cases hw with
    | int m' => rw [NumberParts.ofInt_inj hn]
    | float hx => exact absurd hn (hwhole m _)
  | float hx =>
    cases hw with
    | int m => exact absurd hn.symm (hwhole m _)
    | float hy => rw [floatParts_inj hx hy hn]

theorem determined_number {v : Json} {n : NumberParts} (hv : HasParts v n) (hlead : v.lead = '0')
    (hreadable : Readable depth v) : Determined layout v := by
  intro d w k r s hw hr hs h
  obtain ⟨m, hm⟩ := hw.exists_hasParts ((lead_eq_of_textAt_append hreadable hw h).symm.trans hlead)
  rw [hv.textAt_eq, hm.textAt_eq] at h
  obtain ⟨rfl, hrest⟩ := NumberParts.text_append_inj hv.isWritten hm.isWritten hr hs h
  exact ⟨hv.inj hm, hrest⟩

/-! ## Values -/

/-- The text of a value determines the value and what stands after it. -/
theorem determined_of_readable {v : Json} (h : Readable depth v) (layout : Layout) :
    Determined layout v := by
  induction h with
  | null =>
    intro d w k r s hw _ _ h
    have hlead := lead_eq_of_textAt_append (.null : Readable d .null) hw h
    cases hw with
    | null => exact ⟨rfl, List.append_cancel_left h⟩
    | bool b => cases b <;> cases hlead
    | _ => cases hlead
  | bool b =>
    intro d w k r s hw _ _ h
    have hlead := lead_eq_of_textAt_append (.bool b : Readable d (.bool b)) hw h
    cases hw with
    | bool c =>
      obtain rfl : b = c := by
        revert hlead
        cases b <;> cases c <;> decide
      exact ⟨rfl, List.append_cancel_left h⟩
    | _ => cases b <;> cases hlead
  | int hmin hmax => exact determined_number (.int _) rfl (.int hmin hmax : Readable 0 _)
  | float hx => exact determined_number (.float hx) rfl (.float hx : Readable 0 _)
  | string t =>
    intro d w k r s hw _ _ h
    have hlead := lead_eq_of_textAt_append (.string t : Readable d (.string t)) hw h
    cases hw with
    | string u =>
      obtain ⟨rfl, hrest⟩ := stringText_append_inj h
      exact ⟨rfl, hrest⟩
    | bool b => cases b <;> cases hlead
    | _ => cases hlead
  | array hitems ih => exact determined_array hitems ih
  | object hmembers ih => exact determined_object hmembers ih

/-- Values with the same text are the same. -/
theorem textIn_inj {v w : Json} {d : Nat} (hv : Readable depth v) (hw : Readable d w)
    (h : v.textIn layout = w.textIn layout) : v = w := by
  refine (determined_of_readable hv layout d w 0 [] [] hw endsNumber_nil endsNumber_nil ?_).1
  rw [List.append_nil, List.append_nil]
  exact h

end EntityQuery.Json
