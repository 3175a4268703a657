-- SUMMARY: Whole numbers that are keys are used as the service wrote them if they have 64 bits, and only then.
import EntityQuery.Proofs.Execution.Scope
import EntityQuery.Proofs.Json.Double
import EntityQuery.Proofs.Json.Derived
import EntityQuery.Proofs.Request.Target

/-!
# Keys that are whole numbers

A record that was looked up is named by what its key field is bound to in the
text that the service sent. A whole number of 64 bits is written as it was read.
All other whole numbers are read as doubles, and a double is never written like
a whole number, so such a key is another one than the service wrote.
-/

namespace EntityQuery

namespace Json

/-! ## Members of objects -/

/-- Whether a text is that of an object in which a name is bound to the text of a value. Of the
    members with one name the last one counts. -/
def Binds (name u t : Text) : Prop :=
  ∃ members v, HasMembers t members ∧ members.reverse.lookup name = some (u, v)

variable {t u : Text} {v : Json}

/-- The text of an object is read, and under a name the value of its last member with the name is
    found. -/
theorem HasMembers.exists_object {members : List (Text × Text × Json)} (h : HasMembers t members) :
    ∃ record, ofText? t = some record ∧ record.isObject = true ∧
      ∀ name, record.member? name = (members.reverse.lookup name).map Prod.snd := by
  refine ⟨_, h.ofText?_eq, rfl, fun name => ?_⟩
  rw [member?, Keyed.find?_ofList, ← Keyed.lookup_map, List.map_reverse]
  rfl

/-- What is read as an object is the text of one. -/
theorem exists_hasMembers (h : ofText? t = some v) (hv : v.isObject = true) :
    ∃ members, HasMembers t members := by
  cases v with
  | object named =>
    obtain ⟨u, ht, hu⟩ := ofText?_eq_some_iff.1 h
    obtain ⟨body, rfl, hspaces | ⟨members, hmembers⟩⟩ := hu.exists_of_object
    · exact ⟨[], body, ht, .inl ⟨hspaces, rfl⟩⟩
    · exact ⟨members, body, ht, .inr hmembers⟩
  | _ => cases hv

theorem HasMembers.spells_of_lookup {members : List (Text × Text × Json)}
    (h : HasMembers t members) {name : Text}
    (hlookup : members.reverse.lookup name = some (u, v)) : Spells 126 u v := by
  obtain ⟨body, -, ⟨-, rfl⟩ | hmembers⟩ := h
  · cases hlookup
  · obtain ⟨before, after, hsplit, -⟩ := List.lookup_eq_some_iff.1 hlookup
    have hmem : (name, u, v) ∈ members := List.mem_reverse.1 (hsplit ▸ by simp)
    exact hmembers.of_mem _ hmem

/-- The text of an object is read, and a name is found to be bound to the value of its text. -/
theorem exists_member?_of_binds {name : Text} (h : Binds name u t) :
    ∃ record v, ofText? t = some record ∧ record.member? name = some v ∧ Spells 126 u v := by
  obtain ⟨members, v, hmembers, hlookup⟩ := h
  obtain ⟨record, hread, -, hmember⟩ := hmembers.exists_object
  exact ⟨record, v, hread, by rw [hmember, hlookup]; rfl, hmembers.spells_of_lookup hlookup⟩

/-! ## Whole numbers -/

/-- Whether a text is a whole number as JSON writes it: digits with a minus before them or without,
    and a zero first only if it is the only digit. -/
def IsWholeNumber (t : Text) : Prop :=
  ∃ sign digits, (sign = [] ∨ sign = ['-']) ∧ t = sign ++ digits ∧ digits ≠ [] ∧
    (∀ c ∈ digits, c.isDigit = true) ∧ (digits.head? = some '0' → digits = ['0'])

/-- Whether a text is what a whole number of 64 bits, signed or unsigned, is written as. -/
def Is64BitNumber (t : Text) : Prop :=
  ∃ n : Int, -0x8000000000000000 ≤ n ∧ n < 0x10000000000000000 ∧ t = Text.ofInt n

theorem Is64BitNumber.exists_spellsScalar (h : Is64BitNumber t) : ∃ v, SpellsScalar t v := by
  obtain ⟨n, hmin, hmax, rfl⟩ := h
  have hread : readNumber? (Text.ofInt n ++ []) = some (int n, []) :=
    readNumber?_ofInt hmin hmax endsNumber_nil
  rw [List.append_nil] at hread
  exact ⟨_, .number hread⟩

theorem IsWholeNumber.exists_parts (h : IsWholeNumber t) :
    ∃ negative digits, t = (NumberParts.mk negative digits none none).text ∧
      (NumberParts.mk negative digits none none).IsWritten := by
  obtain ⟨sign, digits, hsign, rfl, hne, hdigits, hzero⟩ := h
  refine ⟨decide (sign = ['-']), digits, ?_, hdigits, hne, hzero, nofun⟩
  obtain rfl | rfl := hsign <;>
    simp [NumberParts.text, NumberParts.fractionText, NumberParts.exponentText]

/-- What spells a value and is a whole number is read as a number. -/
theorem readNumber?_of_spells {depth : Nat} (h : Spells depth t v) (ht : IsWholeNumber t) :
    readNumber? t = some (v, []) := by
  obtain ⟨negative, digits, rfl, hparts⟩ := ht.exists_parts
  obtain ⟨c, u, hcons, hc⟩ := hparts.exists_text_eq_cons
  have hread := (reads_of_spells h).read (2 * List.length _ + 1) [] nofun (Nat.le_succ _)
  rw [List.append_nil, hcons, readValue?_number hc] at hread
  rwa [hcons]

/-- A double is never written like a whole number. -/
theorem text_float_ne (x : Float) (ht : IsWholeNumber t) : (float x).text ≠ t := by
  obtain ⟨negative, digits, rfl, hparts⟩ := ht.exists_parts
  intro h
  have htext : floatText x = NumberParts.text ⟨negative, digits, none, none⟩ := h
  by_cases hx : x.isFinite = true
  · rw [← text_floatParts hx] at htext
    have heq := NumberParts.text_append_inj (isWritten_floatParts hx) hparts (s := []) (t := [])
      nofun nofun (by rw [htext])
    have htail := hasTail_floatParts x
    rw [heq.1] at htail
    exact htail.elim nofun nofun
  · obtain ⟨c, u, hcons, hc⟩ := hparts.exists_text_eq_cons
    rw [floatText, if_neg hx, hcons] at htext
    obtain ⟨rfl, -⟩ := List.cons.inj htext
    exact absurd hc (by decide)

end Json

namespace Response

open Json

variable {field literal t : Text}

/-- The key of a record whose key field is bound to a whole number is this number as it is written,
    if it has 64 bits, and is never that otherwise. -/
theorem keyOf_eq_iff {record v : Json} (hmember : record.member? field = some v)
    (hv : readNumber? literal = some (v, [])) (hliteral : IsWholeNumber literal) :
    keyOf field record = some literal ↔ Is64BitNumber literal := by
  constructor
  · intro hkey
    rw [readNumber?_eq] at hv
    obtain ⟨⟨n, r⟩, -, hvalue⟩ := Option.bind_eq_some_iff.1 hv
    obtain ⟨w, hw, heq⟩ := Option.map_eq_some_iff.1 hvalue
    cases heq
    obtain ⟨m, hmin, hmax, rfl⟩ | ⟨x, rfl⟩ := value?_cases hw
    · simp only [keyOf, hmember, Option.some.injEq] at hkey
      exact ⟨m, hmin, hmax, hkey.symm⟩
    · simp only [keyOf, hmember, Option.some.injEq] at hkey
      exact absurd hkey (text_float_ne x hliteral)
  · rintro ⟨n, hmin, hmax, rfl⟩
    have hread : readNumber? (Text.ofInt n ++ []) = some (int n, []) :=
      readNumber?_ofInt hmin hmax endsNumber_nil
    rw [List.append_nil, hv] at hread
    cases hread
    simp only [keyOf, hmember]
    rfl

/-- The key of a record is the whole number that its key field is bound to, as it is written, if
    and only if the number has 64 bits. -/
theorem keyOf_of_binds (h : Binds field literal t) (hliteral : IsWholeNumber literal) :
    ∃ record, Json.ofText? t = some record ∧
      (keyOf field record = some literal ↔ Is64BitNumber literal) := by
  obtain ⟨record, v, hread, hmember, hv⟩ := exists_member?_of_binds h
  exact ⟨record, hread, keyOf_eq_iff hmember (readNumber?_of_spells hv hliteral) hliteral⟩

/-! ## Pages -/

/-- Whether a text is that of a page with the texts of its records: of a collection, which has them
    in an array, of a single record, or of a value that is no object and has none. -/
inductive IsPage : List Text → Text → Prop
  | empty {body u : Text} : Binds "value".toList ('[' :: u ++ [']']) body → IsSpaces u →
      IsPage [] body
  | collection {body u : Text} {items : List (Text × Json)} :
      Binds "value".toList ('[' :: u ++ [']']) body → SpellsItems (Spells 125) u items →
      IsPage (items.map Prod.fst) body
  | record {body : Text} {members : List (Text × Text × Json)} : HasMembers body members →
      (∀ u, ¬ Binds "value".toList ('[' :: u ++ [']']) body) → IsPage [body] body
  | other {body : Text} {v : Json} : Json.ofText? body = some v → v.isObject = false →
      IsPage [] body

/-- The records of a page are those that their texts are read as. -/
theorem IsPage.exists_records {texts : List Text} {body : Text} (h : IsPage texts body) :
    ∃ page, Json.ofText? body = some page ∧
      List.Forall₂ (fun text record => Json.ofText? text = some record) texts (recordsOf page) := by
  cases h with
  | empty h hu =>
    obtain ⟨page, v, hread, hmember, hv⟩ := exists_member?_of_binds h
    obtain rfl := hv.unique (.inr (.emptyArray hu))
    refine ⟨page, hread, ?_⟩
    rw [recordsOf, hmember]
    exact .nil
  | @collection _ u items h hitems =>
    obtain ⟨page, v, hread, hmember, hv⟩ := exists_member?_of_binds h
    obtain rfl := hv.unique (.inr (.array hitems))
    refine ⟨page, hread, ?_⟩
    rw [recordsOf, hmember]
    dsimp only
    rw [List.forall₂_map_left_iff, List.forall₂_map_right_iff, List.forall₂_same]
    intro item hitem
    exact ofText?_of_spells ((hitems.of_mem item hitem).mono (by decide)) (.refl _)
  | record hmembers hvalue =>
    obtain ⟨page, hread, hobject, hmember⟩ := hmembers.exists_object
    have hrecords : recordsOf page = [page] := by
      unfold recordsOf
      split
      · next items heq =>
        rw [hmember] at heq
        obtain ⟨⟨u, v⟩, hlookup, hv⟩ := Option.map_eq_some_iff.1 heq
        obtain rfl : v = array items := hv
        obtain ⟨w, rfl, -⟩ := (hmembers.spells_of_lookup hlookup).exists_of_array
        exact absurd ⟨_, _, hmembers, hlookup⟩ (hvalue w)
      · rw [hobject, if_pos rfl]
    refine ⟨page, hread, ?_⟩
    rw [hrecords]
    exact .cons hread .nil
  | @other _ v hread hv =>
    refine ⟨v, hread, ?_⟩
    cases v with
    | object => cases hv
    | _ => exact .nil

/-- Whatever is read is a page. -/
theorem exists_isPage {body : Text} {page : Json} (hread : Json.ofText? body = some page) :
    ∃ texts, IsPage texts body := by
  by_cases hobject : page.isObject = true
  · obtain ⟨members, hmembers⟩ := exists_hasMembers hread hobject
    by_cases hvalue : ∃ u, Binds "value".toList ('[' :: u ++ [']']) body
    · obtain ⟨u, hbinds⟩ := hvalue
      obtain ⟨_, v, -, -, hv⟩ := exists_member?_of_binds hbinds
      obtain ⟨items, rfl⟩ := hv.exists_eq_array
      obtain ⟨w, heq, ⟨hw, -⟩ | ⟨spelled, hspelled, -⟩⟩ := hv.exists_of_array
      · obtain rfl := List.append_cancel_right (List.cons.inj heq).2
        exact ⟨[], .empty hbinds hw⟩
      · obtain rfl := List.append_cancel_right (List.cons.inj heq).2
        exact ⟨_, .collection hbinds hspelled⟩
    · exact ⟨[body], .record hmembers (not_exists.1 hvalue)⟩
  · exact ⟨[], .other hread (Bool.eq_false_iff.2 hobject)⟩

/-- Whether an id is the key of the record with a text. If the key field is bound to a whole number
    in the text, then the id is this number as it is written if and only if it has 64 bits. -/
structure IsKeyOf (field text id : Text) : Prop where
  key : ∃ record, Json.ofText? text = some record ∧ keyOf field record = some id
  written : ∀ literal, Binds field literal text → IsWholeNumber literal →
    (id = literal ↔ Is64BitNumber literal)

theorem isKeyOf_of_keyOf {text id : Text} {record : Json}
    (hread : Json.ofText? text = some record) (hkey : keyOf field record = some id) :
    IsKeyOf field text id := by
  refine ⟨⟨record, hread, hkey⟩, fun literal hbinds hliteral => ?_⟩
  obtain ⟨found, hfound, hiff⟩ := keyOf_of_binds hbinds hliteral
  cases hread.symm.trans hfound
  rwa [hkey, Option.some_inj] at hiff

end Response

/-! ## Bulk mutations -/

namespace Execution

open Json Response

/-- Whether an answer brings a page with the texts of its records. -/
def BringsPage (answer : Answer) (texts : List Text) : Prop :=
  ∃ response, answer = .ok response ∧ IsPage texts response.body

theorem forall₂_trans {α β γ : Type} {R : α → β → Prop} {S : β → γ → Prop} {T : α → γ → Prop}
    (h : ∀ a b c, R a b → S b c → T a c) {l : List α} {m : List β} {n : List γ}
    (hlm : List.Forall₂ R l m) (hmn : List.Forall₂ S m n) : List.Forall₂ T l n := by
  induction hlm generalizing n with
  | nil =>
    cases hmn
    exact .nil
  | cons hab _ ih =>
    cases hmn with
    | cons hbc hmn => exact .cons (h _ _ _ hab hbc) (ih hmn)

theorem forall₂_ofText?_of_pages {answers : List Answer} {texts : List (List Text)}
    (htexts : List.Forall₂ BringsPage answers texts) {pages : List Json}
    (hpages : answers.map pageIn? = pages.map some) :
    List.Forall₂ (fun text record => Json.ofText? text = some record) texts.flatten
      (pages.flatMap recordsOf) := by
  induction htexts generalizing pages with
  | nil =>
    obtain rfl : pages = [] := by simpa using hpages.symm
    exact .nil
  | cons hpage _ ih =>
    obtain ⟨response, rfl, hpage⟩ := hpage
    obtain ⟨body, hbody, hrecords⟩ := hpage.exists_records
    cases pages with
    | nil => cases hpages
    | cons page pages =>
      obtain ⟨hfirst, hrest⟩ := List.cons.inj hpages
      obtain ⟨_, ⟨⟩, -, -, hread⟩ := pageIn?_eq_some_iff.1 hfirst
      cases hbody.symm.trans hread
      exact List.rel_append hrecords (ih hrest)

/-- Requests for different records of a bulk mutation are different. -/
theorem requestFor_inj {p : BulkPlan} {id other : Text} :
    p.requestFor id = p.requestFor other ↔ id = other :=
  ⟨fun h => recordUrl_inj.1 (congrArg Request.endpoint h), congrArg _⟩

/-- The text of an object with one member, without any blanks. -/
def singleText (name u : Text) : Text :=
  '{' :: (stringText name ++ ':' :: u) ++ ['}']

theorem spellsMembers_singleText {p : Text → Json → Prop} {name u : Text} {v : Json} (hv : p u v) :
    SpellsMembers p (stringText name ++ ':' :: u) [(name, u, v)] := by
  have hname := readString?_stringText name []
  rw [List.append_nil] at hname
  exact .last (.refl _) hname (.refl _) hv

theorem spells_singleText {depth : Nat} {name u : Text} {v : Json} (hv : Spells depth u v) :
    Spells (depth + 1) (singleText name u) (object (Keyed.ofList [(name, v)])) :=
  .inr (.object (spellsMembers_singleText hv))

theorem binds_singleText {name u : Text} {v : Json} (hv : Spells 126 u v) :
    Binds name u (singleText name u) :=
  ⟨_, v, ⟨_, .refl _, .inr (spellsMembers_singleText hv)⟩, by simp⟩

/-- The answers to a lookup that succeeds all bring pages. -/
theorem exists_texts_of_pages {answers : List Answer} {pages : List Json}
    (hpages : answers.map pageIn? = pages.map some) :
    ∃ texts, List.Forall₂ BringsPage answers texts := by
  induction answers generalizing pages with
  | nil => exact ⟨[], .nil⟩
  | cons answer answers ih =>
    cases pages with
    | nil => cases hpages
    | cons page pages =>
      obtain ⟨hfirst, hrest⟩ := List.cons.inj hpages
      obtain ⟨more, hmore⟩ := ih hrest
      obtain ⟨response, rfl, -, -, hpage⟩ := pageIn?_eq_some_iff.1 hfirst
      obtain ⟨texts, htexts⟩ := exists_isPage hpage
      exact ⟨texts :: more, .cons ⟨response, rfl, htexts⟩ hmore⟩

/-- The key of a record is the whole number that its key field is bound to, as the service wrote it,
    if and only if the number has 64 bits. After its lookup a bulk mutation sends requests for the
    keys of the records that it found and for nothing else, and different keys have different
    requests. -/
theorem keys_as_written (s : Service) (q : Query) (answers : List Answer) :
    (∀ field literal t, Binds field literal t → IsWholeNumber literal →
      ∃ record, Json.ofText? t = some record ∧
        (keyOf field record = some literal ↔ Is64BitNumber literal)) ∧
    ∀ p, s.plan q = .ok (.bulk p) →
      (∀ cause, (readAll p.lookup answers).result = .error cause →
        (s.run q answers).sent = (readAll p.lookup answers).sent) ∧
      (∀ records, (readAll p.lookup answers).result = .ok records →
        let read := answers.take (readAll p.lookup answers).sent.length
        (∃ texts, List.Forall₂ BringsPage read texts) ∧
        ∀ texts, List.Forall₂ BringsPage read texts →
          ∃ n ids, List.Forall₂ (IsKeyOf p.keyField) (texts.flatten.take n) ids ∧
            (s.run q answers).sent = (readAll p.lookup answers).sent ++ ids.map p.requestFor) ∧
      ∀ id other, p.requestFor id = p.requestFor other → id = other := by
  refine ⟨fun field literal t => keyOf_of_binds,
    fun p hplan => ⟨?_, ?_, fun _ _ => requestFor_inj.1⟩⟩
  · intro cause hcause
    rw [Service.run_of_plan hplan, Exchange.map, MutationPlan.apply, apply_of_lookup_error hcause]
  · intro records hrecords read
    obtain ⟨pages, hpages, rfl⟩ := records_readPages hrecords
    refine ⟨exists_texts_of_pages hpages, fun texts htexts => ?_⟩
    have hread := forall₂_ofText?_of_pages htexts hpages
    obtain ⟨n, ids, hkeys, hsent⟩ := sent_apply_of_lookup hrecords
    refine ⟨n, ids, ?_, by rw [Service.run_of_plan hplan, Exchange.map, MutationPlan.apply, hsent]⟩
    refine forall₂_trans (fun text record id hread hkey => ?_) (List.forall₂_take n hread) hkeys
    exact isKeyOf_of_keyOf hread hkey

/-- The largest and the smallest number of 64 bits are keys as they are written. -/
theorem keys_as_written_of_extremes :
    let s : Service := ⟨[], "9.2".toList⟩
    let q : Query := .delete ⟨"t".toList, some "a eq 1".toList⟩
    let p : BulkPlan := ⟨.remove, s.collectionUrl "t".toList, "tid".toList,
      s.read (lookupQuery "t".toList "a eq 1".toList)⟩
    let largest : Text := "18446744073709551615".toList
    let smallest : Text := "-9223372036854775808".toList
    let records : Text := singleText "tid".toList largest ++ ',' :: singleText "tid".toList smallest
    let page : Text := singleText "value".toList ('[' :: records ++ [']'])
    let answers : List Answer := [.ok ⟨200, [], page⟩, .ok ⟨204, [], []⟩, .ok ⟨204, [], []⟩]
    (∃ record, Json.ofText? (singleText "tid".toList largest) = some record ∧
      keyOf "tid".toList record = some largest) ∧
    (s.run q answers).sent = [p.lookup, p.requestFor largest, p.requestFor smallest] ∧
    p.requestFor largest ≠ p.requestFor smallest := by
  intro s q p largest smallest records page answers
  have hplan : s.plan q = .ok (.bulk p) :=
    congrArg Except.ok (Service.planFor_of_not_recordId (by decide +kernel))
  obtain ⟨hkeys, hbulk⟩ := keys_as_written s q answers
  obtain ⟨-, hfound, hrequests⟩ := hbulk p hplan
  have hlargest : IsWholeNumber largest ∧ Is64BitNumber largest :=
    ⟨⟨[], _, .inl rfl, rfl, by decide⟩, 18446744073709551615, by decide, by decide, by decide⟩
  have hsmallest : IsWholeNumber smallest ∧ Is64BitNumber smallest :=
    ⟨⟨['-'], _, .inr rfl, rfl, by decide⟩, -9223372036854775808, by decide, by decide, by decide⟩
  obtain ⟨v, hv⟩ := hlargest.2.exists_spellsScalar
  obtain ⟨w, hw⟩ := hsmallest.2.exists_spellsScalar
  have hfirst : Binds "tid".toList largest (singleText "tid".toList largest) :=
    binds_singleText (.scalar hv)
  have hsecond : Binds "tid".toList smallest (singleText "tid".toList smallest) :=
    binds_singleText (.scalar hw)
  have hrecords : SpellsItems (Spells 125) records
      [(singleText "tid".toList largest, object (Keyed.ofList [("tid".toList, v)])),
        (singleText "tid".toList smallest, object (Keyed.ofList [("tid".toList, w)]))] :=
    .more (.refl _) (spells_singleText (.scalar hv))
      (.last (.refl _) (spells_singleText (.scalar hw)))
  have hpage : IsPage [singleText "tid".toList largest, singleText "tid".toList smallest] page :=
    .collection (binds_singleText (.inr (.array hrecords))) hrecords
  obtain ⟨record, hrecord, hkey⟩ := hkeys _ _ _ hfirst hlargest.1
  have hlookup : (readAll p.lookup answers).sent = [p.lookup] := by decide +kernel
  have hlength : (s.run q answers).sent.length = 3 := by decide +kernel
  have hok : (readAll p.lookup answers).result.toOption.isSome = true := by decide +kernel
  refine ⟨⟨record, hrecord, hkey.2 hlargest.2⟩, ?_,
    fun heq => absurd (hrequests _ _ heq) (by decide)⟩
  cases hresult : (readAll p.lookup answers).result with
  | error cause =>
    rw [hresult] at hok
    cases hok
  | ok found =>
    obtain ⟨n, ids, hids, hsent⟩ := (hfound found hresult).2
      [[singleText "tid".toList largest, singleText "tid".toList smallest]]
      (by rw [hlookup]; exact .cons ⟨_, rfl, hpage⟩ .nil)
    rw [hsent, hlookup] at hlength ⊢
    have htwo : ids.length = 2 := by simpa using hlength
    have hall : n ≥ 2 := by
      have htake := hids.length_eq
      rw [htwo, List.length_take] at htake
      omega
    rw [List.take_of_length_le hall] at hids
    obtain _ | @⟨_, id, _, _, hid, _ | @⟨_, other, _, _, hother, ⟨⟩⟩⟩ := hids
    rw [(hid.written _ hfirst hlargest.1).2 hlargest.2,
      (hother.written _ hsecond hsmallest.1).2 hsmallest.2]
    rfl

/-- The smallest number beyond 64 bits is read as a double, and as a key it is written like one. -/
theorem keys_beyond_64_bits :
    ¬ ∀ field literal t, Binds field literal t → IsWholeNumber literal →
      ∃ record, Json.ofText? t = some record ∧ keyOf field record = some literal := by
  intro h
  have hread : (readNumber? "18446744073709551616".toList).map Prod.snd = some [] := by
    decide +kernel
  obtain ⟨⟨v, r⟩, hv, hr⟩ := Option.map_eq_some_iff.1 hread
  obtain rfl : r = [] := hr
  obtain ⟨record, hrecord, hkey⟩ := h "id".toList "18446744073709551616".toList
    (singleText "id".toList "18446744073709551616".toList) (binds_singleText (.scalar (.number hv)))
    ⟨[], _, .inl rfl, rfl, by decide, by decide, by decide⟩
  have hother : (Json.ofText? (singleText "id".toList "18446744073709551616".toList)).bind
      (keyOf "id".toList) = some "1.8446744073709552e+19".toList := by decide +kernel
  rw [hrecord, Option.bind_some, hkey] at hother
  exact absurd hother (by decide)

end Execution

end EntityQuery
