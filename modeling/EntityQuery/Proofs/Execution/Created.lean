-- SUMMARY: The id that a service reports for a new record is the one that later statements name it by.
import EntityQuery.Proofs.Execution.ById

/-!
# Records that were created

A service answers an INSERT statement with the URL of the new record. The id is
read from this URL, where it may stand in braces or quotes, and written to the
URL of a request when a condition names the record. Reading and writing agree on
every id that has no characters in it that stand around ids.
-/

namespace EntityQuery

namespace Response

/-! ## Ids -/

/-- A character that stands around ids, and is left out when an id is read. -/
def isWrapping (c : Char) : Bool :=
  c == '\x7b' || c == '\x7d' || c == '\''

/-- Whether a text is an id by itself: it has no blanks at its ends, and nothing in it that opens or
    wraps an id. -/
structure IsBareId (id : Text) : Prop where
  ne_nil : id ≠ []
  trim_eq : id.trim = id
  bracket_notMem : '(' ∉ id
  isWrapping_eq : ∀ c ∈ id, isWrapping c = false

instance (id : Text) : Decidable (IsBareId id) :=
  decidable_of_iff (id ≠ [] ∧ id.trim = id ∧ '(' ∉ id ∧ ∀ c ∈ id, isWrapping c = false)
    ⟨fun ⟨hne, htrim, hbracket, hwrapping⟩ => ⟨hne, htrim, hbracket, hwrapping⟩,
      fun h => ⟨h.ne_nil, h.trim_eq, h.bracket_notMem, h.isWrapping_eq⟩⟩

/-- The ways in which an id can stand in a URL: as it is, in braces, or in quotes. -/
def wrappings (id : Text) : List Text :=
  [id, '\x7b' :: id ++ ['\x7d'], id.quoted]

/-- Whether a response gives a URL in the first header for the URLs of new records. -/
def GivesUrl (response : Response) (url : Text) : Prop :=
  ∃ before name l r after, response.headers = before ++ (name, l ++ (url ++ r)) :: after ∧
    (∀ header ∈ before, header.1.sameWord "OData-EntityId".toList = false) ∧
    name.sameWord "OData-EntityId".toList = true ∧
    Text.isBlank l = true ∧ Text.isBlank r = true

variable {id : Text}

theorem IsBareId.quote_notMem (h : IsBareId id) : '\'' ∉ id := fun hmem =>
  absurd (h.isWrapping_eq _ hmem) (by decide)

theorem IsBareId.withoutBraces_eq (h : IsBareId id) : Filter.withoutBraces id = id := by
  refine List.filter_eq_self.2 fun c hc => ?_
  have hc := h.isWrapping_eq c hc
  simp only [isWrapping, Bool.or_eq_false_iff] at hc
  simp [bne, hc]

theorem IsBareId.isBlank_eq_false (h : IsBareId id) : id.isBlank = false := by
  rw [← Bool.not_eq_true, ← Text.trim_eq_nil_iff, h.trim_eq]
  exact h.ne_nil

/-! ## Reading ids -/

theorem idOfUrl?_eq (url : Text) : idOfUrl? url = (do
    let t ← withoutBracket? url.trim
    let inside ← t.afterLast '('
    let id : Text := inside.filter (!isWrapping ·)
    if id.isEmpty then none else some id) := by
  have hkeep : (fun c => c != '\x7b' && c != '\x7d' && c != '\'') = (!isWrapping ·) := by
    funext c
    simp [isWrapping, bne, Bool.and_assoc]
  rw [idOfUrl?, hkeep]

/-- A wrapped id is read as the id. -/
theorem filter_of_mem_wrappings (h : IsBareId id) {w : Text} (hw : w ∈ wrappings id) :
    w.filter (!isWrapping ·) = id ∧ '(' ∉ w := by
  have hid : id.filter (!isWrapping ·) = id :=
    List.filter_eq_self.2 fun c hc => by rw [h.isWrapping_eq c hc]; rfl
  simp only [wrappings, List.mem_cons, List.not_mem_nil, or_false] at hw
  obtain rfl | rfl | rfl := hw
  · exact ⟨hid, h.bracket_notMem⟩
  · refine ⟨?_, by simp [h.bracket_notMem]⟩
    rw [List.filter_append, List.filter_cons_of_neg (by decide), hid]
    simp [isWrapping]
  · refine ⟨?_, by simp [Text.quoted, h.bracket_notMem]⟩
    rw [Text.quoted, List.filter_append, List.filter_cons_of_neg (by decide), hid]
    simp [isWrapping]

/-- A text without blanks at its ends stays when a longer one is trimmed that ends with it. -/
theorem exists_trim_append {t : Text} (htrim : t.trim = t) (hne : t.isBlank = false)
    (before : Text) : ∃ head : Text, (before ++ t).trim = head ++ t := by
  cases hblank : before.isBlank with
  | true =>
    refine ⟨[], ?_⟩
    simpa [htrim] using Text.trim_append_of_isBlank hblank Text.isBlank_nil t
  | false =>
    refine ⟨before.trimStart, ?_⟩
    rw [Text.trim, Text.trimStart_append_of_not_isBlank hblank,
      Text.trimEnd_append_of_not_isBlank hne,
      Text.trimEnd_of_getLast? (Text.isBlank_ends_of_trim htrim).2]

/-- The id is read from the URL of a record, whatever stands before its last bracket. -/
theorem idOfUrl?_append (h : IsBareId id) {w : Text} (hw : w ∈ wrappings id) {l r : Text}
    (hl : l.isBlank = true) (hr : r.isBlank = true) (before : Text) :
    idOfUrl? (l ++ ((before ++ '(' :: w ++ [')']) ++ r)) = some id := by
  obtain ⟨hfilter, hbracket⟩ := filter_of_mem_wrappings h hw
  have htrim : Text.trim ('(' :: w ++ [')']) = '(' :: w ++ [')'] := by
    refine Text.trim_of_ends (fun c hc => ?_) fun c hc => ?_
    · obtain rfl : '(' = c := by simpa using hc
      rfl
    · rw [List.getLast?_concat] at hc
      cases hc
      rfl
  have hopen : isBlank '(' = false := rfl
  obtain ⟨head, hhead⟩ := exists_trim_append htrim (by simp [hopen]) before
  have hclosed : withoutBracket? (head ++ ('(' :: w ++ [')'])) = some (head ++ '(' :: w) := by
    have hwhole : head ++ ('(' :: w ++ [')']) = (head ++ '(' :: w) ++ [')'] := by simp
    rw [withoutBracket?, hwhole, List.getLast?_concat, if_pos rfl, List.dropLast_concat]
  have hempty : ¬ id.isEmpty = true := by simpa using h.ne_nil
  rw [idOfUrl?_eq, Text.trim_append_of_isBlank hl hr, List.append_assoc, hhead, hclosed]
  simp only [Option.bind_eq_bind, Option.bind_some, Text.afterLast_append_cons hbracket, hfilter,
    if_neg hempty]

/-- Whatever is read as an id has something in it, but nothing that opens or wraps an id. -/
theorem of_idOfUrl? {url : Text} (h : idOfUrl? url = some id) :
    id ≠ [] ∧ '(' ∉ id ∧ ∀ c ∈ id, isWrapping c = false := by
  rw [idOfUrl?_eq] at h
  obtain ⟨t, -, h⟩ := Option.bind_eq_some_iff.1 h
  obtain ⟨inside, hinside, h⟩ := Option.bind_eq_some_iff.1 h
  obtain ⟨before, -, hbracket⟩ := Text.afterLast_eq_some.1 hinside
  dsimp only at h
  split at h
  · cases h
  · next hne =>
    cases h
    refine ⟨by simpa using hne, fun hmem => hbracket (List.mem_of_mem_filter hmem), fun c hc => ?_⟩
    simpa using (List.mem_filter.1 hc).2

theorem GivesUrl.exists_header? {response : Response} {url : Text} (h : GivesUrl response url) :
    ∃ l r : Text, l.isBlank = true ∧ r.isBlank = true ∧
      response.header? "OData-EntityId".toList = some (l ++ (url ++ r)) := by
  obtain ⟨before, name, l, r, after, hheaders, hbefore, hname, hl, hr⟩ := h
  refine ⟨l, r, hl, hr, ?_⟩
  rw [header?, Headers.find?, hheaders, List.find?_append, List.find?_eq_none.2, Option.none_or,
    List.find?_cons]
  · simp only [hname, Option.map_some]
  · exact fun header hmem => Bool.eq_false_iff.1 (hbefore header hmem)

end Response

namespace Statement

/-- The marks of a statement that deletes the record with an id. -/
def deletionMarks (entity field id : Text) : List Mark :=
  (Change.remove true).marks entity ++
    Mark.clause ["where".toList] (comparisonMarks field id)

/-- The usual way to write a statement that deletes the record with an id. -/
theorem states_deletionMarks (entity field id : Text) :
    States (deletionMarks entity field id)
      ("DELETE FROM ".toList ++ entity ++ " WHERE ".toList ++ field ++ " = ".toList ++
        id.quoted) := by
  refine ⟨_, ?_, .inl (Text.trim_of_ends (fun c hc => ?_) (Text.isBlank_getLast?_quoted _ id))⟩
  · simp only [List.append_assoc]
    exact ⟨"DELETE".toList, _, rfl, by decide, [' '], _, rfl, by decide, "FROM".toList, _, rfl,
      by decide, [' '], _, rfl, by decide, entity, _, rfl, rfl, [' '], _, rfl, by decide,
      "WHERE".toList, _, rfl, by decide, [' '], _, rfl, by decide, field, _, rfl, rfl, [' '], _,
      rfl, by decide, ['='], _, rfl, rfl, [' '], _, rfl, by decide, written_text.2 rfl⟩
  · obtain rfl : 'D' = c := by simpa using hc
    rfl

end Statement

open Statement Response

namespace Service

variable {entity field id : Text}

/-- The id of a new record is reported as it is in the URL that the service gives. -/
theorem run_insert_of_givesUrl (s : Service) (hid : IsBareId id) {w : Text} (hw : w ∈ wrappings id)
    {q : Insert} {response : Response} (hlow : 200 ≤ response.status)
    (hhigh : response.status < 300)
    (hurl : response.GivesUrl (s.collectionUrl q.entity ++ '(' :: w ++ [')']))
    (answers : List Answer) :
    (s.run (.insert q) (.ok response :: answers)).result = .ok (.created (some id)) := by
  obtain ⟨l, r, hl, hr, hheader⟩ := hurl.exists_header?
  have hcreated : Execution.createdId response = some id := by
    rw [Execution.createdId, hheader, Option.bind_some, idOfUrl?_append hid hw hl hr]
  have hsuccess : response.isSuccess = true := by simp [Response.isSuccess, hlow, hhigh]
  simp [run, Execution.send, Execution.outcomeOf, hsuccess, Exchange.map, Except.map, hcreated]

/-- A deletion of the record with an id is one request to the URL of the record. -/
theorem plan_of_deletionMarks (s : Service) (hentity : entity.IsEntityName)
    (hfield : field.IsIdName) (hid : IsBareId id) {t : Text}
    (ht : States (deletionMarks entity field id) t) (checks : Checks) :
    ∃ q, Query.ofText checks t = .ok q ∧
      s.plan q = .ok (.direct (Mutation.remove.requestFor (s.collectionUrl entity) id)) := by
  have hcondition {c : Text} (hc : Written (comparisonMarks field id) c) :
      IsCondition [] c ∧ Filter.ofCondition c = field ++ (" eq ".toList ++ id.quoted) := by
    refine ⟨isCondition_comparison hfield.1 hid.quote_notMem hc, ?_⟩
    obtain ⟨l, r, hl, hr, rfl⟩ := exists_comparison hc
    exact Filter.ofCondition_id hfield hl hr hid.quote_notMem
  have ht : States ((Change.remove true).marks entity ++ Mark.optional ((some ()).map fun _ =>
      Mark.clause ["where".toList] (comparisonMarks field id))) t := ht
  have hvalid : (Change.remove true).Valid := trivial
  have hread : Query.ofText checks t =
      .ok ((Change.remove true).query entity (some (field ++ (" eq ".toList ++ id.quoted)))) :=
    ofText_change hvalid hentity (fun _ _ _ => hcondition) ht (.inr (by simp))
  have hrecord : Filter.recordId? (field ++ (" eq ".toList ++ id.quoted)) = some id := by
    rw [Filter.recordId?_id hfield hid.quote_notMem
      (by rw [hid.withoutBraces_eq, hid.isBlank_eq_false]), hid.withoutBraces_eq, hid.trim_eq]
  exact ⟨_, hread, (plan_change s _).trans (congrArg Except.ok (planFor_of_recordId hrecord))⟩

/-- The id that is reported for a new record is the one in the URL that the service gives, and a
    deletion whose condition names this id is one request to this URL. Nothing that stands around
    ids is ever part of an id that is read. -/
theorem created_id_names_record (s : Service) (hentity : entity.IsEntityName)
    (hfield : field.IsIdName) (hid : IsBareId id) :
    (∀ w ∈ wrappings id, ∀ values response answers,
      200 ≤ response.status → response.status < 300 →
      response.GivesUrl (s.collectionUrl entity ++ '(' :: w ++ [')']) →
      (s.run (.insert ⟨entity, values⟩) (.ok response :: answers)).result =
        .ok (.created (some id))) ∧
    (∀ t checks, States (deletionMarks entity field id) t →
      ∃ q r, Query.ofText checks t = .ok q ∧ s.plan q = .ok (.direct r) ∧ r.method = .delete ∧
        r.endpoint = s.collectionUrl entity ++ '(' :: id ++ [')']) ∧
    ∀ header found, idOfUrl? header = some found →
      found ≠ [] ∧ ∀ c ∈ found, c ≠ '(' ∧ c ≠ '\x7b' ∧ c ≠ '\x7d' ∧ c ≠ '\'' := by
  refine ⟨fun w hw values response answers hlow hhigh hurl =>
    run_insert_of_givesUrl s hid hw hlow hhigh hurl answers, fun t checks ht => ?_,
    fun header found hfound => ?_⟩
  · obtain ⟨q, hread, hplan⟩ := plan_of_deletionMarks s hentity hfield hid ht checks
    exact ⟨q, _, hread, hplan, rfl, rfl⟩
  · obtain ⟨hne, hbracket, hwrapping⟩ := of_idOfUrl? hfound
    refine ⟨hne, fun c hc => ⟨ne_of_mem_of_not_mem hc hbracket, ?_⟩⟩
    simpa [isWrapping, and_assoc] using hwrapping c hc

/-- An id with the characters that end a key in a URL, a list, and a statement, which is reported
    in braces by a service whose URL has a bracket in it. -/
theorem created_id_names_record_of_delimiters :
    let s : Service := ⟨"https://x(1)".toList, defaultVersion⟩
    let id : Text := "1), b;".toList
    (s.run (.insert ⟨['t'], .empty⟩) [.ok ⟨204, [("odata-ENTITYID".toList,
        " https://x(1)/api/data/v9.2/t(\x7b1), b;\x7d)\t".toList)], []⟩]).result =
      .ok (.created (some id)) ∧
    ∃ q r, Query.ofText .strict "DELETE FROM t WHERE tid = '1), b;'".toList = .ok q ∧
      s.plan q = .ok (.direct r) ∧ r.method = .delete ∧
      r.endpoint = "https://x(1)/api/data/v9.2/t(1), b;)".toList := by
  intro s id
  have hentity : Text.IsEntityName ['t'] := by decide
  have hfield : Text.IsIdName "tid".toList := by decide
  have hid : IsBareId id := by decide +kernel
  obtain ⟨hcreated, hdeleted, -⟩ := created_id_names_record s hentity hfield hid
  refine ⟨hcreated ('\x7b' :: id ++ ['\x7d']) (by simp [wrappings]) _ _ [] (by decide) (by decide)
    ⟨[], _, [' '], ['\t'], [], rfl, by simp, by decide +kernel, rfl, rfl⟩, ?_⟩
  exact hdeleted _ _ (states_deletionMarks ['t'] "tid".toList id)

end Service

end EntityQuery
