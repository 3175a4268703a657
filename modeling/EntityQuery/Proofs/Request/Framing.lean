-- SUMMARY: Which requests keep their frame as HTTP text, whatever the statement says.
import EntityQuery.Proofs.Json.Characters
import EntityQuery.Proofs.Request.Host
import EntityQuery.Proofs.Request.Url
import EntityQuery.Proofs.Statement.WellFormed
import EntityQuery.Proofs.Text.Visible

/-!
# Frames of requests

The text of a statement reaches the HTTP text of its request in three ways: in
the values of parameters, which are percent-encoded, in the body, which is JSON,
and in the id of a record, which is written as it is. The first two cannot break
a line or add a word to the request line. The id can: the request keeps its
frame only if the id has neither blanks nor control characters.
-/

namespace EntityQuery

/-! ## Marks in a URL -/

/-- A text that a character is not in does not reach over that character. -/
theorem isPrefix_of_append_cons {l s t : Text} {c : Char} (hc : c ∉ l) (h : l <+: s ++ c :: t) :
    l <+: s := by
  have hs : s ++ [c] <+: s ++ c :: t := ⟨t, by simp⟩
  obtain hle | hle := List.prefix_or_prefix_of_prefix h hs
  · obtain rfl | hle := List.prefix_concat_iff.1 hle
    · exact absurd (by simp) hc
    · exact hle
  · exact absurd (hle.subset (by simp)) hc

theorem isInfix_cases_of_append_cons {l s t : Text} {c : Char} (hc : c ∉ l)
    (h : l <:+: s ++ c :: t) : l <:+: s ∨ l <:+: t := by
  induction s with
  | nil =>
    obtain h | h := List.infix_cons_iff.1 h
    · exact .inl (isPrefix_of_append_cons (s := []) hc h).isInfix
    · exact .inr h
  | cons d s ih =>
    obtain h | h := List.infix_cons_iff.1 h
    · exact .inl (isPrefix_of_append_cons (s := d :: s) hc h).isInfix
    · exact (ih h).imp (fun h => h.trans (List.suffix_cons d s).isInfix) id

namespace Request

/-- What a URL shows as its host and its target is in the URL. -/
theorem splitHost_subset (url : Text) :
    (∀ host ∈ (splitHost url).1, host ⊆ url) ∧ (splitHost url).2 ⊆ '/' :: url := by
  by_cases h : hostMark <:+: url
  · obtain ⟨before, after, rfl, hbefore⟩ := exists_first_hostMark h
    obtain ⟨host, path, rfl, hhost, hpath⟩ := exists_host_path after
    rw [splitHost_of_mark hbefore hhost hpath]
    constructor
    · rintro _ ⟨⟩ c hc
      simp [hc]
    · intro c hc
      rw [pathOrRoot] at hc
      split at hc <;> simp_all
  · rw [splitHost_of_not_mark h]
    exact ⟨by simp, List.subset_cons_self _ _⟩

/-- What is shown of a URL is everything after its first mark. -/
theorem isVisible_of_splitHost {s t : Text}
    (h : hostMark <:+: s ∨ ¬ hostMark <:+: s ++ t)
    (hhost : ∀ host ∈ (splitHost (s ++ t)).1, host.IsVisible)
    (htarget : (splitHost (s ++ t)).2.IsVisible) : t.IsVisible := by
  obtain h | h := h
  · obtain ⟨before, after, rfl, hbefore⟩ := exists_first_hostMark h
    obtain ⟨host, path, hafter, hplain, hpath⟩ := exists_host_path (after ++ t)
    have hurl : before ++ (hostMark ++ after) ++ t = before ++ (hostMark ++ (host ++ path)) := by
      rw [← hafter]
      simp only [List.append_assoc]
    rw [hurl, splitHost_of_mark hbefore hplain hpath] at hhost htarget
    have hpath : path.IsVisible := by
      rw [pathOrRoot] at htarget
      split at htarget
      · next hempty =>
        rw [List.isEmpty_iff.1 hempty]
        exact Text.isVisible_nil
      · exact htarget
    have hall : (after ++ t).IsVisible := hafter ▸ Text.isVisible_append.2 ⟨hhost host rfl, hpath⟩
    exact (Text.isVisible_append.1 hall).2
  · rw [splitHost_of_not_mark h] at htarget
    exact (Text.isVisible_append.1 htarget).2

/-! ## Frames -/

/-- The lines after the headers: if there is a body, an empty line and the body. The last line
    ends, so nothing is in what follows it. -/
def bodyLines (body : Option Text) : List Text :=
  body.elim [[]] fun body => [[], body, []]

/-- The text of a request has the lines that it is meant to have: a request line of three words, the
    host and the headers of the request, one to a line, and the body on one line. -/
structure IsFramed (r : Request) : Prop where
  lines : (r.toHttp true).pieces '\n' = requestLine r.method (splitHost r.encodedUrl).2 ::
    (hostHeaders (splitHost r.encodedUrl).1 ++ r.headers).map
      (fun (name, value) => headerText name value) ++ bodyLines r.body
  words : (requestLine r.method (splitHost r.encodedUrl).2).pieces ' ' =
    [r.method.word, (splitHost r.encodedUrl).2, "HTTP/1.1".toList]
  target : (splitHost r.encodedUrl).2.IsVisible
  host : ∀ host ∈ (splitHost r.encodedUrl).1, host.IsVisible
  body : ∀ body ∈ r.body, Json.IsLine body

theorem join_headers (headers : Headers) (body : Option Text) :
    Text.join ['\n'] (headers.map (fun (name, value) => headerText name value) ++ bodyLines body) =
      (headers.flatMap fun (name, value) => headerLine name value) ++
        body.elim [] fun body => '\n' :: body ++ ['\n'] := by
  induction headers with
  | nil => cases body <;> rfl
  | cons header headers ih =>
    obtain ⟨name, value⟩ := header
    have hne : headers.map (fun (name, value) => headerText name value) ++ bodyLines body ≠ [] := by
      cases body <;> simp [bodyLines]
    rw [Text.join] at ih
    rw [List.map_cons, List.cons_append, Text.join, List.intercalate_cons_of_ne_nil hne, ih]
    simp [headerText, headerLine]

/-- The HTTP text of a request is its lines, with their ends between them. -/
theorem httpText_eq_join (r : Request) (host : Option Text) (target : Text) :
    r.httpText host target = Text.join ['\n'] (requestLine r.method target ::
      (hostHeaders host ++ r.headers).map (fun (name, value) => headerText name value) ++
        bodyLines r.body) := by
  have hne : (hostHeaders host ++ r.headers).map (fun (name, value) => headerText name value) ++
      bodyLines r.body ≠ [] := by
    cases r.body <;> simp [bodyLines]
  rw [List.cons_append, Text.join, List.intercalate_cons_of_ne_nil hne, ← Text.join, join_headers,
    httpText]
  simp

/-- A request whose URL is visible and whose body is a line is framed. -/
theorem isFramed_of_isVisible {r : Request} {withBody : Bool}
    (hheaders : r.headers = standardHeaders withBody) (hurl : r.encodedUrl.IsVisible)
    (hbody : ∀ body ∈ r.body, Json.IsLine body) : r.IsFramed := by
  obtain ⟨hhost, htarget⟩ := splitHost_subset r.encodedUrl
  have htarget : (splitHost r.encodedUrl).2.IsVisible :=
    Text.IsVisible.subset (Text.isVisible_cons.2 ⟨by decide, hurl⟩) htarget
  have hhost : ∀ host ∈ (splitHost r.encodedUrl).1, host.IsVisible := fun host hmem =>
    hurl.subset (hhost host hmem)
  have hnewline : isVisible '\n' = false := by decide
  refine ⟨?_, ?_, htarget, hhost, hbody⟩
  · have hlines : '\n' ∉ requestLine r.method (splitHost r.encodedUrl).2 :=
      newline_notMem_requestLine _ (htarget.notMem hnewline)
    have hmore := newline_notMem_headerText hheaders fun host hmem => (hhost host hmem).notMem hnewline
    have hlast : ∀ line ∈ bodyLines r.body, '\n' ∉ line := by
      cases hb : r.body with
      | none => simp [bodyLines]
      | some body =>
        have hline : '\n' ∉ body := fun hmem => absurd (hbody body hb _ hmem) (by decide)
        simp [bodyLines, hline]
    rw [toHttp_eq, shownUrl, if_pos rfl, httpText_eq_join]
    refine pieces_join (by simp) ?_
    rw [List.cons_append, List.forall_mem_cons, List.forall_mem_append]
    refine ⟨hlines, fun line hline => ?_, hlast⟩
    obtain ⟨header, hheader, rfl⟩ := List.mem_map.1 hline
    exact hmore header hheader
  · have hwords : requestLine r.method (splitHost r.encodedUrl).2 =
        Text.join [' '] [r.method.word, (splitHost r.encodedUrl).2, "HTTP/1.1".toList] := by
      simp [requestLine, Text.join]
    have hword : ' ' ∉ r.method.word := by cases r.method <;> decide
    rw [hwords]
    refine pieces_join (by simp) ?_
    simp only [List.forall_mem_cons]
    exact ⟨hword, htarget.notMem (by decide), by decide, by simp⟩

/-- The URL of a request is visible if its endpoint and the names of its parameters are, whatever
    the values of the parameters are. -/
theorem isVisible_encodedUrl {r : Request} (hendpoint : r.endpoint.IsVisible)
    (hparams : ∀ param ∈ r.params, param.1.IsVisible) : r.encodedUrl.IsVisible := by
  have hjoin : ∀ ts : List Text, (∀ t ∈ ts, t.IsVisible) → (Text.join ['&'] ts).IsVisible := by
    intro ts hts
    induction ts with
    | nil => exact Text.isVisible_nil
    | cons t ts ih =>
      obtain ⟨ht, hts⟩ := List.forall_mem_cons.1 hts
      by_cases hne : ts = []
      · simp [Text.join, hne, ht]
      · rw [Text.join, List.intercalate_cons_of_ne_nil hne, ← Text.join]
        simp [ht, ih hts, (by decide : isVisible '&' = true)]
  rw [encodedUrl, urlWith]
  split
  · exact hendpoint
  · rw [Text.isVisible_append, Text.isVisible_cons]
    refine ⟨hendpoint, by decide, hjoin _ fun t ht => ?_⟩
    obtain ⟨param, hparam, rfl⟩ := List.mem_map.1 ht
    simp [hparams param hparam, Text.isVisible_percentEncode, (by decide : isVisible '=' = true)]

end Request

/-! ## Statements -/

theorem isVisible_of_isNameChar {c : Char} (h : Statement.isNameChar c = true) :
    isVisible c = true := by
  have hcontrol : isControl c = false := by
    by_contra hcontrol
    have hlt : c.toNat < 160 := by
      simp only [isControl, Bool.not_eq_false, Bool.or_eq_true, Bool.and_eq_true,
        decide_eq_true_eq] at hcontrol
      omega
    have hall : ∀ n < 160, isControl (Char.ofNat n) = true →
        Statement.isNameChar (Char.ofNat n) = false := by decide +kernel
    have hc := hall c.toNat hlt
    rw [Char.ofNat_toNat, h] at hc
    exact absurd (hc (by simpa using hcontrol)) (by decide)
  have hblank : isBlank c = false := by
    by_contra hblank
    rw [Statement.isNameChar_of_isBlank (by simpa using hblank)] at h
    cases h
  rw [isVisible, hblank, hcontrol]
  rfl

/-- Every query that a text is read as is about an entity. -/
theorem Query.isEntity_of_ofText {checks : Statement.Checks} {t : Text} {q : Query}
    (h : ofText checks t = .ok q) : IsEntity q.entity := by
  obtain ⟨statement, op, -, -, hread, -⟩ := Statement.exists_of_ofText h
  cases op with
  | select =>
    obtain ⟨s, hs, rfl⟩ := Statement.map_eq_ok.1 hread
    exact (Statement.isEntity_of_readSelect hs).1
  | insert =>
    obtain ⟨i, hi, rfl⟩ := Statement.map_eq_ok.1 hread
    exact (Statement.wellFormed_of_readInsert hi).1
  | update =>
    obtain ⟨u, hu, rfl⟩ := Statement.map_eq_ok.1 hread
    exact (Statement.wellFormed_of_readUpdate hu).1
  | delete =>
    obtain ⟨d, hd, rfl⟩ := Statement.map_eq_ok.1 hread
    exact (Statement.wellFormed_of_readDelete hd).1

namespace Service

variable {s : Service} {q : Query} {r : Request}

theorem isVisible_collectionUrl (hs : s.baseUrl.IsVisible ∧ s.version.IsVisible) {entity : Text}
    (h : IsEntity entity) : (s.collectionUrl entity).IsVisible := by
  have hentity : entity.IsVisible := fun c hc => isVisible_of_isNameChar (h.isNameChar c hc)
  have hplace : Text.IsVisible "/api/data/v".toList := by decide
  simp only [collectionUrl, Text.isVisible_append, Text.isVisible_cons]
  exact ⟨⟨⟨hs.1, hplace⟩, hs.2⟩, by decide, hentity⟩

theorem isLine_bodyOf (values : Assignments) : Json.IsLine (bodyOf values) :=
  Json.isLine_textAt 0 values.toJson

/-- The request of a change or a deletion is for the record that its filter names. -/
theorem exists_recordId (hq : q.operation = .update ∨ q.operation = .delete)
    (h : s.request q = .ok r) : ∃ id, q.filter.bind Filter.recordId? = some id ∧
      ∃ m : Mutation, r = m.requestFor (s.collectionUrl q.entity) id := by
  obtain ⟨m, filter, -, hfilter, hdirect⟩ := plan_cases (exists_plan_direct hq h)
  obtain ⟨id, hid, hr⟩ := exists_of_planFor_direct hdirect.symm
  exact ⟨id, by rw [hfilter, Option.bind_some, hid], m, hr⟩

theorem isFramed_requestFor (m : Mutation) {collection id : Text}
    (h : (recordUrl collection id).IsVisible) : (m.requestFor collection id).IsFramed := by
  refine Request.isFramed_of_isVisible rfl h fun body hbody => ?_
  cases m with
  | change values =>
    cases hbody
    exact isLine_bodyOf values
  | remove => cases hbody

/-- Which requests keep their frame, whatever the statement says. The requests that read and create
    records do. A request that changes or deletes a record does if the id of the record is visible.
    If the id is not taken for a host, the request keeps its frame only then. -/
theorem isFramed_of_ofText {checks : Statement.Checks} {t base version : Text}
    (hq : Query.ofText checks t = .ok q) (hs : Service.ofBaseUrl base version = .ok s)
    (hbase : base.trim.IsVisible) (hversion : version.IsVisible) (hr : s.request q = .ok r) :
    (q.operation = .select ∨ q.operation = .insert → r.IsFramed) ∧
      (q.operation = .update ∨ q.operation = .delete →
        ∃ id, q.filter.bind Filter.recordId? = some id ∧
          r.endpoint = recordUrl (s.collectionUrl q.entity) id ∧
          (id.IsVisible → r.IsFramed) ∧
          (hostMark <:+: s.baseUrl ∨ ¬ hostMark <:+: id → (r.IsFramed ↔ id.IsVisible))) := by
  have hservice : s.baseUrl.IsVisible ∧ s.version.IsVisible := by
    unfold ofBaseUrl at hs
    split at hs
    · cases hs
      exact ⟨hbase.subset (withoutSlashes_isPrefix base.trim).subset, hversion⟩
    · cases hs
  have hcollection := isVisible_collectionUrl hservice (Query.isEntity_of_ofText hq)
  refine ⟨fun hop => ?_, fun hop => ?_⟩
  · cases q with
    | select q =>
      cases hr
      refine Request.isFramed_of_isVisible rfl ?_ (by rintro _ ⟨⟩)
      refine Request.isVisible_encodedUrl hcollection fun param hparam => ?_
      exact (by decide : ∀ name ∈ Select.paramNames, name.IsVisible) _
        (Select.name_mem_of_mem_params hparam)
    | insert q =>
      cases hr
      refine Request.isFramed_of_isVisible rfl hcollection ?_
      rintro _ ⟨⟩
      exact isLine_bodyOf q.values
    | update q => simp [Query.operation] at hop
    | delete q => simp [Query.operation] at hop
  · obtain ⟨id, hid, m, rfl⟩ := exists_recordId hop hr
    have hvisible : (recordUrl (s.collectionUrl q.entity) id).IsVisible ↔ id.IsVisible := by
      simp [recordUrl, hcollection, (by decide : isVisible '(' = true),
        (by decide : isVisible ')' = true)]
    have hframed := fun h => isFramed_requestFor m (hvisible.2 h)
    refine ⟨id, hid, rfl, hframed, fun hmark => ⟨fun h => ?_, hframed⟩⟩
    -- The id stands after the first mark, or no mark is in the URL.
    have hurl : (m.requestFor (s.collectionUrl q.entity) id).encodedUrl =
        s.collectionUrl q.entity ++ '(' :: (id ++ [')']) := by
      simp [Request.encodedUrl, Request.urlWith, Mutation.requestFor, Request.make, recordUrl]
    have hrest := Request.isVisible_of_splitHost (s := s.collectionUrl q.entity)
      (t := '(' :: (id ++ [')'])) ?_ (hurl ▸ h.host) (hurl ▸ h.target)
    · exact (Text.isVisible_append.1 (Text.isVisible_cons.1 hrest).2).1
    · obtain hbase | hid := hmark
      · refine .inl (hbase.trans ?_)
        simp only [collectionUrl, List.append_assoc]
        exact (List.prefix_append _ _).isInfix
      · refine or_iff_not_imp_left.2 fun hcollection hall => ?_
        obtain h | h := isInfix_cases_of_append_cons (by decide) hall
        · exact hcollection h
        · obtain h | h := isInfix_cases_of_append_cons (by decide) h
          · exact hid h
          · exact absurd h (by decide)

/-- A service at an absolute base URL. -/
def exampleService : Service :=
  ⟨"https://o".toList, defaultVersion⟩

theorem ofBaseUrl_exampleService :
    Service.ofBaseUrl " https://o/ ".toList defaultVersion = .ok exampleService := by
  decide +kernel

/-- Two texts with ends of lines in literals: a selection, and a deletion whose id is visible. -/
theorem isFramed_of_ofText_of_lines :
    (∃ q r, Query.ofText {} "SELECT a FROM t WHERE n = '\r\nHost: x'".toList = .ok q ∧
        exampleService.request q = .ok r ∧ r.IsFramed) ∧
      ∃ q r, Query.ofText {} "DELETE FROM t WHERE tid = '\n\x7bé-1\x7d\n'".toList = .ok q ∧
        exampleService.request q = .ok r ∧ r.IsFramed := by
  have hbase : Text.IsVisible (Text.trim " https://o/ ".toList) := by decide
  have hselect : Query.ofText {} "SELECT a FROM t WHERE n = '\r\nHost: x'".toList =
      .ok (.select ⟨['t'], [['a']], some "n eq '\r\nHost: x'".toList, none, none⟩) := by
    decide +kernel
  have hdelete : Query.ofText {} "DELETE FROM t WHERE tid = '\n\x7bé-1\x7d\n'".toList =
      .ok (.delete ⟨['t'], some "tid eq '\n\x7bé-1\x7d\n'".toList⟩) := by
    decide +kernel
  have hid : Filter.recordId? "tid eq '\n\x7bé-1\x7d\n'".toList = some "é-1".toList := by
    decide +kernel
  have hrequest : exampleService.request (.delete ⟨['t'], some "tid eq '\n\x7bé-1\x7d\n'".toList⟩) =
      .ok (Mutation.remove.requestFor (exampleService.collectionUrl ['t']) "é-1".toList) := by
    decide +kernel
  refine ⟨⟨_, _, hselect, rfl, ?_⟩, _, _, hdelete, hrequest, ?_⟩
  · exact (isFramed_of_ofText hselect ofBaseUrl_exampleService hbase (by decide) rfl).1 (.inl rfl)
  · obtain ⟨id, hsome, -, hframed, -⟩ :=
      (isFramed_of_ofText hdelete ofBaseUrl_exampleService hbase (by decide) hrequest).2 (.inr rfl)
    obtain rfl := Option.some.inj (hid.symm.trans hsome)
    exact hframed (by decide)

/-- The text of a deletion whose id ends a line. -/
def breakingDeletion : Text :=
  "DELETE FROM t WHERE tid = '1\nX-Evil: 1'".toList

/-- The id of a record may end a line of its request. -/
theorem not_isFramed_breakingDeletion :
    ¬ ∀ (checks : Statement.Checks) (t base version : Text) (q : Query) (s : Service) (r : Request),
      Query.ofText checks t = .ok q → Service.ofBaseUrl base version = .ok s →
      base.trim.IsVisible → version.IsVisible → s.request q = .ok r → r.IsFramed := by
  intro h
  have hread : Query.ofText {} breakingDeletion =
      .ok (.delete ⟨['t'], some "tid eq '1\nX-Evil: 1'".toList⟩) := by decide +kernel
  have hrequest : exampleService.request (.delete ⟨['t'], some "tid eq '1\nX-Evil: 1'".toList⟩) =
      .ok (Mutation.remove.requestFor (exampleService.collectionUrl ['t']) "1\nX-Evil: 1".toList) := by
    decide +kernel
  have hframed := h {} breakingDeletion _ _ _ _ _ hread ofBaseUrl_exampleService (by decide)
    (by decide) hrequest
  have htarget : ¬ (Request.splitHost (Mutation.remove.requestFor
      (exampleService.collectionUrl ['t']) "1\nX-Evil: 1".toList).encodedUrl).2.IsVisible := by
    decide +kernel
  exact htarget hframed.target

end Service

end EntityQuery
