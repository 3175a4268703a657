-- SUMMARY: The URL that reads records says everything that the selection says.
import EntityQuery.Proofs.Statement.Accepted
import EntityQuery.Proofs.Statement.Item
import EntityQuery.Proofs.Text.Percent
import EntityQuery.Request.Service

/-!
# Selections in URLs

A service takes the URL of a request apart: at the first question mark after the
place of its collections, at the ampersands, and at the first equals sign of each
parameter. What it finds there are the parts of the selection, so no two
selections that statements are read as have the same URL.
-/

namespace EntityQuery

/-! ## Lists -/

/-- What is read from each item as it was written is the list that was written. -/
theorem mapM_map_of_forall {α β : Type} {write : α → β} {read : β → Option α} {l : List α}
    (h : ∀ a ∈ l, read (write a) = some a) : (l.map write).mapM read = some l := by
  induction l with
  | nil => rfl
  | cons a l ih =>
    obtain ⟨ha, hl⟩ := List.forall_mem_cons.1 h
    rw [List.map_cons, List.mapM_cons, ha, ih hl]
    rfl

theorem pieces_join {x : Char} {ts : List Text} (hne : ts ≠ []) (h : ∀ t ∈ ts, x ∉ t) :
    Text.pieces x (Text.join [x] ts) = ts :=
  List.splitOn_intercalate x h hne

/-- The value of a name that may have none, in a table of different names. -/
theorem lookup_filterMap {α : Type} {table : List (Text × Option α)}
    (h : (table.map Prod.fst).Nodup) (name : Text) :
    (table.filterMap fun (n, value) => value.map (n, ·)).lookup name =
      (table.lookup name).join := by
  induction table with
  | nil => rfl
  | cons entry table ih =>
    obtain ⟨n, value⟩ := entry
    obtain ⟨hn, htable⟩ := List.nodup_cons.1 h
    have hrest : table.lookup n = none := by
      refine List.lookup_eq_none_iff.2 fun entry hentry => bne_iff_ne.2 (Ne.symm ?_)
      exact ne_of_mem_of_not_mem (List.mem_map_of_mem hentry) hn
    by_cases hname : name = n
    · subst hname
      cases value with
      | none => simp [ih htable, hrest]
      | some value => simp
    · have hother : (name == n) = false := beq_eq_false_iff_ne.2 hname
      cases value with
      | none => simp [ih htable, List.lookup_cons, hother]
      | some value => simp [ih htable, List.lookup_cons, hother]

/-! ## Taking a URL apart -/

namespace Request

/-- A parameter of a URL, its value percent-decoded. -/
def readParam? (t : Text) : Option (Text × Text) := do
  let (name, value) ← t.splitFirst '='
  let value ← value.percentDecode?
  some (name, value)

/-- What stands before the parameters of a URL, and the parameters. -/
def readUrl? (t : Text) : Option (Text × List (Text × Text)) :=
  match t.splitFirst '?' with
  | none => some (t, [])
  | some (endpoint, query) => ((query.pieces '&').mapM readParam?).map (endpoint, ·)

/-- What stands before an endpoint stands before the URL. -/
theorem encodedUrl_append (r : Request) (place : Text) :
    { r with endpoint := place ++ r.endpoint }.encodedUrl = place ++ r.encodedUrl := by
  unfold encodedUrl urlWith
  split <;> simp_all

theorem readParam?_encoded {name : Text} (hname : '=' ∉ name) (value : Text) :
    readParam? (name ++ '=' :: value.percentEncode) = some (name, value) := by
  simp only [readParam?, Text.splitFirst_append_cons hname, Option.bind_eq_bind, Option.bind_some,
    Text.percentDecode?_percentEncode]

/-- A URL is taken apart into what it was put together from, if the names of its parameters have
    no separators in them. -/
theorem readUrl?_encodedUrl {r : Request} (hendpoint : '?' ∉ r.endpoint)
    (hparams : ∀ param ∈ r.params, '=' ∉ param.1 ∧ '&' ∉ param.1) :
    readUrl? r.encodedUrl = some (r.endpoint, r.params) := by
  rw [encodedUrl, urlWith]
  split
  · next hnil =>
    rw [readUrl?, Text.splitFirst_eq_none.2 hendpoint, List.isEmpty_iff.1 hnil]
  · next hne =>
    have hitems : ∀ item ∈ r.params.map fun (name, value) => name ++ '=' :: value.percentEncode,
        '&' ∉ item := by
      intro item hitem
      obtain ⟨param, hparam, rfl⟩ := List.mem_map.1 hitem
      have hvalue : '&' ∉ param.2.percentEncode := Text.notMem_percentEncode rfl (by decide) _
      simp [(hparams param hparam).2, hvalue]
    rw [readUrl?, Text.splitFirst_append_cons hendpoint]
    simp only [pieces_join (mt List.map_eq_nil_iff.1 (by simpa using hne)) hitems]
    rw [mapM_map_of_forall fun param hparam => readParam?_encoded (hparams param hparam).1 _]
    rfl

end Request

/-! ## Parameters -/

namespace Direction

/-- The direction that a request has a word for. -/
def ofRequestWord? (t : Text) : Option Direction :=
  [asc, desc].find? (·.requestWord == t)

theorem ofRequestWord?_requestWord (d : Direction) : ofRequestWord? d.requestWord = some d := by
  cases d <;> decide

end Direction

namespace OrderBy

/-- A field and its direction, read as a request writes them. -/
def ofText? (t : Text) : Option OrderBy := do
  let (field, word) ← t.splitFirst ' '
  let direction ← Direction.ofRequestWord? word
  some ⟨field, direction⟩

theorem ofText?_text {o : OrderBy} (h : ' ' ∉ o.field) : ofText? o.text = some o := by
  simp only [ofText?, text, Text.splitFirst_append_cons h, Option.bind_eq_bind, Option.bind_some,
    Direction.ofRequestWord?_requestWord]

theorem comma_notMem_text {o : OrderBy} (h : ',' ∉ o.field) : ',' ∉ o.text := by
  have hword : ',' ∉ o.direction.requestWord := by cases o.direction <;> decide
  simp [text, h, hword]

/-- A list of fields with their directions is read as a request writes it. -/
theorem ofText?_join {os : List OrderBy} (hne : os ≠ [])
    (h : ∀ o ∈ os, ' ' ∉ o.field ∧ ',' ∉ o.field) :
    (Text.pieces ',' (Text.join [','] (os.map text))).mapM ofText? = some os := by
  have hcomma : ∀ t ∈ os.map text, ',' ∉ t := by
    simpa using fun o ho => comma_notMem_text (h o ho).2
  rw [pieces_join (by simpa using hne) hcomma]
  exact mapM_map_of_forall fun o ho => ofText?_text (h o ho).1

end OrderBy

namespace Select

/-- The selection that the parameters of a request for the records of an entity stand for. -/
def ofParams? (entity : Text) (params : List (Text × Text)) : Option Select := do
  let orderBy ← (params.lookup "$orderby".toList).mapM fun order =>
    (order.pieces ',').mapM OrderBy.ofText?
  let limit ← (params.lookup "$top".toList).mapM Text.toUInt64?
  some ⟨entity, (params.lookup "$select".toList).elim [wildcard] (·.pieces ','),
    params.lookup "$filter".toList, orderBy, limit⟩

variable {q : Select}

/-- The parameters that a request can have, each with its value if it has one. -/
def paramTable (q : Select) : List (Text × Option Text) :=
  [("$select".toList, if q.readsAllFields then none else some (Text.join [','] q.fields)),
    ("$filter".toList, q.filter),
    ("$orderby".toList, q.orderBy.map fun os => Text.join [','] (os.map OrderBy.text)),
    ("$top".toList, q.limit.map fun limit => Text.ofNat limit.toNat)]

/-- The names that parameters can have. -/
def paramNames : List Text :=
  ["$select".toList, "$filter".toList, "$orderby".toList, "$top".toList]

theorem map_fst_paramTable (q : Select) : q.paramTable.map Prod.fst = paramNames := rfl

theorem params_eq (q : Select) :
    q.params = q.paramTable.filterMap fun (name, value) => value.map (name, ·) := by
  unfold params paramTable
  split <;> cases q.filter <;> cases q.orderBy <;> cases q.limit <;> rfl

theorem lookup_params (q : Select) (name : Text) :
    q.params.lookup name = (q.paramTable.lookup name).join := by
  rw [params_eq]
  have hnames : (q.paramTable.map Prod.fst).Nodup := by
    rw [map_fst_paramTable]
    decide
  exact lookup_filterMap hnames name

/-- No `$select` stands for all fields, as a selection of all fields has none. -/
theorem fields_of_params (h : q.WellFormed) :
    (q.params.lookup "$select".toList).elim [wildcard] (·.pieces ',') = q.fields := by
  have hlookup : q.params.lookup "$select".toList =
      if q.readsAllFields then none else some (Text.join [','] q.fields) := lookup_params q _
  rw [hlookup]
  split
  · next hall =>
    obtain hnone | hwildcard : q.fields = [] ∨ q.fields = [wildcard] := by
      simpa [readsAllFields] using hall
    · exact absurd hnone h.fields.1
    · exact hwildcard.symm
  · exact pieces_join h.fields.1 fun field hfield => (h.fields.2 field hfield).2.2

theorem orderBy_of_params (h : q.WellFormed) :
    (q.params.lookup "$orderby".toList).mapM
      (fun order => (order.pieces ',').mapM OrderBy.ofText?) = some q.orderBy := by
  have hlookup : q.params.lookup "$orderby".toList =
      q.orderBy.map fun os => Text.join [','] (os.map OrderBy.text) := lookup_params q _
  rw [hlookup]
  cases hos : q.orderBy with
  | none => rfl
  | some os =>
    obtain ⟨hne, hos⟩ := h.orderBy os hos
    have hread := OrderBy.ofText?_join hne fun o ho => by
      obtain ⟨-, hblank, hcomma⟩ := hos o ho
      exact ⟨fun hspace => absurd (hblank ' ' hspace) (by decide), hcomma⟩
    simp [hread]

theorem limit_of_params (q : Select) :
    (q.params.lookup "$top".toList).mapM Text.toUInt64? = some q.limit := by
  have hlookup : q.params.lookup "$top".toList =
      q.limit.map fun limit => Text.ofNat limit.toNat := lookup_params q _
  rw [hlookup]
  cases q.limit with
  | none => rfl
  | some limit => simp [Text.toUInt64?_ofNat]

theorem ofParams?_params (h : q.WellFormed) : ofParams? q.entity q.params = some q := by
  have hfilter : q.params.lookup "$filter".toList = q.filter := lookup_params q _
  rw [ofParams?, orderBy_of_params h, limit_of_params, fields_of_params h, hfilter]
  rfl

theorem name_mem_of_mem_params {param : Text × Text} (h : param ∈ q.params) :
    param.1 ∈ paramNames := by
  rw [params_eq] at h
  obtain ⟨⟨name, value⟩, hmem, hvalue⟩ := List.mem_filterMap.1 h
  obtain ⟨v, -, rfl⟩ := Option.map_eq_some_iff.1 hvalue
  exact map_fst_paramTable q ▸ List.mem_map_of_mem hmem

theorem notMem_name_of_mem_params {param : Text × Text} (h : param ∈ q.params) :
    '=' ∉ param.1 ∧ '&' ∉ param.1 :=
  (by decide : ∀ name ∈ paramNames, '=' ∉ name ∧ '&' ∉ name) _ (name_mem_of_mem_params h)

end Select

/-! ## Selections -/

namespace Service

/-- What a service finds in the URL of a request for the records of an entity: the name of the
    entity, and the parameters. -/
def readUrl? (s : Service) (url : Text) : Option (Text × List (Text × Text)) :=
  (url.dropPrefix? (s.collectionUrl [])).bind Request.readUrl?

/-- The selection that a URL is the request for. -/
def selectOf? (s : Service) (url : Text) : Option Select :=
  (s.readUrl? url).bind fun (entity, params) => Select.ofParams? entity params

variable (s : Service)

theorem readUrl?_read {q : Select} (h : q.WellFormed) :
    s.readUrl? (s.read q).encodedUrl = some (q.entity, q.params) := by
  have hentity : '?' ∉ q.entity := fun hmem => absurd (h.entity.2 _ hmem) (by decide)
  have hurl : (s.read q).encodedUrl =
      s.collectionUrl [] ++ (Request.make .get q.entity q.params none).encodedUrl := by
    have hplace : s.collectionUrl q.entity = s.collectionUrl [] ++ q.entity := by
      simp [collectionUrl]
    rw [← Request.encodedUrl_append, read, hplace]
    rfl
  rw [readUrl?, hurl, List.dropPrefix?_append_of_beq, Option.bind_some]
  · exact Request.readUrl?_encodedUrl hentity fun param => Select.notMem_name_of_mem_params
  · simp

theorem selectOf?_read {q : Select} (h : q.WellFormed) :
    s.selectOf? (s.read q).encodedUrl = some q := by
  rw [selectOf?, readUrl?_read s h, Option.bind_some]
  exact Select.ofParams?_params h

/-- Nothing of a selection is lost on its way to a service. The URL of its request, taken apart at
    the separators and decoded, has exactly the parameters of the request, and they give the
    selection back. So statements with the same URL say the same. -/
theorem selectOf?_encodedUrl :
    (∀ checks t q, Query.ofText checks t = .ok (.select q) → ∃ r, s.request (.select q) = .ok r ∧
      s.readUrl? r.encodedUrl = some (q.entity, r.params) ∧ s.selectOf? r.encodedUrl = some q) ∧
    ∀ checks₁ checks₂ t₁ t₂ q₁ q₂ r₁ r₂, Query.ofText checks₁ t₁ = .ok (.select q₁) →
      Query.ofText checks₂ t₂ = .ok (.select q₂) → s.request (.select q₁) = .ok r₁ →
      s.request (.select q₂) = .ok r₂ → r₁.encodedUrl = r₂.encodedUrl → q₁ = q₂ := by
  constructor
  · intro checks t q h
    have hq := Statement.wellFormed_of_ofText h
    exact ⟨s.read q, rfl, readUrl?_read s hq, selectOf?_read s hq⟩
  · intro checks₁ checks₂ t₁ t₂ q₁ q₂ r₁ r₂ h₁ h₂ hr₁ hr₂ hurl
    cases hr₁
    cases hr₂
    have hq₁ := selectOf?_read s (Statement.wellFormed_of_ofText h₁)
    have hq₂ := selectOf?_read s (Statement.wellFormed_of_ofText h₂)
    rw [hurl, hq₂] at hq₁
    exact (Option.some.inj hq₁).symm

/-- The filter of this statement has all separators of a URL in its literal. -/
theorem selectOf?_encodedUrl_of_separators :
    ∃ q r, Query.ofText {} "SELECT a, b c FROM t WHERE n = '1%2C & x=?#é' ORDER BY a desc".toList =
        .ok (.select q) ∧
      request ⟨[], defaultVersion⟩ (.select q) = .ok r ∧
      r.encodedUrl = ("/api/data/v9.2/t?$select=a%2Cb%20c&$filter=n%20eq%20%27" ++
        "1%252C%20%26%20x%3D%3F%23%C3%A9%27&$orderby=a%20desc").toList ∧
      selectOf? ⟨[], defaultVersion⟩ r.encodedUrl = some q := by
  have hread : Query.ofText {}
      "SELECT a, b c FROM t WHERE n = '1%2C & x=?#é' ORDER BY a desc".toList =
        .ok (.select ⟨"t".toList, ["a".toList, "b c".toList], some "n eq '1%2C & x=?#é'".toList,
          some [⟨"a".toList, .desc⟩], none⟩) := by
    decide +kernel
  obtain ⟨r, hr, -, hselect⟩ := (selectOf?_encodedUrl ⟨[], defaultVersion⟩).1 _ _ _ hread
  refine ⟨_, r, hread, hr, ?_, hselect⟩
  cases hr
  decide +kernel

end Service

end EntityQuery
