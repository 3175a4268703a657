-- SUMMARY: The host and the target that a request shows, for absolute and for host-relative base URLs.
import EntityQuery.Proofs.Request.Plan
import EntityQuery.Proofs.Token.Canonical
import EntityQuery.Request.Display
import EntityQuery.Statement.Read
import Mathlib.Data.List.TakeWhile

/-!
# Hosts of requests

The HTTP text of a request shows a host if its URL is absolute. A URL counts as
absolute if `://` occurs in it anywhere. If the base URL of the service is
absolute, the first `://` is the one of the base URL, and so the host is too.
If the base URL is not absolute, the first `://` may be one of the query. The
lines of the text are the ones of its layout if no line ends inside of the URL.
-/

namespace EntityQuery

/-- What stands between the scheme and the host of an absolute URL. -/
def hostMark : Text :=
  "://".toList

/-! ## The first mark of a URL -/

/-- A mark that follows a text without marks is not met before its place: no mark starts in the
    text and ends in the mark, for the slashes and the colon of a mark differ. -/
theorem not_isPrefix_hostMark {c : Char} {before : Text} (h : ¬ hostMark <:+: c :: before)
    (after : Text) : ¬ hostMark <+: c :: before ++ (hostMark ++ after) := by
  intro hprefix
  rcases before with _ | ⟨d, _ | ⟨e, before⟩⟩
  · simp [hostMark] at hprefix
  · simp [hostMark] at hprefix
  · have hlong : hostMark.length ≤ (c :: d :: e :: before).length := by
      simp [hostMark]
    exact h (List.prefix_of_prefix_length_le hprefix (List.prefix_append _ _) hlong).isInfix

theorem Text.splitFirstText_of_mark {before : Text} (h : ¬ hostMark <:+: before) (after : Text) :
    splitFirstText hostMark (before ++ (hostMark ++ after)) = some (before, after) := by
  induction before with
  | nil => simp [hostMark, splitFirstText]
  | cons c before ih =>
    have hprefix := not_isPrefix_hostMark h after
    have hrest : ¬ hostMark <:+: before := fun hmark => h (hmark.trans (List.suffix_cons c before).isInfix)
    rw [List.cons_append, splitFirstText, if_neg (by simpa using hprefix), ih hrest]
    rfl

theorem Text.splitFirstText_of_not_mark {t : Text} (h : ¬ hostMark <:+: t) :
    splitFirstText hostMark t = none := by
  induction t with
  | nil => rfl
  | cons c t ih =>
    have hprefix : ¬ hostMark <+: c :: t := fun hmark => h hmark.isInfix
    have hrest : ¬ hostMark <:+: t := fun hmark => h (hmark.trans (List.suffix_cons c t).isInfix)
    rw [splitFirstText, if_neg (by simpa using hprefix), ih hrest]
    rfl

/-- A text with a mark in it can be cut at its first mark. -/
theorem exists_first_hostMark {t : Text} (h : hostMark <:+: t) :
    ∃ before after, t = before ++ (hostMark ++ after) ∧ ¬ hostMark <:+: before := by
  induction t with
  | nil => exact absurd (List.infix_nil.1 h) (by decide)
  | cons c t ih =>
    by_cases hprefix : hostMark <+: c :: t
    · obtain ⟨after, hafter⟩ := hprefix
      exact ⟨[], after, hafter.symm, by decide⟩
    · obtain ⟨before, after, rfl, hbefore⟩ := ih ((List.infix_cons_iff.1 h).resolve_left hprefix)
      refine ⟨c :: before, after, rfl, fun hmark => ?_⟩
      rcases List.infix_cons_iff.1 hmark with hmark | hmark
      · exact hprefix (hmark.trans (List.prefix_append _ _))
      · exact hbefore hmark

/-! ## Hosts and targets -/

namespace Request

/-- The path at the start of a target: a target is not empty. -/
def pathOrRoot (path : Text) : Text :=
  if path.isEmpty then ['/'] else path

theorem splitHost_of_mark {before host path : Text} (hbefore : ¬ hostMark <:+: before)
    (hhost : '/' ∉ host) (hpath : ∀ c, path.head? = some c → c = '/') :
    splitHost (before ++ (hostMark ++ (host ++ path))) = (some host, pathOrRoot path) := by
  have hfirst := Text.splitFirstText_of_mark hbefore (host ++ path)
  obtain ⟨htake, hdrop⟩ := takeWhile_append_of_head? (p := (· != '/')) (s := host) (t := path)
    (fun c hc => by simpa using ne_of_mem_of_not_mem hc hhost)
    (fun c hc => by simpa using hpath c hc)
  rw [hostMark] at hfirst ⊢
  simp only [splitHost, hfirst, htake, hdrop]
  rfl

theorem splitHost_of_not_mark {url : Text} (h : ¬ hostMark <:+: url) :
    splitHost url = (none, url) := by
  have hnone := Text.splitFirstText_of_not_mark h
  rw [hostMark] at hnone
  simp only [splitHost, hnone]

/-! ## The lines of an HTTP text -/

/-- A header without the end of its line. -/
def headerText (name value : Text) : Text :=
  name ++ ':' :: ' ' :: value

/-- The first line of an HTTP text, without its end. -/
def requestLine (method : Method) (target : Text) : Text :=
  method.word ++ ' ' :: target ++ " HTTP/1.1".toList

/-- The header that names a host, if there is a host. -/
def hostHeaders (host : Option Text) : Headers :=
  host.toList.map fun host => ("Host".toList, host)

/-- Whether a line is a header that names a host. -/
def isHostLine (line : Text) : Bool :=
  "Host: ".toList.isPrefixOf line

/-- The HTTP text of a request with some host, or without one, and some target. -/
def httpText (r : Request) (host : Option Text) (target : Text) : Text :=
  requestLine r.method target ++ '\n' ::
    (((hostHeaders host ++ r.headers).flatMap fun (name, value) => headerLine name value) ++
      r.body.elim [] fun body => '\n' :: body ++ ['\n'])

theorem toHttp_eq (encoded : Bool) (r : Request) :
    r.toHttp encoded =
      r.httpText (splitHost (r.shownUrl encoded)).1 (splitHost (r.shownUrl encoded)).2 := by
  unfold toHttp httpText
  rcases splitHost (r.shownUrl encoded) with ⟨_ | host, target⟩ <;> cases r.body <;>
    simp [requestLine, hostHeaders]

/-- The lines of an HTTP text up to the first empty line, which the body follows. -/
def headLines (http : Text) : List Text :=
  (http.pieces '\n').takeWhile fun line => !line.isEmpty

theorem headLines_append {line : Text} (hne : line ≠ []) (hline : '\n' ∉ line) (rest : Text) :
    headLines (line ++ '\n' :: rest) = line :: headLines rest := by
  have hsplit : Text.pieces '\n' (line ++ '\n' :: rest) = line :: Text.pieces '\n' rest :=
    List.splitOnP_append_cons_of_forall_mem (p := (· == '\n'))
      (fun c hc => beq_eq_false_iff_ne.2 (ne_of_mem_of_not_mem hc hline)) '\n' rfl rest
  rw [headLines, hsplit, List.takeWhile_cons_of_pos (by simpa using hne)]
  rfl

/-- There is no line before the body, and none where the text ends. -/
theorem headLines_body (body : Option Text) :
    headLines (body.elim [] fun body => '\n' :: body ++ ['\n']) = [] := by
  cases body with
  | none => rfl
  | some body =>
    have hsplit : Text.pieces '\n' ('\n' :: body ++ ['\n']) = [] :: Text.pieces '\n' (body ++ ['\n']) :=
      List.splitOnP_append_cons (p := (· == '\n')) [] (body ++ ['\n']) (beq_self_eq_true '\n')
    rw [Option.elim_some, headLines, hsplit]
    rfl

theorem headLines_headers {headers : Headers}
    (h : ∀ header ∈ headers, '\n' ∉ headerText header.1 header.2) (rest : Text) :
    headLines ((headers.flatMap fun (name, value) => headerLine name value) ++ rest) =
      headers.map (fun (name, value) => headerText name value) ++ headLines rest := by
  induction headers with
  | nil => rfl
  | cons header headers ih =>
    obtain ⟨name, value⟩ := header
    obtain ⟨hheader, hheaders⟩ := List.forall_mem_cons.1 h
    have hne : headerText name value ≠ [] := by simp [headerText]
    have hstart : (((name, value) :: headers).flatMap fun (name, value) => headerLine name value) ++
        rest = headerText name value ++
          '\n' :: ((headers.flatMap fun (name, value) => headerLine name value) ++ rest) := by
      simp [headerLine, headerText]
    rw [hstart, headLines_append hne hheader, ih hheaders]
    rfl

theorem newline_notMem_requestLine (method : Method) {target : Text} (h : '\n' ∉ target) :
    '\n' ∉ requestLine method target := by
  have hword : '\n' ∉ method.word := by cases method <;> decide
  have hmiddle : '\n' ∉ ' ' :: target := List.not_mem_cons_of_ne_of_not_mem (by decide) h
  exact List.not_mem_append (List.not_mem_append hword hmiddle) (by decide)

theorem newline_notMem_headerText {r : Request} {withBody : Bool}
    (hheaders : r.headers = standardHeaders withBody) {host : Option Text}
    (hhost : ∀ h ∈ host, '\n' ∉ h) :
    ∀ header ∈ hostHeaders host ++ r.headers, '\n' ∉ headerText header.1 header.2 := by
  refine List.forall_mem_append.2 ⟨fun header hheader => ?_, ?_⟩
  · obtain ⟨h, hh, rfl⟩ := List.mem_map.1 hheader
    simpa [headerText] using hhost h (Option.mem_toList.1 hh)
  · rw [hheaders]
    cases withBody <;> decide

theorem headLines_httpText {r : Request} {withBody : Bool}
    (hheaders : r.headers = standardHeaders withBody) {host : Option Text} {target : Text}
    (hhost : ∀ h ∈ host, '\n' ∉ h) (htarget : '\n' ∉ target) :
    headLines (r.httpText host target) = requestLine r.method target ::
      (hostHeaders host ++ r.headers).map fun (name, value) => headerText name value := by
  rw [httpText, headLines_append (by simp [requestLine]) (newline_notMem_requestLine _ htarget),
    headLines_headers (newline_notMem_headerText hheaders hhost), headLines_body, List.append_nil]

/-- The HTTP text of a request shows a host, or none, and a target: it is written with them. If no
    line ends inside of the URL, the first line has the target, and of the lines that follow up to
    the body the ones that name a host are those of the host. -/
structure HttpShows (r : Request) (encoded : Bool) (host : Option Text) (target : Text) : Prop where
  text_eq : r.toHttp encoded = r.httpText host target
  request_line : '\n' ∉ r.shownUrl encoded →
    (headLines (r.toHttp encoded)).head? = some (requestLine r.method target)
  host_lines : '\n' ∉ r.shownUrl encoded →
    (headLines (r.toHttp encoded)).filter isHostLine = host.toList.map (headerText "Host".toList)

theorem httpShows_of_splitHost {r : Request} {withBody : Bool}
    (hheaders : r.headers = standardHeaders withBody) {encoded : Bool} {host : Option Text}
    {target : Text} (h : splitHost (r.shownUrl encoded) = (host, target))
    (hhost : ∀ h ∈ host, h ⊆ r.shownUrl encoded) (htarget : target ⊆ '/' :: r.shownUrl encoded) :
    r.HttpShows encoded host target := by
  have htext : r.toHttp encoded = r.httpText host target := by rw [toHttp_eq, h]
  have hlines : '\n' ∉ r.shownUrl encoded → headLines (r.toHttp encoded) =
      requestLine r.method target ::
        (hostHeaders host ++ r.headers).map fun (name, value) => headerText name value := by
    intro hurl
    rw [htext]
    refine headLines_httpText hheaders (fun h hh hline => hurl (hhost h hh hline)) fun hline => ?_
    rcases List.mem_cons.1 (htarget hline) with hslash | hline
    · exact absurd hslash (by decide)
    · exact hurl hline
  refine ⟨htext, fun hurl => by rw [hlines hurl]; rfl, fun hurl => ?_⟩
  have hfirst : isHostLine (requestLine r.method target) = false := by
    cases r.method <;> rfl
  have hothers : ((standardHeaders withBody).map fun (name, value) => headerText name value).filter
      isHostLine = [] := by
    cases withBody <;> decide
  rw [hlines hurl, List.filter_cons_of_neg (by simp [hfirst]), List.map_append, List.filter_append,
    hheaders, hothers, List.append_nil]
  cases host <;> rfl

theorem httpShows_of_mark {r : Request} {withBody : Bool}
    (hheaders : r.headers = standardHeaders withBody) {encoded : Bool} {before host path : Text}
    (hurl : r.shownUrl encoded = before ++ (hostMark ++ (host ++ path)))
    (hbefore : ¬ hostMark <:+: before) (hhost : '/' ∉ host)
    (hpath : ∀ c, path.head? = some c → c = '/') :
    r.HttpShows encoded (some host) (pathOrRoot path) := by
  have hsplit := splitHost_of_mark hbefore hhost hpath
  rw [← hurl] at hsplit
  refine httpShows_of_splitHost hheaders hsplit ?_ ?_
  · rintro _ ⟨⟩ c hc
    rw [hurl]
    exact List.mem_append_right _ (List.mem_append_right _ (List.mem_append_left _ hc))
  · intro c hc
    rw [pathOrRoot] at hc
    split at hc
    · exact List.mem_cons.2 (.inl (List.mem_singleton.1 hc))
    · rw [hurl]
      exact List.mem_cons_of_mem _ (List.mem_append_right _ (List.mem_append_right _
        (List.mem_append_right _ hc)))

/-- What follows a mark is a host and a path. -/
theorem exists_host_path (t : Text) : ∃ host path, t = host ++ path ∧ '/' ∉ host ∧
    ∀ c, path.head? = some c → c = '/' := by
  refine ⟨t.takeWhile (· != '/'), t.dropWhile (· != '/'), List.takeWhile_append_dropWhile.symm, ?_,
    fun c hc => ?_⟩
  · intro hmem
    simpa using List.mem_takeWhile_imp hmem
  · have hfirst := List.head?_dropWhile_not (· != '/') t
    rw [hc] at hfirst
    simpa using hfirst

end Request

/-! ## Requests of a service -/

namespace Service

/-- The requests that a service has for a query: the single one, or the lookup of a bulk plan and
    the requests for the records that it finds. -/
inductive Builds (s : Service) (q : Query) : Request → Prop
  | single {r : Request} : s.request q = .ok r → Builds s q r
  | lookup {p : BulkPlan} : s.plan q = .ok (.bulk p) → Builds s q p.lookup
  | record {p : BulkPlan} (id : Text) : s.plan q = .ok (.bulk p) → Builds s q (p.requestFor id)

variable {s : Service} {q : Query} {r : Request}

/-- A request for one record goes to a part of its collection. -/
theorem requestFor_headers_and_endpoint (m : Mutation) (s : Service) (entity id : Text) :
    (m.requestFor (s.collectionUrl entity) id).headers =
        Request.standardHeaders (m.requestFor (s.collectionUrl entity) id).body.isSome ∧
      ∃ rest, (m.requestFor (s.collectionUrl entity) id).endpoint =
        s.collectionUrl entity ++ rest :=
  ⟨rfl, '(' :: (id ++ [')']), by simp [Mutation.requestFor, Request.make, recordUrl]⟩

/-- The single request of a change or a deletion is the one that its plan holds. -/
theorem exists_plan_direct {q : Query} (hq : q.operation = .update ∨ q.operation = .delete)
    (h : s.request q = .ok r) : s.plan q = .ok (.direct r) := by
  cases q with
  | select q => simp [Query.operation] at hq
  | insert q => simp [Query.operation] at hq
  | update q | delete q =>
    unfold request at h
    dsimp only at h
    split at h
    · next hplan =>
      cases h
      exact hplan
    · cases h
    · cases h

/-- A request goes to the collection of the entity or to a part of it, and has the standard
    headers. -/
theorem Builds.headers_and_endpoint (h : s.Builds q r) :
    r.headers = Request.standardHeaders r.body.isSome ∧
      ∃ rest, r.endpoint = s.collectionUrl q.entity ++ rest := by
  have hdirect : s.plan q = .ok (.direct r) → r.headers = Request.standardHeaders r.body.isSome ∧
      ∃ rest, r.endpoint = s.collectionUrl q.entity ++ rest := by
    intro hplan
    obtain ⟨m, filter, -, -, hdirect⟩ := plan_cases hplan
    obtain ⟨id, -, rfl⟩ := exists_of_planFor_direct hdirect.symm
    exact requestFor_headers_and_endpoint m s q.entity id
  cases h with
  | single h =>
    cases q with
    | select q =>
      cases h
      exact ⟨rfl, [], (List.append_nil _).symm⟩
    | insert q =>
      cases h
      exact ⟨rfl, [], (List.append_nil _).symm⟩
    | update q => exact hdirect (exists_plan_direct (.inl rfl) h)
    | delete q => exact hdirect (exists_plan_direct (.inr rfl) h)
  | lookup h =>
    obtain ⟨m, filter, -, -, rfl⟩ := plan_bulk_cases h
    exact ⟨rfl, [], (List.append_nil _).symm⟩
  | record id h =>
    obtain ⟨m, filter, -, -, rfl⟩ := plan_bulk_cases h
    exact requestFor_headers_and_endpoint m s q.entity id

/-- The URL of a request starts with the base URL of the service and a slash. -/
theorem Builds.exists_shownUrl (h : s.Builds q r) (encoded : Bool) :
    ∃ rest, r.shownUrl encoded = s.baseUrl ++ '/' :: rest := by
  obtain ⟨-, rest, hrest⟩ := h.headers_and_endpoint
  have hurl : ∀ write, ∃ more, r.urlWith write = r.endpoint ++ more := by
    intro write
    unfold Request.urlWith
    split
    · exact ⟨[], (List.append_nil _).symm⟩
    · exact ⟨_, rfl⟩
  obtain ⟨more, hmore⟩ : ∃ more, r.shownUrl encoded = r.endpoint ++ more := by
    cases encoded
    · exact hurl id
    · exact hurl Text.percentEncode
  refine ⟨"api/data/v".toList ++ (s.version ++ ('/' :: (q.entity ++ (rest ++ more)))), ?_⟩
  rw [hmore, hrest]
  simp [collectionUrl]

/-- The slashes at the end of a base URL belong to its path. -/
theorem withoutSlashes_append {start : Text} (h : start.getLast? ≠ some '/') (path : Text) :
    withoutSlashes (start ++ path) = start ++ withoutSlashes path := by
  have hstart : start.reverse.dropWhile (· == '/') = start.reverse := by
    obtain rfl | ⟨start, last, rfl⟩ := List.eq_nil_or_concat start
    · rfl
    · have hlast : last ≠ '/' := by simpa using h
      simp [hlast]
  rw [withoutSlashes, withoutSlashes, List.reverse_append, List.dropWhile_append, hstart]
  split
  · next hempty => rw [List.isEmpty_iff.1 hempty, List.reverse_nil, List.append_nil,
      List.reverse_reverse]
  · rw [List.reverse_append, List.reverse_reverse]

theorem withoutSlashes_isPrefix (path : Text) : withoutSlashes path <+: path := by
  rw [withoutSlashes, ← List.reverse_suffix, List.reverse_reverse]
  exact List.dropWhile_suffix _

/-- An absolute base URL: a scheme, a host, and a path that may be empty. -/
structure IsAbsolute (base scheme host path : Text) : Prop where
  base_eq : base.trim = scheme ++ (hostMark ++ (host ++ path))
  scheme_plain : ¬ hostMark <:+: scheme
  host_ne : host ≠ []
  host_plain : '/' ∉ host
  path_start : ∀ c, path.head? = some c → c = '/'

/-- The base URL of a service keeps the scheme and the host of the base URL that it is made from. -/
theorem exists_baseUrl {base version scheme host path : Text} (h : IsAbsolute base scheme host path)
    (hs : Service.ofBaseUrl base version = .ok s) :
    ∃ path', s.baseUrl = scheme ++ (hostMark ++ (host ++ path')) ∧
      ∀ c, path'.head? = some c → c = '/' := by
  have hbase : s.baseUrl = withoutSlashes base.trim := by
    unfold ofBaseUrl at hs
    split at hs
    · cases hs
      rfl
    · cases hs
  have hlast : (scheme ++ (hostMark ++ host)).getLast? ≠ some '/' := by
    obtain ⟨start, last, rfl⟩ := (List.eq_nil_or_concat host).resolve_left h.host_ne
    have hplain : last ≠ '/' := by
      rintro rfl
      exact h.host_plain (by simp)
    simpa [List.getLast?_append] using hplain
  refine ⟨withoutSlashes path, ?_, fun c hc => ?_⟩
  · have hsplit : base.trim = scheme ++ (hostMark ++ host) ++ path := by
      rw [h.base_eq]
      simp only [List.append_assoc]
    rw [hbase, hsplit, withoutSlashes_append hlast]
    simp only [List.append_assoc]
  · obtain ⟨rest, hrest⟩ := withoutSlashes_isPrefix path
    refine h.path_start c ?_
    cases hpath : withoutSlashes path with
    | nil => rw [hpath] at hc; cases hc
    | cons d more =>
      rw [hpath] at hc
      rw [← hrest, hpath]
      exact hc

/-- The host that a request is shown with. With an absolute base URL it is the host of the base URL,
    for every query. With any base URL, no host is shown if `://` does not occur in the URL of the
    request, and otherwise what follows the first `://` is taken for the host, wherever it comes
    from. A line that ends inside of the URL adds lines of its own to the text. -/
theorem host_of_builds {base version : Text} (hs : Service.ofBaseUrl base version = .ok s)
    (hr : s.Builds q r) (encoded : Bool) :
    (∀ scheme host path, IsAbsolute base scheme host path →
      ∃ target, r.HttpShows encoded (some host) target ∧
        scheme ++ (hostMark ++ (host ++ target)) = r.shownUrl encoded) ∧
    (¬ hostMark <:+: r.shownUrl encoded → r.HttpShows encoded none (r.shownUrl encoded)) ∧
    (hostMark <:+: r.shownUrl encoded →
      ∃ before host path, r.shownUrl encoded = before ++ (hostMark ++ (host ++ path)) ∧
        ¬ hostMark <:+: before ∧ '/' ∉ host ∧ (∀ c, path.head? = some c → c = '/') ∧
        r.HttpShows encoded (some host) (Request.pathOrRoot path)) := by
  obtain ⟨hheaders, -⟩ := hr.headers_and_endpoint
  refine ⟨fun scheme host path h => ?_, fun hnone => ?_, fun hmark => ?_⟩
  · obtain ⟨path', hbase, hstart⟩ := exists_baseUrl h hs
    obtain ⟨rest, hrest⟩ := hr.exists_shownUrl encoded
    have hurl : r.shownUrl encoded =
        scheme ++ (hostMark ++ (host ++ (path' ++ '/' :: rest))) := by
      rw [hrest, hbase]
      simp only [List.append_assoc]
    have htarget : ∀ c, (path' ++ '/' :: rest).head? = some c → c = '/' := by
      intro c hc
      cases path' with
      | nil => cases hc; rfl
      | cons d path' => exact hstart c hc
    have hroot : Request.pathOrRoot (path' ++ '/' :: rest) = path' ++ '/' :: rest :=
      if_neg (by simp)
    have hshows := Request.httpShows_of_mark hheaders hurl h.scheme_plain h.host_plain htarget
    rw [hroot] at hshows
    exact ⟨path' ++ '/' :: rest, hshows, hurl.symm⟩
  · exact Request.httpShows_of_splitHost hheaders (Request.splitHost_of_not_mark hnone)
      (by simp) (List.subset_cons_self _ _)
  · obtain ⟨before, after, hurl, hbefore⟩ := exists_first_hostMark hmark
    obtain ⟨host, path, rfl, hhost, hpath⟩ := Request.exists_host_path after
    exact ⟨before, host, path, hurl, hbefore, hhost, hpath,
      Request.httpShows_of_mark hheaders hurl hbefore hhost hpath⟩

-- What follows the end of a line in an id may look like another host.
example : (Request.headLines (Request.toHttp false
    (.make .delete "https://o/t(1\nHost: evil)".toList [] none))).filter Request.isHostLine =
      ["Host: evil) HTTP/1.1".toList, "Host: o".toList] := by decide +kernel

/-- A query whose filter compares a field with a URL. -/
def urlQuery : Query :=
  .select ⟨['t'], [['a']], some "url eq 'http://x/y'".toList, none, none⟩

theorem host_of_builds_urlQuery :
    Service.ofBaseUrl "https://o/".toList defaultVersion = .ok ⟨"https://o".toList, defaultVersion⟩ ∧
    IsAbsolute "https://o/".toList "https".toList ['o'] ['/'] ∧
    ∃ r, Builds ⟨"https://o".toList, defaultVersion⟩ urlQuery r ∧
      ∃ target, r.HttpShows false (some ['o']) target ∧
        "https".toList ++ (hostMark ++ (['o'] ++ target)) = r.shownUrl false := by
  have hs : Service.ofBaseUrl "https://o/".toList defaultVersion =
      .ok ⟨"https://o".toList, defaultVersion⟩ := by rfl
  have habsolute : IsAbsolute "https://o/".toList "https".toList ['o'] ['/'] :=
    ⟨by decide, by decide, by decide, by decide, by rintro c ⟨⟩; rfl⟩
  have hbuilds : Builds ⟨"https://o".toList, defaultVersion⟩ urlQuery _ := .single rfl
  exact ⟨hs, habsolute, _, hbuilds, (host_of_builds hs hbuilds false).1 _ _ _ habsolute⟩

/-- A host is shown also where the base URL is empty, if a literal in the filter has a URL in it. -/
theorem host_shown_for_empty_base :
    ¬ ∀ (base version t : Text) (s : Service) (q : Query) (r : Request) (encoded : Bool),
      Query.ofText {} t = .ok q → Service.ofBaseUrl base version = .ok s → s.Builds q r →
      ¬ hostMark <:+: base → r.HttpShows encoded none (r.shownUrl encoded) := by
  intro h
  have hparse : Query.ofText {} "SELECT a FROM t WHERE url = 'http://x/y'".toList = .ok urlQuery := by
    decide +kernel
  have hbuilds : Builds ⟨[], defaultVersion⟩ urlQuery _ := .single rfl
  have hshows := h [] defaultVersion _ _ _ _ false hparse rfl hbuilds (by decide)
  have htext := hshows.text_eq
  revert htext
  decide +kernel

end Service

end EntityQuery
