-- SUMMARY: What reading a collection sends and gives: one GET for every page, and the records in the order of the pages.
import EntityQuery.Execution

/-!
# Reading a collection

Reading sends a request for every page and takes the answers in their order. It
either gives the records of all pages, one page after the other, or it fails
with the error of the page that it stopped at.
-/

namespace EntityQuery.Execution

/-! ## Answers -/

/-- Whether a request was carried out, given the answer to it: a response with a 2xx status. -/
def succeeds : Option Answer → Bool
  | some (.ok response) => 200 ≤ response.status && response.status < 300
  | _ => false

/-- The page that an answer brings: the JSON value in a response with a 2xx status. -/
def pageIn? : Answer → Option Json
  | .ok response =>
    if 200 ≤ response.status ∧ response.status < 300 then Json.ofText? response.body else none
  | .error _ => none

theorem outcomeOf_of_succeeds {answer : Option Answer} (r : Request) (h : succeeds answer = true) :
    ∃ response, outcomeOf r answer = .ok response := by
  match answer with
  | some (.ok response) =>
    have hsuccess : response.isSuccess = true := h
    exact ⟨response, by simp [outcomeOf, hsuccess]⟩

theorem outcomeOf_of_not_succeeds {answer : Option Answer} (r : Request)
    (h : succeeds answer = false) : ∃ cause, outcomeOf r answer = .error cause := by
  match answer with
  | none => exact ⟨_, rfl⟩
  | some (.error message) => exact ⟨_, rfl⟩
  | some (.ok response) =>
    have hfailure : response.isSuccess = false := h
    exact ⟨.status r.method r.url response.status response.body, by simp [outcomeOf, hfailure]⟩

theorem pageOf_none (r : Request) :
    pageOf r none = .error (.transport r.method r.url noAnswer) := rfl

/-- Whether an answer brings a page: it is a response with a 2xx status, and its body is read as the
    page. -/
def Brings (answer : Answer) (page : Json) : Prop :=
  ∃ response, answer = .ok response ∧ 200 ≤ response.status ∧ response.status < 300 ∧
    Json.ofText? response.body = some page

/-- Why the answer to a request brings no page: there is none, it is no response, its status is not
    2xx, or its body is no JSON text. -/
inductive FailsWith (r : Request) : Option Answer → Execution.Error → Prop
  | unanswered : FailsWith r none (.transport r.method r.url noAnswer)
  | transport (message : Text) :
      FailsWith r (some (.error message)) (.transport r.method r.url message)
  | status {response : Response} : response.status < 200 ∨ 300 ≤ response.status →
      FailsWith r (some (.ok response))
        (.status r.method r.url response.status response.body)
  | invalid {response : Response} : 200 ≤ response.status → response.status < 300 →
      Json.ofText? response.body = none →
      FailsWith r (some (.ok response)) (.invalidResponse r.encodedUrl)

/-- What comes of the request for a page is the page that the answer brings, or the reason why it
    brings none. -/
theorem pageOf_cases (r : Request) (answer : Option Answer) :
    (∃ a page, answer = some a ∧ Brings a page ∧ pageOf r answer = .ok page) ∨
      ∃ cause, FailsWith r answer cause ∧ pageOf r answer = .error cause := by
  match answer with
  | none => exact .inr ⟨_, .unanswered, rfl⟩
  | some (.error message) => exact .inr ⟨_, .transport message, rfl⟩
  | some (.ok response) =>
    by_cases hs : 200 ≤ response.status ∧ response.status < 300
    · have hsuccess : response.isSuccess = true := by simp [Response.isSuccess, hs]
      cases hread : Json.ofText? response.body with
      | none =>
        exact .inr ⟨_, .invalid hs.1 hs.2 hread,
          by simp [pageOf, outcomeOf, hsuccess, hread, bind, Except.bind]⟩
      | some page =>
        exact .inl ⟨_, page, rfl, ⟨response, rfl, hs.1, hs.2, hread⟩,
          by simp [pageOf, outcomeOf, hsuccess, hread, bind, Except.bind]⟩
    · have hfailure : response.isSuccess = false := by simpa [Response.isSuccess] using hs
      exact .inr ⟨_, .status (by omega),
        by simp [pageOf, outcomeOf, hfailure, bind, Except.bind]⟩

theorem brings_of_pageOf {r : Request} {answer : Option Answer} {page : Json}
    (h : pageOf r answer = .ok page) : ∃ a, answer = some a ∧ Brings a page := by
  obtain ⟨a, _, ha, hpage, heq⟩ | ⟨_, -, heq⟩ := pageOf_cases r answer
  · cases h.symm.trans heq
    exact ⟨a, ha, hpage⟩
  · cases h.symm.trans heq

theorem failsWith_of_pageOf {r : Request} {answer : Option Answer} {cause : Execution.Error}
    (h : pageOf r answer = .error cause) : FailsWith r answer cause := by
  obtain ⟨_, _, -, -, heq⟩ | ⟨_, hcause, heq⟩ := pageOf_cases r answer
  · cases h.symm.trans heq
  · cases h.symm.trans heq
    exact hcause

theorem pageIn?_eq_some_iff {answer : Answer} {page : Json} :
    pageIn? answer = some page ↔ Brings answer page := by
  cases answer with
  | error message => simp [pageIn?, Brings]
  | ok response => simp [pageIn?, Brings, and_assoc]

theorem pageIn?_of_pageOf {r : Request} {answer : Answer} {body : Json}
    (h : pageOf r (some answer) = .ok body) : pageIn? answer = some body := by
  obtain ⟨_, ⟨⟩, hpage⟩ := brings_of_pageOf h
  exact pageIn?_eq_some_iff.2 hpage

/-! ## One page -/

/-- What reading does with the first page: it stops there, with the error of the page or with its
    records, or it goes on with the page that is linked to. -/
theorem readPages_cases (visited : List Text) (page : Request) (answers : List Answer) :
    (∃ cause, pageOf page answers.head? = .error cause ∧
      readPages visited page answers = ⟨[page], answers.tail, .error cause⟩) ∨
    (∃ answer rest body, answers = answer :: rest ∧ pageOf page (some answer) = .ok body ∧
      newLinkOf (page.encodedUrl :: visited) body = none ∧
      readPages visited page answers = ⟨[page], rest, .ok (Response.recordsOf body)⟩) ∨
    (∃ answer rest body link, answers = answer :: rest ∧ pageOf page (some answer) = .ok body ∧
      newLinkOf (page.encodedUrl :: visited) body = some link ∧
      let more := readPages (page.encodedUrl :: visited) (Request.get link) rest
      readPages visited page answers =
        ⟨page :: more.sent, more.unread, more.result.map (Response.recordsOf body ++ ·)⟩) := by
  cases answers with
  | nil => exact .inl ⟨_, pageOf_none page, by rw [readPages, pageOf_none]; rfl⟩
  | cons answer rest =>
    cases hp : pageOf page (some answer) with
    | error cause => exact .inl ⟨cause, hp, by simp [readPages, hp]⟩
    | ok body =>
      right
      cases hl : newLinkOf (page.encodedUrl :: visited) body with
      | none => exact .inl ⟨answer, rest, body, rfl, hp, hl, by simp [readPages, hp, hl]⟩
      | some link => exact .inr ⟨answer, rest, body, link, rfl, hp, hl, by simp [readPages, hp, hl]⟩

/-! ## All pages -/

/-- Only the first request is not a plain GET of a link. -/
theorem mem_sent_readPages {visited : List Text} {page r : Request} {answers : List Answer}
    (h : r ∈ (readPages visited page answers).sent) : r = page ∨ ∃ link, r = Request.get link := by
  induction answers generalizing visited page with
  | nil =>
    left
    simpa [readPages] using h
  | cons answer answers ih =>
    obtain ⟨cause, -, he⟩ | ⟨_, _, body, -, -, -, he⟩ | ⟨_, rest, body, link, ha, -, -, he⟩ :=
      readPages_cases visited page (answer :: answers)
    · left
      simpa [he] using h
    · left
      simpa [he] using h
    · cases ha
      rw [he] at h
      rcases List.mem_cons.1 h with rfl | h
      · exact .inl rfl
      · right
        rcases ih h with rfl | hr
        · exact ⟨link, rfl⟩
        · exact hr

theorem head?_sent_readPages (visited : List Text) (page : Request) (answers : List Answer) :
    (readPages visited page answers).sent.head? = some page := by
  obtain ⟨_, -, he⟩ | ⟨_, _, _, -, -, -, he⟩ | ⟨_, _, _, _, -, -, -, he⟩ :=
    readPages_cases visited page answers <;> simp [he]

/-- Reading takes one answer for every request that it sends. -/
theorem unread_readPages (visited : List Text) (page : Request) (answers : List Answer) :
    (readPages visited page answers).unread =
      answers.drop (readPages visited page answers).sent.length := by
  induction answers generalizing visited page with
  | nil => simp [readPages]
  | cons answer answers ih =>
    obtain ⟨cause, -, he⟩ | ⟨_, _, body, ha, -, -, he⟩ | ⟨_, rest, body, link, ha, -, -, he⟩ :=
      readPages_cases visited page (answer :: answers)
    · simp [he]
    · cases ha
      simp [he]
    · cases ha
      simp [he, ih]

/-- The records that are read are those of the pages that were answered, in their order. -/
theorem records_readPages {visited : List Text} {page : Request} {answers : List Answer}
    {records : List Json} (h : (readPages visited page answers).result = .ok records) :
    ∃ pages : List Json,
      (answers.take (readPages visited page answers).sent.length).map pageIn? = pages.map some ∧
      records = pages.flatMap Response.recordsOf := by
  induction answers generalizing visited page records with
  | nil =>
    rw [readPages, pageOf_none] at h
    cases h
  | cons answer answers ih =>
    obtain ⟨cause, -, he⟩ | ⟨_, _, body, ha, hp, -, he⟩ | ⟨_, rest, body, link, ha, hp, -, he⟩ :=
      readPages_cases visited page (answer :: answers)
    · rw [he] at h
      cases h
    · cases ha
      rw [he] at h
      cases h
      exact ⟨[body], by simp [he, pageIn?_of_pageOf hp], by simp⟩
    · cases ha
      rw [he] at h
      cases hm : (readPages (page.encodedUrl :: visited) (Request.get link) answers).result with
      | error cause =>
        rw [hm] at h
        cases h
      | ok more =>
        rw [hm] at h
        cases h
        obtain ⟨pages, hpages, rfl⟩ := ih hm
        exact ⟨body :: pages, by simp [he, pageIn?_of_pageOf hp, hpages], by simp⟩

/-! ## Collections -/

/-- Reading a collection with GETs only sends GETs without a body. -/
theorem sent_readAll {r : Request} (hm : r.method = .get) (hb : r.body = none)
    (answers : List Answer) :
    ∀ sent ∈ (readAll r answers).sent, sent.method = .get ∧ sent.body = none := by
  intro sent h
  rcases mem_sent_readPages h with rfl | ⟨link, rfl⟩
  · exact ⟨hm, hb⟩
  · exact ⟨rfl, rfl⟩

end EntityQuery.Execution
