-- SUMMARY: Following the links of a collection: every page is read once, in the order of the links, and reading ends.
import EntityQuery.Proofs.Execution.Paging
import Mathlib.Data.Finset.Card
import Mathlib.Data.List.Infix

/-!
# Following links

The pages of a collection are read along the links that they have, and no URL
is read twice. What is read of a collection is what its pages have, one page
after the other, and reading fails with the first page that fails.

No bound on the number of pages is known in advance. Reading ends because every
link that is followed is a new one: a service that has finitely many links to
give is asked at most once more than it has links, also if the links go round
in a circle.
-/

namespace EntityQuery.Execution

/-! ## Pages and links -/

/-- What came of the requests for pages, given the answers to them. -/
def pagesOf (sent : List Request) (answers : List Answer) : List (Except Execution.Error Json) :=
  sent.mapIdx fun i r => pageOf r answers[i]?

@[simp] theorem pagesOf_nil (answers : List Answer) : pagesOf [] answers = [] := rfl

@[simp] theorem pagesOf_cons (r : Request) (sent : List Request) (answers : List Answer) :
    pagesOf (r :: sent) answers = pageOf r answers.head? :: pagesOf sent answers.tail := by
  cases answers <;> simp [pagesOf]

/-- The pages that came before anything failed were brought by the answers. -/
theorem brings_of_pagesOf {sent : List Request} {answers : List Answer} {pages : List Json}
    {more : List (Except Execution.Error Json)}
    (h : pagesOf sent answers = pages.map .ok ++ more) :
    List.Forall₂ Brings (answers.take pages.length) pages := by
  induction pages generalizing sent answers with
  | nil => exact .nil
  | cons page pages ih =>
    cases sent with
    | nil => cases h
    | cons r sent =>
      rw [pagesOf_cons, List.map_cons, List.cons_append, List.cons.injEq] at h
      obtain ⟨answer, hanswer, hpage⟩ := brings_of_pageOf h.1
      obtain ⟨rest, rfl⟩ := List.head?_eq_some_iff.1 hanswer
      exact .cons hpage (ih h.2)

/-- What failed was the last request, by the answer to it. -/
theorem failsWith_of_pagesOf {sent : List Request} {answers : List Answer} {pages : List Json}
    {cause : Execution.Error} (h : pagesOf sent answers = pages.map .ok ++ [.error cause]) :
    ∃ last, sent.getLast? = some last ∧ FailsWith last answers[pages.length]? cause := by
  have hlength := congrArg List.length h
  have hlast := congrArg (·[pages.length]?) h
  simp only [pagesOf, List.length_mapIdx, List.length_append, List.length_map, List.length_cons,
    List.length_nil] at hlength
  simp only [pagesOf, List.getElem?_mapIdx, List.getElem?_append_right, List.length_map,
    Nat.le_refl, Nat.sub_self, List.getElem?_cons_zero, Option.map_eq_some_iff] at hlast
  obtain ⟨last, hget, hpage⟩ := hlast
  refine ⟨last, ?_, failsWith_of_pageOf hpage⟩
  rw [List.getLast?_eq_getElem?, hlength]
  exact hget

/-- What `readPages` does along the links of a collection: the links that were followed, and the
    pages that came. -/
structure Follows (visited : List Text) (page : Request) (answers : List Answer)
    (links : List Text) (pages : List Json) (e : Exchange (List Json)) : Prop where
  sent_eq : e.sent = page :: links.map Request.get
  links_new : (page.encodedUrl :: links).Nodup ∧ ∀ link ∈ links, link ∉ visited
  /-- Each link is the one on the page before it. -/
  links_eq : (pages.take links.length).map Response.nextLinkOf = links.map some
  /-- All pages were read, and the last one has no link to a new page; or the last page failed. -/
  result_eq :
    (pagesOf e.sent answers = pages.map .ok ∧ e.result = .ok (pages.flatMap Response.recordsOf) ∧
      ∀ last ∈ pages.getLast?, ∀ link ∈ Response.nextLinkOf last,
        link ∈ visited ∨ link ∈ page.encodedUrl :: links) ∨
    ∃ cause, pagesOf e.sent answers = pages.map .ok ++ [.error cause] ∧ e.result = .error cause

theorem newLinkOf_eq_some {visited : List Text} {body : Json} {link : Text}
    (h : newLinkOf visited body = some link) :
    Response.nextLinkOf body = some link ∧ link ∉ visited := by
  simpa [newLinkOf, Option.filter_eq_some_iff] using h

theorem newLinkOf_eq_none {visited : List Text} {body : Json} (h : newLinkOf visited body = none) :
    ∀ link ∈ Response.nextLinkOf body, link ∈ visited := by
  simpa [newLinkOf, Option.filter_eq_none_iff] using h

/-- Reading that fails with the first page has followed no link. -/
theorem follows_of_error (visited : List Text) {page : Request} {answers : List Answer}
    {cause : Execution.Error} (h : pageOf page answers.head? = .error cause) :
    Follows visited page answers [] [] ⟨[page], answers.tail, .error cause⟩ :=
  ⟨rfl, by simp, rfl, .inr ⟨cause, by simp [h], rfl⟩⟩

/-- Reading follows links, from whatever page on. -/
theorem exists_follows (visited : List Text) (page : Request) (answers : List Answer) :
    ∃ links pages, Follows visited page answers links pages (readPages visited page answers) := by
  induction answers generalizing visited page with
  | nil => exact ⟨[], [], follows_of_error visited (pageOf_none page)⟩
  | cons answer answers ih =>
    obtain ⟨cause, hp, he⟩ | ⟨_, _, body, ha, hp, hl, he⟩ | ⟨_, rest, body, link, ha, hp, hl, he⟩ :=
      readPages_cases visited page (answer :: answers)
    · rw [he]
      exact ⟨[], [], follows_of_error visited hp⟩
    · cases ha
      refine ⟨[], [body], by simp [he], by simp, by simp, .inl ⟨by simp [he, hp], by simp [he], ?_⟩⟩
      intro last hlast link hlink
      cases hlast
      simpa [or_comm] using newLinkOf_eq_none hl link hlink
    · cases ha
      obtain ⟨links, pages, h⟩ := ih (page.encodedUrl :: visited) (Request.get link)
      obtain ⟨hlink, hnew⟩ := newLinkOf_eq_some hl
      obtain ⟨hnodup, hvisited⟩ := h.links_new
      rw [Request.encodedUrl_get] at hnodup
      have hpage : page.encodedUrl ∉ link :: links := by
        rintro (_ | ⟨_, hmem⟩)
        · exact hnew (.head _)
        · exact hvisited _ hmem (.head _)
      refine ⟨link :: links, body :: pages, by simp [he, h.sent_eq],
        ⟨List.nodup_cons.2 ⟨hpage, hnodup⟩, ?_⟩, by simp [hlink, h.links_eq], ?_⟩
      · rintro other (_ | ⟨_, hmem⟩)
        · exact fun hv => hnew (.tail _ hv)
        · exact fun hv => hvisited other hmem (.tail _ hv)
      · obtain ⟨hpages, hresult, hlast⟩ | ⟨cause, hpages, hresult⟩ := h.result_eq
        · refine .inl ⟨by simp [he, hp, hpages], by simp [he, hresult, Except.map], ?_⟩
          cases pages with
          | nil => simp [h.sent_eq] at hpages
          | cons first pages =>
            intro last hmem other hother
            have := hlast last (by simpa using hmem) other hother
            rw [Request.encodedUrl_get, List.mem_cons] at this
            rw [List.mem_cons]
            tauto
        · exact .inr ⟨cause, by simp [he, hp, hpages], by simp [he, hresult, Except.map]⟩

/-! ## The end of reading -/

/-- What a service answers to the last of some requests. It may depend on all of them. -/
abbrev Responder := List Request → Answer

namespace Responder

/-- The answers to requests that are sent one after the other. -/
def answers (responder : Responder) (sent : List Request) : List Answer :=
  sent.inits.tail.map responder

/-- Whether every link on a page of a service is one of these. -/
def LinksIn (links : Finset Text) (responder : Responder) : Prop :=
  ∀ requests page, pageIn? (responder requests) = some page →
    ∀ link ∈ Response.nextLinkOf page, link ∈ links

/-- What a service answers once it got a request. -/
def after (r : Request) (responder : Responder) : Responder :=
  fun requests => responder (r :: requests)

variable {responder : Responder} {links : Finset Text}

@[simp] theorem answers_cons (r : Request) (sent : List Request) :
    responder.answers (r :: sent) = responder [r] :: (responder.after r).answers sent := by
  cases sent <;> simp [answers, after, Function.comp_def]

theorem LinksIn.after (h : responder.LinksIn links) (r : Request) :
    (responder.after r).LinksIn links :=
  fun requests => h (r :: requests)

/-- Reading a page and the pages after it ends, whatever a service answers, if its links are
    finitely many: there is a request for each new link at most. -/
theorem exists_answers (h : responder.LinksIn links) (visited : List Text) (page : Request) :
    ∃ answers, answers = responder.answers (readPages visited page answers).sent ∧
      (readPages visited page answers).sent.length ≤
        (links.filter (· ∉ page.encodedUrl :: visited)).card + 1 := by
  -- Every link that is followed leaves fewer links that are new.
  induction hn : (links.filter (· ∉ page.encodedUrl :: visited)).card using Nat.strong_induction_on
    generalizing responder visited page with
  | h n ih =>
    obtain ⟨cause, -, he⟩ | ⟨_, _, body, ha, -, -, he⟩ | ⟨_, _, body, link, ha, hp, hl, -⟩ :=
      readPages_cases visited page [responder [page]]
    · exact ⟨[responder [page]], by rw [he]; rfl, by simp [he]⟩
    · exact ⟨[responder [page]], by rw [he]; rfl, by simp [he]⟩
    · cases ha
      obtain ⟨hlink, hnew⟩ := newLinkOf_eq_some hl
      have hmem : link ∈ links := h [page] body (pageIn?_of_pageOf hp) link hlink
      have hless : (links.filter (· ∉ link :: page.encodedUrl :: visited)).card < n := by
        rw [← hn]
        refine Finset.card_lt_card (Finset.ssubset_iff_of_subset ?_ |>.2 ⟨link, ?_, ?_⟩)
        · intro other hother
          simp only [Finset.mem_filter, List.mem_cons, not_or] at hother ⊢
          exact ⟨hother.1, hother.2.2⟩
        · exact Finset.mem_filter.2 ⟨hmem, hnew⟩
        · simp
      obtain ⟨more, hmore, hlength⟩ := ih _ hless (h.after page) (page.encodedUrl :: visited)
        (Request.get link) rfl
      have he : (readPages visited page (responder [page] :: more)).sent =
          page :: (readPages (page.encodedUrl :: visited) (Request.get link) more).sent := by
        simp [readPages, hp, hl]
      refine ⟨responder [page] :: more, ?_, ?_⟩
      · rw [he, answers_cons, ← hmore]
      · have hle : (readPages (page.encodedUrl :: visited) (Request.get link) more).sent.length ≤
            (links.filter (· ∉ link :: page.encodedUrl :: visited)).card + 1 := hlength
        rw [he, List.length_cons]
        omega

end Responder

/-! ## Collections -/

/-- What reading a collection sends and gives, for every run of answers: GETs of different URLs,
    each of them the link on the page before, pages that came with a 2xx status, and either the
    records of all pages in order or the error of the page that was asked for last. If a service has
    finitely many links to give, reading ends after one request more than there are links at most,
    whatever it answers. -/
theorem readAll_follows_links {r : Request} (hr : r.method = .get) :
    (∀ answers, ∃ (links : List Text) (pages : List Json),
      let e := readAll r answers
      let urls := e.sent.map Request.encodedUrl
      e.sent = r :: links.map Request.get ∧ (∀ sent ∈ e.sent, sent.method = .get) ∧
      urls.Nodup ∧
      (pages.take links.length).map Response.nextLinkOf = links.map some ∧
      List.Forall₂ Brings (answers.take pages.length) pages ∧
      ((pagesOf e.sent answers = pages.map .ok ∧
          e.result = .ok (pages.flatMap Response.recordsOf) ∧
          ∀ last ∈ pages.getLast?, ∀ link ∈ Response.nextLinkOf last, link ∈ urls) ∨
        ∃ cause, pagesOf e.sent answers = pages.map .ok ++ [.error cause] ∧
          e.result = .error cause ∧
          ∃ last, e.sent.getLast? = some last ∧ FailsWith last answers[pages.length]? cause)) ∧
    ∀ (responder : Responder) (links : Finset Text), responder.LinksIn links →
      ∃ answers, answers = responder.answers (readAll r answers).sent ∧
        (readAll r answers).sent.length ≤ links.card + 1 := by
  constructor
  · intro answers
    obtain ⟨links, pages, h⟩ := exists_follows [] r answers
    have hurls : (readAll r answers).sent.map Request.encodedUrl = r.encodedUrl :: links := by
      rw [readAll, h.sent_eq]
      simp [Function.comp_def]
    refine ⟨links, pages, h.sent_eq, ?_, ?_, h.links_eq, ?_, ?_⟩
    · rw [readAll, h.sent_eq]
      simpa [Request.get, Request.make] using hr
    · rw [hurls]
      exact h.links_new.1
    · obtain ⟨hpages, -⟩ | ⟨cause, hpages, -⟩ := h.result_eq
      · exact brings_of_pagesOf (hpages.trans (List.append_nil _).symm)
      · exact brings_of_pagesOf hpages
    · rw [hurls]
      obtain ⟨hpages, hresult, hlast⟩ | ⟨cause, hpages, hresult⟩ := h.result_eq
      · exact .inl ⟨hpages, hresult, by simpa using hlast⟩
      · exact .inr ⟨cause, hpages, hresult, failsWith_of_pagesOf hpages⟩
  · intro responder links h
    obtain ⟨answers, hanswers, hlength⟩ := Responder.exists_answers h [] r
    refine ⟨answers, hanswers, hlength.trans ?_⟩
    have := Finset.card_filter_le links (· ∉ [r.encodedUrl])
    omega

/-- Two pages that link to each other are read once each. A page with another status than 2xx makes
    reading fail, also if it has records. -/
theorem readAll_follows_links_in_circle :
    let page (value link : Text) : Answer := .ok ⟨200, [],
      "\x7b\"value\":[".toList ++ value ++ "],\"@odata.nextLink\":".toList ++ link ++ "\x7d".toList⟩
    let responder : Responder := fun requests =>
      if requests.length % 2 = 1 then page ['1'] "\"/b\"".toList else page ['2'] "\"/a\"".toList
    let start := Request.get "/a".toList
    let e := readAll start (responder.answers [start, start])
    let moved : Answer := .ok ⟨300, [], "\x7b\"value\":[2]\x7d".toList⟩
    let failed := readAll start [page ['1'] "\"/b\"".toList, moved]
    (e.sent = [start, Request.get "/b".toList] ∧ (e.sent.map Request.encodedUrl).Nodup ∧
      e.result.toOption.map List.length = some 2) ∧
    (failed.sent = [start, Request.get "/b".toList] ∧
      failed.result = .error (.status .get "/b".toList 300 "\x7b\"value\":[2]\x7d".toList)) ∧
    ∃ answers, answers = responder.answers (readAll start answers).sent ∧
      (readAll start answers).sent.length ≤ 3 := by
  intro page responder start e moved failed
  obtain ⟨hall, hend⟩ := readAll_follows_links (r := start) rfl
  refine ⟨?_, ?_, ?_⟩
  · obtain ⟨links, pages, -, -, hnodup, -⟩ := hall (responder.answers [start, start])
    exact ⟨by decide +kernel, hnodup, by decide +kernel⟩
  · have hsent : failed.sent = [start, Request.get "/b".toList] := by decide +kernel
    have hfailed : failed.result.toOption.isSome = false := by decide +kernel
    obtain ⟨links, pages, -, -, -, -, -, hstop⟩ := hall [page ['1'] "\"/b\"".toList, moved]
    change (pagesOf failed.sent _ = _ ∧ failed.result = _ ∧ _) ∨
      ∃ cause, pagesOf failed.sent _ = _ ∧ failed.result = _ ∧
        ∃ last, failed.sent.getLast? = _ ∧ _ at hstop
    rw [hsent] at hstop
    obtain ⟨-, hresult, -⟩ | ⟨cause, hpages, hresult, last, ⟨⟩, hcause⟩ := hstop
    · rw [hresult] at hfailed
      cases hfailed
    · have hlength : pages.length = 1 := by simpa using congrArg List.length hpages.symm
      have hanswer : [page ['1'] "\"/b\"".toList, moved][1]? =
          some (.ok ⟨300, [], "\x7b\"value\":[2]\x7d".toList⟩) := rfl
      rw [hlength, hanswer] at hcause
      cases hcause with
      | status _ => exact ⟨hsent, hresult⟩
      | invalid _ hhigh => exact absurd hhigh (by decide)
  · refine hend responder {"/a".toList, "/b".toList} ?_
    intro requests body hbody link hlink
    have hgiven : (pageIn? (responder requests)).bind Response.nextLinkOf = some link := by
      rw [hbody]
      exact hlink
    have hfirst : (pageIn? (page ['1'] "\"/b\"".toList)).bind Response.nextLinkOf =
        some "/b".toList := by decide +kernel
    have hsecond : (pageIn? (page ['2'] "\"/a\"".toList)).bind Response.nextLinkOf =
        some "/a".toList := by decide +kernel
    simp only [responder] at hgiven
    split at hgiven
    · rw [hfirst] at hgiven
      cases hgiven
      simp
    · rw [hsecond] at hgiven
      cases hgiven
      simp

end EntityQuery.Execution
