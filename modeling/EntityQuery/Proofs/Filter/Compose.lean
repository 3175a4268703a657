-- SUMMARY: The filter of conditions joined by an operator is their filters, joined by the word for it.
import EntityQuery.Proofs.Filter.Rewrite

/-!
# Conditions joined by operators

Two conditions with an operator between them make one condition, and its filter
is made of the filters of the two. The last run of the first condition, the
operator and the first run of the second one become one run, so this is first
said of runs, and then of what stands before and after them.
-/

namespace EntityQuery

namespace Filter

/-! ## Operators in a table -/

/-- The operators that stand between two conditions: how each is written, and the word that it
    becomes. -/
def infixes : List (List Mark × Text) := [
  (Mark.phrase ["and".toList], "and".toList),
  (Mark.phrase ["or".toList], "or".toList),
  (Mark.phrase ["like".toList], "contains".toList),
  ([.text "=".toList], "eq".toList),
  ([.text "<>".toList], "ne".toList),
  ([.text "!=".toList], "ne".toList),
  ([.text ">".toList], "gt".toList),
  ([.text "<".toList], "lt".toList),
  ([.text ">=".toList], "ge".toList),
  ([.text "<=".toList], "le".toList)]

/-- The operators that stand after a condition, in the same way. -/
def postfixes : List (List Mark × Text) := [
  (Mark.phrase ["is".toList, "null".toList], "eq null".toList),
  (Mark.phrase ["is".toList, "not".toList, "null".toList], "ne null".toList)]

end Filter

namespace Operator

/-- A text that an operator is read from, whatever follows after a blank. -/
structure Spells (t : Text) (op : Operator) : Prop where
  ne_nil : t ≠ []
  isBlank_head : ∀ c ∈ t.head?, isBlank c = false
  foldCase_head : ∀ c ∈ t.head?, foldCase c ≠ 'n'
  plain : ∀ c ∈ t, isRunChar c = true
  read : ∀ rest : Text, (∀ c ∈ rest.head?, isBlank c = true) →
    read? false (t ++ rest) = some (op, rest)

/-- An operator in signs is read if blanks follow. -/
theorem spells_of_signs {c : Char} {t : Text} {op : Operator}
    (hc : foldCase c ∉ ['i', 'a', 'o', 'l'])
    (h : readSigns? (c :: t) = some (op, [])) (hfold : foldCase c ≠ 'n')
    (hblank : isBlank c = false) (hplain : ∀ d ∈ c :: t, isRunChar d = true) :
    Spells (c :: t) op where
  ne_nil := List.cons_ne_nil c t
  isBlank_head := by simpa using hblank
  foldCase_head := by simpa using hfold
  plain := hplain
  read rest hrest := by
    rw [read?, List.cons_append, readPhrase?_of_foldCase hc, ← List.cons_append,
      readSigns?_append hrest (List.cons_ne_nil c t), h]
    rfl

/-- A phrase with `not` in it is not read where the one without it is written. -/
theorem afterPhrase?_isNotNull {t : Text}
    (h : Written (Mark.phrase ["is".toList, "null".toList]) t) (rest : Text) :
    Text.afterPhrase? ["is".toList, "not".toList, "null".toList] (t ++ rest) = none := by
  have his : Text.IsKeyword "is".toList := ⟨by decide, by decide⟩
  have hnull : Text.IsKeyword "null".toList := ⟨by decide, by decide⟩
  obtain ⟨s, _, rfl, hs, ⟨hnil, -⟩ | ⟨-, g, u, rfl, hg, hu⟩⟩ := Text.exists_of_written_phrase h
  · cases hnil
  have hs := his.map_foldCase hs
  have hu := hnull.map_foldCase (written_singleton.1 hu)
  rw [Text.afterPhrase?_cons_cons, List.append_assoc, List.append_assoc,
    Text.afterKeyword?_append hs, Option.bind_some, Text.afterBlanks?_append hg, Option.bind_some,
    hnull.trimStart_append hu, Text.afterPhrase?_cons_cons]
  refine Option.bind_eq_none_iff.2 fun after hafter => ?_
  -- The second letter of `null` is not that of `not`.
  obtain ⟨v, hv, hnot⟩ := Text.afterKeyword?_eq_some.1 hafter
  have hletters := congrArg (fun t => (t.map foldCase).take 2) hv
  simp [hu, hnot] at hletters

/-- The first of the phrases that can be read is read. -/
theorem readPhrase?_eq_some (before : List (Operator × List Text)) {op : Operator}
    {words : List Text} {after : List (Operator × List Text)}
    (hphrases : phrases = before ++ (op, words) :: after) {t rest : Text}
    (hbefore : ∀ phrase ∈ before, Text.afterPhrase? phrase.2 t = none)
    (h : Text.afterPhrase? words t = some rest) (hrest : ∀ c ∈ rest.head?, isBlank c = true) :
    readPhrase? t = some (op, rest) := by
  have hends : rest.startsInWord = false := Text.startsInWord_append hrest []
  rw [readPhrase?, hphrases, List.findSome?_append, List.findSome?_eq_none_iff.2, Option.none_or,
    List.findSome?_cons]
  · simp [h, hends]
  · intro phrase hmem
    simp [hbefore phrase hmem]

variable {op : Operator} {words : List Text} {t : Text}

/-- An operator in words starts with the first letter of its phrase. -/
theorem exists_cons_of_written (hop : (op, words) ∈ phrases) (ht : Written (Mark.phrase words) t) :
    ∃ (c : Char) (u : Text), t = c :: u ∧ Text.initial? words = some (foldCase c) := by
  have hne : ∀ phrase ∈ phrases, phrase.2 ≠ [] := by decide
  exact Text.exists_cons_of_written_phrase (isKeyword_of_mem_phrases hop).1 (hne _ hop) ht

theorem readPhrase?_of_written (hop : (op, words) ∈ phrases) (ht : Written (Mark.phrase words) t)
    {rest : Text} (hrest : ∀ c ∈ rest.head?, isBlank c = true) :
    readPhrase? (t ++ rest) = some (op, rest) := by
  have hread := Text.afterPhrase?_append_of_written (isKeyword_of_mem_phrases hop).1 ht rest
  obtain ⟨c, u, rfl, hhead⟩ := exists_cons_of_written hop ht
  -- Phrases that start with another letter are not read.
  have hother {k d : Char} (hd : some k = some (foldCase c)) (hk : k ≠ d) (word : Text)
      (words : List Text) : Text.afterPhrase? ((d :: word) :: words) (c :: (u ++ rest)) = none :=
    Text.afterPhrase?_of_head? (by simpa [← Option.some.inj hd] using hk)
  simp only [phrases, List.mem_cons, Prod.mk.injEq, List.not_mem_nil, or_false] at hop
  obtain ⟨rfl, rfl⟩ | ⟨rfl, rfl⟩ | ⟨rfl, rfl⟩ | ⟨rfl, rfl⟩ | ⟨rfl, rfl⟩ := hop
  · exact readPhrase?_eq_some [] rfl (by simp) hread hrest
  · refine readPhrase?_eq_some [_] rfl ?_ hread hrest
    simpa using afterPhrase?_isNotNull ht rest
  · refine readPhrase?_eq_some [_, _] rfl ?_ hread hrest
    simp [hother (k := 'a') hhead]
  · refine readPhrase?_eq_some [_, _, _] rfl ?_ hread hrest
    simp [hother (k := 'o') hhead]
  · refine readPhrase?_eq_some [_, _, _, _] rfl ?_ hread hrest
    simp [hother (k := 'l') hhead]

/-- An operator in words is read if blanks follow. -/
theorem spells_of_phrase (hop : (op, words) ∈ phrases) (ht : Written (Mark.phrase words) t) :
    Spells t op := by
  obtain ⟨c, u, rfl, hhead⟩ := exists_cons_of_written hop ht
  have hletters : ∀ phrase ∈ phrases, ∀ k ∈ Text.initial? phrase.2,
      k ≠ 'n' ∧ isBlank k = false := by decide
  obtain ⟨hn, hblank⟩ := hletters _ hop _ hhead
  refine ⟨List.cons_ne_nil c u, ?_, by simpa using hn, fun d hd => ?_, fun rest hrest => ?_⟩
  · intro d hd
    obtain rfl : c = d := by simpa using hd
    by_contra hc
    rw [foldCase_of_isBlank (by simpa using hc)] at hblank
    exact hc hblank
  · exact isRunChar_of_phrase (Text.of_mem_written_phrase (isKeyword_of_mem_phrases hop).1 ht hd)
  · rw [read?, if_neg Bool.false_ne_true, readPhrase?_of_written hop ht hrest]
    rfl

/-- Every operator of the tables is read where it is written. -/
theorem exists_spells {marks : List Mark} {word : Text}
    (h : (marks, word) ∈ Filter.infixes ++ Filter.postfixes) (ht : Written marks t) :
    ∃ op : Operator, op.word = word ∧ Spells t op := by
  have hsigns {signs : Text} (ht : Written [.text signs] t) : signs = t :=
    (written_singleton.1 ht).symm
  simp only [Filter.infixes, Filter.postfixes, List.cons_append, List.nil_append, List.mem_cons,
    Prod.mk.injEq, List.not_mem_nil, or_false] at h
  obtain ⟨rfl, rfl⟩ | ⟨rfl, rfl⟩ | ⟨rfl, rfl⟩ | ⟨rfl, rfl⟩ | ⟨rfl, rfl⟩ | ⟨rfl, rfl⟩ | ⟨rfl, rfl⟩ |
    ⟨rfl, rfl⟩ | ⟨rfl, rfl⟩ | ⟨rfl, rfl⟩ | ⟨rfl, rfl⟩ | ⟨rfl, rfl⟩ := h
  · exact ⟨and, rfl, spells_of_phrase (by decide) ht⟩
  · exact ⟨or, rfl, spells_of_phrase (by decide) ht⟩
  · exact ⟨like, rfl, spells_of_phrase (by decide) ht⟩
  · exact ⟨equal, rfl, hsigns ht ▸ spells_of_signs (by decide) rfl (by decide) rfl (by decide)⟩
  · exact ⟨notEqual, rfl, hsigns ht ▸ spells_of_signs (by decide) rfl (by decide) rfl (by decide)⟩
  · exact ⟨notEqual, rfl, hsigns ht ▸ spells_of_signs (by decide) rfl (by decide) rfl (by decide)⟩
  · exact ⟨greater, rfl, hsigns ht ▸ spells_of_signs (by decide) rfl (by decide) rfl (by decide)⟩
  · exact ⟨less, rfl, hsigns ht ▸ spells_of_signs (by decide) rfl (by decide) rfl (by decide)⟩
  · exact ⟨greaterOrEqual, rfl,
      hsigns ht ▸ spells_of_signs (by decide) rfl (by decide) rfl (by decide)⟩
  · exact ⟨lessOrEqual, rfl,
      hsigns ht ▸ spells_of_signs (by decide) rfl (by decide) rfl (by decide)⟩
  · exact ⟨isNull, rfl, spells_of_phrase (by decide) ht⟩
  · exact ⟨isNotNull, rfl, spells_of_phrase (by decide) ht⟩

end Operator

/-! ## Runs joined by operators -/

namespace Filter

open Operator

/-- The run of two runs and an operator between them. -/
theorem ofRun_operator {op : Operator} {t : Text} (h : Spells t op) {u : Text} (hu : u.IsGap)
    (before : Text) {rest : Text} (hrest : ∀ c ∈ rest.head?, isBlank c = true) :
    ofRun (before ++ (u ++ (t ++ rest))) =
      (ofRun before).trimEnd ++ ' ' :: (op.word ++ ' ' :: (ofRun rest).trimStart) := by
  have hhead {p : Char → Prop} (ht : ∀ c ∈ t.head?, p c) : ∀ c ∈ (t ++ rest).head?, p c := by
    cases t with
    | nil => exact absurd rfl h.ne_nil
    | cons c t => exact ht
  have hstart : Text.trimStart (u ++ (t ++ rest)) = t ++ rest := by
    rw [Text.trimStart_append_of_isBlank hu.2, Text.trimStart_of_head? (hhead h.isBlank_head)]
  have hstops : Stops (u ++ (t ++ rest)) :=
    ⟨hu.head?_append _, by rw [hstart]; exact hhead h.foldCase_head⟩
  obtain ⟨inWord, hbefore⟩ := replaceFrom_append hstops (Nat.zero_le before.length) false
  have hspace : Text.IsGap [' '] := ⟨by decide, by decide⟩
  calc ofRun (before ++ (u ++ (t ++ rest)))
      = Text.collapse (replaceFrom false 0 before ++ (u ++ [' ']) ++
          (op.word ++ ([' '] ++ replaceFrom false 0 rest))) := by
        rw [ofRun, hbefore, replaceFrom_gap hu, replaceFrom_of_read? (h.read rest hrest)]
        simp
    _ = Text.collapse (Text.trimEnd (replaceFrom false 0 before)) ++ ' ' :: (op.word ++ ' ' ::
          Text.collapse (Text.trimStart (replaceFrom false 0 rest))) := by
        rw [Text.collapse_append_gap ⟨by simp, by simp [hu.2, hspace.2]⟩, Text.collapseFrom_append,
          (collapseFrom_word op true).1, (collapseFrom_word op true).2,
          Text.collapseFrom_gap_append hspace]
    _ = (ofRun before).trimEnd ++ ' ' :: (op.word ++ ' ' :: (ofRun rest).trimStart) := by
        rw [← Text.trimEnd_collapse, ← Text.trimStart_collapse, ← ofRun, ← ofRun]

/-! ## Conditions joined by operators -/

theorem isRunChar_of_isGap {g : Text} (hg : g.IsGap) : ∀ c ∈ g, isRunChar c = true :=
  fun c hc => of_isBlank (p := isRunChar) (by decide) (Text.isBlank_iff.1 hg.2 c hc)

theorem notMem_of_isRunChar {t : Text} (h : ∀ c ∈ t, isRunChar c = true) :
    '\'' ∉ t ∧ ',' ∉ t :=
  ⟨fun hc => absurd (h _ hc) (by decide), fun hc => absurd (h _ hc) (by decide)⟩

variable {a b u v t : Text} {op : Operator}

open Skeleton

/-- The filter of two conditions with an operator between them. -/
theorem ofCondition_between (h : Spells t op) (ha : a.QuotesClosed) (hablank : a.isBlank = false)
    (hu : u.IsGap) (hv : v.IsGap) (hb : b.QuotesClosed) (hbblank : b.isBlank = false) :
    ofCondition (a ++ u ++ t ++ v ++ b) =
      ofCondition a ++ ' ' :: op.word ++ ' ' :: ofCondition b := by
  obtain ⟨s, hs, rfl⟩ := exists_outline ha
  obtain ⟨before, x, rfl, hx, hbefore⟩ := exists_append_run s
  obtain ⟨r, hr, rfl⟩ := exists_outline hb
  obtain ⟨y, after, rfl, hy, hafter⟩ := exists_run_append r
  obtain ⟨hquote, hcomma⟩ := notMem_of_isRunChar h.plain
  obtain ⟨huquote, hucomma⟩ := notMem_of_isRunChar (isRunChar_of_isGap hu)
  obtain ⟨hvquote, hvcomma⟩ := notMem_of_isRunChar (isRunChar_of_isGap hv)
  have hproper : Proper (before ++ ((x ++ (u ++ (t ++ (v ++ y)))).map Slot.char ++ after)) := by
    simp only [Proper.append_iff, List.map_append] at hs hr ⊢
    exact ⟨hs.1, ⟨hs.2, proper_map_char huquote, proper_map_char hquote, proper_map_char hvquote,
      hr.1⟩, hr.2⟩
  have hrun : ',' ∉ x ++ (u ++ (t ++ (v ++ y))) := by simp [hx, hucomma, hcomma, hvcomma, hy]
  have hwhole : text () (before ++ x.map Slot.char) ++ u ++ t ++ v ++
      text () (y.map Slot.char ++ after) =
      text () (before ++ ((x ++ (u ++ (t ++ (v ++ y)))).map Slot.char ++ after)) := by
    simp [List.append_assoc]
  have hjoined := ofRun_operator h hu x (hv.head?_append y)
  rw [trimStart_ofRun_append hv.2] at hjoined
  calc ofCondition (text () (before ++ x.map Slot.char) ++ u ++ t ++ v ++
        text () (y.map Slot.char ++ after))
      = Text.trim ((rewritten () before ++ (ofRun x).trimEnd) ++ ' ' :: (op.word ++ [' ']) ++
          ((ofRun y).trimStart ++ rewritten () after)) := by
        rw [hwhole, ofCondition_eq_trim hproper, rewritten_append _ (.inl hbefore),
          rewritten_append _ (.inr hafter), rewritten_map_char _ hrun, hjoined]
        simp
    _ = Text.trim ((rewritten () (before ++ x.map Slot.char)).trimEnd ++
          ' ' :: (op.word ++ [' ']) ++ (rewritten () (y.map Slot.char ++ after)).trimStart) := by
        rw [trimEnd_rewritten_append _ hbefore hx, trimStart_append_rewritten _ hafter hy]
    _ = _ := by
        rw [Text.trim_append_append (by rw [isBlank_rewritten, hablank])
          (by rw [isBlank_rewritten, hbblank]), ← ofCondition_eq_trim hs, ← ofCondition_eq_trim hr]
        simp

/-- The filter of a condition with an operator after it. -/
theorem ofCondition_after (h : Spells t op) (ha : a.QuotesClosed) (hablank : a.isBlank = false)
    (hu : u.IsGap) : ofCondition (a ++ u ++ t) = ofCondition a ++ ' ' :: op.word := by
  obtain ⟨s, hs, rfl⟩ := exists_outline ha
  obtain ⟨before, x, rfl, hx, hbefore⟩ := exists_append_run s
  obtain ⟨hquote, hcomma⟩ := notMem_of_isRunChar h.plain
  obtain ⟨huquote, hucomma⟩ := notMem_of_isRunChar (isRunChar_of_isGap hu)
  have hproper : Proper (before ++ (x ++ (u ++ t)).map Slot.char) := by
    simp only [Proper.append_iff, List.map_append] at hs ⊢
    exact ⟨hs.1, hs.2, proper_map_char huquote, proper_map_char hquote⟩
  have hrun : ',' ∉ x ++ (u ++ t) := by simp [hx, hucomma, hcomma]
  have hwhole : text () (before ++ x.map Slot.char) ++ u ++ t =
      text () (before ++ (x ++ (u ++ t)).map Slot.char) := by
    simp [List.append_assoc]
  have hend : ∀ c ∈ ([] : Text).head?, isBlank c = true := by simp
  have hjoined := ofRun_operator h hu x hend
  rw [List.append_nil, show Text.trimStart (ofRun []) = [] from rfl] at hjoined
  have hword : Text.isBlank (op.word ++ [' ']) = false ∧
      Text.trimStart (op.word ++ [' ']) = op.word ++ [' '] ∧
      Text.trim (op.word ++ [' ']) = op.word := by
    cases op <;> decide
  calc ofCondition (text () (before ++ x.map Slot.char) ++ u ++ t)
      = Text.trim ((rewritten () before ++ (ofRun x).trimEnd) ++ [' '] ++
          Text.trimStart (op.word ++ [' '])) := by
        rw [hwhole, ofCondition_eq_trim hproper, rewritten_append _ (.inl hbefore),
          rewritten_map_char _ hrun, hjoined, hword.2.1]
        simp
    _ = Text.trim ((rewritten () (before ++ x.map Slot.char)).trimEnd ++ [' '] ++
          Text.trimStart (op.word ++ [' '])) := by
        rw [trimEnd_rewritten_append _ hbefore hx]
    _ = _ := by
        rw [Text.trim_append_append (by rw [isBlank_rewritten, hablank]) hword.1, hword.2.2,
          ← ofCondition_eq_trim hs]
        simp

/-- Every operator joins conditions to a condition whose filter is made of their filters and the
    word for the operator: one between two conditions, and one after a condition alike. -/
theorem ofCondition_operator (ha : a.QuotesClosed) (hablank : a.isBlank = false) (hu : u.IsGap) :
    (∀ marks word, (marks, word) ∈ infixes → ∀ t v b : Text, Written marks t → v.IsGap →
      b.QuotesClosed → b.isBlank = false →
      ofCondition (a ++ u ++ t ++ v ++ b) =
        ofCondition a ++ ' ' :: word ++ ' ' :: ofCondition b) ∧
    ∀ marks word, (marks, word) ∈ postfixes → ∀ t : Text, Written marks t →
      ofCondition (a ++ u ++ t) = ofCondition a ++ ' ' :: word := by
  constructor
  · intro marks word hmem t v b ht hv hb hbblank
    obtain ⟨op, rfl, hop⟩ := exists_spells (List.mem_append_left _ hmem) ht
    exact ofCondition_between hop ha hablank hu hv hb hbblank
  · intro marks word hmem t ht
    obtain ⟨op, rfl, hop⟩ := exists_spells (List.mem_append_right _ hmem) ht
    exact ofCondition_after hop ha hablank hu

/-- An operator is found also if the condition before it could go on with it. -/
theorem ofCondition_operator_after_is : Text.QuotesClosed "x = 'a,b' IS".toList ∧
    ofCondition "x = 'a,b' IS\t oR\u3000not null".toList =
      ofCondition "x = 'a,b' IS".toList ++ ' ' :: "or".toList ++ ' ' ::
        ofCondition "not null".toList ∧
    ofCondition "x = 'a,b' IS iS\n NOT  nULL".toList =
      ofCondition "x = 'a,b' IS".toList ++ ' ' :: "ne null".toList := by
  have hclosed : Text.QuotesClosed "x = 'a,b' IS".toList := by decide
  refine ⟨hclosed, ?_, ?_⟩
  · exact (ofCondition_operator hclosed rfl (by decide : Text.IsGap "\t ".toList)).1 _ _
      (.tail _ (.head _)) "oR".toList "\u3000".toList "not null".toList (by decide) (by decide)
      (by decide) rfl
  · exact (ofCondition_operator hclosed rfl (by decide : Text.IsGap " ".toList)).2 _ _
      (.tail _ (.head _)) "iS\n NOT  nULL".toList (by decide)

end Filter

end EntityQuery
