-- SUMMARY: Filters are in the normal form of OData: no operator is left that would be replaced.
import EntityQuery.Proofs.Filter.Tokens
import EntityQuery.Proofs.Filter.Settled
import EntityQuery.Proofs.Skeleton.Settled

/-!
# Normal form

After a run has been rewritten, an operator is read from it only where its own
word stands. What is left of the operators in words is `and` and `or` in small
letters, and nothing is left of the operators in signs. Blanks are single
spaces. Since trimming takes nothing but blanks, the same holds of the runs of a
filter.
-/

namespace EntityQuery

/-! ## Normal texts -/

/-- Whether a text is found as keywords in another one, from where a word may start to where one may
    end. -/
def Text.Stands (words : List Text) (s t : Text) : Prop :=
  ∃ before after, t = before ++ (s ++ after) ∧ Text.Folds words s ∧
    Text.endsInWord false before = false ∧ Text.startsInWord after = false

/-- A text in which no operator of a condition is left but `and` and `or`, and with single spaces
    as blanks. -/
structure Filter.IsNormal (t : Text) : Prop where
  signs : ∀ c ∈ ['=', '<', '>'], c ∉ t
  words : ∀ words ∈ [["like".toList], ["is".toList, "null".toList],
    ["is".toList, "not".toList, "null".toList]], ∀ s, ¬ Text.Stands words s t
  lower : ∀ word ∈ ["and".toList, "or".toList], ∀ s, Text.Stands [word] s t → s = word
  blank : ∀ c ∈ t, isBlank c = true → c = ' '
  single : ¬ [' ', ' '] <:+: t

theorem Text.endsInWord_append_of_isBlank {g : Text} (hg : g.isBlank = true) (t : Text) :
    Text.endsInWord false (g ++ t) = t.endsInWord false := by
  cases ht : t.getLast? with
  | some c => simp [endsInWord, ht]
  | none =>
    rw [List.getLast?_eq_none_iff.1 ht, List.append_nil]
    cases hlast : g.getLast? with
    | none => simp [endsInWord, hlast]
    | some c =>
      simpa [endsInWord, hlast] using
        isWordChar_of_isBlank (isBlank_iff.1 hg c (List.mem_of_getLast? hlast))

/-- A keyword found in a text is found as well with blanks before and after the text. -/
theorem Text.Stands.append {words : List Text} {s t l r : Text} (h : Stands words s t)
    (hl : l.isBlank = true) (hr : r.isBlank = true) : Stands words s (l ++ (t ++ r)) := by
  obtain ⟨before, after, rfl, hfolds, hstart, hend⟩ := h
  refine ⟨l ++ before, after ++ r, by simp, hfolds, ?_, ?_⟩
  · rw [endsInWord_append_of_isBlank hl, hstart]
  · rw [startsInWord_append fun c hc => isBlank_iff.1 hr c (List.mem_of_head? hc), hend]

/-- A normal text is normal without blanks at its ends. -/
theorem Filter.IsNormal.of_append {l t r : Text} (hl : l.isBlank = true) (hr : r.isBlank = true)
    (h : IsNormal (l ++ (t ++ r))) : IsNormal t where
  signs c hc hmem := h.signs c hc (by simp [hmem])
  words words hwords s hs := h.words words hwords s (hs.append hl hr)
  lower word hword s hs := h.lower word hword s (hs.append hl hr)
  blank c hc := h.blank c (by simp [hc])
  single hspaces := h.single (hspaces.trans ⟨l, r, by simp⟩)

theorem Filter.IsNormal.trim {t : Text} (h : IsNormal t) : IsNormal t.trim := by
  obtain ⟨l, r, hl, hr, ht⟩ := Text.exists_eq_append_trim t
  rw [ht] at h
  exact h.of_append hl hr

namespace Filter

open Operator

variable {inWord : Bool} {op : Operator} {t rest : Text}

/-! ## Settled runs -/

/-- Whether every operator that is read from a text is already the word that replaces it. -/
def Settled (inWord : Bool) (t : Text) : Prop :=
  ∀ before rest op r, t = before ++ rest →
    read? (Text.endsInWord inWord before) rest = some (op, r) → rest = op.word ++ r

theorem settled_nil (inWord : Bool) : Settled inWord [] := by
  intro before rest op r ht hread
  obtain ⟨rfl, rfl⟩ := List.append_eq_nil_iff.1 ht.symm
  cases inWord <;> cases hread

theorem settled_cons {c : Char}
    (h : ∀ op r, read? inWord (c :: t) = some (op, r) → c :: t = op.word ++ r)
    (ht : Settled (isWordChar c) t) : Settled inWord (c :: t) := by
  intro before rest op r heq hread
  cases before with
  | nil =>
    obtain rfl : c :: t = rest := heq
    exact h op r hread
  | cons d before =>
    obtain ⟨rfl, rfl⟩ := List.cons.inj heq
    rw [Text.endsInWord_cons] at hread
    exact ht before rest op r rfl hread

theorem settled_cons_of_none {c : Char} (h : read? inWord (c :: t) = none)
    (ht : Settled (isWordChar c) t) : Settled inWord (c :: t) :=
  settled_cons (fun op r hread => by rw [h] at hread; cases hread) ht

theorem settled_space (ht : Settled false t) (inWord : Bool) : Settled inWord (' ' :: t) :=
  settled_cons_of_none (read?_of_isBlank rfl inWord t) ht

/-- Inside of a word no operator is read. -/
theorem settled_inWord {w : Text} (hw : ∀ c ∈ w, isWordChar c = true) (ht : Settled true t) :
    Settled true (w ++ t) := by
  induction w with
  | nil => exact ht
  | cons c w ih =>
    obtain ⟨hc, hw⟩ := List.forall_mem_cons.1 hw
    refine settled_cons_of_none ?_ (hc ▸ ih hw)
    rw [read?, if_pos rfl, readSigns?_of_isWordChar hc]
    rfl

theorem settled_word {w : Text} (hw : w ≠ [] ∧ ∀ c ∈ w, isWordChar c = true)
    (hread : ∀ op r, read? false (w ++ ' ' :: t) = some (op, r) → w ++ ' ' :: t = op.word ++ r)
    (ht : Settled false t) : Settled false (w ++ ' ' :: t) := by
  obtain ⟨hne, hw⟩ := hw
  obtain ⟨c, w, rfl⟩ := List.exists_cons_of_ne_nil hne
  obtain ⟨hc, hw⟩ := List.forall_mem_cons.1 hw
  exact settled_cons hread (hc ▸ settled_inWord hw (settled_space ht true))

theorem settled_plainWord {w : Text} (h : w ∈ plainWords) (ht : Settled false t) :
    Settled false (w ++ ' ' :: t) := by
  have hall : ∀ w ∈ plainWords, (w ≠ [] ∧ ∀ c ∈ w, isWordChar c = true) ∧
      ∀ phrase ∈ phrases, phrase.2.head? ≠ some (w.map foldCase) := by decide +kernel
  obtain ⟨hw, hfirst⟩ := hall w h
  have hspace : Text.startsInWord (' ' :: t) = false := (by decide : isWordChar ' ' = false)
  refine settled_word hw (fun op r hread => ?_) ht
  obtain ⟨-, hphrase⟩ | hsigns := read?_cases hread
  · rw [readPhrase?_append_of_word hw.2 hfirst hspace] at hphrase
    cases hphrase
  · obtain ⟨c, w, rfl⟩ := List.exists_cons_of_ne_nil hw.1
    rw [List.cons_append, readSigns?_of_isWordChar (hw.2 c (.head _))] at hsigns
    cases hsigns

/-- The words that replace operators are settled: `and` and `or` are read as themselves, and from
    the others nothing is read. -/
theorem settled_operatorWord (op : Operator) (ht : Settled false t) :
    Settled false (op.word ++ ' ' :: t) := by
  have hphrase {op : Operator} (hop : (op, [op.word]) ∈ phrases)
      (hword : Written (Mark.phrase [op.word]) op.word)
      (hw : op.word ≠ [] ∧ ∀ c ∈ op.word, isWordChar c = true) :
      Settled false (op.word ++ ' ' :: t) := by
    refine settled_word hw (fun op' r hread => ?_) ht
    rw [(spells_of_phrase hop hword).read (' ' :: t) (by rintro c ⟨⟩; rfl)] at hread
    cases hread
    rfl
  have htwo {v w : Text} (hv : v ∈ plainWords) (hw : w ∈ plainWords) :
      Settled false (v ++ ' ' :: w ++ ' ' :: t) := by
    rw [List.append_assoc, List.cons_append]
    exact settled_plainWord hv (settled_plainWord hw ht)
  cases op with
  | and => exact hphrase (by decide) (by decide) (by decide)
  | or => exact hphrase (by decide) (by decide) (by decide)
  | isNotNull => exact htwo (v := "ne".toList) (w := "null".toList) (by decide) (by decide)
  | isNull => exact htwo (v := "eq".toList) (w := "null".toList) (by decide) (by decide)
  | like => exact settled_plainWord (by decide) ht
  | notEqual => exact settled_plainWord (by decide) ht
  | greaterOrEqual => exact settled_plainWord (by decide) ht
  | lessOrEqual => exact settled_plainWord (by decide) ht
  | equal => exact settled_plainWord (by decide) ht
  | greater => exact settled_plainWord (by decide) ht
  | less => exact settled_plainWord (by decide) ht

/-- A run that has been rewritten is settled. -/
theorem settled_rewriteFrom (inWord : Bool) (t : Text) (afterBlank : Bool)
    (h : afterBlank = true → inWord = false) :
    Settled inWord (rewriteFrom inWord afterBlank t) := by
  have hgap {inWord afterBlank : Bool} (h : afterBlank = true → inWord = false) {u : Text}
      (hu : Settled false u) : Settled inWord (gap afterBlank ++ u) := by
    cases afterBlank with
    | true => exact h rfl ▸ hu
    | false => exact settled_space hu inWord
  induction inWord, t using rewrite_induction generalizing afterBlank with
  | nil inWord => exact settled_nil inWord
  | blank inWord c t hc ih =>
    rw [rewriteFrom_blank hc]
    exact hgap h (ih true fun _ => rfl)
  | operator inWord t op rest hread ih =>
    rw [rewriteFrom_operator hread]
    exact hgap h (settled_operatorWord op (ih true fun _ => rfl))
  | kept inWord c t hc hread ih =>
    rw [rewriteFrom_kept hc hread]
    exact settled_cons_of_none (read?_rewriteFrom hc hread) (ih false (by simp))

/-- Of the operators in words a settled text has only those that are their own words. -/
theorem exists_of_stands (h : Settled false t) {words : List Text} {s : Text}
    (hmem : (op, words) ∈ phrases) (hs : Text.Stands words s t) :
    ∃ phrase ∈ phrases, words = [phrase.1.word] ∧ s = phrase.1.word := by
  obtain ⟨before, after, ht, hfolds, hstart, hend⟩ := hs
  obtain ⟨hwords, -⟩ := isKeyword_of_mem_phrases hmem
  have hsome : readPhrase? (s ++ after) ≠ none := by
    intro hnone
    have hinside := readPhrase?_eq_none_iff.1 hnone _ hmem after
      (hfolds.afterPhrase?_append hwords after)
    rw [hend] at hinside
    cases hinside
  obtain ⟨⟨op', r⟩, hphrase⟩ := Option.ne_none_iff_exists'.1 hsome
  have hread : read? (Text.endsInWord false before) (s ++ after) = some (op', r) := by
    rw [hstart, read?, if_neg Bool.false_ne_true, hphrase]
    rfl
  have heq := h before (s ++ after) op' r ht hread
  obtain ⟨words', hmem', -⟩ := exists_of_readPhrase? hphrase
  -- The text and the word of the operator start with the same letter.
  have hinitial : Text.initial? words = op'.word.head?.map foldCase := by
    obtain ⟨c, u, rfl, hc, -⟩ := hfolds.exists_cons hwords
    cases hword : op'.word with
    | nil => cases op' <;> cases hword
    | cons d w =>
      rw [hword] at heq
      obtain ⟨rfl, -⟩ := List.cons.inj heq
      exact hc
  have hsame : ∀ phrase ∈ phrases, ∀ phrase' ∈ phrases,
      Text.initial? phrase.2 = phrase'.1.word.head?.map foldCase → phrase.2 = [phrase'.1.word] := by
    decide
  obtain rfl : words = [op'.word] := hsame _ hmem _ hmem' hinitial
  have hlength : s.length = op'.word.length := by
    rw [← hfolds.of_singleton, List.length_map]
  exact ⟨_, hmem', rfl, (List.append_inj heq hlength).1⟩

/-! ## Blanks -/

/-- A collapsed text has single spaces as blanks, and none at its start after a blank. -/
theorem collapseFrom_spaces (afterBlank : Bool) (t : Text) :
    (∀ c ∈ t.collapseFrom afterBlank, isBlank c = true → c = ' ') ∧
      ¬ [' ', ' '] <:+: t.collapseFrom afterBlank ∧
      (afterBlank = true → ∀ c ∈ (t.collapseFrom afterBlank).head?, isBlank c = false) := by
  induction t generalizing afterBlank with
  | nil => simp [Text.collapseFrom]
  | cons c t ih =>
    rw [Text.collapseFrom]
    split
    · obtain ⟨hblank, hsingle, hhead⟩ := ih true
      split
      · exact ⟨hblank, hsingle, fun _ => hhead rfl⟩
      · next hafter =>
        refine ⟨List.forall_mem_cons.2 ⟨fun _ => rfl, hblank⟩, fun hspaces => ?_,
          fun h => absurd h hafter⟩
        obtain hprefix | hspaces := List.infix_cons_iff.1 hspaces
        · obtain ⟨u, hu⟩ := (List.cons_prefix_cons.1 hprefix).2
          exact absurd (hhead rfl ' ' (by simp [← hu])) (by decide)
        · exact hsingle hspaces
    · next hc =>
      obtain ⟨hblank, hsingle, -⟩ := ih false
      refine ⟨List.forall_mem_cons.2 ⟨fun h => absurd h hc, hblank⟩, fun hspaces => ?_,
        fun _ d hd => ?_⟩
      · obtain hprefix | hspaces := List.infix_cons_iff.1 hspaces
        · obtain ⟨rfl, -⟩ := List.cons_prefix_cons.1 hprefix
          exact hc rfl
        · exact hsingle hspaces
      · cases hd
        simpa using hc

/-! ## Filters -/

/-- A run that has been rewritten is normal. -/
theorem isNormal_ofRun (t : Text) : IsNormal (ofRun t) := by
  have hsettled : Settled false (ofRun t) := settled_rewriteFrom false t false (by simp)
  have hmem : ∀ words ∈ [["like".toList], ["is".toList, "null".toList],
      ["is".toList, "not".toList, "null".toList]], (∃ op, (op, words) ∈ phrases) ∧
      ∀ phrase ∈ phrases, words ≠ [phrase.1.word] := by
    simp only [List.forall_mem_cons]
    exact ⟨⟨⟨.like, by decide⟩, by decide⟩, ⟨⟨.isNull, by decide⟩, by decide⟩,
      ⟨⟨.isNotNull, by decide⟩, by decide⟩, by simp⟩
  have hlower : ∀ word ∈ ["and".toList, "or".toList], ∃ op, (op, [word]) ∈ phrases := by
    simp only [List.forall_mem_cons]
    exact ⟨⟨.and, by decide⟩, ⟨.or, by decide⟩, by simp⟩
  obtain ⟨hblank, hsingle, -⟩ := collapseFrom_spaces false (replaceFrom false 0 t)
  constructor
  · intro c hc
    exact notMem_rewriteFrom (by simpa [or_comm, or_left_comm] using hc) false false t
  · intro words hwords s hs
    obtain ⟨⟨op, hop⟩, hnone⟩ := hmem words hwords
    obtain ⟨phrase, hphrase, heq, -⟩ := exists_of_stands hsettled hop hs
    exact hnone phrase hphrase heq
  · intro word hword s hs
    obtain ⟨op, hop⟩ := hlower word hword
    obtain ⟨phrase, -, heq, rfl⟩ := exists_of_stands hsettled hop hs
    exact (List.cons.inj heq).1.symm
  · exact hblank
  · exact hsingle

end Filter

namespace Token

variable {tokens : List Token} {t : Text}

/-- Trimming takes blanks from a run. -/
theorem exists_of_mem_trimFirst (h : run t ∈ trimFirst tokens) :
    ∃ l : Text, l.isBlank = true ∧ run (l ++ t) ∈ tokens := by
  rcases tokens with _ | ⟨content | u | _, tokens⟩
  · exact ⟨[], rfl, h⟩
  · exact ⟨[], rfl, h⟩
  · rw [trimFirst] at h
    split at h
    · exact ⟨[], rfl, .tail _ h⟩
    · obtain heq | h := List.mem_cons.1 h
      · obtain ⟨l, hl, hu⟩ := Text.exists_eq_append_trimStart u
        cases heq
        exact ⟨l, hl, by rw [← hu]; exact .head _⟩
      · exact ⟨[], rfl, .tail _ h⟩
  · exact ⟨[], rfl, h⟩

theorem exists_of_mem_trimLast (h : run t ∈ trimLast tokens) :
    ∃ r : Text, r.isBlank = true ∧ run (t ++ r) ∈ tokens := by
  fun_induction trimLast tokens with
  | case1 => cases h
  | case2 u hu => cases h
  | case3 u hu =>
    obtain ⟨r, hr, hend⟩ := Text.exists_eq_trimEnd_append u
    cases List.mem_singleton.1 h
    exact ⟨r, hr, by rw [← hend]; exact .head _⟩
  | case4 token tokens _ ih =>
    obtain rfl | h := List.mem_cons.1 h
    · exact ⟨[], rfl, by simp⟩
    · obtain ⟨r, hr, hmem⟩ := ih h
      exact ⟨r, hr, .tail _ hmem⟩

/-- The runs of a filter are normal. -/
theorem isNormal_of_mem_filtered (h : run t ∈ trimLast (trimFirst (tokens.map rewritten))) :
    Filter.IsNormal t := by
  obtain ⟨r, hr, h⟩ := exists_of_mem_trimLast h
  obtain ⟨l, hl, h⟩ := exists_of_mem_trimFirst h
  obtain ⟨token, -, htoken⟩ := List.mem_map.1 h
  cases token with
  | quoted content => cases htoken
  | comma => cases htoken
  | run u =>
    have hu : Filter.ofRun u = l ++ (t ++ r) := run.inj htoken
    exact (hu ▸ Filter.isNormal_ofRun u).of_append hl hr

end Token

namespace Filter

/-- The filter of a condition is in normal form, and it is its own filter. It has no blanks at its
    ends. If the quotes of the condition are closed, the runs of the filter are normal, and if one
    is left open, the whole filter is. -/
theorem ofCondition_normalizes (condition : Text) :
    ofCondition (ofCondition condition) = ofCondition condition ∧
      ((∀ c ∈ (ofCondition condition).head?, isBlank c = false) ∧
        ∀ c ∈ (ofCondition condition).getLast?, isBlank c = false) ∧
      (condition.QuotesClosed → ∃ tokens, tokenize (ofCondition condition) = .ok tokens ∧
        ∀ t, .run t ∈ tokens → IsNormal t) ∧
      (¬ condition.QuotesClosed → IsNormal (ofCondition condition)) := by
  refine ⟨ofCondition_ofCondition condition, Text.isBlank_ends_of_trim (trim_ofCondition condition),
    fun h => ?_, fun h => ?_⟩
  · obtain ⟨tokens, hcanonical, -, htokens⟩ := exists_tokens h
    exact ⟨_, tokenize_ofCondition htokens hcanonical, fun t => Token.isNormal_of_mem_filtered⟩
  · rw [ofCondition_of_not_quotesClosed h]
    exact (isNormal_ofRun condition).trim

/-- A condition whose last quote is left open, with operators in letters that only Unicode folds. -/
def openCondition : Text :=
  " x I\u017f  not\tNULL AND y LI\u212aE 'a  OR b>=1".toList

theorem ofCondition_normalizes_of_openCondition :
    (awkwardCondition.QuotesClosed ∧ ∃ tokens, tokenize (ofCondition awkwardCondition) = .ok tokens ∧
        ∀ t, .run t ∈ tokens → IsNormal t) ∧
      ¬ openCondition.QuotesClosed ∧ IsNormal (ofCondition openCondition) :=
  ⟨⟨by decide +kernel, (ofCondition_normalizes awkwardCondition).2.2.1 (by decide +kernel)⟩,
    by decide +kernel, (ofCondition_normalizes openCondition).2.2.2 (by decide +kernel)⟩

example : ofCondition openCondition = "x ne null and y contains 'a or b ge 1".toList := by
  decide +kernel

end Filter

end EntityQuery
