-- SUMMARY: The contents of literals that are values cannot change the structure of a statement.
import EntityQuery.Proofs.Statement.Alike

/-!
# Values cannot change the structure of a statement

Whoever fills in the values of a statement has no influence on anything else.
Take two texts that differ only in the contents of literals that are values.
Either both are refused, or both become queries with the same structure.
-/

namespace EntityQuery

open Skeleton Statement

/-! ## Texts as statements -/

namespace Skeleton

variable {ι : Type}

/-- The last character of a text is outside of literals unless it is a quote. -/
theorem getLast?_text (i : ι) (s : Skeleton ι) {c : Char} (hc : c ≠ '\'') :
    (text i s).getLast? = some c ↔ s.getLast? = some (.char c) := by
  obtain rfl | ⟨s, slot, rfl⟩ := List.eq_nil_or_concat s
  · simp
  · cases slot with
    | char d => simp [Slot.source]
    | literal content =>
      have hlast : (text i (s ++ [.literal content])).getLast? = some '\'' := by
        rw [text_append, text_cons, text_nil, List.append_nil, Slot.source, ← List.append_assoc,
          List.getLast?_concat]
      rw [List.concat_eq_append, hlast, List.getLast?_concat]
      simp [hc.symm]

theorem exists_leadingWord (s : Skeleton ι) : ∃ word, ∀ i, leadingWord (text i s) = word := by
  unfold leadingWord
  induction s with
  | nil => exact ⟨[], fun i => rfl⟩
  | cons slot s ih =>
    cases slot with
    | literal content => exact ⟨[], fun i => rfl⟩
    | char c =>
      obtain ⟨word, hword⟩ := ih
      cases hc : c.isAlpha with
      | false => exact ⟨[], fun i => List.takeWhile_cons_of_neg (by simp [hc])⟩
      | true =>
        refine ⟨c :: word, fun i => ?_⟩
        rw [← hword i]
        exact List.takeWhile_cons_of_pos hc

end Skeleton

/-- Without a semicolon at its end a statement gets one. -/
theorem exists_statement (s : Skeleton Side) (hs : s.Proper) :
    (∀ i, ofText? (text i s) = none) ∨
    ∃ statement : Skeleton Side, statement.Proper ∧
      (statement = s.trim ∨ statement = s.trim ++ [.char ';']) ∧
      ∀ i, ofText? (text i s) = some (text i statement) := by
  have hblank : ∀ i, (text i s).trim = [] ↔ s.trim = [] := by
    intro i
    rw [← text_trim, text_eq_nil_iff]
  have hlone : ∀ i, (text i s).trim = [';'] ↔ s.trim = [.char ';'] := by
    intro i
    rw [← text_trim, text_eq_singleton_iff _ _ (by decide)]
  have hlast : ∀ i, (text i s).trim.getLast? = some ';' ↔ s.trim.getLast? = some (.char ';') := by
    intro i
    rw [← text_trim, getLast?_text i _ (by decide)]
  by_cases hnone : s.trim = [] ∨ s.trim = [.char ';']
  · left
    intro i
    simp only [ofText?, hblank, hlone, hnone, if_true]
  · right
    by_cases hend : s.trim.getLast? = some (.char ';')
    · refine ⟨s.trim, hs.trim, .inl rfl, fun i => ?_⟩
      simp only [ofText?, hblank, hlone, hnone, hlast, hend, if_false, if_true, text_trim]
    · refine ⟨s.trim ++ [.char ';'], ?_, .inr rfl, fun i => ?_⟩
      · exact Proper.append_iff.2 ⟨hs.trim, List.forall_mem_singleton.2 (by decide : ';' ≠ '\'')⟩
      · simp only [ofText?, hblank, hlone, hnone, hlast, hend, if_false, text_append, text_trim]
        rfl

/-- What varies in a text varies in the statement that it is, counted from the statement's
    start. -/
theorem variesOnly_statement {s statement : Skeleton Side}
    (h : s.VariesOnly (fun place => (text .left s).holdsValue place = true) 0)
    (hstatement : statement = s.trim ∨ statement = s.trim ++ [.char ';'])
    (htext : ofText? (text .left s) = some (text .left statement)) :
    statement.VariesOnly (fun place => holdsValue (text .left statement) place = true) 0 := by
  obtain ⟨before, -, hbefore⟩ := eq_append_trimStart s
  obtain ⟨after, -, hafter⟩ := eq_trimEnd_append s.trimStart
  have hblanks : (text .left s).byteSize - (text .left s).trimStart.byteSize =
      (text .left before).byteSize := by
    have hsize : (text .left s).byteSize = (text .left (before ++ s.trimStart)).byteSize := by
      rw [← hbefore]
    rw [text_append, Text.byteSize_append, text_trimStart] at hsize
    omega
  intro u content v hu hne
  have htrim : ∃ w, s.trim = u ++ .literal content :: w := by
    obtain rfl | rfl := hstatement
    · exact ⟨v, hu⟩
    · obtain rfl | ⟨w, last, rfl⟩ := List.eq_nil_or_concat v
      · obtain ⟨-, hslot⟩ := List.append_inj' hu rfl
        cases hslot
      · rw [List.concat_eq_append, ← List.cons_append, ← List.append_assoc] at hu
        exact ⟨w, (List.append_inj' hu rfl).1⟩
  obtain ⟨w, htrim⟩ := htrim
  have hplace : s = (before ++ u) ++ .literal content :: (w ++ after) := by
    rw [hbefore, hafter, ← trim, htrim]
    simp
  have hfree := h _ content _ hplace hne
  simp only [Text.holdsValue, htext, Option.all_some, hblanks, Span.back, text_append,
    Text.byteSize_append, Nat.zero_add] at hfree
  simpa [Nat.add_assoc] using hfree

/-! ## Queries -/

namespace Query

theorem isUnscoped_eq {t₁ t₂ : Text} {q₁ q₂ : Query} (h : SameStructure t₁ t₂ q₁ q₂) :
    q₁.isUnscoped = q₂.isUnscoped := by
  rw [isUnscoped, isUnscoped, h.operation, h.filter.isNone_eq]

/-- Statements of a known operation that differ in values only are read alike. -/
theorem alike_readOperation {t : Side → Text} {s : Skeleton Side} {operation : Operation}
    (checks : Checks) (d : StatementPair t s operation) :
    Alike t fun i => readOperation checks (text i s) operation := by
  cases operation with
  | select => exact alike_select d
  | insert => exact alike_insert d
  | update => exact alike_update d
  | delete => exact alike_delete d

theorem alike_ofText {s : Skeleton Side} (hs : s.Proper)
    (h : s.VariesOnly (fun place => (text .left s).holdsValue place = true) 0) (checks : Checks) :
    Alike (text · s) fun i => ofText checks (text i s) := by
  obtain hnone | ⟨statement, hproper, htrim, hsome⟩ := exists_statement s hs
  · left
    intro i
    simp only [ofText, hnone]
    exact ⟨_, rfl⟩
  · have hvaries := variesOnly_statement h htrim (hsome .left)
    obtain ⟨word, hword⟩ := exists_leadingWord statement
    cases hop : Operation.ofWord? word with
    | none =>
      left
      intro i
      simp only [ofText, hsome, hword, hop]
      exact ⟨_, rfl⟩
    | some operation =>
      have d : StatementPair (text · s) statement operation :=
        ⟨hproper, hsome, fun i => by rw [hword, hop], hvaries⟩
      obtain herror | ⟨q, hq, hsame⟩ := alike_readOperation checks d
      · left
        intro i
        obtain ⟨e, he⟩ := herror i
        simp only [ofText, hsome, hword, hop, he]
        exact ⟨_, rfl⟩
      · have hunscoped : ∀ i, (q i).isUnscoped = (q .left).isUnscoped := by
          intro i
          cases i
          · rfl
          · exact (isUnscoped_eq hsame).symm
        cases hcheck : checks.filter && (q .left).isUnscoped with
        | true =>
          left
          intro i
          simp only [ofText, hsome, hword, hop, hq, bind, Except.bind, hunscoped, hcheck, if_true]
          exact ⟨_, rfl⟩
        | false =>
          right
          refine ⟨q, fun i => ?_, hsame⟩
          simp only [ofText, hsome, hword, hop, hq, bind, Except.bind, hunscoped, hcheck]
          rfl

/-- Two texts that differ only in the contents of literals that are values are both refused, or
    both become queries with the same structure. -/
theorem sameStructure_of_differsAt {t₁ t₂ : Text}
    (h : Text.DiffersAt (fun place => t₁.holdsValue place = true) 0 t₁ t₂) (checks : Checks) :
    ((∃ e₁, ofText checks t₁ = .error e₁) ∧ ∃ e₂, ofText checks t₂ = .error e₂) ∨
    ∃ q₁ q₂, ofText checks t₁ = .ok q₁ ∧ ofText checks t₂ = .ok q₂ ∧
      SameStructure t₁ t₂ q₁ q₂ := by
  obtain ⟨s, hs, rfl, rfl, hvaries⟩ := exists_text_of_differsAt h
  obtain herror | ⟨q, hq, hsame⟩ := alike_ofText hs hvaries checks
  · exact .inl ⟨herror .left, herror .right⟩
  · exact .inr ⟨q .left, q .right, hq .left, hq .right, hsame⟩

theorem sameStructure_of_update :
    let statement (a c : Text) : Text := "UPDATE t SET a = ".toList ++ (Text.quoted a ++
      (", b = 1 WHERE c = ".toList ++ (Text.quoted c ++ [';'])))
    let t₁ := statement "x".toList "y".toList
    let t₂ := statement ", b = 2 WHERE é;".toList []
    Text.DiffersAt (fun place => t₁.holdsValue place = true) 0 t₁ t₂ ∧
    ∃ q₁ q₂, ofText .strict t₁ = .ok q₁ ∧ ofText .strict t₂ = .ok q₂ ∧
      SameStructure t₁ t₂ q₁ q₂ := by
  intro statement t₁ t₂
  have hdiffers : Text.DiffersAt (fun place => t₁.holdsValue place = true) 0 t₁ t₂ := by
    refine .append_left (by decide) ?_
    refine .literal (by decide) (by decide) (fun _ => by decide +kernel) ?_
    refine .append_left (by decide) ?_
    refine .literal (by decide) (by decide) (fun _ => by decide +kernel) ?_
    exact .char (by decide) .nil
  refine ⟨hdiffers, (sameStructure_of_differsAt hdiffers .strict).resolve_left ?_⟩
  rintro ⟨⟨e, he⟩, -⟩
  have hok : (ofText .strict t₁).isOk = true := by decide +kernel
  rw [he] at hok
  cases hok

end Query

end EntityQuery
