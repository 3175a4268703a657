-- SUMMARY: Keywords, names and clauses on the masks of texts with a common skeleton.
import EntityQuery.Proofs.Skeleton.Reader

/-!
# Clauses on masked texts

Every reader of a keyword, a name or a clause does the same on the masks of all
texts of a skeleton. Readers that take a reader of what follows hand this on.
-/

namespace EntityQuery.Skeleton

open Statement

variable {ι α D : Type} [Found ι D α] {k : Text → Option α}

/-! ## Keywords -/

theorem remains_afterKeyword {keyword : Text} (h : '\'' ∉ keyword) (s : Skeleton ι) :
    Remains s fun i => Text.afterKeyword? keyword (masked i s) := by
  induction keyword generalizing s with
  | nil => exact Uniform.present (List.suffix_refl s)
  | cons first keyword ih =>
    obtain ⟨hfirst, hkeyword⟩ := not_or.1 (mt List.mem_cons.2 h)
    cases s with
    | nil => exact Uniform.absent
    | cons slot s =>
      cases slot with
      | literal content =>
        -- A quote is no letter of a keyword, and stands for none.
        have hquote : foldCase '\'' ≠ first := fun he => hfirst (he ▸ rfl)
        simp only [masked_cons, Slot.masked, List.cons_append, Text.afterKeyword?, if_neg hquote]
        exact Uniform.absent
      | char c =>
        simp only [masked_cons, Slot.masked, List.cons_append, List.nil_append, Text.afterKeyword?]
        split
        · exact (ih hkeyword s).of_suffix (List.suffix_cons _ s)
        · exact Uniform.absent

theorem remains_afterBlanks (s : Skeleton ι) : Remains s fun i => (masked i s).afterBlanks? := by
  cases s with
  | nil => exact Uniform.absent
  | cons slot s =>
    cases slot with
    | literal content => exact Uniform.absent
    | char c =>
      simp only [masked_cons, Slot.masked, List.cons_append, List.nil_append, Text.afterBlanks?]
      split
      · simp only [← masked_trimStart]
        exact Uniform.present ((List.dropWhile_suffix _).trans (List.suffix_cons _ s))
      · exact Uniform.absent

theorem remains_afterPhrase {keywords : List Text} (h : ∀ keyword ∈ keywords, '\'' ∉ keyword)
    (s : Skeleton ι) : Remains s fun i => Text.afterPhrase? keywords (masked i s) := by
  induction keywords generalizing s with
  | nil => exact Uniform.present (List.suffix_refl s)
  | cons keyword more ih =>
    obtain ⟨hkeyword, hmore⟩ := List.forall_mem_cons.1 h
    cases more with
    | nil => exact remains_afterKeyword hkeyword s
    | cons next more =>
      refine Remains.bind (remains_afterKeyword hkeyword s) fun rest => ?_
      exact Remains.bind (remains_afterBlanks rest) (ih hmore)

/-! ## The end -/

theorem reads_readEnd : Reads ι Unit readEnd := by
  intro s
  have hend : ∀ i, (masked i s).trimStart = [';'] ↔ s.trimStart = [.char ';'] := by
    intro i
    rw [← masked_trimStart, masked_eq_singleton_iff i _ (by decide)]
  by_cases h : s.trimStart = [.char ';']
  · simp only [readEnd, hend, h]
    exact Uniform.present (d := ()) trivial
  · simp only [readEnd, hend, h]
    exact Uniform.absent

theorem blind_readEnd : Blind readEnd := by
  intro c t hc
  obtain rfl | rfl := hc <;> simp [readEnd, Text.trimStart, show isBlank '_' = false from rfl,
    show isBlank '\'' = false from rfl]

/-! ## Bodies -/

/-- A text up to a place where something is read: in all texts the part up to the same place. -/
def UpTo (D : Type) [Found ι D α] (s : Skeleton ι) (x : ι → Option (Text × α)) : Prop :=
  Uniform (fun d : Part ι × D => d.1.start = s ∧ Arranged d.1.after (Found.parts d.2))
    (fun d i => (masked i d.1.after, Found.result d.2 i)) x

theorem UpTo.here {s : Skeleton ι} {x : ι → Option α}
    (h : Uniform (fun d : D => Arranged s (Found.parts d)) Found.result x) :
    UpTo D s fun i => (x i).map fun a => (masked i s, a) :=
  h.map (fun d => (⟨[], s⟩, d)) (fun _ hd => ⟨rfl, hd⟩) fun _ _ _ => rfl

theorem UpTo.cons {s : Skeleton ι} {x : ι → Option (Text × α)} (slot : Slot ι)
    (h : UpTo D s x) : UpTo D (slot :: s) x := by
  obtain hnone | ⟨⟨p, d⟩, ⟨hp, hd⟩, hsome⟩ := h
  · exact .inl hnone
  · exact .inr ⟨(⟨slot :: p.body, p.after⟩, d), ⟨congrArg (slot :: ·) hp, hd⟩, hsome⟩

theorem upTo_readShortest (hk : Reads ι D k) (hb : Blind k) (s : Skeleton ι) :
    UpTo D s fun i => readShortest k (masked i s) := by
  induction s with
  | nil => exact .here (hk [])
  | cons slot s ih =>
    have hlonger := ih.cons slot
    cases slot with
    | literal content =>
      simp only [masked_cons]
      simp only [readShortest_skip hb fun c hc => eq_of_mem_masked_literal hc]
      exact hlonger
    | char c =>
      obtain hnone | ⟨d, hd, hsome⟩ := hk (.char c :: s)
      · simp only [masked_cons, Slot.masked, List.cons_append, List.nil_append] at hnone
        simpa [Slot.masked, readShortest, hnone] using hlonger
      · simp only [masked_cons, Slot.masked, List.cons_append, List.nil_append] at hsome
        right
        refine ⟨(⟨[], .char c :: s⟩, d), ⟨rfl, hd⟩, fun i => ?_⟩
        simp [Slot.masked, readShortest, hsome i]

theorem upTo_readUpToLast (hk : Reads ι D k) (hb : Blind k) (s : Skeleton ι) :
    UpTo D s fun i => readUpToLast k (masked i s) := by
  induction s with
  | nil => exact .here (hk [])
  | cons slot s ih =>
    have hlonger := ih.cons slot
    cases slot with
    | literal content =>
      simp only [masked_cons]
      simp only [readUpToLast_skip hb fun c hc => eq_of_mem_masked_literal hc]
      exact hlonger
    | char c => exact hlonger.orElse (UpTo.here (hk (.char c :: s)))

theorem reads_body (hk : Reads ι D k) (hb : Blind k) :
    Reads ι (Part ι × D) (readBody.body k) := by
  intro s
  cases s with
  | nil => exact Uniform.absent
  | cons slot s =>
    have hbody : Uniform (fun d : Part ι × D => Arranged (slot :: s) (Found.parts d)) Found.result
        fun i => (readShortest k (masked i s)).map fun d =>
          ((⟨slot.masked i ++ masked i s, d.1⟩ : Extent), d.2) := by
      refine Uniform.map (fun d : Part ι × D => ((⟨slot :: d.1.body, d.1.after⟩ : Part ι), d.2))
        (upTo_readShortest hk hb s) ?_ ?_
      · intro d hd
        exact ⟨hd.1 ▸ List.suffix_refl _, hd.2⟩
      · intro d hd i
        simp [Found.result, Part.extent, Part.start, ← hd.1]
    cases slot with
    | char c => exact hbody
    | literal content =>
      have hskip : ∀ i, readShortest k
          (List.replicate (content i).byteSize '_' ++ ['\''] ++ masked i s) =
            readShortest k (masked i s) := by
        intro i
        have hmask : ∀ c ∈ Slot.masked i (.literal content), c = '_' ∨ c = '\'' :=
          fun c hc => eq_of_mem_masked_literal hc
        exact readShortest_skip hb (List.forall_mem_cons.1 hmask).2 _
      simp only [masked_cons, Slot.masked, List.cons_append, readBody.body] at hbody ⊢
      simpa only [hskip] using hbody

/-- A run is tried at the same ends in all texts, and at none inside of a literal. -/
theorem uniform_readLongest {E : Type} {P : Skeleton ι → E → Prop} {result : E → ι → α}
    {p : Char → Bool} (hp : p '\'' = true → p '_' = true ∧ Blind k)
    (hmono : ∀ s t d, s <:+ t → P s d → P t d)
    (hk : ∀ s, Uniform (P s) result fun i => k (masked i s)) (s : Skeleton ι) :
    Uniform (P s) result fun i => readLongest p k (masked i s) := by
  induction s with
  | nil => exact Uniform.absent
  | cons slot s ih =>
    have hs : ∀ d, P s d → P (slot :: s) d := fun d => hmono s _ d (List.suffix_cons slot s)
    have hrest := (ih.orElse (hk s)).mono hs
    cases slot with
    | char c =>
      simp only [masked_cons, Slot.masked, List.cons_append, List.nil_append, readLongest]
      split
      · exact hrest
      · exact Uniform.absent
    | literal content =>
      cases hq : p '\'' with
      | false =>
        simp only [masked_cons, Slot.masked, List.cons_append, readLongest, hq]
        exact Uniform.absent
      | true =>
        obtain ⟨hu, hb⟩ := hp hq
        simp only [masked_cons]
        simp only [readLongest_skip ⟨hq, hu⟩ hb (fun c hc => eq_of_mem_masked_literal hc)
          (show Slot.masked _ (.literal content) ≠ [] by simp [Slot.masked])]
        exact hrest

theorem reads_readBody (hk : Reads ι D k) (hb : Blind k) : Reads ι (Part ι × D) (readBody k) := by
  refine uniform_readLongest (fun hq => absurd hq (by decide)) ?_ (reads_body hk hb)
  exact fun s t d hst hd => hd.of_suffix hst

/-! ## Clauses -/

theorem afterBlanks_eq_none {c : Char} {t : Text} (h : c = '_' ∨ c = '\'') :
    Text.afterBlanks? (c :: t) = none := by
  obtain rfl | rfl := h <;> rfl

theorem reads_readClause {keywords : List Text} (h : ∀ keyword ∈ keywords, '\'' ∉ keyword)
    (hk : Reads ι D k) (hb : Blind k) : Reads ι (Part ι × D) (readClause keywords k) := by
  intro s
  have hstart : Remains s fun i =>
      (masked i s).afterBlanks?.bind fun t => Text.afterPhrase? keywords t :=
    (remains_afterBlanks s).bind fun rest => remains_afterPhrase h rest
  simpa only [readClause, Option.bind_eq_bind, Option.bind_assoc] using
    hstart.uniform_bind (reads_readBody hk hb)

theorem blind_readClause {keywords : List Text} : Blind (readClause keywords k) := by
  intro c t hc
  simp [readClause, afterBlanks_eq_none hc]

theorem reads_readOptional {keywords : List Text} (h : ∀ keyword ∈ keywords, '\'' ∉ keyword)
    (hk : Reads ι D k) (hb : Blind k) :
    Reads ι (Option (Part ι) × D) (readOptional keywords k) := by
  intro s
  refine Uniform.orElse ?_ ?_
  · exact Uniform.map (fun d : Part ι × D => ((some d.1 : Option (Part ι)), d.2))
      (reads_readClause h hk hb s) (fun d hd => hd) fun d _ i => rfl
  · exact Uniform.map (fun d : D => ((none : Option (Part ι)), d)) (hk s) (fun d hd => hd)
      fun d _ i => rfl

theorem blind_readOptional {keywords : List Text} (hb : Blind k) :
    Blind (readOptional keywords k) := by
  intro c t hc
  simp [readOptional, blind_readClause c t hc, hb c t hc]

/-! ## Names -/

/-- A name goes on to the same place in all texts, since it does not go on into a literal. -/
theorem exists_dropWhile_isNameChar (s : Skeleton ι) :
    ∃ (name : Text) (rest : Skeleton ι), name.map .char ++ rest = s ∧
      ∀ i, (masked i s).dropWhile isNameChar = masked i rest := by
  induction s with
  | nil => exact ⟨[], [], rfl, fun i => rfl⟩
  | cons slot s ih =>
    cases slot with
    | literal content => exact ⟨[], _, rfl, fun i => rfl⟩
    | char c =>
      cases hc : isNameChar c with
      | false => exact ⟨[], _, rfl, fun i => List.dropWhile_cons_of_neg (by simp [hc])⟩
      | true =>
        obtain ⟨name, rest, hs, hrest⟩ := ih
        refine ⟨c :: name, rest, congrArg (Slot.char c :: ·) hs, fun i => ?_⟩
        rw [← hrest i]
        exact List.dropWhile_cons_of_pos hc

theorem uniform_readName (s : Skeleton ι) :
    Uniform (fun n : Name ι => n.part.start = s) (fun n i => (n.part.extent i, masked i n.after))
      fun i => readName (masked i s) := by
  cases s with
  | nil => exact Uniform.absent
  | cons slot s =>
    cases slot with
    | literal content => exact Uniform.absent
    | char c =>
      obtain ⟨name, rest, hs, hrest⟩ := exists_dropWhile_isNameChar s
      simp only [masked_cons, Slot.masked, List.cons_append, List.nil_append, readName, hrest]
      split
      · right
        refine ⟨⟨c :: name, rest⟩, congrArg (Slot.char c :: ·) hs, fun i => ?_⟩
        simp [Part.extent, Part.start, Name.part, Slot.masked, ← hs]
      · exact Uniform.absent

end EntityQuery.Skeleton
