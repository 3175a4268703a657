-- SUMMARY: Readers of masked texts: what they find, they find at the same places in all texts of a skeleton.
import EntityQuery.Proofs.Skeleton.List
import EntityQuery.Statement.Clause

/-!
# Readers of masked texts

The readers of clauses run on the masks of texts. On the masks of texts with a
common skeleton a reader fails on all of them, or it finds parts at the same
places of the skeleton in all of them.

A reader that tries one end of a body after the other also tries places inside
of literals. It must find nothing there, and it finds nothing, since whatever
follows a body starts with a blank, a bracket or a semicolon.
-/

namespace EntityQuery

variable {ι α β : Type}

/-! ## Results for all texts -/

/-- Results, one for each text, that are absent for all texts or come from one description that
    fits `P`. -/
def Uniform {D : Type} (P : D → Prop) (result : D → ι → α) (x : ι → Option α) : Prop :=
  (∀ i, x i = none) ∨ ∃ d, P d ∧ ∀ i, x i = some (result d i)

namespace Uniform

variable {D E : Type} {P : D → Prop} {Q : E → Prop} {result : D → ι → α} {outcome : E → ι → β}
  {x y : ι → Option α}

theorem absent : Uniform P result fun _ => none :=
  .inl fun _ => rfl

theorem present {d : D} (h : P d) : Uniform P result fun i => some (result d i) :=
  .inr ⟨d, h, fun _ => rfl⟩

theorem bind {k : ι → α → Option β} (hx : Uniform P result x)
    (hk : ∀ d, P d → Uniform Q outcome fun i => k i (result d i)) :
    Uniform Q outcome fun i => (x i).bind (k i) := by
  obtain hx | ⟨d, hd, hx⟩ := hx
  · simp only [hx, Option.bind_none]
    exact absent
  · simp only [hx, Option.bind_some]
    exact hk d hd

theorem map {f : ι → α → β} (g : D → E) (hx : Uniform P result x) (hg : ∀ d, P d → Q (g d))
    (hf : ∀ d, P d → ∀ i, f i (result d i) = outcome (g d) i) :
    Uniform Q outcome fun i => (x i).map (f i) := by
  obtain hx | ⟨d, hd, hx⟩ := hx
  · simp only [hx, Option.map_none]
    exact absent
  · simp only [hx, Option.map_some, hf d hd]
    exact present (hg d hd)

theorem mono {P' : D → Prop} (hx : Uniform P result x) (h : ∀ d, P d → P' d) :
    Uniform P' result x :=
  hx.imp_right fun ⟨d, hd, hx⟩ => ⟨d, h d hd, hx⟩

theorem orElse (hx : Uniform P result x) (hy : Uniform P result y) :
    Uniform P result fun i => x i <|> y i := by
  obtain hx | ⟨d, hd, hx⟩ := hx
  · simpa [hx] using hy
  · simpa [hx] using present hd

end Uniform

/-! ## Parts -/

/-- A part of a skeleton, and what follows it. -/
structure Part (ι : Type) where
  body : Skeleton ι
  after : Skeleton ι

namespace Part

/-- The skeleton from the start of a part on. -/
def start (p : Part ι) : Skeleton ι :=
  p.body ++ p.after

/-- The place of a part in the mask of one of the texts. -/
def extent (i : ι) (p : Part ι) : Statement.Extent :=
  ⟨p.start.masked i, p.after.masked i⟩

end Part

/-- The name of an entity in a skeleton, which has no literal in it, and what follows it. -/
structure Name (ι : Type) where
  text : Text
  after : Skeleton ι

/-- A name as a part. -/
def Name.part (n : Name ι) : Part ι :=
  ⟨n.text.map .char, n.after⟩

@[simp] theorem Name.part_after (n : Name ι) : n.part.after = n.after := rfl

/-- Parts that stand in a skeleton one after the other. -/
def Arranged : Skeleton ι → List (Part ι) → Prop
  | _, [] => True
  | s, p :: ps => p.start <:+ s ∧ Arranged p.after ps

theorem Arranged.of_suffix {s t : Skeleton ι} {ps : List (Part ι)} (hst : s <:+ t)
    (h : Arranged s ps) : Arranged t ps := by
  cases ps with
  | nil => trivial
  | cons p ps => exact ⟨h.1.trans hst, h.2⟩

/-- What a reader finds in texts with a common skeleton: what it gives on each of the masks, and
    the parts that it found. -/
class Found (ι D : Type) (α : outParam Type) where
  result : D → ι → α
  parts : D → List (Part ι)

namespace Found

instance : Found ι Unit Unit where
  result _ _ := ()
  parts _ := []

instance : Found ι (Part ι) Statement.Extent where
  result p i := p.extent i
  parts p := [p]

instance : Found ι (Name ι) Statement.Extent where
  result n i := n.part.extent i
  parts n := [n.part]

instance {D : Type} [Found ι D α] : Found ι (Option D) (Option α) where
  result d i := d.map fun d => result d i
  parts d := d.toList.flatMap parts

instance {D E : Type} [Found ι D α] [Found ι E β] : Found ι (D × E) (α × β) where
  result d i := (result d.1 i, result d.2 i)
  parts d := parts d.1 ++ parts d.2

end Found

/-- A reader that fails on the masks of all texts of a skeleton or finds the same in all of
    them. -/
def Reads (ι D : Type) [Found ι D α] (k : Text → Option α) : Prop :=
  ∀ s : Skeleton ι,
    Uniform (fun d : D => Arranged s (Found.parts d)) Found.result fun i => k (s.masked i)

theorem Reads.none_or_some {D : Type} [Found ι D α] {k : Text → Option α} (hk : Reads ι D k)
    (s : Skeleton ι) :
    (∀ i, k (s.masked i) = none) ∨
    ∃ d : D, Arranged s (Found.parts d) ∧ ∀ i, k (s.masked i) = some (Found.result d i) :=
  hk s

/-- A reader that finds nothing at a character that masked literals are made of. -/
def Blind (k : Text → Option α) : Prop :=
  ∀ c t, c = '_' ∨ c = '\'' → k (c :: t) = none

/-- What follows after something was read from the masks of all texts. -/
def Remains (s : Skeleton ι) (x : ι → Option Text) : Prop :=
  Uniform (fun rest : Skeleton ι => rest <:+ s) (fun rest i => rest.masked i) x

theorem Remains.of_suffix {s t : Skeleton ι} {x : ι → Option Text} (hst : s <:+ t)
    (h : Remains s x) : Remains t x :=
  h.mono fun _ hrest => hrest.trans hst

theorem Remains.bind {s : Skeleton ι} {x : ι → Option Text} {f : Text → Option Text}
    (hx : Remains s x) (hf : ∀ rest : Skeleton ι, Remains rest fun i => f (rest.masked i)) :
    Remains s fun i => (x i).bind f :=
  Uniform.bind hx fun rest hrest => (hf rest).of_suffix hrest

/-- What follows is read alike in all texts. -/
theorem Remains.uniform_bind {D : Type} [Found ι D α] {s : Skeleton ι} {x : ι → Option Text}
    {k : Text → Option α} (hx : Remains s x) (hk : Reads ι D k) :
    Uniform (fun d : D => Arranged s (Found.parts d)) Found.result fun i => (x i).bind k :=
  Uniform.bind hx fun rest hrest => (hk rest).mono fun _ hd => hd.of_suffix hrest

namespace Skeleton

variable {D : Type} [Found ι D α] {k : Text → Option α}

/-! ## Literals are skipped -/

theorem eq_of_mem_masked_literal {i : ι} {content : ι → Text} {c : Char}
    (h : c ∈ (Slot.literal content).masked i) : c = '_' ∨ c = '\'' := by
  simp only [Slot.masked, List.cons_append, List.mem_cons, List.mem_append, List.mem_replicate,
    List.not_mem_nil, or_false] at h
  obtain rfl | ⟨-, rfl⟩ | rfl := h <;> simp

theorem readShortest_skip {k : Text → Option α} (hk : Blind k) {u : Text}
    (hu : ∀ c ∈ u, c = '_' ∨ c = '\'') (t : Text) :
    Statement.readShortest k (u ++ t) = Statement.readShortest k t := by
  induction u with
  | nil => rfl
  | cons c u ih =>
    obtain ⟨hc, hu⟩ := List.forall_mem_cons.1 hu
    rw [List.cons_append, Statement.readShortest, hk c _ hc]
    exact ih hu

theorem readUpToLast_skip {k : Text → Option α} (hk : Blind k) {u : Text}
    (hu : ∀ c ∈ u, c = '_' ∨ c = '\'') (t : Text) :
    Statement.readUpToLast k (u ++ t) = Statement.readUpToLast k t := by
  induction u with
  | nil => rfl
  | cons c u ih =>
    obtain ⟨hc, hu⟩ := List.forall_mem_cons.1 hu
    rw [List.cons_append, Statement.readUpToLast, hk c _ hc, ih hu]
    simp

/-- A run goes through a whole literal, and does not end inside of it. -/
theorem readLongest_skip {p : Char → Bool} (hp : p '\'' = true ∧ p '_' = true) (hk : Blind k)
    {u : Text} (hu : ∀ c ∈ u, c = '_' ∨ c = '\'') (hne : u ≠ []) (t : Text) :
    Statement.readLongest p k (u ++ t) = (Statement.readLongest p k t <|> k t) := by
  induction u with
  | nil => exact absurd rfl hne
  | cons c u ih =>
    obtain ⟨hc, hu⟩ := List.forall_mem_cons.1 hu
    have hpc : p c = true := by
      obtain rfl | rfl := hc
      · exact hp.2
      · exact hp.1
    rw [List.cons_append, Statement.readLongest, if_pos hpc]
    cases u with
    | nil => rfl
    | cons d u =>
      rw [ih hu (by simp), List.cons_append, hk d _ (hu d (by simp))]
      simp

theorem dropWhile_skip {p : Char → Bool} (hp : p '\'' = true ∧ p '_' = true) {u : Text}
    (hu : ∀ c ∈ u, c = '_' ∨ c = '\'') (t : Text) : (u ++ t).dropWhile p = t.dropWhile p := by
  refine List.dropWhile_append_of_pos fun c hc => ?_
  obtain rfl | rfl := hu c hc
  · exact hp.2
  · exact hp.1

end Skeleton

end EntityQuery
