-- SUMMARY: Lists of named values kept in the order of their names.
import EntityQuery.Text.Basic

/-!
# Named values

The columns of a record and the members of a JSON object are named values in
the order of their names, each name once. Names are ordered by code point,
which is also the order of their UTF-8 bytes.
-/

namespace EntityQuery

/-- Values with a name each. -/
abbrev Keyed (α : Type) := List (Text × α)

/-- The names increase strictly. -/
def Keyed.Sorted {α : Type} (t : Keyed α) : Prop :=
  t.Pairwise fun a b => a.1 < b.1

/-- A value under a name, in the place of the value that the name had. -/
def Keyed.insert {α : Type} (name : Text) (value : α) : Keyed α → Keyed α
  | [] => [(name, value)]
  | (other, kept) :: t =>
    if name < other then (name, value) :: (other, kept) :: t
    else if name = other then (name, value) :: t
    else (other, kept) :: Keyed.insert name value t

/-- Named values in order; of the values under one name the last one is kept. -/
def Keyed.ofList {α : Type} (pairs : List (Text × α)) : Keyed α :=
  pairs.foldl (fun t (name, value) => Keyed.insert name value t) []

/-- The value under a name. -/
def Keyed.find? {α : Type} (name : Text) (t : Keyed α) : Option α :=
  t.lookup name

theorem Keyed.mem_insert {α : Type} {name : Text} {value : α} {t : Keyed α} {p : Text × α}
    (h : p ∈ Keyed.insert name value t) : p = (name, value) ∨ p ∈ t := by
  induction t with
  | nil => simpa [Keyed.insert] using h
  | cons q t ih =>
    obtain ⟨other, kept⟩ := q
    rw [Keyed.insert] at h
    split at h
    · simpa using h
    · split at h
      · rcases List.mem_cons.1 h with h | h <;> simp [h]
      · rcases List.mem_cons.1 h with h | h
        · simp [h]
        · rcases ih h with h | h <;> simp [h]

theorem Keyed.insert_ne_nil {α : Type} (name : Text) (value : α) (t : Keyed α) :
    Keyed.insert name value t ≠ [] := by
  cases t with
  | nil => simp [Keyed.insert]
  | cons q t =>
    obtain ⟨other, kept⟩ := q
    rw [Keyed.insert]
    split
    · simp
    · split <;> simp

/-- Of two different names that are not in order, the other comes first. -/
theorem Text.lt_of_not_lt {s t : Text} (h : ¬ s < t) (hne : s ≠ t) : t < s :=
  (List.le_iff_lt_or_eq.1 (List.not_lt.1 h)).resolve_right fun e => hne e.symm

theorem Keyed.sorted_insert {α : Type} {name : Text} {value : α} {t : Keyed α} (h : t.Sorted) :
    (Keyed.insert name value t).Sorted := by
  induction t with
  | nil => simp [Keyed.insert, Keyed.Sorted]
  | cons q t ih =>
    obtain ⟨other, kept⟩ := q
    obtain ⟨hq, ht⟩ := List.pairwise_cons.1 h
    rw [Keyed.insert]
    split
    · next hlt =>
      refine List.pairwise_cons.2 ⟨fun p hp => ?_, h⟩
      rcases List.mem_cons.1 hp with rfl | hp
      · exact hlt
      · exact List.lt_trans hlt (hq p hp)
    · next hlt =>
      split
      · next he => subst he; exact List.pairwise_cons.2 ⟨hq, ht⟩
      · next hne =>
        refine List.pairwise_cons.2 ⟨fun p hp => ?_, ih ht⟩
        rcases Keyed.mem_insert hp with rfl | hp
        · exact Text.lt_of_not_lt hlt hne
        · exact hq p hp

theorem Keyed.sorted_ofList {α : Type} (pairs : List (Text × α)) : (Keyed.ofList pairs).Sorted := by
  suffices h : ∀ t : Keyed α, t.Sorted →
      (pairs.foldl (fun t (name, value) => Keyed.insert name value t) t).Sorted from
    h [] List.Pairwise.nil
  induction pairs with
  | nil => exact fun t h => h
  | cons p pairs ih => exact fun t h => ih _ (Keyed.sorted_insert h)

end EntityQuery
