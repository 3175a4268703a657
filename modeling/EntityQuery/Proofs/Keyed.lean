-- SUMMARY: Named values under functions and relations of their values.
import EntityQuery.Query
import Mathlib.Data.List.Forall2

/-!
# Functions and relations of named values

Where a value is inserted depends on the names alone. So an insertion commutes
with a function of the values, and it keeps two lists with the same names and
related values that way. What is found under a name is the value that was
inserted last.
-/

namespace EntityQuery

namespace Keyed

variable {α β : Type} {R : α → β → Prop}

theorem map_insert (f : α → β) (name : Text) (value : α) (t : Keyed α) :
    (Keyed.insert name value t).map (fun (name, value) => (name, f value)) =
      Keyed.insert name (f value) (t.map fun (name, value) => (name, f value)) := by
  induction t with
  | nil => rfl
  | cons entry t ih =>
    obtain ⟨other, kept⟩ := entry
    simp only [Keyed.insert, List.map_cons]
    split
    · rfl
    · split
      · rfl
      · rw [List.map_cons, ih]

theorem map_ofList (f : α → β) (pairs : List (Text × α)) :
    (ofList pairs).map (fun (name, value) => (name, f value)) =
      ofList (pairs.map fun (name, value) => (name, f value)) := by
  unfold ofList
  rw [List.foldl_map]
  exact (List.foldl_hom _ fun t pair => (map_insert f pair.1 pair.2 t).symm).symm

/-- Two entries with the same name and related values. -/
def Related (R : α → β → Prop) (a : Text × α) (b : Text × β) : Prop :=
  a.1 = b.1 ∧ R a.2 b.2

theorem names_eq_of_related {t : Keyed α} {u : Keyed β} (h : List.Forall₂ (Related R) t u) :
    t.map Prod.fst = u.map Prod.fst := by
  induction h with
  | nil => rfl
  | cons hxy _ ih => rw [List.map_cons, List.map_cons, hxy.1, ih]

theorem related_insert {name : Text} {a : α} {b : β} {t : Keyed α} {u : Keyed β} (hab : R a b)
    (h : List.Forall₂ (Related R) t u) :
    List.Forall₂ (Related R) (Keyed.insert name a t) (Keyed.insert name b u) := by
  induction h with
  | nil => exact .cons ⟨rfl, hab⟩ .nil
  | @cons x y t u hxy htu ih =>
    obtain ⟨other, x⟩ := x
    obtain ⟨other', y⟩ := y
    obtain ⟨rfl, hR⟩ := hxy
    simp only [Keyed.insert]
    split
    · exact .cons ⟨rfl, hab⟩ (.cons ⟨rfl, hR⟩ htu)
    · split
      · exact .cons ⟨rfl, hab⟩ htu
      · exact .cons ⟨rfl, hR⟩ ih

theorem related_ofList {pairs : List (Text × α)} {others : List (Text × β)}
    (h : List.Forall₂ (Related R) pairs others) :
    List.Forall₂ (Related R) (ofList pairs) (ofList others) := by
  unfold ofList
  suffices hfold : ∀ (t : Keyed α) (u : Keyed β), List.Forall₂ (Related R) t u →
      List.Forall₂ (Related R) (pairs.foldl (fun t (name, value) => Keyed.insert name value t) t)
        (others.foldl (fun t (name, value) => Keyed.insert name value t) u) from hfold _ _ .nil
  induction h with
  | nil => exact fun t u htu => htu
  | @cons x y pairs others hxy _ ih =>
    intro t u htu
    obtain ⟨name, x⟩ := x
    obtain ⟨name', y⟩ := y
    obtain ⟨rfl, hR⟩ := hxy
    exact ih _ _ (related_insert hR htu)

/-! ## Values that are in order -/

theorem sorted_map (f : α → β) {t : Keyed α} (h : t.Sorted) :
    Keyed.Sorted (t.map fun (name, value) => (name, f value)) :=
  List.pairwise_map.2 h

/-- A name after all others is inserted at the end. -/
theorem insert_of_forall_lt {name : Text} {t : Keyed α} (h : ∀ p ∈ t, p.1 < name) (value : α) :
    Keyed.insert name value t = t ++ [(name, value)] := by
  induction t with
  | nil => rfl
  | cons p t ih =>
    obtain ⟨other, kept⟩ := p
    obtain ⟨hlt, ht⟩ := List.forall_mem_cons.1 h
    have hne : name ≠ other := fun heq => List.lt_irrefl _ (heq ▸ hlt)
    rw [Keyed.insert, if_neg (List.lt_asymm hlt), if_neg hne, ih ht, List.cons_append]

theorem ofList_concat (pairs : List (Text × α)) (p : Text × α) :
    ofList (pairs ++ [p]) = Keyed.insert p.1 p.2 (ofList pairs) := by
  simp [ofList, List.foldl_append]

/-- Every value is one of those that were given under its name. -/
theorem mem_ofList {pairs : List (Text × α)} {p : Text × α} (h : p ∈ ofList pairs) : p ∈ pairs := by
  obtain ⟨reversed, rfl⟩ := List.reverse_surjective pairs
  induction reversed with
  | nil => cases h
  | cons last reversed ih =>
    rw [List.reverse_cons, ofList_concat] at h
    rw [List.reverse_cons, List.mem_append, List.mem_singleton]
    exact (mem_insert h).symm.imp_left ih

theorem ofList_of_sorted {t : Keyed α} (h : t.Sorted) : ofList t = t := by
  obtain ⟨reversed, rfl⟩ := List.reverse_surjective t
  induction reversed with
  | nil => rfl
  | cons p reversed ih =>
    rw [List.reverse_cons, Sorted, List.pairwise_append] at h
    obtain ⟨hsorted, -, hlt⟩ := h
    rw [List.reverse_cons, ofList_concat, ih hsorted,
      insert_of_forall_lt fun q hq => hlt q hq p (List.mem_singleton_self p)]

/-! ## Looking up a name -/

theorem find?_cons (name : Text) (value : α) (t : Keyed α) (other : Text) :
    find? other ((name, value) :: t) = if other = name then some value else t.find? other := by
  by_cases h : other = name
  · simp [find?, h]
  · rw [find?, List.lookup_cons, beq_eq_false_iff_ne.2 h, if_neg h]
    rfl

/-- A function of the values changes what is found under a name. -/
theorem lookup_map (f : α → β) (t : List (Text × α)) (name : Text) :
    (t.map fun (name, value) => (name, f value)).lookup name = (t.lookup name).map f := by
  induction t with
  | nil => rfl
  | cons entry t ih =>
    obtain ⟨other, value⟩ := entry
    rw [List.map_cons, List.lookup_cons, List.lookup_cons, ih]
    cases name == other <;> rfl

/-- An insertion changes what is found under its name and nothing else. -/
theorem find?_insert (name : Text) (value : α) (t : Keyed α) (other : Text) :
    (Keyed.insert name value t).find? other =
      if other = name then some value else t.find? other := by
  induction t with
  | nil => exact find?_cons name value [] other
  | cons entry t ih =>
    obtain ⟨first, kept⟩ := entry
    rw [Keyed.insert]
    split
    · rw [find?_cons]
    · split
      · next hfirst =>
        rw [find?_cons, find?_cons, ← hfirst]
        split <;> rfl
      · next hne =>
        rw [find?_cons, find?_cons, ih]
        by_cases h : other = first
        · have hname : first ≠ name := fun heq => hne heq.symm
          rw [if_pos h, if_pos h, if_neg (h ▸ hname)]
        · rw [if_neg h, if_neg h]

/-- Of the values under one name the last one is found. -/
theorem find?_ofList (pairs : List (Text × α)) (name : Text) :
    (ofList pairs).find? name = pairs.reverse.lookup name := by
  obtain ⟨reversed, rfl⟩ := List.reverse_surjective pairs
  induction reversed with
  | nil => rfl
  | cons last reversed ih =>
    obtain ⟨other, value⟩ := last
    rw [List.reverse_cons, ofList_concat, find?_insert, ih, List.reverse_reverse,
      ← List.reverse_cons, List.reverse_reverse]
    exact (find?_cons other value reversed name).symm

end Keyed

/-- The value of a column. -/
def Assignments.find? (column : Text) (a : Assignments) : Option Value :=
  a.entries.find? column

theorem Assignments.entries_ofList (pairs : List (Text × Value)) :
    (Assignments.ofList pairs).entries = Keyed.ofList pairs :=
  (List.foldl_hom Assignments.entries fun _ _ => rfl).symm

/-- Of assignments made one after the other the last one of a column is kept. -/
theorem Assignments.find?_ofList (pairs : List (Text × Value)) (column : Text) :
    (Assignments.ofList pairs).find? column = pairs.reverse.lookup column := by
  rw [find?, entries_ofList, Keyed.find?_ofList]

/-- Assignments are empty only if there are none. -/
theorem Assignments.isEmpty_ofList (pairs : List (Text × Value)) :
    (Assignments.ofList pairs).isEmpty = pairs.isEmpty := by
  unfold Assignments.isEmpty
  rw [entries_ofList]
  obtain rfl | ⟨pairs, last, rfl⟩ := List.eq_nil_or_concat pairs
  · rfl
  · rw [List.concat_eq_append, Keyed.ofList_concat,
      List.isEmpty_eq_false_iff.2 (Keyed.insert_ne_nil _ _ _)]
    simp

end EntityQuery
