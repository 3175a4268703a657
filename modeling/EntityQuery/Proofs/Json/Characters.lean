-- SUMMARY: The characters of JSON text: those of numbers, and that a compact text is one line.
import EntityQuery.Json.Printer

/-!
# Characters of JSON text

Numbers are written with digits and four other characters. Every string is
written without control characters below the space, and so a compact text has
none: it is a single line, whatever the names and the strings in it are.
-/

namespace EntityQuery

/-! ## Numbers -/

namespace Digits

theorem isDigit_of_mem_ofGrid {steps : Nat} {grid : Int} {c : Char}
    (h : c ∈ (ofGrid steps grid).digits) : c.isDigit = true := by
  rw [ofGrid, List.mem_reverse] at h
  have hmem := (List.dropWhile_suffix _).subset h
  exact Nat.isDigit_of_mem_toDigits (by decide) (by decide) (List.mem_reverse.1 hmem)

/-- Significant digits are digits. -/
theorem isDigit_of_mem_shortest {bits : UInt64} {c : Char} (h : c ∈ (shortest bits).digits) :
    c.isDigit = true := by
  unfold shortest at h
  dsimp only at h
  generalize hfound : List.findSome? _ _ = found at h
  cases found with
  | none =>
    obtain rfl := List.mem_singleton.1 h
    decide
  | some d =>
    obtain ⟨count, -, hgrid⟩ := List.exists_of_findSome?_eq_some hfound
    obtain ⟨steps, -, rfl⟩ := Option.map_eq_some_iff.1 hgrid
    exact isDigit_of_mem_ofGrid h

end Digits

namespace Json

/-- A character that numbers are written with. -/
def isNumberChar (c : Char) : Bool :=
  c.isDigit || c == '.' || c == 'e' || c == '+' || c == '-'

theorem isNumberChar_of_isDigit {c : Char} (h : c.isDigit = true) : isNumberChar c = true := by
  simp [isNumberChar, h]

theorem isNumberChar_ofNat (n : Nat) : ∀ c ∈ Text.ofNat n, isNumberChar c = true := fun _ hc =>
  isNumberChar_of_isDigit (Nat.isDigit_of_mem_toDigits (by decide) (by decide) hc)

theorem isNumberChar_ofInt (n : Int) : ∀ c ∈ Text.ofInt n, isNumberChar c = true := by
  rw [Text.ofInt]
  split
  · exact List.forall_mem_cons.2 ⟨rfl, isNumberChar_ofNat _⟩
  · exact isNumberChar_ofNat _

theorem isNumberChar_digitsText {d : Digits} (h : ∀ c ∈ d.digits, c.isDigit = true) :
    ∀ c ∈ digitsText d, isNumberChar c = true := by
  have hdigits : ∀ s : Text, s ⊆ d.digits → ∀ c ∈ s, isNumberChar c = true := fun s hs c hc =>
    isNumberChar_of_isDigit (h c (hs hc))
  have htake (n : Nat) := hdigits _ (List.take_subset n d.digits)
  have hdrop (n : Nat) := hdigits _ (List.drop_subset n d.digits)
  have hzeros : ∀ n, ∀ c ∈ List.replicate n '0', isNumberChar c = true := by
    intro n c hc
    rw [List.eq_of_mem_replicate hc]
    rfl
  unfold digitsText
  split
  · dsimp only
    split
    · simp only [List.forall_mem_append, List.forall_mem_cons]
      exact ⟨⟨htake _, hzeros _⟩, rfl, rfl, by simp⟩
    · simp only [List.forall_mem_append, List.forall_mem_cons]
      exact ⟨⟨htake _, hzeros _⟩, rfl, hdrop _⟩
  · split
    · simp only [List.forall_mem_append, List.forall_mem_cons]
      exact ⟨⟨rfl, rfl, hzeros _⟩, hdigits _ (List.Subset.refl _)⟩
    · have hsign : isNumberChar (if d.exponent < 0 then '-' else '+') = true := by
        split <;> rfl
      have hpoint : ∀ c ∈ (if d.digits.length ≤ 1 then [] else '.' :: d.digits.drop 1),
          isNumberChar c = true := by
        split
        · simp
        · exact List.forall_mem_cons.2 ⟨rfl, hdrop 1⟩
      dsimp only
      simp only [List.forall_mem_append, List.forall_mem_cons]
      exact ⟨⟨htake 1, hpoint⟩, rfl, hsign, isNumberChar_ofNat _⟩

theorem isNumberChar_floatText {x : Float} (hx : x.isFinite = true) :
    ∀ c ∈ floatText x, isNumberChar c = true := by
  have hsize (magnitude : UInt64) : ∀ c ∈
      (if magnitude = 0 then "0.0".toList else digitsText (Digits.shortest magnitude)),
      isNumberChar c = true := by
    split
    · exact List.all_eq_true.1 (by decide)
    · exact isNumberChar_digitsText fun c hc => Digits.isDigit_of_mem_shortest hc
  rw [floatText, if_pos hx]
  dsimp only
  split
  · exact hsize _
  · exact List.forall_mem_cons.2 ⟨rfl, hsize _⟩

/-! ## Lines -/

/-- Whether a text has no control characters below the space, and so no end of a line. -/
def IsLine (t : Text) : Prop :=
  ∀ c ∈ t, 0x20 ≤ c.toNat

@[simp] theorem isLine_nil : IsLine [] := by
  rintro c ⟨⟩

@[simp] theorem isLine_cons {c : Char} {t : Text} : IsLine (c :: t) ↔ 0x20 ≤ c.toNat ∧ IsLine t :=
  List.forall_mem_cons

@[simp] theorem isLine_append {s t : Text} : IsLine (s ++ t) ↔ IsLine s ∧ IsLine t :=
  List.forall_mem_append

theorem isLine_charText (c : Char) : IsLine (charText c) := by
  have hdigit : ∀ n < 16, 0x20 ≤ (Nat.digitChar n).toNat := by decide
  unfold charText
  repeat' split
  case isFalse.isFalse.isFalse.isFalse.isFalse.isFalse.isFalse.isTrue h =>
    simp [hdigit (c.toNat / 16) (by omega), hdigit (c.toNat % 16) (by omega)]
  case isFalse.isFalse.isFalse.isFalse.isFalse.isFalse.isFalse.isFalse h =>
    simpa using h
  all_goals simp

theorem isLine_stringText (s : Text) : IsLine (stringText s) := by
  have hbody : IsLine (s.flatMap charText) := by
    intro c hc
    obtain ⟨d, -, hd⟩ := List.mem_flatMap.1 hc
    exact isLine_charText d c hd
  simp [stringText, hbody]

theorem isLine_of_isNumberChar {t : Text} (h : ∀ c ∈ t, isNumberChar c = true) : IsLine t := by
  intro c hc
  have hnumber := h c hc
  simp only [isNumberChar, Char.isDigit, Bool.or_eq_true, Bool.and_eq_true, decide_eq_true_eq,
    beq_iff_eq] at hnumber
  obtain (((h | rfl) | rfl) | rfl) | rfl := hnumber
  · exact Nat.le_trans (by decide) (UInt32.le_iff_toNat_le.1 h.1)
  all_goals decide

theorem isLine_floatText (x : Float) : IsLine (floatText x) := by
  by_cases hx : x.isFinite = true
  · exact isLine_of_isNumberChar (isNumberChar_floatText hx)
  · simp [floatText, hx]

mutual

/-- A compact text is one line. -/
theorem isLine_textAt (depth : Nat) : (v : Json) → IsLine (v.textAt .compact depth)
  | null => by simp [textAt]
  | bool true => by simp [textAt]
  | bool false => by simp [textAt]
  | int n => isLine_of_isNumberChar (isNumberChar_ofInt n)
  | float x => isLine_floatText x
  | string s => isLine_stringText s
  | array [] => by simp [textAt]
  | array (v :: items) => by
    simp [textAt, Layout.break, isLine_textAt (depth + 1) v, isLine_moreItems (depth + 1) items]
  | object [] => by simp [textAt]
  | object ((name, v) :: members) => by
    simp [textAt, Layout.break, Layout.colon, isLine_stringText, isLine_textAt (depth + 1) v,
      isLine_moreMembers (depth + 1) members]

theorem isLine_moreItems (depth : Nat) :
    (items : List Json) → IsLine (moreItems .compact depth items)
  | [] => isLine_nil
  | v :: items => by
    simp [moreItems, Layout.break, isLine_textAt depth v, isLine_moreItems depth items]

theorem isLine_moreMembers (depth : Nat) :
    (members : List (Text × Json)) → IsLine (moreMembers .compact depth members)
  | [] => isLine_nil
  | (name, v) :: members => by
    simp [moreMembers, Layout.break, Layout.colon, isLine_stringText, isLine_textAt depth v,
      isLine_moreMembers depth members]

end

end Json

end EntityQuery
