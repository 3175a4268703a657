-- SUMMARY: Percent encoding can be undone, and leaves no separator of a URL in a text.
import EntityQuery.Proofs.Text.Keyword
import EntityQuery.Text.Percent

/-!
# Percent encoding undone

A service reads a text in percent encoding byte by byte and takes the bytes as
UTF-8. What it gets is the text that was encoded. None of the characters that
separate the parts of a URL is in the encoding of any text.
-/

namespace EntityQuery

/-! ## Decoding -/

namespace Percent

/-- The number that a hexadecimal digit with a capital letter stands for. -/
def hexValue? (c : Char) : Option Nat :=
  if c.isDigit then some (c.toNat - '0'.toNat)
  else if 'A' ≤ c ∧ c ≤ 'F' then some (10 + (c.toNat - 'A'.toNat))
  else none

/-- The bytes that a text in percent encoding stands for. -/
def bytes? : Text → Option (List UInt8)
  | [] => some []
  | '%' :: high :: low :: t => do
    let high ← hexValue? high
    let low ← hexValue? low
    let bytes ← bytes? t
    some (UInt8.ofNat (16 * high + low) :: bytes)
  | c :: t => if keeps c then (bytes? t).map (c.toUInt8 :: ·) else none

end Percent

/-- The text that a text in percent encoding stands for. -/
def Text.percentDecode? (t : Text) : Option Text :=
  (Percent.bytes? t).bind fun bytes => bytes.toByteArray.utf8Decode?.map Array.toList

/-! ## Round trip -/

namespace Percent

theorem hexValue?_hexDigit {n : Nat} (hn : n < 16) : hexValue? (hexDigit n) = some n :=
  (by decide : ∀ n < 16, hexValue? (hexDigit n) = some n) n hn

theorem bytes?_encodeByte_append (b : UInt8) (t : Text) :
    bytes? (encodeByte b ++ t) = (bytes? t).map (b :: ·) := by
  have hb : b.toNat < 256 := b.toNat_lt
  have hhigh := hexValue?_hexDigit (n := b.toNat / 16) (by omega)
  have hlow := hexValue?_hexDigit (n := b.toNat % 16) (by omega)
  have hbyte : UInt8.ofNat (16 * (b.toNat / 16) + b.toNat % 16) = b := by
    rw [Nat.div_add_mod, UInt8.ofNat_toNat]
  simp only [encodeByte, List.cons_append, List.nil_append, bytes?, hhigh, hlow,
    Option.bind_eq_bind, Option.bind_some, hbyte]
  cases bytes? t <;> rfl

theorem bytes?_flatMap_append (bytes : List UInt8) (t : Text) :
    bytes? (bytes.flatMap encodeByte ++ t) = (bytes? t).map (bytes ++ ·) := by
  induction bytes with
  | nil => simp
  | cons b bytes ih =>
    rw [List.flatMap_cons, List.append_assoc, bytes?_encodeByte_append, ih, Option.map_map]
    rfl

theorem toNat_lt_of_keeps {c : Char} (h : keeps c = true) : c.toNat < 128 := by
  simp only [keeps, Bool.or_eq_true, beq_iff_eq] at h
  obtain (((h | rfl) | rfl) | rfl) | rfl := h
  · exact toNat_lt_of_isAlphanum h
  all_goals decide

theorem bytes?_encodeChar_append (c : Char) (t : Text) :
    bytes? (encodeChar c ++ t) = (bytes? t).map (String.utf8EncodeChar c ++ ·) := by
  rw [encodeChar]
  split
  · next hkeeps =>
    have hone : String.utf8EncodeChar c = [c.toUInt8] :=
      String.utf8EncodeChar_eq_singleton <| Char.utf8Size_eq_one_iff.2 <|
        UInt32.le_iff_toNat_le.2 (Nat.le_of_lt_succ (toNat_lt_of_keeps hkeeps))
    have hpercent : c ≠ '%' := by
      rintro rfl
      exact absurd hkeeps (by decide)
    rw [hone, List.singleton_append, bytes?, if_pos hkeeps]
    · rfl
    · rintro _ _ _ rfl
      exact absurd rfl hpercent
  · exact bytes?_flatMap_append _ t

theorem bytes?_percentEncode (t : Text) :
    bytes? t.percentEncode = some (t.flatMap String.utf8EncodeChar) := by
  induction t with
  | nil => rfl
  | cons c t ih =>
    rw [Text.percentEncode_cons, bytes?_encodeChar_append, ih]
    rfl

end Percent

namespace Text

/-- Percent encoding loses nothing of a text, whatever its characters are. -/
theorem percentDecode?_percentEncode (t : Text) : t.percentEncode.percentDecode? = some t := by
  have hutf8 : (t.flatMap String.utf8EncodeChar).toByteArray.utf8Decode? = some t.toArray :=
    List.utf8Decode?_utf8Encode
  rw [percentDecode?, Percent.bytes?_percentEncode, Option.bind_some, hutf8]
  rfl

/-- The encoding of a text consists of percent signs and characters that stand for themselves. -/
theorem notMem_percentEncode {c : Char} (hkeeps : Percent.keeps c = false) (hc : c ≠ '%')
    (t : Text) : c ∉ t.percentEncode := by
  intro h
  obtain ⟨d, -, h⟩ := List.mem_flatMap.1 h
  rw [Percent.encodeChar] at h
  split at h
  · obtain rfl := List.mem_singleton.1 h
    exact absurd hkeeps (by simpa)
  · obtain ⟨b, -, h⟩ := List.mem_flatMap.1 h
    have hdigit {n : Nat} (hn : n < 16) : Percent.keeps (Percent.hexDigit n) = true :=
      (by decide : ∀ n < 16, Percent.keeps (Percent.hexDigit n) = true) n hn
    have hb : b.toNat < 256 := b.toNat_lt
    simp only [Percent.encodeByte, List.mem_cons, List.not_mem_nil, or_false] at h
    obtain rfl | rfl | rfl := h
    · exact hc rfl
    · exact absurd hkeeps (by simpa using hdigit (n := b.toNat / 16) (by omega))
    · exact absurd hkeeps (by simpa using hdigit (n := b.toNat % 16) (by omega))

/-- A text without percent signs is its own encoding if its characters stand for themselves. -/
theorem percentEncode_eq_self_iff {t : Text} (h : '%' ∉ t) :
    t.percentEncode = t ↔ ∀ c ∈ t, Percent.keeps c = true := by
  constructor
  · intro heq c hc
    by_contra hkeeps
    have hpercent : c ≠ '%' := ne_of_mem_of_not_mem hc h
    exact notMem_percentEncode (by simpa using hkeeps) hpercent t (heq.symm ▸ hc)
  · intro hkeeps
    clear h
    induction t with
    | nil => rfl
    | cons c t ih =>
      obtain ⟨hc, hkeeps⟩ := List.forall_mem_cons.1 hkeeps
      rw [percentEncode_cons, ih hkeeps, Percent.encodeChar, if_pos hc, List.singleton_append]

end Text

end EntityQuery
