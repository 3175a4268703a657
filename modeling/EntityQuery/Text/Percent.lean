-- SUMMARY: Percent encoding of a text for use inside the query of a URL.
import EntityQuery.Text.Basic

/-!
# Percent encoding

ASCII letters, digits and the four marks `-`, `_`, `.` and `~` stand for
themselves. Every other character is written byte by byte, each byte of its
UTF-8 form as a percent sign and two capital hexadecimal digits.
-/

namespace EntityQuery

/-- The characters that percent encoding keeps. -/
def Percent.keeps (c : Char) : Bool :=
  c.isAlphanum || c == '-' || c == '_' || c == '.' || c == '~'

/-- A hexadecimal digit, written with a capital letter. -/
def Percent.hexDigit (n : Nat) : Char :=
  (Nat.digitChar n).toUpper

/-- One byte as a percent sign and two hexadecimal digits. -/
def Percent.encodeByte (b : UInt8) : Text :=
  ['%', hexDigit (b.toNat / 16), hexDigit (b.toNat % 16)]

/-- A character kept, or its bytes percent-encoded. -/
def Percent.encodeChar (c : Char) : Text :=
  if keeps c then [c] else (String.utf8EncodeChar c).flatMap encodeByte

/-- A text in percent encoding. -/
def Text.percentEncode (t : Text) : Text :=
  t.flatMap Percent.encodeChar

@[simp] theorem Text.percentEncode_nil : Text.percentEncode [] = [] := rfl

@[simp] theorem Text.percentEncode_cons (c : Char) (t : Text) :
    Text.percentEncode (c :: t) = Percent.encodeChar c ++ Text.percentEncode t := rfl

@[simp] theorem Text.percentEncode_append (s t : Text) :
    Text.percentEncode (s ++ t) = Text.percentEncode s ++ Text.percentEncode t := by
  simp [Text.percentEncode]

example : Text.percentEncode "a é'".toList = "a%20%C3%A9%27".toList := by decide +kernel

end EntityQuery
