import Mathlib.Data.List.Basic

/-!
# Texts and their bytes

The UTF-8 encoding of a text. The bytes of one character begin with a leading byte and go on
with bytes that lead no character, so a suffix of the bytes is cut at a character, or
behind the leading byte of one. Also the characters that Unicode counts as white space.
-/

/-- `char::is_whitespace`. -/
def Rustfs.Library.isWhitespace (c : Char) : Bool :=
  (9 ≤ c.val && c.val ≤ 13) || c.val = 0x20 || c.val = 0x85 || c.val = 0xA0 || c.val = 0x1680 ||
    (0x2000 ≤ c.val && c.val ≤ 0x200A) || c.val = 0x2028 || c.val = 0x2029 || c.val = 0x202F ||
    c.val = 0x205F || c.val = 0x3000

namespace Rustfs.Library.Utf8

open List

def encode (text : List Char) : List UInt8 := text.flatMap String.utf8EncodeChar

@[simp]
theorem encode_nil : encode [] = [] := rfl

@[simp]
theorem encode_cons (char : Char) (text : List Char) :
    encode (char :: text) = String.utf8EncodeChar char ++ encode text := rfl

theorem encode_single (char : Char) : encode [char] = String.utf8EncodeChar char :=
  append_nil _

@[simp]
theorem encode_append (front back : List Char) : encode (front ++ back) = encode front ++ encode back :=
  flatMap_append

theorem utf8_encode_eq (text : List Char) : text.utf8Encode = (encode text).toByteArray := rfl

theorem bytes_of_string (text : String) : text.toByteArray.data.toList = encode text.toList := by
  rw [← String.utf8Encode_toList, utf8_encode_eq, toList_data_toByteArray]

variable {text : List Char} {byte : UInt8}

theorem encode_split {front : List Char} {rest : List UInt8}
    (same : encode front ++ rest = encode text) : ∃ back, text = front ++ back ∧ rest = encode back := by
  have arrays : front.utf8Encode ++ rest.toByteArray = text.utf8Encode := by
    rw [utf8_encode_eq, utf8_encode_eq, ← toByteArray_append, same]
  obtain ⟨back, rfl⟩ := isPrefix_of_utf8Encode_append_eq_utf8Encode rest.toByteArray arrays
  refine ⟨back, rfl, ?_⟩
  rw [encode_append] at same
  exact append_cancel_left same

theorem encode_injective {other : List Char} (same : encode text = encode other) : text = other := by
  rw [← append_nil (encode text)] at same
  obtain ⟨back, rfl, empty⟩ := encode_split same
  cases back with
  | nil => exact (append_nil text).symm
  | cons char back =>
    exact absurd (append_eq_nil_iff.1 empty.symm).1 String.utf8EncodeChar_ne_nil

theorem char_shape (char : Char) :
    ∃ lead tail, String.utf8EncodeChar char = lead :: tail ∧ lead.IsUTF8FirstByte ∧
      ∀ byte ∈ tail, ¬ byte.IsUTF8FirstByte := by
  have leads : ∀ idx (inside : idx < (String.utf8EncodeChar char).length),
      (String.utf8EncodeChar char)[idx].IsUTF8FirstByte ↔ idx = 0 :=
    fun idx inside => UInt8.isUTF8FirstByte_getElem_utf8EncodeChar
  cases bytes : String.utf8EncodeChar char with
  | nil => exact absurd bytes String.utf8EncodeChar_ne_nil
  | cons lead tail =>
    simp only [bytes] at leads
    refine ⟨lead, tail, rfl, (leads 0 (Nat.zero_lt_succ _)).2 rfl, ?_⟩
    intro byte member isLead
    obtain ⟨idx, inside, rfl⟩ := mem_iff_getElem.1 member
    exact Nat.succ_ne_zero idx ((leads (idx + 1) (Nat.succ_lt_succ inside)).1 isLead)

/-- Bytes inside a character. -/
def Inner (bytes : List UInt8) : Prop := ∀ byte ∈ bytes, ¬ byte.IsUTF8FirstByte

theorem cut_inner {inner front rest : List UInt8} (isInner : Inner inner)
    (same : front ++ rest = inner ++ encode text) :
    ∃ first back left, text = first ++ back ∧ Inner left ∧ rest = left ++ encode back ∧
      left.Subset (inner ++ encode text) := by
  induction front generalizing inner text with
  | nil => exact ⟨[], text, inner, rfl, isInner, same, subset_append_left _ _⟩
  | cons byte front ih =>
    cases inner with
    | cons head inner =>
      obtain ⟨rfl, after⟩ := List.cons.inj same
      obtain ⟨first, back, left, isText, isLeft, isRest, inside⟩ :=
        ih (fun byte member => isInner byte (mem_cons_of_mem _ member)) after
      exact ⟨first, back, left, isText, isLeft, isRest, inside.trans (subset_cons_self _ _)⟩
    | nil =>
      cases text with
      | nil => cases same
      | cons char text =>
        obtain ⟨lead, tail, bytes, _, isTail⟩ := char_shape char
        rw [nil_append, encode_cons, bytes] at same
        obtain ⟨rfl, after⟩ := List.cons.inj same
        obtain ⟨first, back, left, rfl, isLeft, isRest, inside⟩ := ih isTail after
        refine ⟨char :: first, back, left, rfl, isLeft, isRest, ?_⟩
        rw [nil_append, encode_cons, bytes]
        exact inside.trans (subset_cons_self _ _)

def Ascii (char : Char) : Prop := char.val < 0x80

theorem ascii_bytes {char : Char} (ascii : Ascii char) :
    String.utf8EncodeChar char = [char.val.toUInt8] := by
  apply String.utf8EncodeChar_eq_singleton
  rw [Char.utf8Size_eq_one_iff, UInt32.le_iff_toNat_le]
  have small := UInt32.lt_iff_toNat_lt.1 ascii
  exact Nat.le_of_lt_succ small

theorem ascii_leads (ascii : ∀ char ∈ text, Ascii char)
    (member : byte ∈ encode text) : byte.IsUTF8FirstByte := by
  obtain ⟨char, inText, isByte⟩ := mem_flatMap.1 member
  obtain ⟨lead, tail, bytes, leads, _⟩ := char_shape char
  rw [ascii_bytes (ascii char inText)] at bytes isByte
  obtain ⟨same, _⟩ := List.cons.inj bytes
  rw [mem_singleton.1 isByte, same]
  exact leads

theorem small_char (small : byte < 0x80) :
    ∃ char, Ascii char ∧ String.utf8EncodeChar char = [byte] := by
  have ascii : Ascii (Char.ofUInt8 byte) := by
    exact small
  refine ⟨Char.ofUInt8 byte, ascii, ?_⟩
  rw [ascii_bytes ascii]
  exact congrArg (fun value => [value]) (UInt8.toUInt8_toUInt32 byte)

theorem small_leads (small : byte < 0x80) : byte.IsUTF8FirstByte := by
  obtain ⟨char, _, single⟩ := small_char small
  obtain ⟨lead, tail, bytes, leads, _⟩ := char_shape char
  rw [single] at bytes
  obtain ⟨rfl, _⟩ := List.cons.inj bytes
  exact leads

theorem small_alone {char : Char} (small : byte < 0x80)
    (member : byte ∈ String.utf8EncodeChar char) : String.utf8EncodeChar char = [byte] := by
  obtain ⟨lead, tail, bytes, _, isTail⟩ := char_shape char
  rw [bytes] at member
  rcases mem_cons.1 member with rfl | later
  · obtain ⟨other, _, single⟩ := small_char small
    have begins : encode [other] ++ tail = encode [char] := by
      rw [encode_single, encode_single, single, bytes]
      rfl
    obtain ⟨back, same, isBack⟩ := encode_split begins
    obtain ⟨rfl, rfl⟩ := List.cons.inj same
    exact single
  · exact absurd (small_leads small) (isTail byte later)

end Rustfs.Library.Utf8
