import Mathlib.Data.List.Basic
import PromptBlocks.Text.Encoding

/-!
Contract: the bytes of a text in UTF-8.

Owns:
- texts in order have bytes in order;
- which bytes are those of a text, and that these are shown as it;
- a byte below 128 stands for one character, so bytes may be cut at it.

Does not own: the cut of an input into lines.
-/

namespace PromptBlocks.Text

@[simp] theorem encoding_nil : encoding [] = [] :=
  rfl

@[simp] theorem encoding_cons (c : Char) (rest : List Char) :
    encoding (c :: rest) = String.utf8EncodeChar c ++ encoding rest :=
  rfl

@[simp] theorem encoding_append (front back : List Char) :
    encoding (front ++ back) = encoding front ++ encoding back :=
  List.flatMap_append

/-! ### Order -/

/-- The lesser of two numbers has the lesser quotient, or the same quotient and the lesser digit. -/
theorem digit_lt {left right : Nat} (less : left < right) :
    left / 64 < right / 64 ∨ left / 64 = right / 64 ∧ left % 64 < right % 64 := by
  omega

theorem byte_cons_lt_cons_iff {left right : Nat} (leftIsByte : left < 256)
    (rightIsByte : right < 256) (front back : List UInt8) :
    UInt8.ofNat left :: front < UInt8.ofNat right :: back ↔
      left < right ∨ left = right ∧ front < back := by
  simp [List.cons_lt_cons_iff, UInt8.lt_iff_toNat_lt, ← UInt8.toNat_inj, Nat.mod_eq_of_lt, *]

/-- The bytes of the lesser character come first, whatever follows. -/
theorem encodeChar_append_lt {left right : Char} (less : left < right) (front back : List UInt8) :
    String.utf8EncodeChar left ++ front < String.utf8EncodeChar right ++ back := by
  have lessCode : left.val.toNat < right.val.toNat := less
  have leftValid : left.val.toNat.isValidChar := left.valid
  have rightValid : right.val.toNat.isValidChar := right.valid
  unfold Nat.isValidChar at leftValid rightValid
  have nested (code : Nat) : code / 4096 = code / 64 / 64 ∧ code / 262144 = code / 64 / 64 / 64 := by
    simp [Nat.div_div_eq_div_mul]
  -- Behind the first byte stand digits to the base 64, the first digit in the first byte.
  have fourth := digit_lt lessCode
  have third := @digit_lt (left.val.toNat / 64) (right.val.toNat / 64)
  have second := @digit_lt (left.val.toNat / 64 / 64) (right.val.toNat / 64 / 64)
  simp only [String.utf8EncodeChar]
  split_ifs <;>
    simp (disch := omega) only [List.cons_append, List.nil_append, byte_cons_lt_cons_iff, nested,
      Nat.add_lt_add_iff_right, Nat.add_right_cancel_iff, Nat.mod_eq_of_lt (b := 8)] <;>
    omega

theorem encoding_lt {left right : List Char} (less : left < right) :
    encoding left < encoding right := by
  induction less with
  | nil =>
    rename_i c rest
    obtain ⟨byte, later, split⟩ := List.exists_cons_of_ne_nil (@String.utf8EncodeChar_ne_nil c)
    rw [encoding_cons, split]
    exact List.Lex.nil
  | rel less => exact encodeChar_append_lt less _ _
  | cons _ inductionHypothesis =>
    exact List.append_left_lt inductionHypothesis

theorem data_toUTF8 (text : String) : text.toUTF8.data.toList = encoding text.toList := by
  rw [String.toUTF8_eq_toByteArray, ← String.utf8Encode_toList, List.utf8Encode,
    List.toList_data_toByteArray, encoding]

/-- Texts in order have bytes in order. -/
theorem bytes_lt_of_lt {left right : String} (less : left < right) :
    left.toUTF8.data.toList < right.toUTF8.data.toList := by
  rw [data_toUTF8, data_toUTF8]
  exact encoding_lt less

/-! ### Texts and their bytes -/

/-- The bytes are those of some text. -/
def IsEncoding (bytes : List UInt8) : Prop :=
  ∃ text, encoding text = bytes

section Texts

variable {bytes front back : List UInt8}

theorem IsEncoding.append (isFront : IsEncoding front) (isBack : IsEncoding back) :
    IsEncoding (front ++ back) := by
  obtain ⟨before, rfl⟩ := isFront
  obtain ⟨after, rfl⟩ := isBack
  exact ⟨before ++ after, encoding_append before after⟩

/-- Bytes have a text exactly when they are the bytes of that text. -/
theorem ofBytes?_eq_some_iff {text : String} :
    ofBytes? bytes = some text ↔ encoding text.toList = bytes := by
  rw [ofBytes?, String.fromUTF8?, ← data_toUTF8, String.toUTF8_eq_toByteArray]
  constructor
  · intro found
    split at found
    · obtain rfl := Option.some.inj found
      rfl
    · cases found
  · rintro rfl
    have valid : (ByteArray.mk text.toByteArray.data.toList.toArray).IsValidUTF8 := by
      simpa using text.isValidUTF8
    rw [dif_pos valid]
    simp [String.fromUTF8]

theorem isSome_ofBytes?_iff : (ofBytes? bytes).isSome = true ↔ IsEncoding bytes := by
  rw [Option.isSome_iff_exists]
  constructor
  · rintro ⟨text, found⟩
    exact ⟨text.toList, ofBytes?_eq_some_iff.mp found⟩
  · rintro ⟨text, spelled⟩
    exact ⟨String.ofList text, ofBytes?_eq_some_iff.mpr (by rw [String.toList_ofList, spelled])⟩

theorem firstChar?_encodeChar_append (c : Char) (rest : List UInt8) :
    firstChar? (String.utf8EncodeChar c ++ rest) = some c := by
  have short : (String.utf8EncodeChar c).length ≤ 4 := by
    rw [String.length_utf8EncodeChar]
    exact c.utf8Size_le_four
  rw [firstChar?, List.take_append, List.take_of_length_le short, List.toByteArray_append]
  exact ByteArray.utf8DecodeChar?_utf8EncodeChar_append

theorem shownFrom_append (front back : List UInt8) :
    shownFrom front.length (front ++ back) = shownFrom 0 back := by
  induction front with
  | nil => rfl
  | cons byte front inductionHypothesis => exact inductionHypothesis

theorem shownFrom_encoding (text : List Char) : shownFrom 0 (encoding text) = text := by
  induction text with
  | nil => rfl
  | cons c rest inductionHypothesis =>
    obtain ⟨byte, others, split⟩ := List.exists_cons_of_ne_nil (@String.utf8EncodeChar_ne_nil c)
    have size : c.utf8Size - 1 = others.length := by
      rw [← String.length_utf8EncodeChar, split]
      rfl
    have first := firstChar?_encodeChar_append c (encoding rest)
    rw [split, List.cons_append] at first
    rw [encoding_cons, split, List.cons_append, shownFrom, first]
    simp only [size, shownFrom_append, inductionHypothesis]

/-- The bytes of a text are shown as the text. -/
theorem shown_of_ofBytes?_eq_some {text : String} (isText : ofBytes? bytes = some text) :
    shown bytes = text := by
  rw [shown, ← ofBytes?_eq_some_iff.mp isText, shownFrom_encoding, String.ofList_toList]

end Texts

/-! ### Cuts -/

section Cuts

variable {mark : UInt8} {front back : List UInt8}

/-- A byte below 128 is the only byte of its character. -/
theorem encodeChar_of_mark_mem {c : Char} (isMark : mark < 128)
    (member : mark ∈ String.utf8EncodeChar c) : String.utf8EncodeChar c = [mark] := by
  have below : mark.toNat < 128 := isMark
  revert member
  fun_cases String.utf8EncodeChar c <;> simp [← UInt8.toNat_inj] <;> omega

theorem encodeChar_ofUInt8 (isMark : mark < 128) :
    String.utf8EncodeChar (Char.ofUInt8 mark) = [mark] := by
  have below : mark.toNat ≤ 0x7f := Nat.le_of_lt_succ isMark
  have code : (Char.ofUInt8 mark).val.toNat = mark.toNat := rfl
  simp [String.utf8EncodeChar, code, below]

/-- Where the bytes of a text hold a mark, what stands in front of it and behind it are bytes of
texts. -/
theorem isEncoding_of_encoding_eq {text : List Char} (isMark : mark < 128)
    (spelled : encoding text = front ++ mark :: back) : IsEncoding front ∧ IsEncoding back := by
  induction text generalizing front with
  | nil => simp at spelled
  | cons c rest inductionHypothesis =>
    rw [encoding_cons, List.append_eq_append_iff] at spelled
    rcases spelled with ⟨later, rfl, inRest⟩ | ⟨later, inChar, others⟩
    · obtain ⟨⟨text, rfl⟩, isBack⟩ := inductionHypothesis inRest
      exact ⟨⟨c :: text, rfl⟩, isBack⟩
    · cases later with
      | nil =>
        obtain ⟨-, isBack⟩ := @inductionHypothesis [] others.symm
        exact ⟨⟨[c], by simpa using inChar⟩, isBack⟩
      | cons first more =>
        obtain ⟨rfl, behind⟩ := List.cons.inj others
        have alone : String.utf8EncodeChar c = [mark] :=
          encodeChar_of_mark_mem isMark (by simp [inChar])
        have length : 1 = front.length + (more.length + 1) := by
          simpa using congrArg List.length (alone.symm.trans inChar)
        obtain rfl : front = [] := List.eq_nil_of_length_eq_zero (by omega)
        obtain rfl : more = [] := List.eq_nil_of_length_eq_zero (by omega)
        exact ⟨⟨[], rfl⟩, ⟨rest, behind.symm⟩⟩

/-- Bytes are those of a text exactly when the bytes on both sides of a mark are. -/
theorem isEncoding_append_cons (isMark : mark < 128) :
    IsEncoding (front ++ mark :: back) ↔ IsEncoding front ∧ IsEncoding back := by
  constructor
  · rintro ⟨text, spelled⟩
    exact isEncoding_of_encoding_eq isMark spelled
  · rintro ⟨⟨before, rfl⟩, after, rfl⟩
    exact ⟨before ++ Char.ofUInt8 mark :: after, by simp [encodeChar_ofUInt8 isMark]⟩

end Cuts

end PromptBlocks.Text
