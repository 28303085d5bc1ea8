import Mathlib.Logic.Function.Basic
import Mathlib.Tactic.SplitIfs
import TabletDelta.Text.Quoted

/-!
# Quoted text is read back

Inside quotes a byte takes one, two or four characters, and which of these it is shows at its first
two. So the bytes can be read off the front again, one by one (`unescape?_escapeByte`). A double
quote never stands there without a backslash, so it ends the text, and what follows does not matter:
quoted text determines the bytes, wherever it stands (`quoted_append_inj`).
-/

namespace TabletDelta

/-! ## What a byte looks like -/

/-- A character of printable ASCII. -/
def Printable (c : Char) : Prop := 0x20 ≤ c.toNat ∧ c.toNat < 0x7f

instance (c : Char) : Decidable (Printable c) :=
  inferInstanceAs (Decidable (0x20 ≤ c.toNat ∧ c.toNat < 0x7f))

/-- A printable character that neither ends quoted text nor starts an escape. -/
structure Plain (c : Char) : Prop where
  /-- It is printable. -/
  printable : Printable c
  /-- It is no double quote. -/
  ne_quote : c ≠ '"'
  /-- It is no backslash. -/
  ne_backslash : c ≠ '\\'

/-- The two forms that a byte has inside quotes. -/
inductive ByteText : List Char → Prop where
  /-- A character that stands for itself. -/
  | plain {c : Char} (h : Plain c) : ByteText [c]
  /-- A backslash and the character that it escapes, with digits if this is an `x`. -/
  | escape {c : Char} {digits : List Char} (hc : Printable c) (hdigits : ∀ d ∈ digits, Plain d) :
    ByteText ('\\' :: c :: digits)

/-- The character with the number of a byte has this number. -/
theorem toNat_ofNat_byte (b : UInt8) : (Char.ofNat b.toNat).toNat = b.toNat := by
  have hlt := b.toNat_lt
  have hvalid : b.toNat.isValidChar := .inl (by omega)
  rw [Char.ofNat, dif_pos hvalid]
  rfl

/-- Hexadecimal digits are plain. -/
theorem plain_hexDigit {n : Nat} (h : n < 16) : Plain (hexDigit n) := by
  have hprintable : ∀ n < 16, Printable (hexDigit n) := by decide
  exact ⟨hprintable n h, Nat.digitChar_ne '"' rfl, Nat.digitChar_ne '\\' rfl⟩

/-- A byte in a range of ASCII that is no quote and no backslash is a plain character. -/
theorem plain_of_byte {b : UInt8} (hrange : 0x20 ≤ b ∧ b < 0x7f) (hquote : b ≠ 0x22)
    (hbackslash : b ≠ 0x5c) : Plain (Char.ofNat b.toNat) := by
  have hnumber := toNat_ofNat_byte b
  refine ⟨?_, ?_, ?_⟩
  · unfold Printable
    rw [hnumber]
    exact ⟨UInt8.le_iff_toNat_le.1 hrange.1, UInt8.lt_iff_toNat_lt.1 hrange.2⟩
  · intro h
    rw [h] at hnumber
    exact hquote (UInt8.toNat_inj.1 hnumber.symm)
  · intro h
    rw [h] at hnumber
    exact hbackslash (UInt8.toNat_inj.1 hnumber.symm)

/-- Each byte has one of the two forms. -/
theorem byteText_escapeByte (b : UInt8) : ByteText (escapeByte b) := by
  unfold escapeByte
  split_ifs with htab hreturn hfeed hapostrophe hquote hbackslash hrange
  · exact .escape (by decide) nofun
  · exact .escape (by decide) nofun
  · exact .escape (by decide) nofun
  · exact .escape (by decide) nofun
  · exact .escape (by decide) nofun
  · exact .escape (by decide) nofun
  · exact .plain (plain_of_byte hrange hquote hbackslash)
  · have hlt := b.toNat_lt
    have hhigh : Plain (hexDigit (b.toNat / 16)) := plain_hexDigit (by omega)
    have hlow : Plain (hexDigit (b.toNat % 16)) := plain_hexDigit (by omega)
    have hdigits : ∀ d ∈ hexByte b, Plain d :=
      List.forall_mem_cons.2 ⟨hhigh, List.forall_mem_singleton.2 hlow⟩
    exact .escape (by decide) hdigits

/-! ## Reading bytes back -/

/-- The number that a hexadecimal digit stands for. -/
def hexValue (c : Char) : Nat := if c.isDigit then c.toNat - 48 else c.toNat - 87

/-- The byte that text starts with inside quotes, and the text after it, or `none` at the quote that
ends it. -/
def unescape? : List Char → Option (UInt8 × List Char)
  | '\\' :: 't' :: rest => some (0x09, rest)
  | '\\' :: 'r' :: rest => some (0x0d, rest)
  | '\\' :: 'n' :: rest => some (0x0a, rest)
  | '\\' :: 'x' :: high :: low :: rest =>
    some (UInt8.ofNat (16 * hexValue high + hexValue low), rest)
  | '\\' :: c :: rest => some (UInt8.ofNat c.toNat, rest)
  | '"' :: _ => none
  | c :: rest => some (UInt8.ofNat c.toNat, rest)
  | [] => none

/-- A hexadecimal digit stands for the number that it was written for. -/
theorem hexValue_hexDigit {n : Nat} (h : n < 16) : hexValue (hexDigit n) = n := by
  have hall : ∀ n < 16, hexValue (hexDigit n) = n := by decide
  exact hall n h

/-- A plain character is read as the byte with its number. -/
theorem unescape?_plain {c : Char} (h : Plain c) (rest : List Char) :
    unescape? (c :: rest) = some (UInt8.ofNat c.toNat, rest) := by
  have hquote := h.ne_quote
  have hbackslash := h.ne_backslash
  unfold unescape?
  split <;> simp_all

/-- A byte is read back from its text, whatever follows. -/
theorem unescape?_escapeByte (b : UInt8) (rest : List Char) :
    unescape? (escapeByte b ++ rest) = some (b, rest) := by
  unfold escapeByte
  split_ifs with htab hreturn hfeed hapostrophe hquote hbackslash hrange
  · rw [htab]
    rfl
  · rw [hreturn]
    rfl
  · rw [hfeed]
    rfl
  · rw [hapostrophe]
    rfl
  · rw [hquote]
    rfl
  · rw [hbackslash]
    rfl
  · have hplain := plain_of_byte hrange hquote hbackslash
    rw [List.singleton_append, unescape?_plain hplain, toNat_ofNat_byte, UInt8.ofNat_toNat]
  · have hlt := b.toNat_lt
    have hhigh : hexValue (hexDigit (b.toNat / 16)) = b.toNat / 16 := hexValue_hexDigit (by omega)
    have hlow : hexValue (hexDigit (b.toNat % 16)) = b.toNat % 16 := hexValue_hexDigit (by omega)
    show some (UInt8.ofNat (16 * hexValue (hexDigit (b.toNat / 16)) +
      hexValue (hexDigit (b.toNat % 16))), rest) = some (b, rest)
    rw [hhigh, hlow, Nat.div_add_mod, UInt8.ofNat_toNat]

/-- Bytes are read back up to the quote that ends them, whatever follows it. -/
theorem escaped_append_inj {a b : Bytes} {s t : List Char}
    (h : a.flatMap escapeByte ++ '"' :: s = b.flatMap escapeByte ++ '"' :: t) :
    a = b ∧ s = t := by
  have hend : ∀ rest, unescape? ('"' :: rest) = none := fun rest => rfl
  induction a generalizing b with
  | nil =>
    cases b with
    | nil => exact ⟨rfl, (List.cons.inj h).2⟩
    | cons y b =>
      have hread := congrArg unescape? h
      rw [List.flatMap_nil, List.nil_append, hend, List.flatMap_cons, List.append_assoc,
        unescape?_escapeByte] at hread
      cases hread
  | cons x a ih =>
    have hread := congrArg unescape? h
    rw [List.flatMap_cons, List.append_assoc, unescape?_escapeByte] at hread
    cases b with
    | nil => cases hread
    | cons y b =>
      rw [List.flatMap_cons, List.append_assoc, unescape?_escapeByte] at hread
      obtain ⟨hbyte, hrest⟩ := Prod.mk.inj (Option.some.inj hread)
      obtain ⟨hbytes, hfollowing⟩ := ih hrest
      exact ⟨by rw [hbyte, hbytes], hfollowing⟩

/-! ## Quoted text -/

/-- The characters of quoted text. -/
theorem toList_quoted (bytes : Bytes) :
    (quoted bytes).toList = '"' :: (bytes.flatMap escapeByte ++ ['"']) :=
  String.toList_ofList

/-- Texts that start with quoted bytes and are the same start with the same bytes, and go on with the
same text. -/
theorem quoted_append_inj {a b : Bytes} {s t : List Char}
    (h : (quoted a).toList ++ s = (quoted b).toList ++ t) : a = b ∧ s = t := by
  rw [toList_quoted, toList_quoted, List.cons_append, List.cons_append, List.append_assoc,
    List.append_assoc] at h
  exact escaped_append_inj (List.cons.inj h).2

/-- Quoted text determines the bytes in it. -/
theorem quoted_injective : Function.Injective quoted := by
  intro a b h
  have hchars : (quoted a).toList ++ [] = (quoted b).toList ++ [] := by rw [h]
  exact (quoted_append_inj hchars).1

/-! ## Quotes inside quotes -/

/-- The text of a byte is printable. -/
theorem ByteText.printable {text : List Char} (h : ByteText text) : ∀ c ∈ text, Printable c := by
  cases h with
  | plain hc => exact List.forall_mem_singleton.2 hc.printable
  | escape hc hdigits =>
    have hall : ∀ d ∈ _, Printable d := fun d hd => (hdigits d hd).printable
    exact List.forall_mem_cons.2 ⟨by decide, List.forall_mem_cons.2 ⟨hc, hall⟩⟩

/-- Quoted text is printable. -/
theorem printable_of_mem_quoted {bytes : Bytes} {c : Char} (h : c ∈ (quoted bytes).toList) :
    Printable c := by
  have hquote : Printable '"' := by decide
  rw [toList_quoted, List.mem_cons, List.mem_append, List.mem_singleton, List.mem_flatMap] at h
  rcases h with rfl | ⟨b, -, hc⟩ | rfl
  · exact hquote
  · exact (byteText_escapeByte b).printable c hc
  · exact hquote

/-- The places of the double quotes that stand in a text without a backslash, if its first character
has the place given. A backslash takes the character after it with it, so this one is not looked
at. -/
def bareQuotes (place : Nat) : List Char → List Nat
  | [] => []
  | '\\' :: _ :: rest => bareQuotes (place + 2) rest
  | c :: rest =>
    if c = '"' then place :: bareQuotes (place + 1) rest else bareQuotes (place + 1) rest

/-- Plain characters are no quotes, and take no character with them. -/
theorem bareQuotes_plain {text : List Char} (h : ∀ c ∈ text, Plain c) (place : Nat)
    (rest : List Char) :
    bareQuotes place (text ++ rest) = bareQuotes (place + text.length) rest := by
  induction text generalizing place with
  | nil => rfl
  | cons c text ih =>
    obtain ⟨hc, htext⟩ := List.forall_mem_cons.1 h
    have hskip : bareQuotes place (c :: (text ++ rest)) = bareQuotes (place + 1) (text ++ rest) := by
      rw [bareQuotes, if_neg hc.ne_quote]
      intro d others hbackslash
      exact absurd hbackslash hc.ne_backslash
    rw [List.cons_append, hskip, ih htext, List.length_cons, Nat.add_assoc, Nat.add_comm 1]

/-- The text of a byte has no quote without a backslash, and leaves no backslash for what follows. -/
theorem ByteText.bareQuotes_append {text : List Char} (h : ByteText text) (place : Nat)
    (rest : List Char) :
    bareQuotes place (text ++ rest) = bareQuotes (place + text.length) rest := by
  cases h with
  | plain hc => exact bareQuotes_plain (List.forall_mem_singleton.2 hc) place rest
  | @escape c digits hc hdigits =>
    have hplace : place + ('\\' :: c :: digits).length = place + 2 + digits.length := by
      rw [List.length_cons, List.length_cons]
      omega
    rw [hplace]
    exact bareQuotes_plain hdigits (place + 2) rest

/-- The only double quotes in quoted text without a backslash are its first character and its last
one. -/
theorem bareQuotes_quoted (bytes : Bytes) :
    bareQuotes 0 (quoted bytes).toList = [0, (quoted bytes).length - 1] := by
  have hbody : ∀ place, bareQuotes place (bytes.flatMap escapeByte ++ ['"']) =
      [place + (bytes.flatMap escapeByte).length] := by
    induction bytes with
    | nil => exact fun place => rfl
    | cons b bytes ih =>
      intro place
      rw [List.flatMap_cons, List.append_assoc, (byteText_escapeByte b).bareQuotes_append, ih,
        List.length_append, Nat.add_assoc]
  rw [← String.length_toList, toList_quoted, List.length_cons, List.length_append]
  show 0 :: bareQuotes (0 + 1) (bytes.flatMap escapeByte ++ ['"']) = _
  rw [hbody, Nat.zero_add, Nat.add_comm]
  rfl

end TabletDelta
