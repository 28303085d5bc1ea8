import Mathlib
import TabletDelta.ChangeList.Text
import TabletDelta.Proofs.ChangeList.Codec
import TabletDelta.Proofs.Text.Quoted

/-!
# Change lists told apart by their text

The text of a change list puts names and values next to each other, with no lengths and nothing to
keep a name or a string from looking like the rest of the list. It still loses no value. Where the
columns are known, each value is read off the text: a number or a truth value ends before the next
comma, and a string at the quote that ends it (`Cell.text_append_inj`). By induction on the
assignments, those of two lists for the same columns are the same if the texts are
(`separated_inj`), and so are the bytes (`texts_tell_apart`).
-/

namespace TabletDelta

/-! ## Cells -/

namespace Cell

/-- Decimal digits are no commas. -/
theorem comma_not_mem_repr (n : Nat) : ',' ∉ n.repr.toList := by
  intro h
  rw [Nat.toList_repr] at h
  have hdigit := Nat.isDigit_of_mem_toDigits (by decide) (by decide) h
  exact absurd hdigit (by decide)

/-- A number is written without a comma, with a sign or without. -/
theorem comma_not_mem_toString (z : Int) : ',' ∉ (toString z).toList := by
  rw [Int.toString_eq_repr, Int.repr_eq_if]
  split_ifs with hsign
  · exact comma_not_mem_repr z.toNat
  · rw [String.toList_append, List.mem_append]
    exact not_or.2 ⟨by decide, comma_not_mem_repr (-z).toNat⟩

/-- Only in the text of a string there may be a comma. -/
theorem comma_not_mem_text {value : Cell} (h : value.type ≠ .string) :
    ',' ∉ value.text.toList := by
  cases value with
  | bool value => cases value <;> decide
  | uint32 value => exact comma_not_mem_repr value.toNat
  | int32 value => exact comma_not_mem_toString value.toInt
  | uint64 value => exact comma_not_mem_repr value.toNat
  | int64 value => exact comma_not_mem_toString value.toInt
  | string bytes => exact absurd rfl h

/-- Cells of one type with the same text are the same. -/
theorem text_inj {value other : Cell} (htype : value.type = other.type)
    (h : value.text = other.text) : value = other := by
  cases value <;> cases other <;> cases htype
  case bool.bool v w =>
    revert h
    cases v <;> cases w <;> decide
  case uint32.uint32 v w =>
    have hnumber : v.toNat = w.toNat := Nat.repr_inj.1 h
    rw [UInt32.toNat_inj.1 hnumber]
  case int32.int32 v w =>
    have hnumber : v.toInt = w.toInt := Int.repr_inj.1 h
    rw [Int32.toInt_inj.1 hnumber]
  case uint64.uint64 v w =>
    have hnumber : v.toNat = w.toNat := Nat.repr_inj.1 h
    rw [UInt64.toNat_inj.1 hnumber]
  case int64.int64 v w =>
    have hnumber : v.toInt = w.toInt := Int.repr_inj.1 h
    rw [Int64.toInt_inj.1 hnumber]
  case string.string a b =>
    have hbytes : a = b := quoted_injective h
    rw [hbytes]

/-- Text that the text of a cell is followed by: none, or a separator. -/
def Ending (text : List Char) : Prop := text = [] ∨ ∃ more, text = ',' :: more

/-- Text without a comma is what comes before the ending. -/
theorem takeWhile_append_ending {x s : List Char} (hx : ',' ∉ x) (hs : Ending s) :
    (x ++ s).takeWhile (· ≠ ',') = x := by
  have hnone : s.takeWhile (· ≠ ',') = [] := by
    rcases hs with rfl | ⟨more, rfl⟩ <;> rfl
  rw [List.takeWhile_append_of_pos, hnone, List.append_nil]
  intro c hc
  exact decide_eq_true fun hcomma => hx (hcomma ▸ hc)

/-- If texts start with cells of one type, each followed by an ending, and are the same, then so are
the cells and the endings. -/
theorem text_append_inj {value other : Cell} {s t : List Char} (htype : value.type = other.type)
    (hs : Ending s) (ht : Ending t)
    (h : value.text.toList ++ s = other.text.toList ++ t) : value = other ∧ s = t := by
  by_cases hstring : value.type = .string
  · -- A string ends at its quote, and may have commas in it.
    cases value <;> cases hstring
    cases other <;> cases htype
    obtain ⟨hbytes, hrest⟩ := quoted_append_inj h
    exact ⟨congrArg Cell.string hbytes, hrest⟩
  · have hvalue := takeWhile_append_ending (comma_not_mem_text hstring) hs
    have hother := takeWhile_append_ending (comma_not_mem_text (htype ▸ hstring)) ht
    have htext : value.text.toList = other.text.toList := by rw [← hvalue, h, hother]
    rw [htext] at h
    exact ⟨text_inj htype (String.toList_inj.1 htext), List.append_cancel_left h⟩

end Cell

namespace ChangeList

/-! ## Assignments -/

variable {schema : Schema} {as bs : List Assignment}

/-- The texts of assignments one after the other, with the separator in front of each. -/
def separated (schema : Schema) (as : List Assignment) : List Char :=
  as.flatMap fun a => ", ".toList ++ (outcomeText schema (.ok a)).toList

/-- The texts of assignments are an ending. -/
theorem ending_separated (as : List Assignment) : Cell.Ending (separated schema as) := by
  cases as with
  | nil => exact .inl rfl
  | cons a as => exact .inr ⟨_, rfl⟩

/-- The first assignment comes with the separator and the name of its column in front of its
value. -/
theorem separated_cons {a : Assignment} {column : Column}
    (h : schema.columns[a.column]? = some column) :
    separated schema (a :: as) = ", ".toList ++ (column.name ++ "=").toList ++
      (a.value.text.toList ++ separated schema as) := by
  rw [separated, List.flatMap_cons, outcomeText_of_column h, String.toList_append]
  simp only [List.append_assoc]
  rfl

/-- Assignments to the same columns with the same texts are the same. -/
theorem separated_inj (hcolumns : as.map Assignment.column = bs.map Assignment.column)
    (has : ∀ a ∈ as, a.Fits schema) (hbs : ∀ b ∈ bs, b.Fits schema)
    (h : separated schema as = separated schema bs) : as = bs := by
  induction as generalizing bs with
  | nil => exact (List.map_eq_nil_iff.1 hcolumns.symm).symm
  | cons a as ih =>
    cases bs with
    | nil => cases hcolumns
    | cons b bs =>
      obtain ⟨⟨column, hcolumn, htype⟩, has⟩ := List.forall_mem_cons.1 has
      obtain ⟨⟨column', hcolumn', htype'⟩, hbs⟩ := List.forall_mem_cons.1 hbs
      obtain ⟨hindex, hcolumns⟩ := List.cons.inj hcolumns
      -- Both are shown with the name of the one column.
      obtain rfl : column = column' := Option.some.inj (by rw [← hcolumn, ← hcolumn', hindex])
      rw [separated_cons hcolumn, separated_cons hcolumn'] at h
      obtain ⟨hvalue, hrest⟩ := Cell.text_append_inj (htype.trans htype'.symm)
        (ending_separated as) (ending_separated bs) (List.append_cancel_left h)
      have hassignment : a = b := by
        cases a
        cases b
        cases hindex
        cases hvalue
        rfl
      rw [hassignment, ih hcolumns has hbs hrest]

/-! ## Change lists -/

/-- Texts put together with a separator between them, and one more in front. -/
theorem separator_append_intercalate (s : String) {texts : List String} (h : texts ≠ []) :
    s.toList ++ (s.intercalate texts).toList = texts.flatMap fun t => s.toList ++ t.toList := by
  induction texts with
  | nil => exact absurd rfl h
  | cons t texts ih =>
    rw [List.flatMap_cons]
    cases texts with
    | nil =>
      rw [String.intercalate_singleton]
      exact (List.append_nil _).symm
    | cons t' texts =>
      rw [← ih (List.cons_ne_nil _ _), String.intercalate_cons_cons, String.toList_append,
        String.toList_append]
      simp only [List.append_assoc]

/-- The text of a well-formed change list shows its assignments. -/
theorem text_of_assignments {bytes : Bytes} (h : assignments schema bytes = .ok as) :
    text schema bytes =
      "SET " ++ ", ".intercalate (as.map fun a => outcomeText schema (.ok a)) := by
  rw [text, assignments_eq_ok_iff.1 h, List.map_map]
  rfl

/-- Change lists that assign to the same columns and have the same text hold the same assignments. -/
theorem assignments_unique {bytes others : Bytes} (has : assignments schema bytes = .ok as)
    (hbs : assignments schema others = .ok bs)
    (hcolumns : as.map Assignment.column = bs.map Assignment.column)
    (h : text schema bytes = text schema others) : as = bs := by
  by_cases hempty : as = []
  · subst hempty
    exact (List.map_eq_nil_iff.1 hcolumns.symm).symm
  have hseparated : ∀ cs : List Assignment, cs ≠ [] → separated schema cs =
      ", ".toList ++ (", ".intercalate (cs.map fun c => outcomeText schema (.ok c))).toList := by
    intro cs hcs
    rw [separator_append_intercalate _ (mt List.map_eq_nil_iff.1 hcs), List.flatMap_map]
    rfl
  have hnonempty : bs ≠ [] := by
    rintro rfl
    exact hempty (List.map_eq_nil_iff.1 hcolumns)
  refine separated_inj hcolumns (fits_of_assignments has) (fits_of_assignments hbs) ?_
  rw [text_of_assignments has, text_of_assignments hbs] at h
  have hshown := congrArg String.toList h
  rw [String.toList_append, String.toList_append] at hshown
  rw [hseparated as hempty, hseparated bs hnonempty, List.append_cancel_left hshown]

/-- **The text of a change list loses no value.** Quoted text determines the bytes in it; it is
printable, and its only double quotes without a backslash are its first character and its last one.
So two well-formed change lists that assign to the same columns of a schema, in the same order, have
the same text exactly if they have the same bytes, whatever the names of the columns look like. -/
theorem texts_tell_apart (schema : Schema) :
    Function.Injective quoted ∧
    (∀ bytes : Bytes, (∀ c ∈ (quoted bytes).toList, Printable c) ∧
      bareQuotes 0 (quoted bytes).toList = [0, (quoted bytes).length - 1]) ∧
    ∀ (bytes others : Bytes) (as bs : List Assignment),
      assignments schema bytes = .ok as → assignments schema others = .ok bs →
      as.map Assignment.column = bs.map Assignment.column →
      (text schema bytes = text schema others ↔ bytes = others) := by
  refine ⟨quoted_injective, ?form, ?lists⟩
  case form =>
    intro bytes
    exact ⟨fun c hc => printable_of_mem_quoted hc, bareQuotes_quoted bytes⟩
  case lists =>
    intro bytes others as bs has hbs hcolumns
    refine ⟨fun h => ?_, fun h => by rw [h]⟩
    obtain rfl := assignments_unique has hbs hcolumns h
    -- The assignments determine the bytes that they are read from.
    obtain ⟨-, hbytes⟩ := outcomes_eq_iff.1 (assignments_eq_ok_iff.1 has)
    obtain ⟨-, hothers⟩ := outcomes_eq_iff.1 (assignments_eq_ok_iff.1 hbs)
    rw [hbytes, hothers]

/-- Two columns of strings. -/
def pairSchema : Schema where
  columns := [⟨"a", .string⟩, ⟨"b", .string⟩]
  keyCount := 0
  keyCount_le := by decide
  nodup := by decide

/-- The strings `x", b="y` and `z`. -/
def forgedFirst : List Assignment :=
  [⟨0, .string [120, 34, 44, 32, 98, 61, 34, 121]⟩, ⟨1, .string [122]⟩]

/-- The strings `x` and `y", b="z`. -/
def forgedSecond : List Assignment :=
  [⟨0, .string [120]⟩, ⟨1, .string [121, 34, 44, 32, 98, 61, 34, 122]⟩]

/-- Without escapes, the text of both lists would be `SET a="x", b="y", b="z"`. -/
theorem texts_tell_apart_forged :
    assignments pairSchema (forgedFirst.flatMap Assignment.bytes) = .ok forgedFirst ∧
      assignments pairSchema (forgedSecond.flatMap Assignment.bytes) = .ok forgedSecond ∧
      text pairSchema (forgedFirst.flatMap Assignment.bytes) ≠
        text pairSchema (forgedSecond.flatMap Assignment.bytes) := by
  have hread : ∀ as : List Assignment, ((Builder.mk pairSchema []).clear.addAll as).result = .ok () →
      assignments pairSchema (as.flatMap Assignment.bytes) = .ok as := by
    intro as h
    have hwritable := (Builder.addAll_clear_state h).1
    exact assignments_eq_ok_iff.2 (outcomes_eq_iff.2 ⟨hwritable, rfl⟩)
  have hfirst := hread forgedFirst (by decide +kernel)
  have hsecond := hread forgedSecond (by decide +kernel)
  have hbytes : forgedFirst.flatMap Assignment.bytes ≠ forgedSecond.flatMap Assignment.bytes := by
    decide +kernel
  have htexts := (texts_tell_apart pairSchema).2.2 _ _ _ _ hfirst hsecond rfl
  exact ⟨hfirst, hsecond, mt htexts.1 hbytes⟩

end ChangeList

end TabletDelta
