import TabletDelta.Error

/-!
# Where a byte string stops being UTF-8

A character in UTF-8 is a leading byte and up to three following bytes. The leading byte decides how
many follow and which range the first of them is from; the others are from `0x80` to `0xbf`. The
narrower ranges rule out overlong forms, surrogates and numbers above the last character.
-/

namespace TabletDelta

/-- The inclusive ranges of the bytes that have to follow a leading byte, or `none` if no character
starts with that byte. -/
def followers? (lead : UInt8) : Option (List (UInt8 × UInt8)) :=
  let any : UInt8 × UInt8 := (0x80, 0xbf)
  if lead < 0x80 then some []
  else if lead < 0xc2 then none
  else if lead < 0xe0 then some [any]
  else if lead = 0xe0 then some [(0xa0, 0xbf), any]
  else if lead = 0xed then some [(0x80, 0x9f), any]
  else if lead < 0xf0 then some [any, any]
  else if lead = 0xf0 then some [(0x90, 0xbf), any, any]
  else if lead < 0xf4 then some [any, any, any]
  else if lead = 0xf4 then some [(0x80, 0x8f), any, any]
  else none

/-- How the bytes after a leading byte compare with the ranges that they have to be from. -/
inductive Followed where
  /-- All are in their ranges. -/
  | whole
  /-- The input ends too early. -/
  | cutShort
  /-- After some bytes in their ranges there is one that is not. -/
  | broken (matched : Nat)
deriving DecidableEq, Repr

/-- Compares the bytes after a leading byte with their ranges; `matched` were in theirs before. -/
def follow (matched : Nat) : List (UInt8 × UInt8) → Bytes → Followed
  | [], _ => .whole
  | _ :: _, [] => .cutShort
  | (low, high) :: ranges, b :: bs =>
    if low ≤ b ∧ b ≤ high then follow (matched + 1) ranges bs else .broken matched

/-- The first fault of a byte string whose first `index` bytes, already read, were whole characters.
A byte string without a fault gets the one of an input that ends too early, at its end. -/
def utf8Fault (index : Nat) (bytes : Bytes) : Utf8Fault :=
  match bytes with
  | [] => ⟨index, none⟩
  | lead :: rest =>
    match followers? lead with
    | none => ⟨index, some 1⟩
    | some ranges =>
      match follow 0 ranges rest with
      | .whole => utf8Fault (index + 1 + ranges.length) (rest.drop ranges.length)
      | .cutShort => ⟨index, none⟩
      | .broken matched => ⟨index, some (matched + 1)⟩
termination_by bytes.length
decreasing_by rw [List.length_drop, List.length_cons]; omega

end TabletDelta
