import TabletDelta.Bytes

/-!
# Byte strings as quoted text

A byte string is shown between double quotes. Printable ASCII stands for itself, except that both
quotes and the backslash are escaped; tab, carriage return and line feed have escapes of one letter,
and every other byte is written `\x` with two lower-case hexadecimal digits.
-/

namespace TabletDelta

/-- The lower-case hexadecimal digit of a number below sixteen. -/
def hexDigit (n : Nat) : Char := Nat.digitChar n

/-- A byte in exactly two lower-case hexadecimal digits. -/
def hexByte (b : UInt8) : List Char := [hexDigit (b.toNat / 16), hexDigit (b.toNat % 16)]

/-- A byte as it stands inside quotes. -/
def escapeByte (b : UInt8) : List Char :=
  if b = 0x09 then ['\\', 't']
  else if b = 0x0d then ['\\', 'r']
  else if b = 0x0a then ['\\', 'n']
  else if b = 0x27 then ['\\', '\'']
  else if b = 0x22 then ['\\', '"']
  else if b = 0x5c then ['\\', '\\']
  else if 0x20 ≤ b ∧ b < 0x7f then [Char.ofNat b.toNat]
  else '\\' :: 'x' :: hexByte b

/-- A byte string between double quotes, with everything that is not plain ASCII escaped. -/
def quoted (bytes : Bytes) : String :=
  String.ofList ('"' :: bytes.flatMap escapeByte ++ ['"'])

end TabletDelta
