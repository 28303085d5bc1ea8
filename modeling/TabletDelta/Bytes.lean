/-!
# Byte strings and little-endian words

A byte string is a list of bytes. `littleEndian` writes a number in a fixed count of bytes, the
least significant first, and `ofLittleEndian` reads one back; `splitBytes?` cuts a counted part off
the front. Both binary formats of the library, the change list and the wire form of schemas and
snapshots, are built from these three.
-/

namespace TabletDelta

/-- A byte string. -/
abbrev Bytes := List UInt8

/-- The low `width` bytes of a number, the least significant first. -/
def littleEndian : (width : Nat) → Nat → Bytes
  | 0, _ => []
  | width + 1, n => UInt8.ofNat n :: littleEndian width (n / 256)

/-- The number whose bytes are given, the least significant first. -/
def ofLittleEndian : Bytes → Nat
  | [] => 0
  | b :: bs => b.toNat + 256 * ofLittleEndian bs

/-- The first `n` bytes and the rest, or `none` if there are fewer than `n`. -/
def splitBytes? (n : Nat) (bytes : Bytes) : Option (Bytes × Bytes) :=
  if bytes.length < n then none else some (bytes.take n, bytes.drop n)

@[simp] theorem length_littleEndian (width n : Nat) : (littleEndian width n).length = width := by
  induction width generalizing n with
  | zero => rfl
  | succ width ih => simp [littleEndian, ih]

/-- A successful cut loses nothing, and its first part has the length asked for. -/
theorem splitBytes?_eq_some {n : Nat} {bytes head rest : Bytes}
    (h : splitBytes? n bytes = some (head, rest)) : bytes = head ++ rest ∧ head.length = n := by
  unfold splitBytes? at h
  split at h
  · cases h
  · cases h
    exact ⟨(List.take_append_drop n bytes).symm, by rw [List.length_take]; omega⟩

end TabletDelta
