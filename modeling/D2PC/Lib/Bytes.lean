import Mathlib.Data.List.Infix
import Mathlib.Algebra.Group.Nat.Even

/-!
# Buffers of bytes

Machine words written to and read from a buffer, least significant byte first, and the
pieces a long buffer is cut into.

* `Bytes.word`, `Bytes.value` : the bytes of a number of a given width, and back;
* `Bytes.readWord_append`, `Bytes.readBytes_append` : reading back what was written first;
* `Bytes.prefix_piece` : a prefix grows by the piece that starts where it ends.
-/

/-- The contents of a buffer. -/
abbrev Bytes := List UInt8

namespace Bytes

/-- The `width` lowest bytes of a number. -/
def word : ℕ → ℕ → Bytes
  | 0, _ => []
  | width + 1, n => UInt8.ofNat n :: word width (n / 256)

/-- The number a sequence of bytes stands for. -/
def value : Bytes → ℕ
  | [] => 0
  | b :: bs => b.toNat + 256 * value bs

@[simp] theorem length_word (width n : ℕ) : (word width n).length = width := by
  induction width generalizing n with
  | zero => rfl
  | succ width ih => rw [word, List.length_cons, ih]

theorem value_word {width n : ℕ} (h : n < 256 ^ width) : value (word width n) = n := by
  induction width generalizing n with
  | zero =>
      rw [pow_zero, Nat.lt_one_iff] at h
      rw [h]
      rfl
  | succ width ih =>
      have hdiv : n / 256 < 256 ^ width := by
        rw [pow_succ] at h
        exact Nat.div_lt_of_lt_mul (by rw [mul_comm]; exact h)
      rw [word, value, ih hdiv, UInt8.toNat_ofNat']
      exact Nat.mod_add_div n 256

/-- The first `n` bytes and the rest. A read past the end has no result. -/
def readBytes (n : ℕ) (bs : Bytes) : Option (Bytes × Bytes) :=
  if n ≤ bs.length then some (bs.take n, bs.drop n) else none

/-- A word of `width` bytes and the rest. -/
def readWord (width : ℕ) (bs : Bytes) : Option (ℕ × Bytes) :=
  (readBytes width bs).map fun p => (value p.1, p.2)

theorem readBytes_append (bs rest : Bytes) :
    readBytes bs.length (bs ++ rest) = some (bs, rest) := by
  have hle : bs.length ≤ (bs ++ rest).length := by
    rw [List.length_append]
    omega
  rw [readBytes, if_pos hle, List.take_left, List.drop_left]

theorem readWord_append {width n : ℕ} (h : n < 256 ^ width) (rest : Bytes) :
    readWord width (word width n ++ rest) = some (n, rest) := by
  have hread := readBytes_append (word width n) rest
  rw [length_word] at hread
  rw [readWord, hread, Option.map_some, value_word h]

/-- The piece of a buffer that starts at `start` and is at most `size` long. -/
def piece (bs : Bytes) (start size : ℕ) : Bytes := (bs.drop start).take size

/-- A prefix of the buffer grows by the piece that starts where it ends. -/
theorem take_append_piece (bs : Bytes) (start size : ℕ) :
    bs.take start ++ bs.piece start size = bs.take (start + size) :=
  (List.take_add ..).symm

theorem prefix_piece {bs data : Bytes} (h : data <+: bs) (size : ℕ) :
    data ++ bs.piece data.length size <+: bs := by
  have heq : data = bs.take data.length := List.prefix_iff_eq_take.1 h
  have happend := take_append_piece bs data.length size
  rw [← heq] at happend
  rw [happend]
  exact List.take_prefix _ _

end Bytes
