import Mathlib.Data.List.Basic
import Mathlib.Algebra.Order.Group.Nat

/-! # Slices of a list

A list cut into slices of one size, of which the last may be shorter: the
slices in order are the list, and each has something in it. -/
namespace Lib.Slices

variable {α : Type} {size : Nat} {xs : List α}

/-- The slice `i`. -/
def slice (size : Nat) (xs : List α) (i : Nat) : List α := (xs.drop (i * size)).take size

/-- All slices of a list. -/
def slices (size : Nat) (xs : List α) : List (List α) :=
  (List.range ((xs.length + size - 1) / size)).map (slice size xs)

/-- The first slices, in order, are a prefix. -/
theorem flatMap_slice (size : Nat) (xs : List α) (count : Nat) :
    (List.range count).flatMap (slice size xs) = xs.take (count * size) := by
  induction count with
  | zero => simp
  | succ count ih =>
    rw [List.range_succ, List.flatMap_append, ih, Nat.succ_mul, List.take_add]
    simp [slice]

theorem length_slice_le (size : Nat) (xs : List α) (i : Nat) : (slice size xs i).length ≤ size :=
  List.length_take_le size _

theorem flatten_slices (hsize : 0 < size) (xs : List α) : (slices size xs).flatten = xs := by
  have hcount : xs.length ≤ (xs.length + size - 1) / size * size := by
    have hdiv := Nat.div_add_mod (xs.length + size - 1) size
    have hmod := Nat.mod_lt (xs.length + size - 1) hsize
    rw [Nat.mul_comm]
    omega
  rw [slices, ← List.flatMap_def, flatMap_slice, List.take_of_length_le hcount]

theorem mem_slices (hsize : 0 < size) {c : List α} (h : c ∈ slices size xs) :
    c ≠ [] ∧ c.length ≤ size := by
  obtain ⟨i, hi, rfl⟩ := List.mem_map.mp h
  refine ⟨?_, length_slice_le size xs i⟩
  have hlt : i * size < xs.length := by
    have hle : (i + 1) * size ≤ (xs.length + size - 1) / size * size :=
      Nat.mul_le_mul_right size (List.mem_range.mp hi)
    have hdiv := Nat.div_mul_le_self (xs.length + size - 1) size
    rw [Nat.succ_mul] at hle
    omega
  rw [slice, ← List.length_pos_iff, List.length_take, List.length_drop]
  omega

end Lib.Slices
