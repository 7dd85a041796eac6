import Mathlib.Data.Nat.Digits.Lemmas

/-! # Big-endian byte strings

The number a byte string denotes, most significant byte first, and the
shortest byte string denoting a number. -/
namespace Lib.BigEndian

/-- The number whose big-endian bytes are `bs`. -/
def value (bs : List UInt8) : Nat := bs.foldl (fun n b => n * 256 + b.toNat) 0

/-- The shortest big-endian bytes of `n`; none for zero. -/
def minimal (n : Nat) : List UInt8 := (Nat.digits 256 n).reverse.map UInt8.ofNat

@[simp] theorem value_nil : value [] = 0 := rfl

theorem foldl_value (bs : List UInt8) (n : Nat) :
    bs.foldl (fun n b => n * 256 + b.toNat) n = n * 256 ^ bs.length + value bs := by
  induction bs generalizing n with
  | nil => simp
  | cons b bs ih =>
    have hv : value (b :: bs) = b.toNat * 256 ^ bs.length + value bs := by
      rw [value, List.foldl_cons, ih]
      simp
    rw [List.foldl_cons, ih, hv, List.length_cons, Nat.pow_succ]
    ring

theorem value_append (xs ys : List UInt8) :
    value (xs ++ ys) = value xs * 256 ^ ys.length + value ys := by
  rw [value, List.foldl_append, foldl_value]
  rfl

theorem value_cons (b : UInt8) (bs : List UInt8) :
    value (b :: bs) = b.toNat * 256 ^ bs.length + value bs := by
  simpa [value] using value_append [b] bs

theorem value_concat (bs : List UInt8) (b : UInt8) :
    value (bs ++ [b]) = value bs * 256 + b.toNat := by
  simp [value]

theorem value_lt (bs : List UInt8) : value bs < 256 ^ bs.length := by
  induction bs with
  | nil => simp
  | cons b bs ih =>
    have hb := b.toNat_lt
    rw [value_cons, List.length_cons, Nat.pow_succ]
    nlinarith

theorem value_eq_ofDigits (bs : List UInt8) :
    value bs = Nat.ofDigits 256 (bs.reverse.map UInt8.toNat) := by
  induction bs with
  | nil => rfl
  | cons b bs ih =>
    rw [value_cons, List.reverse_cons, List.map_append, Nat.ofDigits_append, ← ih]
    simp [Nat.ofDigits_singleton]
    ring

/-- The bytes of `minimal n` denote `n`. -/
@[simp] theorem value_minimal (n : Nat) : value (minimal n) = n := by
  rw [value_eq_ofDigits, minimal, ← List.map_reverse, List.reverse_reverse, List.map_map]
  have hid : (Nat.digits 256 n).map (UInt8.toNat ∘ UInt8.ofNat) = Nat.digits 256 n := by
    refine (List.map_congr_left fun d hd => ?_).trans (List.map_id _)
    have hd' : d < 256 := Nat.digits_lt_base (by omega) hd
    simp [Nat.mod_eq_of_lt hd']
  rw [hid, Nat.ofDigits_digits]

@[simp] theorem minimal_zero : minimal 0 = [] := by simp [minimal]

/-- A number below `256 ^ k` takes at most `k` bytes. -/
theorem minimal_length_le {n k : Nat} (h : n < 256 ^ k) : (minimal n).length ≤ k := by
  simp only [minimal, List.length_map, List.length_reverse]
  exact (Nat.digits_length_le_iff (by omega) n).mpr h

theorem minimal_length_pos {n : Nat} (h : 0 < n) : 0 < (minimal n).length := by
  simp only [minimal, List.length_map, List.length_reverse]
  exact List.length_pos_of_ne_nil (Nat.digits_ne_nil_iff_ne_zero.mpr (by omega))

/-- A one-digit number is one byte. -/
theorem minimal_of_lt {n : Nat} (h0 : 0 < n) (h : n < 256) : minimal n = [UInt8.ofNat n] := by
  simp [minimal, Nat.digits_of_lt 256 n (by omega) h]

/-- The shortest bytes start with no zero. -/
theorem minimal_head (n : Nat) : (minimal n).head? ≠ some 0 := by
  rw [minimal, List.head?_map, List.head?_reverse]
  intro hhead
  obtain ⟨d, hd, hzero⟩ := Option.map_eq_some_iff.mp hhead
  have hne : Nat.digits 256 n ≠ [] := by
    intro hnil
    rw [hnil] at hd
    cases hd
  have hn : n ≠ 0 := Nat.digits_ne_nil_iff_ne_zero.mp hne
  rw [List.getLast?_eq_some_getLast hne, Option.some.injEq] at hd
  have hlt : d < 256 := Nat.digits_lt_base (by omega) (hd ▸ List.getLast_mem hne)
  have hpos : d ≠ 0 := hd ▸ Nat.getLast_digit_ne_zero 256 hn
  have hval := congrArg UInt8.toNat hzero
  rw [UInt8.toNat_ofNat', Nat.mod_eq_of_lt hlt] at hval
  exact hpos hval

/-- Bytes that start with no zero are the shortest of their number. -/
theorem minimal_value {bs : List UInt8} (h : bs.head? ≠ some 0) : minimal (value bs) = bs := by
  have hdigits : Nat.digits 256 (value bs) = bs.reverse.map UInt8.toNat := by
    rw [value_eq_ofDigits]
    refine Nat.digits_ofDigits 256 (by omega) _ ?_ ?_
    · intro d hd
      obtain ⟨b, -, rfl⟩ := List.mem_map.mp hd
      exact b.toNat_lt
    · intro hne
      cases bs with
      | nil => simp at hne
      | cons b bs =>
        simp only [List.reverse_cons, List.map_append, List.map_cons, List.map_nil,
          List.getLast_append_singleton]
        intro hb
        refine h ?_
        rw [List.head?_cons, UInt8.toNat_inj.mp (show b.toNat = (0 : UInt8).toNat from hb)]
  rw [minimal, hdigits, ← List.map_reverse, List.reverse_reverse, List.map_map]
  refine (List.map_congr_left fun b _ => ?_).trans (List.map_id _)
  exact UInt8.ofNat_toNat

end Lib.BigEndian
