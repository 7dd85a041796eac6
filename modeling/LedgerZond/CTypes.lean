import LedgerZond.Lib.Rlp

/-! # The C types the sources use

Arrays of bytes with their declared size, reads and writes that report an
access outside an array, and `size_t` arithmetic in the two builds of the
decoder. -/
namespace LedgerZond.CTypes
open Lib.BigEndian

/-- An array of declared size `n`. -/
structure CArray (α : Type) (n : Nat) where
  toList : List α
  size_eq : toList.length = n
deriving DecidableEq

@[ext] theorem CArray.ext {α : Type} {n : Nat} {a b : CArray α n} (h : a.toList = b.toList) :
    a = b := by
  cases a
  cases b
  cases h
  rfl

/-- `uint8_t[n]`. -/
abbrev Bytes (n : Nat) := CArray UInt8 n

def CArray.replicate {α : Type} (n : Nat) (a : α) : CArray α n :=
  ⟨List.replicate n a, List.length_replicate⟩

/-- The array after `memset(_, 0, n)`. -/
def Bytes.zero (n : Nat) : Bytes n := CArray.replicate n 0

/-- An access outside an array. -/
inductive Fault where
  | read (index : Nat)
  | write (count : Nat)
deriving DecidableEq, Repr

/-- `src` over the start of `dst`; what is behind it stays. -/
def CArray.overlay {α : Type} {n : Nat} (dst : CArray α n) (src : List α) : CArray α n :=
  ⟨(src ++ dst.toList.drop src.length).take n, by simp [dst.size_eq]; omega⟩

/-- `memcpy(dst, src, src_len)`. -/
def memcpy {n : Nat} (dst : Bytes n) (src : List UInt8) : Except Fault (Bytes n) :=
  if src.length ≤ n then .ok (dst.overlay src) else .error (.write src.length)

/-- `if (src_len > 0) memcpy(dst, src, src_len)`. -/
def memcpyIfAny {n : Nat} (dst : Bytes n) (src : List UInt8) : Except Fault (Bytes n) :=
  if src.length > 0 then memcpy dst src else .ok dst

/-- `input[i]`. -/
def readByte (input : List UInt8) (i : Nat) : Except Fault UInt8 :=
  match input[i]? with
  | some b => .ok b
  | none => .error (.read i)

/-- The `count` bytes from `input + start`. -/
def readBytes (input : List UInt8) (start count : Nat) : Except Fault (List UInt8) :=
  if start + count ≤ input.length then .ok ((input.drop start).take count)
  else .error (.read (start + count - 1))

/-- A sequence of calls that returns has its first call return, and the rest behind it. -/
theorem bind_eq_ok {α β : Type} {x : Except Fault α} {f : α → Except Fault β} {r : β}
    (h : (x >>= f) = .ok r) : ∃ a, x = .ok a ∧ f a = .ok r := by
  cases x with
  | error e => cases h
  | ok a => exact ⟨a, rfl, h⟩

theorem memcpy_ok {n : Nat} (dst : Bytes n) {src : List UInt8} (h : src.length ≤ n) :
    memcpy dst src = .ok (dst.overlay src) := if_pos h

theorem overlay_nil {α : Type} {n : Nat} (dst : CArray α n) : dst.overlay [] = dst := by
  cases dst with
  | mk l h => simp [CArray.overlay, ← h]

theorem memcpyIfAny_ok {n : Nat} (dst : Bytes n) {src : List UInt8} (h : src.length ≤ n) :
    memcpyIfAny dst src = .ok (dst.overlay src) := by
  unfold memcpyIfAny
  split
  · exact memcpy_ok dst h
  · have hnil : src = [] := List.eq_nil_of_length_eq_zero (by omega)
    rw [hnil, overlay_nil]

theorem readByte_ok {input : List UInt8} {i : Nat} {b : UInt8} (h : input[i]? = some b) :
    readByte input i = .ok b := by simp [readByte, h]

theorem readBytes_ok {input : List UInt8} {start count : Nat} (h : start + count ≤ input.length) :
    readBytes input start count = .ok ((input.drop start).take count) := if_pos h

/-- What was copied in is what the array starts with. -/
theorem overlay_take {α : Type} {n : Nat} (dst : CArray α n) {src : List α} (h : src.length ≤ n) :
    (dst.overlay src).toList.take src.length = src := by
  simp [CArray.overlay, List.take_take, Nat.min_eq_left h]

theorem overlay_of_length {α : Type} {n : Nat} (dst : CArray α n) {src : List α}
    (h : src.length = n) : (dst.overlay src).toList = src := by
  have htake := overlay_take dst (le_of_eq h)
  rwa [h, List.take_of_length_le (le_of_eq (dst.overlay src).size_eq)] at htake

/-! ## `size_t` and `int` -/

/-- Where the sources run: on the Ledger device, whose `size_t` has 32 bits,
or in the unit tests and the fuzzer of a 64-bit host. -/
inductive Target where
  | device
  | host
deriving DecidableEq, Repr

def Target.sizeBits : Target → Nat
  | .device => 32
  | .host => 64

/-- `a - b` in `size_t`. -/
def Target.sub (t : Target) (a b : Nat) : Nat := (a + 2 ^ t.sizeBits - b) % 2 ^ t.sizeBits

/-- `a + b` in `size_t`. -/
def Target.add (t : Target) (a b : Nat) : Nat := (a + b) % 2 ^ t.sizeBits

/-- `(int) n`; `int` has 32 bits in both builds. -/
def toInt (n : Nat) : Int := Int.bmod n (2 ^ 32)

/-- The largest `int`. -/
def intMax : Nat := 2 ^ 31 - 1

/-- The number big-endian bytes leave in a `size_t`. -/
def Target.wrap (t : Target) (bs : List UInt8) : Nat := value bs % 2 ^ t.sizeBits

theorem Target.intMax_lt (t : Target) : intMax < 2 ^ t.sizeBits := by cases t <;> decide

theorem Target.sub_eq (t : Target) {a b : Nat} (hb : b ≤ a) (ha : a < 2 ^ t.sizeBits) :
    t.sub a b = a - b := by
  unfold Target.sub
  rw [show a + 2 ^ t.sizeBits - b = a - b + 2 ^ t.sizeBits by omega, Nat.add_mod_right]
  exact Nat.mod_eq_of_lt (by omega)

/-- What is left of an input behind its first byte. -/
theorem Target.sub_cons (t : Target) {b : UInt8} {rest : List UInt8}
    (h : (b :: rest).length < 2 ^ t.sizeBits) : t.sub (b :: rest).length 1 = rest.length := by
  rw [t.sub_eq (by rw [List.length_cons]; omega) h, List.length_cons, Nat.add_sub_cancel]

theorem Target.add_eq (t : Target) {a b : Nat} (h : a + b < 2 ^ t.sizeBits) :
    t.add a b = a + b := Nat.mod_eq_of_lt h

theorem toInt_eq {n : Nat} (h : n ≤ intMax) : toInt n = n := by
  unfold toInt
  apply Int.bmod_eq_of_le <;> simp only [intMax] at h <;> omega

/-- An `int` that is not negative is the number it was made of, if that is
less than `2 ^ 32`. -/
theorem eq_of_toInt_nonneg {n : Nat} (hn : n < 2 ^ 32) (h : 0 ≤ toInt n) : toInt n = n := by
  unfold toInt at h ⊢
  have hmod := Int.bmod_def n (2 ^ 32)
  split at hmod <;> omega

theorem Target.wrap_eq (t : Target) {bs : List UInt8} (h : value bs < 2 ^ t.sizeBits) :
    t.wrap bs = value bs := Nat.mod_eq_of_lt h

/-- One round of the length loop, `len = (len << 8) | b`. -/
theorem Target.shift_or (t : Target) (bs : List UInt8) (b : UInt8) :
    ((t.wrap bs <<< 8) % 2 ^ t.sizeBits ||| b.toNat) = t.wrap (bs ++ [b]) := by
  have hb := b.toNat_lt
  obtain ⟨k, hk⟩ : ∃ k, 2 ^ t.sizeBits = 2 ^ 8 * k := by
    cases t
    · exact ⟨2 ^ 24, by decide⟩
    · exact ⟨2 ^ 56, by decide⟩
  have hshift : (t.wrap bs <<< 8) % 2 ^ t.sizeBits = 2 ^ 8 * (t.wrap bs % k) := by
    rw [Nat.shiftLeft_eq, hk, Nat.mul_comm, Nat.mul_mod_mul_left]
  rw [hshift, ← Nat.two_pow_add_eq_or_of_lt hb]
  unfold Target.wrap
  rw [value_concat, hk]
  have hkpos : 0 < k := by
    rcases Nat.eq_zero_or_pos k with rfl | h
    · have := Nat.two_pow_pos t.sizeBits
      omega
    · exact h
  rw [Nat.mod_mul_left_mod, Nat.add_mod, Nat.mul_comm (value bs) 256]
  rw [show (256 : Nat) = 2 ^ 8 by decide, Nat.mul_mod_mul_left]
  have h1 := Nat.mod_lt (value bs) hkpos
  have h2 : b.toNat < 2 ^ 8 * k := by omega
  rw [Nat.mod_eq_of_lt h2]
  exact (Nat.mod_eq_of_lt (by omega)).symm

end LedgerZond.CTypes
