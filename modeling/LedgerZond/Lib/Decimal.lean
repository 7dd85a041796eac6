import Mathlib.Data.List.DropRight
import Mathlib.Data.Rat.Cast.Defs
import Mathlib.Tactic.IntervalCases
import Mathlib.Tactic.NormNum

/-! # Fixed-point numerals

The decimal text of `v / 10 ^ k` and the number a decimal text denotes. A text
is a list of characters; the point is `'.'`, and no zero ends the digits
behind it. -/
namespace Lib.Decimal

/-- The last `k` digits of `v`, with zeros in front where it has fewer. -/
def lastDigits : Nat → Nat → List Char
  | 0, _ => []
  | k + 1, v => lastDigits k (v / 10) ++ [Nat.digitChar (v % 10)]

/-- A text without the zeros at its end. -/
def trimEnd (cs : List Char) : List Char := cs.rdropWhile (· == '0')

/-- The numeral of `v / 10 ^ k`. -/
def fixedPoint (k v : Nat) : List Char :=
  let frac := trimEnd (lastDigits k v)
  Nat.toDigits 10 (v / 10 ^ k) ++ if frac = [] then [] else '.' :: frac

/-- The number a text denotes, if it is digits with at most one point behind
the first of them. -/
def read? (s : List Char) : Option ℚ :=
  let int := s.takeWhile (· != '.')
  let frac := (s.dropWhile (· != '.')).drop 1
  if int ≠ [] ∧ (int ++ frac).all Char.isDigit then
    some ((Nat.ofDigitChars 10 (int ++ frac) 0 : ℚ) / 10 ^ frac.length)
  else none

/-! ## The last digits -/

@[simp] theorem lastDigits_length (k v : Nat) : (lastDigits k v).length = k := by
  induction k generalizing v with
  | zero => rfl
  | succ k ih => simp [lastDigits, ih]

theorem lastDigits_isDigit (k v : Nat) : ∀ c ∈ lastDigits k v, c.isDigit = true := by
  induction k generalizing v with
  | zero => simp [lastDigits]
  | succ k ih =>
    intro c hc
    rcases List.mem_append.mp hc with hc | hc
    · exact ih (v / 10) c hc
    · rw [List.mem_singleton.mp hc, Nat.isDigit_digitChar]
      exact decide_eq_true (Nat.mod_lt v (by decide))

/-- A number is what stands before its last digits, followed by them. -/
theorem toDigits_append_lastDigits {k v : Nat} (h : 10 ^ k ≤ v) :
    Nat.toDigits 10 (v / 10 ^ k) ++ lastDigits k v = Nat.toDigits 10 v := by
  induction k generalizing v with
  | zero => simp [lastDigits]
  | succ k ih =>
    have hk : 10 ^ k ≤ v / 10 := by
      rw [Nat.le_div_iff_mul_le (by decide), ← Nat.pow_succ]
      exact h
    have hten : 10 ≤ v := le_trans (Nat.le_self_pow (Nat.succ_ne_zero k) 10) h
    have hdiv : v / 10 ^ (k + 1) = v / 10 / 10 ^ k := by
      rw [Nat.div_div_eq_div_mul, Nat.pow_succ']
    rw [hdiv, lastDigits, ← List.append_assoc, ih hk]
    exact (Nat.toDigits_of_base_le (by decide) hten).symm

/-- A number of at most `k` digits is its last `k` without the zeros in front. -/
theorem replicate_append_toDigits {k v : Nat} (hk : 0 < k) (h : v < 10 ^ k) :
    List.replicate (k - (Nat.toDigits 10 v).length) '0' ++ Nat.toDigits 10 v = lastDigits k v := by
  induction k generalizing v with
  | zero => exact absurd hk (lt_irrefl 0)
  | succ k ih =>
    by_cases hten : v < 10
    · -- one digit, behind `k` zeros
      have hzero : lastDigits k 0 = List.replicate k '0' := by
        clear ih h hk
        induction k with
        | zero => rfl
        | succ k ih => rw [lastDigits, Nat.zero_div, ih, List.replicate_succ']; rfl
      rw [Nat.toDigits_of_lt_base hten, lastDigits, Nat.div_eq_of_lt hten, hzero,
        Nat.mod_eq_of_lt hten]
      rfl
    · have hlt : v / 10 < 10 ^ k := by
        rw [Nat.div_lt_iff_lt_mul (by decide), ← Nat.pow_succ]
        exact h
      have hkpos : 0 < k := by
        rcases Nat.eq_zero_or_pos k with rfl | hpos
        · omega
        · exact hpos
      rw [Nat.toDigits_of_base_le (by decide) (Nat.le_of_not_lt hten), lastDigits, ← ih hkpos hlt,
        List.length_append, List.length_singleton, Nat.add_sub_add_right, List.append_assoc]

theorem ofDigitChars_lastDigits (k v : Nat) :
    Nat.ofDigitChars 10 (lastDigits k v) 0 = v % 10 ^ k := by
  induction k generalizing v with
  | zero => simp [lastDigits, Nat.mod_one]
  | succ k ih =>
    have hmod : v % 10 < 10 := Nat.mod_lt v (by decide)
    rw [lastDigits, Nat.ofDigitChars_append, ih, Nat.ofDigitChars_cons_digitChar_of_lt_ten hmod,
      Nat.ofDigitChars_nil, Nat.pow_succ', Nat.mod_mul, Nat.add_comm]

/-- Both halves of a number, read together. -/
theorem ofDigitChars_halves (k v : Nat) :
    Nat.ofDigitChars 10 (Nat.toDigits 10 (v / 10 ^ k) ++ lastDigits k v) 0 = v := by
  rw [Nat.ofDigitChars_append, Nat.ofDigitChars_ten_toDigits,
    Nat.ofDigitChars_eq_ofDigitChars_zero, ofDigitChars_lastDigits, lastDigits_length]
  exact Nat.div_add_mod v (10 ^ k)

/-! ## The number a numeral denotes -/

/-- A text is its trimmed one with zeros behind it. -/
theorem trimEnd_append (cs : List Char) : ∃ n, cs = trimEnd cs ++ List.replicate n '0' := by
  refine ⟨(cs.rtakeWhile (· == '0')).length, ?_⟩
  have hzeros : cs.rtakeWhile (· == '0') =
      List.replicate (cs.rtakeWhile (· == '0')).length '0' := by
    rw [List.eq_replicate_iff]
    exact ⟨rfl, fun c hc => by simpa using List.mem_rtakeWhile_imp hc⟩
  rw [← hzeros]
  exact List.rdropWhile_append_rtakeWhile.symm

theorem ne_point_of_isDigit {c : Char} (h : c.isDigit = true) : (c != '.') = true := by
  rw [bne_iff_ne]
  rintro rfl
  exact absurd h (by decide)

/-- A text with a point reads as its digits, also where none is behind the point. -/
theorem read?_point {int frac : List Char} (hne : int ≠ [])
    (hdig : ∀ c ∈ int ++ frac, c.isDigit = true) :
    read? (int ++ '.' :: frac) =
      some ((Nat.ofDigitChars 10 (int ++ frac) 0 : ℚ) / 10 ^ frac.length) := by
  have hint : ∀ c ∈ int, (c != '.') = true := fun c hc =>
    ne_point_of_isDigit (hdig c (List.mem_append_left _ hc))
  have hall : (int ++ frac).all Char.isDigit = true := List.all_eq_true.mpr hdig
  unfold read?
  rw [List.takeWhile_append_of_pos hint, List.dropWhile_append_of_pos hint]
  simp only [List.takeWhile_cons, List.dropWhile_cons, bne_self_eq_false, Bool.false_eq_true,
    if_false, List.append_nil, List.drop_succ_cons, List.drop_zero]
  exact if_pos ⟨hne, hall⟩

/-- Digits before a point and digits behind it. -/
theorem read?_pointed {int frac : List Char} (hne : int ≠ [])
    (hdig : ∀ c ∈ int ++ frac, c.isDigit = true) :
    read? (int ++ if frac = [] then [] else '.' :: frac) =
      some ((Nat.ofDigitChars 10 (int ++ frac) 0 : ℚ) / 10 ^ frac.length) := by
  by_cases hfrac : frac = []
  · have hint : ∀ c ∈ int, (c != '.') = true := fun c hc =>
      ne_point_of_isDigit (hdig c (List.mem_append_left _ hc))
    have hall : (int ++ frac).all Char.isDigit = true := List.all_eq_true.mpr hdig
    unfold read?
    subst hfrac
    rw [if_pos rfl, List.takeWhile_append_of_pos hint, List.dropWhile_append_of_pos hint]
    simp only [List.takeWhile_nil, List.dropWhile_nil, List.drop_nil, List.append_nil] at hall ⊢
    exact if_pos ⟨hne, hall⟩
  · rw [if_neg hfrac]
    exact read?_point hne hdig

theorem fixedPoint_digits (k v : Nat) :
    ∀ c ∈ Nat.toDigits 10 (v / 10 ^ k) ++ trimEnd (lastDigits k v), c.isDigit = true := by
  intro c hc
  rcases List.mem_append.mp hc with hc | hc
  · exact Nat.isDigit_of_mem_toDigits (by decide) (by decide) hc
  · exact lastDigits_isDigit k v c ((List.rdropWhile_prefix (· == '0') _).subset hc)

/-- **The numeral of `v / 10 ^ k` denotes it.** -/
theorem read?_fixedPoint (k v : Nat) : read? (fixedPoint k v) = some ((v : ℚ) / 10 ^ k) := by
  obtain ⟨n, hn⟩ := trimEnd_append (lastDigits k v)
  have hlen : (trimEnd (lastDigits k v)).length + n = k := by
    have h := congrArg List.length hn
    simp only [lastDigits_length, List.length_append, List.length_replicate] at h
    omega
  -- the zeros that were trimmed are a power of ten on both sides of the fraction
  have hval : Nat.ofDigitChars 10 (Nat.toDigits 10 (v / 10 ^ k) ++ trimEnd (lastDigits k v)) 0 *
      10 ^ n = v := by
    have h := ofDigitChars_halves k v
    rw [hn, ← List.append_assoc, Nat.ofDigitChars_append, Nat.ofDigitChars_replicate_zero] at h
    rw [Nat.mul_comm]
    exact h
  rw [fixedPoint, read?_pointed Nat.toDigits_ne_nil (fixedPoint_digits k v)]
  congr 1
  have hvq : (v : ℚ) = Nat.ofDigitChars 10
      (Nat.toDigits 10 (v / 10 ^ k) ++ trimEnd (lastDigits k v)) 0 * 10 ^ n := by
    exact_mod_cast hval.symm
  have hkq : (10 : ℚ) ^ k = 10 ^ (trimEnd (lastDigits k v)).length * 10 ^ n := by
    rw [← pow_add, hlen]
  rw [hvq, hkq, mul_div_mul_right _ _ (pow_ne_zero n (by norm_num))]

/-! ## Numerals without superfluous zeros -/

theorem toDigits_head_ne_zero {v : Nat} (h : 0 < v) : (Nat.toDigits 10 v).head? ≠ some '0' := by
  induction v using Nat.strongRecOn with
  | _ v ih =>
    by_cases hten : v < 10
    · rw [Nat.toDigits_of_lt_base hten, List.head?_cons, ne_eq, Option.some.injEq,
        Nat.digitChar_eq_zero]
      omega
    · rw [Nat.toDigits_of_base_le (by decide) (Nat.le_of_not_lt hten),
        List.head?_append_of_ne_nil _ Nat.toDigits_ne_nil]
      exact ih (v / 10) (by omega) (by omega)

theorem exists_digitChar {c : Char} (h : c.isDigit = true) : ∃ d < 10, Nat.digitChar d = c := by
  have hbounds : 48 ≤ c.toNat ∧ c.toNat ≤ 57 := by
    simp only [Char.isDigit, Bool.and_eq_true, decide_eq_true_eq] at h
    exact h
  have hc : Char.ofNat c.toNat = c := c.ofNat_toNat
  refine ⟨c.toNat - 48, by omega, ?_⟩
  rw [← hc]
  generalize c.toNat = n at hbounds
  obtain ⟨hlow, hhigh⟩ := hbounds
  interval_cases n <;> rfl

/-- **Uniqueness.** Digits without a superfluous zero in front are the numeral
of the number they denote. -/
theorem toDigits_ofDigitChars {ds : List Char} (hne : ds ≠ [])
    (hdig : ∀ c ∈ ds, c.isDigit = true) (hlead : 1 < ds.length → ds.head? ≠ some '0') :
    Nat.toDigits 10 (Nat.ofDigitChars 10 ds 0) = ds := by
  induction ds using List.reverseRecOn with
  | nil => exact absurd rfl hne
  | append_singleton ds c ih =>
    obtain ⟨d, hd, rfl⟩ := exists_digitChar (hdig c (by simp))
    rw [Nat.ofDigitChars_append, Nat.ofDigitChars_cons_digitChar_of_lt_ten hd,
      Nat.ofDigitChars_nil]
    by_cases hnil : ds = []
    · subst hnil
      rw [Nat.ofDigitChars_nil, Nat.mul_zero, Nat.zero_add, Nat.toDigits_of_lt_base hd]
      rfl
    · have hpos : 0 < ds.length := List.length_pos_iff.mpr hnil
      have hhead : ds.head? ≠ some '0' := by
        rw [← List.head?_append_of_ne_nil ds hnil]
        exact hlead (by rw [List.length_append, List.length_singleton]; omega)
      have hnum := ih hnil (fun c hc => hdig c (List.mem_append_left _ hc)) fun _ => hhead
      -- the digits before the last denote no zero, which would start with one
      have hv : 0 < Nat.ofDigitChars 10 ds 0 := by
        rcases Nat.eq_zero_or_pos (Nat.ofDigitChars 10 ds 0) with hzero | hv
        · rw [hzero, Nat.toDigits_zero] at hnum
          exact absurd (congrArg List.head? hnum).symm hhead
        · exact hv
      rw [← Nat.toDigits_append_toDigits (by decide) hv hd, hnum, Nat.toDigits_of_lt_base hd]

/-- What a tidy text is made of: digits, and behind a point others that do not
end in a zero. -/
structure Tidy (int frac s : List Char) : Prop where
  text : s = int ++ if frac = [] then [] else '.' :: frac
  digits : ∀ c ∈ int ++ frac, c.isDigit = true
  int_ne : int ≠ []
  last_ne : frac.getLast? ≠ some '0'

theorem trimEnd_last (cs : List Char) : (trimEnd cs).getLast? ≠ some '0' := by
  intro hlast
  have hne : trimEnd cs ≠ [] := by
    intro hnil
    rw [hnil] at hlast
    cases hlast
  rw [List.getLast?_eq_some_getLast hne, Option.some.injEq] at hlast
  exact List.rdropWhile_last_not (· == '0') cs hne (by rw [beq_iff_eq]; exact hlast)

theorem fixedPoint_tidy (k v : Nat) :
    Tidy (Nat.toDigits 10 (v / 10 ^ k)) (trimEnd (lastDigits k v)) (fixedPoint k v) where
  text := rfl
  digits := fixedPoint_digits k v
  int_ne := Nat.toDigits_ne_nil
  last_ne := trimEnd_last _

/-! ## Cutting a numeral -/

theorem lastDigits_mul_ten (k v : Nat) : lastDigits (k + 1) (v * 10) = lastDigits k v ++ ['0'] := by
  rw [lastDigits, Nat.mul_div_cancel v (by decide), Nat.mul_mod_left]
  rfl

theorem trimEnd_length_le (cs : List Char) : (trimEnd cs).length ≤ cs.length :=
  (List.rdropWhile_prefix (· == '0') cs).length_le

/-- Zeros at the end of a number are none of its decimals. -/
theorem trimEnd_lastDigits_mul (k j v : Nat) :
    trimEnd (lastDigits (k + j) (v * 10 ^ j)) = trimEnd (lastDigits k v) := by
  induction j with
  | zero => rw [Nat.pow_zero, Nat.mul_one, Nat.add_zero]
  | succ j ih =>
    have hzero : trimEnd (lastDigits (k + j) (v * 10 ^ j) ++ ['0']) =
        trimEnd (lastDigits (k + j) (v * 10 ^ j)) := List.rdropWhile_concat_pos _ _ _ rfl
    rw [Nat.pow_succ, ← Nat.mul_assoc, ← Nat.add_assoc, lastDigits_mul_ten, hzero, ih]

/-- With fewer decimals than it has, a number is not denoted. -/
theorem denotes_decimals {k v j m : Nat} (hj : j ≤ k)
    (h : (m : ℚ) / 10 ^ j = (v : ℚ) / 10 ^ k) : (trimEnd (lastDigits k v)).length ≤ j := by
  have hten : (10 : ℚ) ≠ 0 := by norm_num
  have hsplit : 10 ^ k = 10 ^ (k - j) * 10 ^ j := by rw [← Nat.pow_add, Nat.sub_add_cancel hj]
  have hcross : m * 10 ^ k = v * 10 ^ j := by
    rw [div_eq_div_iff (pow_ne_zero j hten) (pow_ne_zero k hten)] at h
    exact_mod_cast h
  rw [hsplit, ← Nat.mul_assoc] at hcross
  have hv : m * 10 ^ (k - j) = v := Nat.eq_of_mul_eq_mul_right (Nat.pow_pos (by decide)) hcross
  calc (trimEnd (lastDigits k v)).length
    _ = (trimEnd (lastDigits (j + (k - j)) (m * 10 ^ (k - j)))).length := by
        rw [hv, Nat.add_sub_cancel' hj]
    _ = (trimEnd (lastDigits j m)).length := by rw [trimEnd_lastDigits_mul]
    _ ≤ (lastDigits j m).length := trimEnd_length_le _
    _ = j := lastDigits_length j m

/-- **A numeral cut behind its integer part** denotes another number. -/
theorem read?_cut_ne {k v n : Nat} (hint : (Nat.toDigits 10 (v / 10 ^ k)).length ≤ n)
    (hn : n < (fixedPoint k v).length) :
    read? ((fixedPoint k v).take n) ≠ some ((v : ℚ) / 10 ^ k) := by
  have htidy := fixedPoint_tidy k v
  have hfrac := (trimEnd_length_le (lastDigits k v)).trans_eq (lastDigits_length k v)
  generalize hk : trimEnd (lastDigits k v) = frac at htidy hfrac
  generalize Nat.toDigits 10 (v / 10 ^ k) = int at htidy hint
  have hne : frac ≠ [] := by
    intro hnil
    rw [htidy.text, if_pos hnil, List.append_nil] at hn
    omega
  have htext := htidy.text
  rw [if_neg hne] at htext
  rw [htext, List.length_append, List.length_cons] at hn
  intro hread
  -- what is left has fewer decimals than the number
  have hleft : ∃ f, f.length < frac.length ∧ read? ((fixedPoint k v).take n) =
      some ((Nat.ofDigitChars 10 (int ++ f) 0 : ℚ) / 10 ^ f.length) := by
    rw [htext, List.take_append]
    by_cases hend : n = int.length
    · refine ⟨[], List.length_pos_iff.mpr hne, ?_⟩
      have hdig : ∀ c ∈ int ++ [], c.isDigit = true := fun c hc =>
        htidy.digits c (List.mem_append_left _ (by simpa using hc))
      have hplain := read?_pointed htidy.int_ne hdig
      rw [if_pos rfl, List.append_nil] at hplain
      rw [hend, List.take_length, Nat.sub_self, List.take_zero, List.append_nil]
      simpa using hplain
    · obtain ⟨j, hj⟩ : ∃ j, n - int.length = j + 1 := ⟨n - int.length - 1, by omega⟩
      have hdig : ∀ c ∈ int ++ frac.take j, c.isDigit = true := by
        intro c hc
        rcases List.mem_append.mp hc with hc | hc
        · exact htidy.digits c (List.mem_append_left _ hc)
        · exact htidy.digits c (List.mem_append_right _ (List.mem_of_mem_take hc))
      refine ⟨frac.take j, by rw [List.length_take]; omega, ?_⟩
      rw [List.take_of_length_le hint, hj, List.take_succ_cons]
      exact read?_point htidy.int_ne hdig
  obtain ⟨f, hf, hreadf⟩ := hleft
  rw [hreadf, Option.some.injEq] at hread
  have hle := denotes_decimals (by omega) hread
  rw [hk] at hle
  omega

end Lib.Decimal
