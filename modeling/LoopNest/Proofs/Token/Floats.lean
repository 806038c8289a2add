import Mathlib.Algebra.Group.Nat.Defs
import LoopNest.Proofs.Token.Numbers

/-!
# Floating-point numbers that read back

The text of a finite number is read as the number. Of the decimal numbers that are tried for the
text, one is taken only if it reads back; where none does, the exact value is written.

* `Decimal.lowered`: the same decimal number with zeros behind its digits.
* `Binary64.nearestDecimal_lowered`: rounding does not see these zeros.
* `Binary64.nearestDecimal_shortest`: the shortest decimal number reads back.
* `Binary64.exists_read?_decimal`: the text of a decimal number is read as that number.
* `Grammar.floatLiteral_text`: the text of a finite number is read as the number.
-/

namespace LoopNest

open Text

/-! ## Zeros behind the digits -/

namespace Decimal

/-- The same number with `k` more digits, which are zeros. -/
def lowered (d : Decimal) (k : Nat) : Decimal := ⟨d.coefficient * 10 ^ k, d.exponent - k⟩

theorem lowered_zero (d : Decimal) : d.lowered 0 = d := by simp [lowered]

theorem lowered_lowered (d : Decimal) (j k : Nat) : (d.lowered j).lowered k = d.lowered (j + k) := by
  have hexponent : d.exponent - j - k = d.exponent - ((j + k : Nat) : Int) := by omega
  simp only [lowered, Nat.pow_add, Nat.mul_assoc, hexponent]

/-- Only zeros are trimmed. -/
theorem exists_lowered_trimmed (fuel : Nat) (d : Decimal) : ∃ k, (d.trimmed fuel).lowered k = d := by
  induction fuel generalizing d with
  | zero => exact ⟨0, lowered_zero d⟩
  | succ fuel ih =>
    unfold trimmed
    split
    · next h =>
      obtain ⟨k, hk⟩ := ih ⟨d.coefficient / 10, d.exponent + 1⟩
      have hdiv : d.coefficient / 10 * 10 = d.coefficient :=
        Nat.div_mul_cancel (Nat.dvd_of_mod_eq_zero h.2)
      refine ⟨k + 1, ?_⟩
      rw [← lowered_lowered, hk]
      simp [lowered, hdiv]
    · exact ⟨0, lowered_zero d⟩

end Decimal

theorem Text.digitCount_mul_ten {n : Nat} (hn : 0 < n) : digitCount (n * 10) = digitCount n + 1 := by
  have happend := Nat.toDigits_append_toDigits (b := 10) (n := n) (d := 0) (by decide) hn (by decide)
  rw [digitCount, Nat.mul_comm, ← Nat.add_zero (10 * n), ← happend, List.length_append]
  rfl

theorem Text.digitCount_mul_pow {n : Nat} (hn : 0 < n) (k : Nat) :
    digitCount (n * 10 ^ k) = digitCount n + k := by
  induction k with
  | zero => simp
  | succ k ih =>
    have hpos : 0 < n * 10 ^ k := Nat.mul_pos hn (Nat.pow_pos (by decide))
    rw [Nat.pow_succ, ← Nat.mul_assoc, digitCount_mul_ten hpos, ih, Nat.add_assoc]

/-- The powers of ten around a number say how many digits it has. -/
theorem Text.digitCount_bounds {n least most : Nat} (hpos : 0 < least) (hleast : 10 ^ least ≤ n)
    (hmost : n < 10 ^ most) : least < digitCount n ∧ digitCount n ≤ most := by
  have hlt : least < most := (Nat.pow_lt_pow_iff_right (by decide)).mp
    (Nat.lt_of_le_of_lt hleast hmost)
  refine ⟨Nat.lt_of_not_le fun hle => ?_, ?_⟩
  · exact Nat.not_lt.mpr hleast ((Nat.length_toDigits_le_iff (by decide) hpos).mp hle)
  · exact (Nat.length_toDigits_le_iff (by decide) (Nat.lt_trans hpos hlt)).mpr hmost

namespace Binary64

theorem roundToEven_mul {m : Nat} (hm : 0 < m) (n d : Nat) :
    roundToEven (n * m) (d * m) = roundToEven n d := by
  have hbelow (r : Nat) : 2 * (r * m) < d * m ↔ 2 * r < d := by
    rw [← Nat.mul_assoc, Nat.mul_lt_mul_right hm]
  have habove (r : Nat) : d * m < 2 * (r * m) ↔ d < 2 * r := by
    rw [← Nat.mul_assoc, Nat.mul_lt_mul_right hm]
  simp only [roundToEven, Nat.mul_div_mul_right _ _ hm, Nat.mul_mod_mul_right, hbelow, habove]

theorem nearest_mul {m : Nat} (hm : 0 < m) (n d : Nat) : nearest (n * m) (d * m) = nearest n d := by
  have hnum : n * m * unitsPerOne = n * unitsPerOne * m := Nat.mul_right_comm _ _ _
  simp only [nearest, hnum, Nat.mul_div_mul_right _ _ hm]
  rw [Nat.mul_right_comm d m, roundToEven_mul hm]

/-- The quotient of a decimal number, with as many powers of ten below as one likes. -/
theorem nearestDecimal_eq {c j : Nat} {e : Int} (hc : c ≠ 0) (h : 0 ≤ e + j) :
    nearestDecimal ⟨c, e⟩ =
      if (digitCount c : Int) + e < -330 then 0
      else if 310 < (digitCount c : Int) + e then infinite
      else nearest (c * 10 ^ (e + j).toNat) (10 ^ j) := by
  have hten (n : Nat) : 0 < 10 ^ n := Nat.pow_pos (by decide)
  have hquotient : (if 0 ≤ e then nearest (c * Nat.pow 10 e.toNat) 1
      else nearest c (Nat.pow 10 (-e).toNat)) = nearest (c * 10 ^ (e + j).toNat) (10 ^ j) := by
    split
    · have hsum : (e + j).toNat = e.toNat + j := by omega
      have hscaled := nearest_mul (hten j) (c * 10 ^ e.toNat) 1
      rw [Nat.one_mul, Nat.mul_assoc, ← Nat.pow_add, ← hsum] at hscaled
      exact hscaled.symm
    · have hsum : (-e).toNat + (e + j).toNat = j := by omega
      have hscaled := nearest_mul (hten (e + j).toNat) c (10 ^ (-e).toNat)
      rw [← Nat.pow_add, hsum] at hscaled
      exact hscaled.symm
  simp only [nearestDecimal, hc, false_or, hquotient]

/-- Rounding does not depend on zeros behind the digits. -/
theorem nearestDecimal_lowered (d : Decimal) (k : Nat) :
    nearestDecimal (d.lowered k) = nearestDecimal d := by
  obtain ⟨c, e⟩ := d
  rcases Nat.eq_zero_or_pos c with rfl | hc
  · simp [nearestDecimal, Decimal.lowered]
  have hpow : 0 < 10 ^ k := Nat.pow_pos (by decide)
  have hpos : c * 10 ^ k ≠ 0 := Nat.mul_ne_zero (Nat.ne_of_gt hc) (Nat.ne_of_gt hpow)
  have hsize : ((digitCount c + k : Nat) : Int) + (e - k) = digitCount c + e := by omega
  have hsum : k + (e - k + ↑(e.natAbs + k)).toNat = (e + ↑(e.natAbs + k)).toNat := by omega
  rw [Decimal.lowered, nearestDecimal_eq (j := e.natAbs + k) hpos (by dsimp only; omega),
    nearestDecimal_eq (j := e.natAbs + k) (Nat.ne_of_gt hc) (by omega), digitCount_mul_pow hc,
    hsize, Nat.mul_assoc, ← Nat.pow_add, hsum]

/-! ## The exact value

The exponent of the unit is a variable `n` here, known by the equation `n = 1074`: a tactic that
meets a power of a literal tries to compute it. What has to be computed are comparisons of such
powers, which are left to the kernel.
-/

theorem roundToEven_of_mul (q : Nat) {m : Nat} (hm : 0 < m) : roundToEven (q * m) m = q := by
  simp only [roundToEven, Nat.mul_div_cancel _ hm, Nat.mul_mod_left]
  rw [if_pos (by omega)]

/-- The leading bit of a number with some zeros behind its 53 bits. -/
theorem log2_mul_pow {m : Nat} (hlow : binade ≤ m) (hhigh : m < 2 * binade) (e : Nat) :
    Nat.log2 (m * 2 ^ e) = 52 + e := by
  have hpow : 0 < 2 ^ e := Nat.pow_pos (by decide)
  refine (Nat.log2_eq_iff (Nat.mul_ne_zero ?_ (Nat.ne_of_gt hpow))).mpr ⟨?_, ?_⟩
  · have hbinade : 0 < binade := by decide
    omega
  · rw [Nat.pow_add]
    exact Nat.mul_le_mul_right _ hlow
  · have hsum : 52 + e + 1 = 53 + e := by omega
    rw [hsum, Nat.pow_add]
    exact (Nat.mul_lt_mul_right hpow).mpr hhigh

theorem unitsPerOne_eq {n : Nat} (hn : n = 1074) : unitsPerOne = 2 ^ n := by
  subst hn
  decide +kernel

theorem unitsPerOne_pos : 0 < unitsPerOne := by decide +kernel

/-- A finite magnitude is the one nearest to its exact value. -/
theorem nearest_units {k : Nat} (hk : k < infinite) : nearest (units k) unitsPerOne = k := by
  have hmin : min infinite k = k := Nat.min_eq_right (Nat.le_of_lt hk)
  have hround (shift : Nat) : roundToEven (units k * unitsPerOne) (unitsPerOne * Nat.pow 2 shift) =
      roundToEven (units k) (2 ^ shift) := by
    rw [Nat.mul_comm unitsPerOne]
    exact roundToEven_mul unitsPerOne_pos _ _
  simp only [nearest, Nat.mul_div_cancel _ unitsPerOne_pos, hround]
  by_cases hsmall : k < binade
  · have hlog : Nat.log2 k - 52 = 0 := by
      rcases Nat.eq_zero_or_pos k with rfl | hpos
      · rfl
      · have hlt : k.log2 < 52 := (Nat.log2_lt (Nat.ne_of_gt hpos)).mpr hsmall
        omega
    rw [units, if_pos hsmall, hlog, Nat.zero_mul, Nat.zero_add]
    have hone := roundToEven_of_mul k Nat.one_pos
    rw [Nat.mul_one] at hone
    rw [Nat.pow_zero, hone, hmin]
  · have hlt : k % binade < binade := Nat.mod_lt k (by decide)
    have hquotient : 1 ≤ k / binade := (Nat.one_le_div_iff (by decide)).mpr (Nat.not_lt.mp hsmall)
    have hlog := log2_mul_pow (m := binade + k % binade) (by omega) (by omega) (k / binade - 1)
    have hunits : units k = (binade + k % binade) * 2 ^ (k / binade - 1) := by
      rw [units, if_neg hsmall]
      rfl
    rw [hunits, hlog, Nat.add_sub_cancel_left, roundToEven_of_mul _ (Nat.pow_pos (by decide))]
    have hsum : (k / binade - 1) * binade + (binade + k % binade) = k := by
      have hdivision := Nat.div_add_mod k binade
      rw [← Nat.add_assoc, ← Nat.succ_mul, Nat.succ_eq_add_one, Nat.sub_add_cancel hquotient,
        Nat.mul_comm]
      exact hdivision
    rw [hsum, hmin]

/-- The values of the magnitudes in the first `n + 2` binades have at most `53 + n` bits. -/
theorem units_lt {k n : Nat} (hk : k < (n + 2) * binade) : units k < 2 ^ 53 * 2 ^ n := by
  have hpow : 0 < 2 ^ n := Nat.two_pow_pos n
  have hbinade : 2 * binade = 2 ^ 53 := by decide
  unfold units
  split
  · next hsmall =>
    exact Nat.lt_of_lt_of_le (by omega : k < 2 ^ 53) (Nat.le_mul_of_pos_right _ hpow)
  · have hlt : k % binade < binade := Nat.mod_lt k (by decide)
    have hdiv : k / binade < n + 2 := (Nat.div_lt_iff_lt_mul (by decide)).mpr hk
    have hexponent : 2 ^ (k / binade - 1) ≤ 2 ^ n := Nat.pow_le_pow_right (by decide) (by omega)
    exact Nat.mul_lt_mul_of_lt_of_le (by omega) hexponent hpow

theorem units_pos {k : Nat} (hpos : 0 < k) : 0 < units k := by
  unfold units
  split
  · exact hpos
  · have hbinade : 0 < binade := by decide
    exact Nat.mul_pos (by omega) (Nat.pow_pos (by decide))

/-- Behind the point the exact value has as many digits as there are halvings in a unit. -/
theorem exact_eq {n : Nat} (hn : n = 1074) (k : Nat) : exact k = ⟨units k * 5 ^ n, -n⟩ := by
  have hten : Nat.pow 10 n = 5 ^ n * 2 ^ n := Nat.mul_pow 5 2 n
  have hcoefficient : units k * Nat.pow 10 n / unitsPerOne = units k * 5 ^ n := by
    rw [unitsPerOne_eq hn, hten, ← Nat.mul_assoc, Nat.mul_div_cancel _ (Nat.two_pow_pos n)]
  have hexponent : (-n : Int) = -1074 := by omega
  rw [exact, ← hn, hcoefficient, hexponent]

/-- Exact values are of a size for which `nearestDecimal` computes the quotient. -/
theorem digitCount_exact {k n : Nat} (hn : n = 1074) (hk : k < infinite) (hpos : 0 < k) :
    n - 331 < digitCount (units k * 5 ^ n) ∧ digitCount (units k * 5 ^ n) ≤ n + 310 := by
  have hfive : 0 < 5 ^ n := Nat.pow_pos (by decide)
  have hbelow : 10 ^ (n - 331) ≤ 5 ^ n := by
    subst hn
    decide +kernel
  have habove : 2 ^ 53 * 2 ^ (n + 971) * 5 ^ n ≤ 10 ^ (n + 310) := by
    subst hn
    decide +kernel
  have hunits : units k < 2 ^ 53 * 2 ^ (n + 971) := by
    refine units_lt ?_
    rw [hn]
    exact hk
  exact digitCount_bounds (by omega)
    (Nat.le_trans hbelow (Nat.le_mul_of_pos_left _ (units_pos hpos)))
    (Nat.lt_of_lt_of_le ((Nat.mul_lt_mul_right hfive).mpr hunits) habove)

/-- The exact value reads back. -/
theorem nearestDecimal_exact {k : Nat} (hk : k < infinite) (hpos : 0 < k) :
    nearestDecimal (exact k) = k := by
  obtain ⟨n, hn⟩ : ∃ n, n = 1074 := ⟨_, rfl⟩
  have hfive : 0 < 5 ^ n := Nat.pow_pos (by decide)
  have hne : units k * 5 ^ n ≠ 0 := Nat.ne_of_gt (Nat.mul_pos (units_pos hpos) hfive)
  obtain ⟨hleast, hmost⟩ := digitCount_exact hn hk hpos
  have hzero : ((-n : Int) + n).toNat = 0 := by omega
  have hten : 10 ^ n = 2 ^ n * 5 ^ n := Nat.mul_pow 2 5 n
  rw [exact_eq hn, nearestDecimal_eq (j := n) hne (by omega), if_neg (by omega), if_neg (by omega),
    hzero, Nat.pow_zero, Nat.mul_one, hten, nearest_mul hfive, ← unitsPerOne_eq hn,
    nearest_units hk]

/-- Every finite number without a sign is a decimal number: the one of its exact value. -/
theorem exists_ofDecimal {x : Binary64} (hpositive : x.negative = false)
    (hfinite : x.isFinite = true) : ∃ d, x = ofDecimal false d := by
  obtain ⟨negative, k⟩ := x
  obtain rfl : negative = false := hpositive
  have hk : k < infinite := of_decide_eq_true hfinite
  by_cases hzero : k = 0
  · exact ⟨⟨0, 0⟩, by rw [hzero]; rfl⟩
  · refine ⟨exact k, ?_⟩
    rw [ofDecimal, nearestDecimal_exact hk (Nat.pos_of_ne_zero hzero)]

/-- A decimal number is taken only if it reads back. -/
theorem nearestDecimal_onGrid? {k : Nat} {grid : Int} {d : Decimal} (h : onGrid? k grid = some d) :
    nearestDecimal d = k := by
  unfold onGrid? at h
  dsimp only at h
  split at h
  · next hbelow habove =>
    obtain rfl := Option.some.inj h
    split
    · exact eq_of_beq hbelow
    · exact eq_of_beq habove
  · next hbelow _ =>
    obtain rfl := Option.some.inj h
    exact eq_of_beq hbelow
  · next _ habove =>
    obtain rfl := Option.some.inj h
    exact eq_of_beq habove
  · cases h

/-- The shortest decimal number reads back. -/
theorem nearestDecimal_shortest {k : Nat} (hk : k < infinite) (hpos : 0 < k) :
    nearestDecimal (shortest k) = k := by
  unfold shortest
  cases h : (grids k).findSome? (onGrid? k) with
  | none => exact nearestDecimal_exact hk hpos
  | some d =>
    obtain ⟨grid, _, hgrid⟩ := List.exists_of_findSome?_eq_some h
    obtain ⟨j, hj⟩ := d.exists_lowered_trimmed 20
    change nearestDecimal (d.trimmed 20) = k
    rw [← nearestDecimal_lowered _ j, hj]
    exact nearestDecimal_onGrid? hgrid

end Binary64

/-! ## The text of a decimal number -/

theorem Text.digitsValue_append (cs ds : List Char) :
    digitsValue (cs ++ ds) = digitsValue cs * 10 ^ ds.length + digitsValue ds := by
  have hfold (n : Nat) (ds : List Char) :
      ds.foldl (fun n c => 10 * n + (c.toNat - '0'.toNat)) n =
        n * 10 ^ ds.length + digitsValue ds := by
    induction ds generalizing n with
    | nil => simp [digitsValue]
    | cons d ds ih =>
      rw [digitsValue, List.foldl_cons, List.foldl_cons, ih, ih (10 * 0 + _), List.length_cons,
        Nat.pow_succ]
      grind
  rw [digitsValue, List.foldl_append]
  exact hfold _ ds

theorem Text.digitsValue_zeros (n : Nat) : digitsValue (Binary64.zeros n) = 0 := by
  induction n with
  | zero => rfl
  | succ n ih =>
    have hsplit : Binary64.zeros (n + 1) = ['0'] ++ Binary64.zeros n := rfl
    rw [hsplit, digitsValue_append, ih]
    simp [digitsValue]

namespace Decimal

variable {whole fraction rest : List Char}

theorem readExponent?_toString (n : Int) : readExponent? (toString n).toList = some n := by
  have hsplit (m : Nat) : splitDigits (Nat.toDigits 10 m) = (Nat.toDigits 10 m, []) := by
    have h : splitDigits (Nat.toDigits 10 m ++ []) = (Nat.toDigits 10 m, []) :=
      splitDigits_eq (isDigits_toDigits m) fun _ hc => by cases hc
    rwa [List.append_nil] at h
  have hne (m : Nat) : (Nat.toDigits 10 m).isEmpty = false := by simp [Nat.toDigits_ne_nil]
  cases n with
  | ofNat m =>
    have htext : (toString (Int.ofNat m)).toList = Nat.toDigits 10 m := Nat.toList_repr
    have hsign : splitSign (Nat.toDigits 10 m) = ([], Nat.toDigits 10 m) := by
      obtain ⟨d, ds, hcons⟩ := List.exists_cons_of_ne_nil (Nat.toDigits_ne_nil (n := m) (b := 10))
      have hd := isDigits_toDigits m d (hcons ▸ List.mem_cons_self)
      rw [hcons, splitSign]
      · rintro cs heq
        obtain ⟨rfl, -⟩ := List.cons.inj heq
        cases hd
      · rintro cs heq
        obtain ⟨rfl, -⟩ := List.cons.inj heq
        cases hd
    rw [htext]
    simp only [readExponent?, hsign, hsplit, hne]
    simp [digitsValue_toDigits]
  | negSucc m =>
    have htext : (toString (Int.negSucc m)).toList = '-' :: Nat.toDigits 10 (m + 1) := by
      change ("-" ++ (m + 1).repr).toList = _
      simp [Nat.toList_repr]
    rw [htext]
    simp only [readExponent?, splitSign, hsplit, hne]
    simp [digitsValue_toDigits, Int.negSucc_eq]

/-- Digits with a point between them. -/
theorem read?_point (hne : whole ≠ []) (hwhole : IsDigits whole) (hfraction : IsDigits fraction) :
    read? (whole ++ '.' :: fraction) =
      some ⟨digitsValue (whole ++ fraction), -(fraction.length : Int)⟩ := by
  have hpoint : ∀ c ∈ ('.' :: fraction).head?, c.isDigit = false := by simp
  have hend : splitDigits (fraction ++ []) = (fraction, []) :=
    splitDigits_eq hfraction fun _ hc => by cases hc
  rw [List.append_nil] at hend
  simp only [read?, splitDigits_eq hwhole hpoint, splitPoint, hend]
  simp [hne]

/-- A digit, a fraction that may be left out, and an exponent. -/
theorem read?_exponent {point : List Char} {d : Char} (hd : d.isDigit = true)
    (hfraction : IsDigits fraction)
    (hpoint : point = if fraction.isEmpty then [] else '.' :: fraction) (n : Int) :
    read? (d :: point ++ 'e' :: (toString n).toList) =
      some ⟨digitsValue (d :: fraction), n - fraction.length⟩ := by
  have hmark (cs : List Char) : ∀ c ∈ ('e' :: cs).head?, c.isDigit = false := by simp
  have hbehind : ∀ c ∈ (point ++ 'e' :: (toString n).toList).head?, c.isDigit = false := by
    rw [hpoint]
    split <;> simp
  have hone : IsDigits [d] := by simpa [IsDigits] using hd
  have hwhole := splitDigits_eq hone hbehind
  have hfraction' : splitPoint (point ++ 'e' :: (toString n).toList) =
      (fraction, 'e' :: (toString n).toList) := by
    rw [hpoint]
    split
    · next hempty =>
      rw [List.isEmpty_iff.mp hempty]
      rfl
    · exact splitDigits_eq hfraction (hmark _)
  rw [List.singleton_append] at hwhole
  simp only [read?, List.cons_append, hwhole, hfraction', readExponent?_toString]
  simp

end Decimal

namespace Binary64

section

variable {digits : List Char} {e leading : Int} (hne : digits ≠ []) (hdigits : IsDigits digits)
  (hleading : leading = e + digits.length - 1)
include hne hdigits hleading

/-- The point stands behind all digits, and more zeros in front of it. -/
theorem read?_positional_behind (hle : 0 ≤ leading) (hlong : digits.length ≤ leading.toNat + 1) :
    Decimal.read? (positional digits leading) = some (Decimal.lowered ⟨digitsValue digits, e⟩
      (leading.toNat + 1 - digits.length + 1)) := by
  have hpos := List.length_pos_iff.mpr hne
  unfold positional
  rw [if_pos hle]
  dsimp only
  obtain ⟨n, hn⟩ : ∃ n, leading.toNat + 1 - digits.length = n := ⟨_, rfl⟩
  have hzeros := digitsValue_zeros n
  rw [List.take_of_length_le hlong, List.drop_eq_nil_of_le hlong, List.isEmpty_nil, if_pos rfl,
    Decimal.read?_point (by simp [hne]) (hdigits.append (isDigits_zeros _)) (by simp [IsDigits])]
  have hcoefficient : digitsValue (digits ++ zeros n ++ ['0']) =
      digitsValue digits * 10 ^ (n + 1) := by
    rw [digitsValue_append, digitsValue_append, hzeros, Nat.add_zero, zeros,
      List.length_replicate, Nat.pow_succ, Nat.mul_assoc]
    rfl
  have hexponent : -(1 : Int) = e - ((n + 1 : Nat) : Int) := by omega
  rw [hn, hcoefficient, Decimal.lowered, ← hexponent]
  rfl

/-- The point stands between the digits. -/
theorem read?_positional_between (hle : 0 ≤ leading) (hlong : leading.toNat + 1 < digits.length) :
    Decimal.read? (positional digits leading) = some ⟨digitsValue digits, e⟩ := by
  unfold positional
  rw [if_pos hle]
  dsimp only
  have hnone : leading.toNat + 1 - digits.length = 0 := by omega
  have hsome : (digits.drop (leading.toNat + 1)).isEmpty = false := by
    simp only [List.isEmpty_eq_false_iff, ne_eq, List.drop_eq_nil_iff]
    omega
  have hwhole : IsDigits (digits.take (leading.toNat + 1)) :=
    fun c hc => hdigits c (List.mem_of_mem_take hc)
  have hfraction : IsDigits (digits.drop (leading.toNat + 1)) :=
    fun c hc => hdigits c (List.mem_of_mem_drop hc)
  rw [hnone, hsome, if_neg (by simp), zeros, List.replicate_zero, List.append_nil,
    Decimal.read?_point (by simp [hne]) hwhole hfraction, List.take_append_drop, List.length_drop]
  have hexponent : -((digits.length - (leading.toNat + 1) : Nat) : Int) = e := by omega
  rw [hexponent]

omit hne in
/-- The point stands in front of the digits, with zeros between. -/
theorem read?_positional_front (hlt : ¬ 0 ≤ leading) :
    Decimal.read? (positional digits leading) = some ⟨digitsValue digits, e⟩ := by
  unfold positional
  rw [if_neg hlt]
  have hone : IsDigits ['0'] := by simp [IsDigits]
  have hread := Decimal.read?_point (List.cons_ne_nil _ _) hone
    ((isDigits_zeros ((-leading).toNat - 1)).append hdigits)
  rw [List.singleton_append] at hread
  rw [List.cons_append, List.cons_append, hread, digitsValue_append, digitsValue_append,
    digitsValue_zeros, List.length_append, zeros, List.length_replicate]
  have hexponent : -(((-leading).toNat - 1 + digits.length : Nat) : Int) = e := by omega
  rw [hexponent]
  simp [digitsValue]

theorem exists_read?_positional : ∃ k, Decimal.read? (positional digits leading) =
    some (Decimal.lowered ⟨digitsValue digits, e⟩ k) := by
  by_cases hle : 0 ≤ leading
  · rcases Nat.lt_or_ge (leading.toNat + 1) digits.length with hlong | hlong
    · exact ⟨0, by rw [read?_positional_between hne hdigits hleading hle hlong, Decimal.lowered_zero]⟩
    · exact ⟨_, read?_positional_behind hne hdigits hleading hle hlong⟩
  · exact ⟨0, by rw [read?_positional_front hdigits hleading hle, Decimal.lowered_zero]⟩

theorem read?_scientific : Decimal.read? (scientific Format.standard.exponentMark digits leading) =
    some ⟨digitsValue digits, e⟩ := by
  obtain ⟨d, ds, rfl⟩ := List.exists_cons_of_ne_nil hne
  obtain ⟨hd, hds⟩ := List.forall_mem_cons.mp hdigits
  have hread := Decimal.read?_exponent hd hds rfl leading
  have htext : scientific Format.standard.exponentMark (d :: ds) leading =
      d :: (if ds.isEmpty then [] else '.' :: ds) ++ 'e' :: (toString leading).toList := by
    simp [scientific, Format.standard]
  have hexponent : leading - ds.length = e := by
    rw [hleading, List.length_cons]
    omega
  rw [htext, hread, hexponent]

end

/-- The text of a decimal number is read as that number, maybe with zeros behind its digits. -/
theorem exists_read?_decimal (d : Decimal) :
    ∃ k, Decimal.read? (Format.standard.decimal d) = some (d.lowered k) := by
  obtain ⟨c, e⟩ := d
  have hdigits := isDigits_toDigits c
  have hne : Nat.toDigits 10 c ≠ [] := Nat.toDigits_ne_nil
  have hvalue := digitsValue_toDigits c
  unfold Format.decimal
  dsimp only
  split
  · have hread := exists_read?_positional (e := e) hne hdigits rfl
    rwa [hvalue] at hread
  · exact ⟨0, by rw [read?_scientific hne hdigits rfl, hvalue, Decimal.lowered_zero]⟩

end Binary64

/-! ## Float literals -/

/-- The text of a number of digits has no suffix. -/
theorem Text.IsFloat.floatDigits_eq {s : String} (h : IsFloat s.toList) :
    Grammar.floatDigits s = s.toList := by
  have hdigit (c : Char) (hc : c.isDigit = true) : (c != 'f' && c != 'F') = true := by
    rw [Bool.and_eq_true, bne_iff_ne, bne_iff_ne]
    constructor
    · rintro rfl
      cases hc
    · rintro rfl
      cases hc
  rw [Grammar.floatDigits, ← List.append_nil s.toList]
  refine (splitWhile_append ?_ fun _ hc => by cases hc).1.trans (List.append_nil _).symm
  obtain ⟨d, ds, fraction, exponent, hchars, hdigits, hfraction, hexponent, _⟩ := h
  rw [hchars]
  intro c hc
  rcases List.mem_append.mp hc with hc | hc
  · exact hdigit c (hdigits c hc)
  rcases List.mem_append.mp hc with hc | hc
  · rcases hfraction with rfl | ⟨e, es, rfl, hes⟩
    · cases hc
    · rcases List.mem_cons.mp hc with rfl | hc
      · decide
      · exact hdigit c (hes c hc)
  · rcases hexponent with rfl | ⟨sign, e, es, rfl, hsign, hes⟩
    · cases hc
    · rcases List.mem_cons.mp hc with rfl | hc
      · decide
      rcases List.mem_append.mp hc with hc | hc
      · rcases hsign with rfl | rfl
        · cases hc
        · rw [List.mem_singleton.mp hc]
          decide
      · exact hdigit c (hes c hc)

/-- The text of a finite number without a sign is read as the number. -/
theorem Grammar.floatLiteral_text {d : Decimal}
    (h : (Binary64.ofDecimal false d).isFinite = true) :
    floatLiteral (Binary64.ofDecimal false d).text = some (.float (.ofDecimal false d)) := by
  have hfinite : Binary64.nearestDecimal d < Binary64.infinite := of_decide_eq_true h
  have htext := Binary64.toList_text d
  rw [floatLiteral, (Binary64.isFloat_text h).floatDigits_eq, htext, Binary64.Format.magnitude,
    if_neg (Nat.ne_of_lt hfinite)]
  obtain ⟨k, hk⟩ := Binary64.exists_read?_decimal
    (if Binary64.nearestDecimal d = 0 then ⟨0, 0⟩ else Binary64.shortest (Binary64.nearestDecimal d))
  rw [hk, Option.map_some, Binary64.ofDecimal, Binary64.nearestDecimal_lowered]
  have hback : Binary64.nearestDecimal (if Binary64.nearestDecimal d = 0 then ⟨0, 0⟩
      else Binary64.shortest (Binary64.nearestDecimal d)) = Binary64.nearestDecimal d := by
    split
    · next hzero =>
      rw [hzero]
      rfl
    · next hne => exact Binary64.nearestDecimal_shortest hfinite (Nat.pos_of_ne_zero hne)
  rw [hback]
  rfl

end LoopNest
