import ConsLisp.Number
import Mathlib.Algebra.Order.Ring.Int
import Mathlib.Data.Nat.Log
import Mathlib.Data.Prod.Lex

/-!
# The order of doubles

Doubles are compared by sign first, then by exponent, then by significand.  `Double.key` puts these
into one lexicographic order, so that being less is transitive (`Double.lt_iff`).

Rounding an integer to a double respects this order (`Double.key_ofInt64_le`).  A magnitude is
shifted until 53 bits are left of it, which sets the exponent, and rounded by what was shifted out.
Among magnitudes that are shifted equally far, rounding is monotone, since shifting is
(`weight_shiftRight_le`).  Rounding up may carry into the exponent.  `height` makes one number of
exponent and significand, which the carry leaves as it is.
-/

namespace ConsLisp

namespace Double

open Float.Model (UnpackedFloat Format totalExponent)
open Float.Model.UnpackedFloat

/-! ## Comparison -/

/-- What unpacked doubles are compared by, NaN apart. -/
def unpackedKey : UnpackedFloat → ℤ ×ₗ ℤ ×ₗ ℤ
  | .infinity .negative => toLex (-2, toLex (0, 0))
  | .finite .negative m e _ => toLex (-1, toLex (-e, -m))
  | .finite .positive m e _ => toLex (1, toLex (e, m))
  | .infinity .positive => toLex (2, toLex (0, 0))
  | _ => toLex (0, toLex (0, 0))

/-- What doubles are compared by, NaN apart. -/
def key (x : Double) : ℤ ×ₗ ℤ ×ₗ ℤ :=
  unpackedKey x.toModel.unpack

theorem unpacked_lt_iff {a b : UnpackedFloat} :
    a.lt b = true ↔ (a.isNaN = false ∧ b.isNaN = false) ∧ unpackedKey a < unpackedKey b := by
  rw [UnpackedFloat.lt, beq_iff_eq]
  delta isNaN
  rcases a with (_ | _) | _ | _ | ⟨_ | _, m, e, _⟩ <;>
    rcases b with (_ | _) | _ | _ | ⟨_ | _, m', e', _⟩ <;>
    dsimp only [UnpackedFloat.compare, unpackedKey] <;>
    simp [Prod.Lex.toLex_lt_toLex, Ordering.then_eq_lt, Ordering.then_eq_gt, compare_lt_iff_lt,
      compare_gt_iff_gt]
  · rfl

theorem lt_iff {x y : Double} : x < y ↔ (x.isNaN = false ∧ y.isNaN = false) ∧ key x < key y := by
  refine Iff.trans ?_ unpacked_lt_iff
  show Float.lt x y = true ↔ _
  rw [Float.lt, decide_eq_true_iff]
  rfl

/-! ## Shifting and rounding -/

/-- A mantissa with the bits behind it, the last of which stands for all that have been lost. -/
def weight (em : ExtendedMantissa) : ℕ :=
  4 * em.mantissa + 2 * em.roundBit.toNat + em.stickyBit.toNat

theorem weight_shiftRightOne (em : ExtendedMantissa) :
    weight em.shiftRightOne = 2 * (weight em / 4) + min 1 (weight em % 4) := by
  obtain ⟨m, r, s⟩ := em
  rcases Nat.mod_two_eq_zero_or_one m with hm | hm <;> cases r <;> cases s <;>
    simp [weight, ExtendedMantissa.shiftRightOne, hm] <;> omega

theorem weight_shiftRight_le {a b : ExtendedMantissa} (h : weight a ≤ weight b) (k : ℕ) :
    weight (a >>> k) ≤ weight (b >>> k) := by
  induction k with
  | zero => exact h
  | succ k ih =>
    show weight (a >>> k).shiftRightOne ≤ weight (b >>> k).shiftRightOne
    rw [weight_shiftRightOne, weight_shiftRightOne]
    omega

theorem mantissa_shiftRight (em : ExtendedMantissa) (k : ℕ) :
    (em >>> k).mantissa = em.mantissa / 2 ^ k := by
  induction k with
  | zero => exact (Nat.div_one em.mantissa).symm
  | succ k ih =>
    show (em >>> k).mantissa / 2 = _
    rw [ih, Nat.div_div_eq_div_mul, Nat.pow_succ]

theorem roundedMantissa_le {a b : ExtendedMantissa} (h : weight a ≤ weight b) :
    a.roundedMantissa ≤ b.roundedMantissa := by
  obtain ⟨m, r, s⟩ := a
  obtain ⟨m', r', s'⟩ := b
  simp only [weight] at h
  cases r <;> cases s <;> cases r' <;> cases s' <;>
    simp only [Bool.toNat_true, Bool.toNat_false, ExtendedMantissa.roundedMantissa,
      ExtendedMantissa.accuracy, Accuracy.roundToNearestEven] at h ⊢ <;> omega

theorem roundedMantissa_bounds (em : ExtendedMantissa) :
    em.mantissa ≤ em.roundedMantissa ∧ em.roundedMantissa ≤ em.mantissa + 1 := by
  obtain ⟨m, r, s⟩ := em
  cases r <;> cases s <;>
    simp only [ExtendedMantissa.roundedMantissa, ExtendedMantissa.accuracy,
      Accuracy.roundToNearestEven] <;> omega

/-! ## The height of a magnitude -/

theorem log2_mul_two_pow {n : ℕ} (hn : n ≠ 0) (k : ℕ) : (n * 2 ^ k).log2 = n.log2 + k := by
  induction k with
  | zero => rw [Nat.pow_zero, Nat.mul_one, Nat.add_zero]
  | succ k ih =>
    have hne : n * 2 ^ k ≠ 0 := Nat.mul_ne_zero hn (Nat.two_pow_pos k).ne'
    rw [Nat.pow_succ', Nat.mul_left_comm, Nat.log2_two_mul hne, ih, Nat.add_assoc]

theorem log2_div_two_pow (n k : ℕ) : (n / 2 ^ k).log2 = n.log2 - k := by
  rw [Nat.log2_eq_log_two, Nat.log2_eq_log_two, Nat.log_div_base_pow]

theorem log2_eq_iff {m : ℕ} : m.log2 = 52 ↔ 2 ^ 52 ≤ m ∧ m < 2 ^ 53 := by
  rcases Nat.eq_zero_or_pos m with rfl | hm
  · simp
  · exact Nat.log2_eq_iff hm.ne'

/-- A magnitude shifted to 53 bits. -/
def scaled (n : ℕ) : ExtendedMantissa :=
  (⟨n * 2 ^ (52 - n.log2), false, false⟩ : ExtendedMantissa) >>> (n.log2 - 52)

/-- A magnitude shifted to 53 bits and rounded, below its exponent. -/
def height (n : ℕ) : ℤ :=
  (n.log2 - 52) * 2 ^ 52 + (scaled n).roundedMantissa

theorem roundedMantissa_scaled_bounds {n : ℕ} (hn : n ≠ 0) :
    2 ^ 52 ≤ (scaled n).roundedMantissa ∧ (scaled n).roundedMantissa ≤ 2 ^ 53 := by
  have hlog : (scaled n).mantissa.log2 = 52 := by
    rw [scaled, mantissa_shiftRight, log2_div_two_pow, log2_mul_two_pow hn]
    omega
  obtain ⟨hlow, hhigh⟩ := log2_eq_iff.1 hlog
  obtain ⟨hle, hle'⟩ := roundedMantissa_bounds (scaled n)
  omega

theorem height_le {m n : ℕ} (hm : m ≠ 0) (h : m ≤ n) : height m ≤ height n := by
  have hn : n ≠ 0 := by omega
  have hlog : m.log2 ≤ n.log2 := (Nat.le_log2 hn).2 ((Nat.log2_self_le hm).trans h)
  rcases hlog.lt_or_eq with hlt | heq
  · have hmBounds := roundedMantissa_scaled_bounds hm
    have hnBounds := roundedMantissa_scaled_bounds hn
    unfold height
    omega
  · have hweight : weight (scaled m) ≤ weight (scaled n) := by
      rw [scaled, scaled, heq]
      refine weight_shiftRight_le ?_ _
      have := Nat.mul_le_mul_right (2 ^ (52 - n.log2)) h
      simp only [weight]
      omega
    have := roundedMantissa_le hweight
    unfold height
    omega

/-! ## Rounding a magnitude -/

/-- A magnitude is rounded to a significand of 53 bits and an exponent. -/
structure RoundedTo (n m : ℕ) (e : ℤ) : Prop where
  log2_eq : m.log2 = 52
  height_eq : e * 2 ^ 52 + m = height n

/-- What has been rounded is shifted once more, for rounding up may have reached a power of two. -/
theorem RoundedTo.of_height {n q : ℕ} (hlow : 2 ^ 52 ≤ q) (hhigh : q ≤ 2 ^ 53)
    (hheight : height n = (n.log2 - 52) * 2 ^ 52 + q) :
    RoundedTo n (q / 2 ^ (q.log2 - 52)) (n.log2 - 52 + (q.log2 - 52 : ℕ)) := by
  rcases hhigh.lt_or_eq with hlt | rfl
  · have hq : q.log2 = 52 := log2_eq_iff.2 ⟨hlow, hlt⟩
    rw [hq, Nat.sub_self, Nat.pow_zero, Nat.div_one]
    exact ⟨hq, by omega⟩
  · have hq : (2 ^ 53).log2 = 53 := Nat.log2_two_pow
    rw [hq]
    exact ⟨(log2_div_two_pow _ _).trans (by rw [hq]), by omega⟩

theorem RoundedTo.le {n n' m m' : ℕ} {e e' : ℤ} (h : RoundedTo n m e) (h' : RoundedTo n' m' e')
    (hn : n ≠ 0) (hle : n ≤ n') : e < e' ∨ e = e' ∧ (m : ℤ) ≤ m' := by
  have hbounds := log2_eq_iff.1 h.log2_eq
  have hbounds' := log2_eq_iff.1 h'.log2_eq
  have := h.height_eq
  have := h'.height_eq
  have := height_le hn hle
  omega

theorem RoundedTo.exponent_bounds {n m : ℕ} {e : ℤ} (h : RoundedTo n m e) (hn : n ≠ 0)
    (hlt : n < 2 ^ 64) : -52 ≤ e ∧ e ≤ 12 := by
  have hlog : n.log2 < 64 := (Nat.log2_lt hn).2 hlt
  have hbounds := log2_eq_iff.1 h.log2_eq
  have hscaled := roundedMantissa_scaled_bounds hn
  have hheight := h.height_eq
  unfold height at hheight
  omega

theorem targetExponent_eq {n : ℕ} {e : ℤ} (h : -1022 ≤ n.log2 + e) :
    Format.targetExponent .binary64 (totalExponent n e) = n.log2 + e - 52 := by
  show max ((n.log2 : ℤ) + 1 + e - 53) (-1074) = _
  omega

theorem shiftToTargetExponent_eq {n : ℕ} {e : ℤ} (h : -1022 ≤ n.log2 + e) :
    shiftToTargetExponent .binary64 n e .exact =
      ((⟨n, false, false⟩ : ExtendedMantissa) >>> (n.log2 - 52), e + (n.log2 - 52 : ℕ)) := by
  have hshift : (n.log2 + e - 52 - e).toNat = n.log2 - 52 := by omega
  rw [shiftToTargetExponent, targetExponent_eq h, shiftToExponent, hshift]
  rfl

theorem round_eq (n : ℕ) (s : Sign) :
    UnpackedFloat.round .binary64 s n 0 = roundWithAccuracy .binary64 s (n * 2 ^ (52 - n.log2))
      (-(52 - n.log2 : ℕ)) .exact := by
  have hshift : (0 - (n.log2 + 0 - 52 : ℤ)).toNat = 52 - n.log2 := by omega
  rw [UnpackedFloat.round, targetExponent_eq (by omega), decreaseExponent, hshift, Nat.shiftLeft_eq,
    Int.zero_sub]

theorem exists_round {n : ℕ} (hn : n ≠ 0) (s : Sign) :
    ∃ m e h, UnpackedFloat.round .binary64 s n 0 = .finite s m e h ∧ RoundedTo n m e := by
  have hlog := log2_mul_two_pow hn (52 - n.log2)
  have hamount : (n * 2 ^ (52 - n.log2)).log2 - 52 = n.log2 - 52 := by omega
  have hexponent : -((52 - n.log2 : ℕ) : ℤ) + (n.log2 - 52 : ℕ) = n.log2 - 52 := by omega
  obtain ⟨hlow, hhigh⟩ := roundedMantissa_scaled_bounds hn
  rw [round_eq, roundWithAccuracy, shiftToTargetExponent_eq (by omega), hamount, hexponent,
    ← scaled]
  have hheight : height n = (n.log2 - 52) * 2 ^ 52 + (scaled n).roundedMantissa := rfl
  dsimp only
  generalize (scaled n).roundedMantissa = q at hlow hhigh hheight ⊢
  have hmantissa : ((⟨q, false, false⟩ : ExtendedMantissa) >>> (q.log2 - 52)).mantissa =
      q / 2 ^ (q.log2 - 52) :=
    mantissa_shiftRight _ _
  have hrounded := RoundedTo.of_height hlow hhigh hheight
  rw [← hmantissa] at hrounded
  have hbounds := log2_eq_iff.1 hrounded.log2_eq
  have hne : ((⟨q, false, false⟩ : ExtendedMantissa) >>> (q.log2 - 52)).mantissa ≠ 0 := by omega
  rw [shiftToTargetExponent_eq (by omega), dif_neg hne]
  exact ⟨_, _, Nat.pos_of_ne_zero hne, rfl, hrounded⟩

/-! ## Packing -/

/-- The sign is read back from packed components, as the other two are by lemmas of the library. -/
theorem ofBitVec_unpackSign_packComponents (s : Sign) (exponent : BitVec 11)
    (mantissa : BitVec 52) :
    Sign.ofBitVec (unpackSign (packComponents .binary64 s exponent mantissa)) = s := by
  show Sign.ofBitVec ((s.toBitVec ++ exponent ++ mantissa).extractLsb' 63 1) = s
  rw [BitVec.extractLsb'_append_eq_of_le (by decide),
    BitVec.extractLsb'_append_eq_of_le (by decide)]
  cases s <;> rfl

/-- Packed components are those of a double with a significand of 53 bits, unless the exponent is
one of the two that are set aside. -/
theorem unpack_packComponents (s : Sign) {exponent : BitVec 11} (mantissa : BitVec 52)
    (hfinite : exponent ≠ -1#11) (hnormal : exponent ≠ 0#11) :
    ∃ h, unpack .binary64 (packComponents .binary64 s exponent mantissa) =
      .finite s (1#1 ++ mantissa).toNat (exponent.toNat - 1075) h := by
  have hexponent : unpackExponent (packComponents .binary64 s exponent mantissa) = exponent :=
    unpackExponent_packComponents
  have hmantissa : unpackMantissa (packComponents .binary64 s exponent mantissa) = mantissa :=
    unpackMantissa_packComponents
  have hpos : 0 < (1#1 ++ mantissa).toNat := by
    rw [BitVec.toNat_append]
    exact Nat.lt_of_lt_of_le (Nat.two_pow_pos 52) Nat.left_le_or
  refine ⟨hpos, ?_⟩
  generalize hb : packComponents .binary64 s exponent mantissa = b at hexponent hmantissa
  have hsign : Sign.ofBitVec (unpackSign b) = s := by
    rw [← hb, ofBitVec_unpackSign_packComponents]
  show (if unpackExponent b = -1#11 then _ else if unpackExponent b = 0#11 then _ else
    UnpackedFloat.finite (Sign.ofBitVec (unpackSign b)) (1#1 ++ unpackMantissa b).toNat
      ((unpackExponent b).toNat - (1023 + 52)) _) = _
  rw [if_neg (by rwa [hexponent]), if_neg (by rwa [hexponent]), finite.injEq]
  exact ⟨hsign, by rw [hmantissa], by rw [hexponent]; rfl⟩

/-- A double with a significand of 53 bits and an exponent in range survives packing. -/
theorem unpack_pack {s : Sign} {m : ℕ} {e : ℤ} (hm : 0 < m) (hlog : m.log2 = 52) (hlow : -1074 ≤ e)
    (hhigh : e ≤ 971) : (Float.Model.pack (.finite s m e hm)).unpack = .finite s m e hm := by
  have hpack : pack .binary64 (.finite s m e hm) =
      packComponents .binary64 s (BitVec.ofNat 11 (e + 1075).toNat) (BitVec.ofNat 52 m) := by
    have hbiased : (e + 1023 + 52).toNat = (e + 1075).toNat := by omega
    show (if 2048 ≤ (e + 1023 + 52).toNat + 1 then _ else if m.log2 + 1 = 53 then
      packComponents .binary64 s (BitVec.ofNat 11 (e + 1023 + 52).toNat) (BitVec.ofNat 52 m)
      else _) = _
    rw [if_neg (by omega), if_pos (by rw [hlog]), hbiased]
  have hexponent : (BitVec.ofNat 11 (e + 1075).toNat).toNat = (e + 1075).toNat := by
    rw [BitVec.toNat_ofNat]
    omega
  have hfinite : BitVec.ofNat 11 (e + 1075).toNat ≠ -1#11 := by
    intro h
    rw [h] at hexponent
    change 2047 = _ at hexponent
    omega
  have hnormal : BitVec.ofNat 11 (e + 1075).toNat ≠ 0#11 := by
    intro h
    rw [h] at hexponent
    change 0 = _ at hexponent
    omega
  have hmantissa : (1#1 ++ BitVec.ofNat 52 m).toNat = m := by
    have := log2_eq_iff.1 hlog
    rw [BitVec.toNat_append, BitVec.toNat_ofNat, BitVec.toNat_ofNat,
      ← Nat.shiftLeft_add_eq_or_of_lt (Nat.mod_lt _ (Nat.two_pow_pos 52)), Nat.shiftLeft_eq]
    omega
  obtain ⟨hpos, hunpack⟩ := unpack_packComponents s (BitVec.ofNat 52 m) hfinite hnormal
  show unpack .binary64 (pack .binary64 (.finite s m e hm)) = _
  rw [hpack, hunpack, finite.injEq]
  exact ⟨rfl, hmantissa, by omega⟩

/-! ## Integers as doubles -/

theorem exists_unpack_toFloat {u : UInt64} (hu : u.toNat ≠ 0) :
    ∃ m e h, u.toFloat.toModel.unpack = .finite .positive m e h ∧ RoundedTo u.toNat m e := by
  have hpositive : compare (u.toNat : ℤ) 0 = .gt := compare_gt_iff_gt.2 (by omega)
  have hmodel : u.toFloat.toModel = .pack (UnpackedFloat.round .binary64 .positive u.toNat 0) := by
    show Float.Model.pack (UnpackedFloat.normalize .binary64 u.toNat 0 .positive) = _
    rw [UnpackedFloat.normalize, hpositive]
    rfl
  obtain ⟨m, e, h, hround, hrounded⟩ := exists_round hu .positive
  obtain ⟨hlow, hhigh⟩ := hrounded.exponent_bounds hu u.toNat_lt
  rw [hmodel, hround, unpack_pack h hrounded.log2_eq (by omega) (by omega)]
  exact ⟨m, e, h, rfl, hrounded⟩

theorem toInt_eq_toNat (n : Int64) :
    n.toInt = if 2 * n.toUInt64.toNat < 2 ^ 64 then (n.toUInt64.toNat : ℤ)
      else n.toUInt64.toNat - 2 ^ 64 :=
  BitVec.toInt_eq_toNat_cond n.toBitVec

theorem toNat_toUInt64_of_nonneg {n : Int64} (h : 0 ≤ n.toInt) :
    n.toUInt64.toNat = n.toInt.natAbs := by
  have hn := toInt_eq_toNat n
  have hlt := n.toUInt64.toNat_lt
  split at hn <;> omega

theorem toNat_toUInt64_neg {n : Int64} (h : n.toInt < 0) :
    (-n).toUInt64.toNat = n.toInt.natAbs := by
  have hn := toInt_eq_toNat n
  have hlt := n.toUInt64.toNat_lt
  rw [Int64.toUInt64_neg, UInt64.toNat_neg, UInt64.size]
  split at hn <;> omega

theorem exists_unpack_of_pos {n : Int64} (hn : 0 < n.toInt) :
    ∃ m e h, (ofInt64 n).toModel.unpack = .finite .positive m e h ∧
      RoundedTo n.toInt.natAbs m e := by
  have hnat := toNat_toUInt64_of_nonneg hn.le
  have hof : ofInt64 n = n.toUInt64.toFloat := if_neg fun h => by
    have : n.toInt < 0 := Int64.lt_iff_toInt_lt.1 h
    omega
  rw [hof, ← hnat]
  exact exists_unpack_toFloat (by omega)

theorem exists_unpack_of_neg {n : Int64} (hn : n.toInt < 0) :
    ∃ m e h, (ofInt64 n).toModel.unpack = .finite .negative m e h ∧
      RoundedTo n.toInt.natAbs m e := by
  have hnat := toNat_toUInt64_neg hn
  have hof : ofInt64 n = -(-n).toUInt64.toFloat := if_pos (Int64.lt_iff_toInt_lt.2 hn)
  obtain ⟨m, e, h, hunpack, hrounded⟩ := exists_unpack_toFloat (u := (-n).toUInt64) (by omega)
  have hneg : (-(-n).toUInt64.toFloat : Float).toModel =
      .pack (UnpackedFloat.neg (-n).toUInt64.toFloat.toModel.unpack) := rfl
  obtain ⟨hlow, hhigh⟩ := hrounded.exponent_bounds (by omega) (-n).toUInt64.toNat_lt
  rw [hof, hneg, hunpack, ← hnat]
  exact ⟨m, e, h, unpack_pack h hrounded.log2_eq (by omega) (by omega), hrounded⟩

theorem isNaN_ofInt64 (n : Int64) : (ofInt64 n).isNaN = false := by
  show (ofInt64 n).toModel.unpack.isNaN = false
  rcases lt_trichotomy n.toInt 0 with hn | hn | hn
  · obtain ⟨m, e, h, hunpack, -⟩ := exists_unpack_of_neg hn
    rw [hunpack]
    rfl
  · obtain rfl : n = 0 := Int64.toInt_inj.1 hn
    rfl
  · obtain ⟨m, e, h, hunpack, -⟩ := exists_unpack_of_pos hn
    rw [hunpack]
    rfl

theorem exists_key_of_neg {n : Int64} (hn : n.toInt < 0) :
    ∃ (m : ℕ) (e : ℤ), key (ofInt64 n) = toLex (-1, toLex (-e, -(m : ℤ))) ∧
      RoundedTo n.toInt.natAbs m e := by
  obtain ⟨m, e, h, hunpack, hrounded⟩ := exists_unpack_of_neg hn
  exact ⟨m, e, by rw [key, hunpack]; rfl, hrounded⟩

theorem exists_key_of_pos {n : Int64} (hn : 0 < n.toInt) :
    ∃ (m : ℕ) (e : ℤ), key (ofInt64 n) = toLex (1, toLex (e, (m : ℤ))) ∧
      RoundedTo n.toInt.natAbs m e := by
  obtain ⟨m, e, h, hunpack, hrounded⟩ := exists_unpack_of_pos hn
  exact ⟨m, e, by rw [key, hunpack]; rfl, hrounded⟩

theorem key_ofInt64_zero : key (ofInt64 0) = toLex (0, toLex (0, 0)) := by
  rfl

/-- Rounding integers to doubles is monotone. -/
theorem key_ofInt64_le {m n : Int64} (h : m ≤ n) : key (ofInt64 m) ≤ key (ofInt64 n) := by
  have hle : m.toInt ≤ n.toInt := Int64.le_iff_toInt_le.1 h
  rcases lt_trichotomy m.toInt 0 with hm | hm | hm
  · obtain ⟨a, i, hkey, hrounded⟩ := exists_key_of_neg hm
    rcases lt_trichotomy n.toInt 0 with hn | hn | hn
    · -- the smaller of two negative integers has the greater magnitude
      obtain ⟨b, j, hkey', hrounded'⟩ := exists_key_of_neg hn
      have := hrounded'.le hrounded (by omega) (by omega)
      rw [hkey, hkey']
      exact Prod.Lex.toLex_le_toLex.2 (.inr ⟨rfl, Prod.Lex.toLex_le_toLex.2 (by omega)⟩)
    · obtain rfl : n = 0 := Int64.toInt_inj.1 hn
      rw [hkey, key_ofInt64_zero]
      simp [Prod.Lex.toLex_le_toLex]
    · obtain ⟨b, j, hkey', -⟩ := exists_key_of_pos hn
      rw [hkey, hkey']
      simp [Prod.Lex.toLex_le_toLex]
  · obtain rfl : m = 0 := Int64.toInt_inj.1 hm
    rcases (show 0 ≤ n.toInt by omega).eq_or_lt with hn | hn
    · obtain rfl : n = 0 := Int64.toInt_inj.1 hn.symm
      rfl
    · obtain ⟨b, j, hkey', -⟩ := exists_key_of_pos hn
      rw [key_ofInt64_zero, hkey']
      simp [Prod.Lex.toLex_le_toLex]
  · obtain ⟨a, i, hkey, hrounded⟩ := exists_key_of_pos hm
    obtain ⟨b, j, hkey', hrounded'⟩ := exists_key_of_pos (hm.trans_le hle)
    have := hrounded.le hrounded' (by omega) (by omega)
    rw [hkey, hkey']
    exact Prod.Lex.toLex_le_toLex.2 (.inr ⟨rfl, Prod.Lex.toLex_le_toLex.2 (by omega)⟩)

end Double

end ConsLisp
