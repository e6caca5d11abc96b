import Bloodhound.Lib.BinaryMethod
import Mathlib.AlgebraicGeometry.EllipticCurve.Affine.Point
import Mathlib.Algebra.Field.ZMod
import Mathlib.Tactic.FieldSimp
import Mathlib.Tactic.LinearCombination

/-!
# Curves without a linear term

The group of the curve y² = x³ + b through the coordinates of its points (`coords`).

* `coords_double`, `coords_add`, `add_of_opposite`: the tangent, the chord, and opposite points.
* `Projective.represents_double`, `Projective.represents_add`: the same without divisions, in coordinates
  (X / Z², Y / Z³). A step that does not apply gives Z = 0, and Z = 0 is kept, so that one look at the last Z is
  enough for a whole run.
-/

namespace ShortCurve

open WeierstrassCurve.Affine

variable {F : Type} [Field F] {b : F}

/-- The curve y² = x³ + b. -/
def curve (b : F) : WeierstrassCurve.Affine F := ⟨0, 0, 0, 0, b⟩

/-- The coordinates of a point that is not the zero of the group. -/
def coords : (curve b).Point → Option (F × F)
  | .zero => none
  | .some x y _ => some (x, y)

@[simp] theorem coords_zero : coords (0 : (curve b).Point) = none := rfl

theorem coords_eq_none {P : (curve b).Point} : coords P = none ↔ P = 0 := by
  cases P with
  | zero => exact ⟨fun _ => rfl, fun _ => rfl⟩
  | some x y h => exact ⟨fun hNone => (nomatch hNone), fun hZero => absurd hZero (Point.some_ne_zero h)⟩

theorem coords_injective : Function.Injective (coords : (curve b).Point → Option (F × F)) := by
  intro P Q h
  cases P with
  | zero => exact (coords_eq_none.mp h.symm).symm
  | some x y hP =>
    cases Q with
    | zero => cases h
    | some x' y' hQ =>
      cases h
      rfl

theorem equation_of_coords {P : (curve b).Point} {x y : F} (h : coords P = some (x, y)) : y ^ 2 = x ^ 3 + b := by
  cases P with
  | zero => cases h
  | some x' y' hP =>
    cases h
    have hEquation := ((curve b).equation_iff x y).mp hP.1
    simpa [curve] using hEquation

theorem coords_neg {P : (curve b).Point} {x y : F} (h : coords P = some (x, y)) : coords (-P) = some (x, -y) := by
  cases P with
  | zero => cases h
  | some x' y' hP =>
    cases h
    have hNeg : (curve b).negY x y = -y := by simp [negY, curve]
    rw [Point.neg_some, coords, hNeg]

/-- The point with these coordinates. -/
def ofEquation (hTwo : (2 : F) ≠ 0) {x y : F} (h : y ^ 2 = x ^ 3 + b) (hy : y ≠ 0) : (curve b).Point :=
  .some x y ((nonsingular_iff ..).mpr ⟨((curve b).equation_iff x y).mpr (by simpa [curve] using h), .inr (by
    intro hSame
    have hNeg : y = -y := by simpa [curve] using hSame
    have hDouble : 2 * y = 0 := by linear_combination hNeg
    exact hy ((mul_eq_zero.mp hDouble).resolve_left hTwo))⟩)

@[simp] theorem coords_ofEquation (hTwo : (2 : F) ≠ 0) {x y : F} (h : y ^ 2 = x ^ 3 + b) (hy : y ≠ 0) :
    coords (ofEquation hTwo h hy) = some (x, y) := rfl

section Addition

variable [DecidableEq F]

/-- The tangent at a point. -/
theorem coords_double (hTwo : (2 : F) ≠ 0) {P : (curve b).Point} {x y : F} (h : coords P = some (x, y)) (hy : y ≠ 0) :
    let slope := 3 * x ^ 2 / (2 * y)
    let x3 := slope ^ 2 - 2 * x
    coords (P + P) = some (x3, slope * (x - x3) - y) := by
  cases P with
  | zero => cases h
  | some x' y' hP =>
    cases h
    have hNe : y ≠ (curve b).negY x y := by
      intro hSame
      have hDouble : 2 * y = 0 := by
        have hNeg : y = -y := by simpa [negY, curve] using hSame
        linear_combination hNeg
      exact hy ((mul_eq_zero.mp hDouble).resolve_left hTwo)
    have hSlope : (curve b).slope x x y y = 3 * x ^ 2 / (2 * y) := by
      rw [slope_of_Y_ne rfl hNe]
      simp only [negY, curve]
      congr 1 <;> ring
    rw [Point.add_self_of_Y_ne hNe, coords, hSlope]
    dsimp only
    congr 2
    · simp only [addX, curve]
      ring
    · simp only [addY, negAddY, addX, negY, curve]
      ring

/-- The chord of two points. -/
theorem coords_add {P Q : (curve b).Point} {x1 y1 x2 y2 : F} (hP : coords P = some (x1, y1))
    (hQ : coords Q = some (x2, y2)) (hx : x1 ≠ x2) :
    let slope := (y2 - y1) / (x2 - x1)
    let x3 := slope ^ 2 - x1 - x2
    coords (P + Q) = some (x3, slope * (x1 - x3) - y1) := by
  cases P with
  | zero => cases hP
  | some x y h =>
    cases Q with
    | zero => cases hQ
    | some x' y' h' =>
      cases hP
      cases hQ
      have hSlope : (curve b).slope x1 x2 y1 y2 = (y2 - y1) / (x2 - x1) := by
        rw [slope_of_X_ne hx, ← neg_sub y2, ← neg_sub x2, neg_div_neg_eq]
      rw [Point.add_of_X_ne hx, coords, hSlope]
      dsimp only
      congr 2
      · simp only [addX, curve]
        ring
      · simp only [addY, negAddY, addX, negY, curve]
        ring

theorem add_of_opposite {P Q : (curve b).Point} {x y1 y2 : F} (hP : coords P = some (x, y1))
    (hQ : coords Q = some (x, y2)) (hy : y1 ≠ y2) : P + Q = 0 := by
  have hSquares : (y1 - y2) * (y1 + y2) = 0 := by
    have h1 := equation_of_coords hP
    have h2 := equation_of_coords hQ
    linear_combination h1 - h2
  have hSum : y1 = -y2 := by
    have hZero := (mul_eq_zero.mp hSquares).resolve_left (sub_ne_zero.mpr hy)
    exact eq_neg_of_add_eq_zero_left hZero
  have hNeg : P = -Q := coords_injective (by rw [hP, coords_neg hQ, hSum])
  rw [hNeg, neg_add_cancel]

end Addition

/-! ## Without divisions -/

/-- Coordinates that stand for (X / Z², Y / Z³). -/
@[ext] structure Projective (R : Type) where
  X : R
  Y : R
  Z : R

namespace Projective

section Formulas

variable {R : Type} [CommSemiring R] (minusOne : R)

/-- The tangent. Differences are written with a factor for minus one. -/
def double (s : Projective R) : Projective R :=
  let t := 4 * s.X * s.Y ^ 2
  let x := 9 * s.X ^ 4 + minusOne * (2 * t)
  ⟨x, 3 * s.X ^ 2 * (t + minusOne * x) + minusOne * (8 * s.Y ^ 4), 2 * s.Y * s.Z⟩

/-- The chord to the point (x, y). -/
def add (x y : R) (s : Projective R) : Projective R :=
  let h := x * s.Z ^ 2 + minusOne * s.X
  let r := y * s.Z ^ 3 + minusOne * s.Y
  let x3 := r ^ 2 + minusOne * (h ^ 3 + 2 * s.X * h ^ 2)
  ⟨x3, r * (s.X * h ^ 2 + minusOne * x3) + minusOne * (s.Y * h ^ 3), h * s.Z⟩

/-- A round of the binary method. -/
def round (x y : R) (s : Projective R) (bit : Bool) : Projective R :=
  if bit then add minusOne x y (double minusOne s) else double minusOne s

end Formulas

/-- Unless Z is zero, the coordinates are those of the point. -/
def Represents (s : Projective F) (P : (curve b).Point) : Prop :=
  s.Z ≠ 0 → coords P = some (s.X / s.Z ^ 2, s.Y / s.Z ^ 3)

variable [DecidableEq F]

theorem represents_double (hTwo : (2 : F) ≠ 0) {s : Projective F} {P : (curve b).Point} (h : Represents s P) :
    Represents (double (-1) s) (P + P) := by
  intro hZ
  obtain ⟨hYZ, hZ'⟩ := mul_ne_zero_iff.mp (show 2 * s.Y * s.Z ≠ 0 from hZ)
  obtain ⟨-, hY⟩ := mul_ne_zero_iff.mp hYZ
  have hPoint := coords_double hTwo (h hZ') (div_ne_zero hY (pow_ne_zero 3 hZ'))
  rw [hPoint, double]
  dsimp only
  congr 2
  · field_simp
    ring
  · field_simp
    ring

theorem represents_add {s : Projective F} {P Q : (curve b).Point} {x y : F} (hQ : coords Q = some (x, y))
    (h : Represents s P) : Represents (add (-1) x y s) (P + Q) := by
  intro hZ
  obtain ⟨hH, hZ'⟩ := mul_ne_zero_iff.mp (show (x * s.Z ^ 2 + -1 * s.X) * s.Z ≠ 0 from hZ)
  have hX : s.X / s.Z ^ 2 ≠ x := by
    intro hSame
    apply hH
    rw [← hSame, div_mul_cancel₀ _ (pow_ne_zero 2 hZ')]
    ring
  have hPoint := coords_add (h hZ') hQ hX
  have hDifference : x - s.X / s.Z ^ 2 = (x * s.Z ^ 2 + -1 * s.X) / s.Z ^ 2 := by
    field_simp
    ring
  rw [hPoint, add, hDifference]
  dsimp only
  generalize hh : x * s.Z ^ 2 + -1 * s.X = d at hH
  congr 2
  · field_simp
    linear_combination (-d ^ 2) * hh
  · field_simp
    linear_combination (d ^ 2 * (y * s.Z ^ 3 - s.Y)) * hh

/-- A round takes n times a point to 2 n + bit times the point. -/
theorem represents_round (hTwo : (2 : F) ≠ 0) {s : Projective F} {G : (curve b).Point} {x y : F}
    (hG : coords G = some (x, y)) {n : ℕ} (bit : Bool) (h : Represents s (n • G)) :
    Represents (round (-1) x y s bit) ((2 * n + bit.toNat) • G) := by
  have hDouble := represents_double hTwo h
  rw [← add_nsmul, ← Nat.two_mul] at hDouble
  cases bit with
  | false => exact hDouble
  | true =>
    rw [Bool.toNat_true, succ_nsmul]
    exact represents_add hG hDouble

end Projective

/-! ### Numbers modulo `m` -/

namespace Projective

section Modular

variable (m : ℕ)

def reduce (s : Projective ℕ) : Projective ℕ := ⟨s.X % m, s.Y % m, s.Z % m⟩

/-- The run over some bits on numbers. -/
def runMod (x y : ℕ) (bs : List Bool) : Projective ℕ :=
  bs.foldl (fun s bit => reduce m (round (m - 1) x y s bit)) ⟨x, y, 1⟩

def cast (s : Projective ℕ) : Projective (ZMod m) := ⟨s.X, s.Y, s.Z⟩

variable {m}

theorem cast_reduce (s : Projective ℕ) : cast m (reduce m s) = cast m s := by
  simp [cast, reduce]

theorem cast_round (hm : 0 < m) (x y : ℕ) (s : Projective ℕ) (bit : Bool) :
    cast m (round (m - 1) x y s bit) = round (-1) (x : ZMod m) y (cast m s) bit := by
  have hMinusOne : ((m - 1 : ℕ) : ZMod m) = -1 := by
    rw [Nat.cast_sub hm, Nat.cast_one, ZMod.natCast_self, zero_sub]
  cases bit <;> simp [round, double, add, cast, hMinusOne]

end Modular

end Projective

/-- A multiple of a point from a run on numbers. -/
theorem coords_nsmul {m : ℕ} [Fact m.Prime] (hTwo : 2 < m) {b : ZMod m} {G : (curve b).Point} {x y : ℕ}
    (hG : coords G = some ((x : ZMod m), (y : ZMod m))) (bs : List Bool) (px py : ℕ)
    (hZ : (Projective.runMod m x y bs).Z % m ≠ 0)
    (hX : (Projective.runMod m x y bs).X % m = px * (Projective.runMod m x y bs).Z ^ 2 % m)
    (hY : (Projective.runMod m x y bs).Y % m = py * (Projective.runMod m x y bs).Z ^ 3 % m) :
    coords (BinaryMethod.valueFrom 1 bs • G) = some ((px : ZMod m), (py : ZMod m)) := by
  have hTwoNe : (2 : ZMod m) ≠ 0 := by
    have hCast : ((2 : ℕ) : ZMod m) ≠ 0 := by
      rw [Ne, ZMod.natCast_eq_zero_iff]
      exact fun hDvd => absurd (Nat.le_of_dvd (by decide) hDvd) (by omega)
    exact_mod_cast hCast
  have hStart : Projective.Represents (Projective.cast m ⟨x, y, 1⟩) (1 • G) := by
    intro _
    rw [one_nsmul, hG]
    simp [Projective.cast]
  have hRun := @BinaryMethod.run _ (fun s n => Projective.Represents (Projective.cast m s) (n • G))
    (fun s bit => Projective.reduce m (Projective.round (m - 1) x y s bit)) (fun {s n} bit h => by
      rw [Projective.cast_reduce, Projective.cast_round (by omega)]
      exact Projective.represents_round hTwoNe hG bit h) _ _ hStart bs
  let s := Projective.runMod m x y bs
  have hZNe : (s.Z : ZMod m) ≠ 0 := by
    rw [Ne, ZMod.natCast_eq_zero_iff]
    exact fun hDvd => hZ (Nat.mod_eq_zero_of_dvd hDvd)
  have hPoint : coords (BinaryMethod.valueFrom 1 bs • G) =
      some ((s.X : ZMod m) / (s.Z : ZMod m) ^ 2, (s.Y : ZMod m) / (s.Z : ZMod m) ^ 3) := hRun hZNe
  have hFirst : (s.X : ZMod m) = px * (s.Z : ZMod m) ^ 2 := by
    exact_mod_cast (ZMod.natCast_eq_natCast_iff' _ _ m).mpr hX
  have hSecond : (s.Y : ZMod m) = py * (s.Z : ZMod m) ^ 3 := by
    exact_mod_cast (ZMod.natCast_eq_natCast_iff' _ _ m).mpr hY
  rw [hPoint, hFirst, hSecond, mul_div_cancel_right₀ _ (pow_ne_zero 2 hZNe),
    mul_div_cancel_right₀ _ (pow_ne_zero 3 hZNe)]

end ShortCurve
