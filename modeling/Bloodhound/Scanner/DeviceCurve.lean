import Bloodhound.Scanner.PathPrefix
import Bloodhound.Scanner.Secp256k1

/-!
# Public keys on the device

The curve arithmetic of `field.cu` in affine coordinates, with the multiplication of words as a parameter:
`u256_inv_mod_p`, `affine_double`, `affine_add` and `secp256k1_pubkey_create`. If the multiplication is exact
modulo p, numbers stand for elements of the field (`Stands`), points for elements of the group (`StandsFor`), and the
loop over the bits of a key reaches the key times the generator (`pubkey_create_correct`).
-/

namespace Bloodhound.Scanner

open ShortCurve BinaryMethod Limbs

/-! ## Translation -/

section Translation

variable (mult : U64x4 → U64x4 → U64x4)

/-- `EXP` of `u256_inv_mod_p`. -/
def invExponent : List UInt64 := [0xFFFFFFFEFFFFFC2D, 0xFFFFFFFFFFFFFFFF, 0xFFFFFFFFFFFFFFFF, 0xFFFFFFFFFFFFFFFF]

def u256InvModP (a : U256) : U256 :=
  let base := u256ToU64x4 a
  let res := [3, 2, 1, 0].foldl (fun res limb =>
    let e := invExponent.getD limb 0
    (List.range 64).reverse.foldl (fun res bit =>
      let res := mult res res
      if (e >>> UInt64.ofNat bit) &&& 1 ≠ 0 then mult res base else res) res) ⟨1, 0, 0, 0⟩
  u256FromU64x4 res

structure AffinePoint where
  x : U256
  y : U256
  inf : Bool
  deriving DecidableEq

def affineSetInf : AffinePoint := ⟨u256Clear, u256Clear, true⟩

/-- `SECP_GX` and `SECP_GY` -/
def affineSetG : AffinePoint where
  x := ⟨[0x16F81798, 0x59F2815B, 0x2DCE28D9, 0x029BFCDB, 0xCE870B07, 0x55A06295, 0xF9DCBBAC, 0x79BE667E],
    rfl, by decide⟩
  y := ⟨[0xFB10D4B8, 0x9C47D08F, 0xA6855419, 0xFD17B448, 0x0E1108A8, 0x5DA4FBFC, 0x26A3C465, 0x483ADA77],
    rfl, by decide⟩
  inf := false

def affineDouble (a : AffinePoint) : AffinePoint :=
  if a.inf then affineSetInf
  else
    let twoY := u256Add a.y a.y
    let inv := u256InvModP mult twoY
    let t1 := u256MulWith mult a.x a.x
    let lam := u256Add t1 t1
    let lam := u256Add lam t1
    let lam := u256MulWith mult lam inv
    let t1 := u256MulWith mult lam lam
    let t2 := u256Add a.x a.x
    let x3 := u256SubModP t1 t2
    let t1 := u256SubModP a.x x3
    let t2 := u256MulWith mult lam t1
    let y3 := u256SubModP t2 a.y
    ⟨x3, y3, false⟩

/-- The end of `affine_add`. -/
def affineChord (a b : AffinePoint) (h : U256) : AffinePoint :=
  let s := u256SubModP b.y a.y
  let inv := u256InvModP mult h
  let lam := u256MulWith mult s inv
  let t1 := u256MulWith mult lam lam
  let x3 := u256SubModP t1 a.x
  let x3 := u256SubModP x3 b.x
  let t1 := u256SubModP a.x x3
  let t2 := u256MulWith mult lam t1
  let y3 := u256SubModP t2 a.y
  ⟨x3, y3, false⟩

def affineAdd (a b : AffinePoint) : AffinePoint :=
  if a.inf then b
  else if b.inf then a
  else
    let h := u256SubModP b.x a.x
    if u256IsZero h then
      let s := u256SubModP b.y a.y
      if u256IsZero s then affineDouble mult a else affineSetInf
    else affineChord mult a b h

def u256ToBe32 (a : U256) : Bytes :=
  a.limbs.reverse.flatMap fun w =>
    [UInt8.ofNat (w >>> 24), UInt8.ofNat (w >>> 16), UInt8.ofNat (w >>> 8), UInt8.ofNat w]

/-- Without coordinates only the first byte is written. -/
def affineToCompressed (out33 : Bytes) (p : AffinePoint) : Bytes :=
  if p.inf then 0 :: out33.tail
  else (if p.y.limbs.headD 0 &&& 1 ≠ 0 then 0x03 else 0x02) :: u256ToBe32 p.x

/-- The key less the order, when it is larger. -/
def keyBelowOrder (priv32 : Bytes) : Bytes :=
  if compareFrom (priv32.map UInt8.toNat) (secpNBe.map UInt8.toNat) = .gt then
    ofLimbs (subBorrow 256 0 (limbsOf priv32) (limbsOf secpNBe)).1
  else priv32

def secp256k1PubkeyCreate (out33 priv32 : Bytes) : Bytes :=
  let r := (keyBelowOrder priv32).foldl (fun r b =>
    (List.range 8).reverse.foldl (fun r bit =>
      let r := affineDouble mult r
      if (b >>> UInt8.ofNat bit) &&& 1 ≠ 0 then affineAdd mult r affineSetG else r) r) affineSetInf
  affineToCompressed out33 r

end Translation

/-! ## Elements of the field -/

/-- The multiplication is exact modulo p. -/
def ExactMult (mult : U64x4 → U64x4 → U64x4) : Prop :=
  ∀ a b, (mult a b).toNat % secp256k1Prime = a.toNat * b.toNat % secp256k1Prime

/-- A reduced number and its element of the field. -/
structure Stands (a : U256) (x : FieldP) : Prop where
  less : a.toNat < secp256k1Prime
  cast : (a.toNat : FieldP) = x

namespace Stands

variable {a b : U256} {x y : FieldP}

theorem of_mod {n : ℕ} (h : a.toNat = n % secp256k1Prime) (hx : (n : FieldP) = x) : Stands a x := by
  constructor
  · rw [h]
    exact Nat.mod_lt _ (by decide)
  · rw [h, ← hx]
    exact ZMod.natCast_mod n secp256k1Prime

theorem val (h : Stands a x) : x.val = a.toNat := by
  rw [← h.cast]
  exact ZMod.val_natCast_of_lt h.less

theorem eq_iff (ha : Stands a x) (hb : Stands b y) : a.toNat = b.toNat ↔ x = y := by
  constructor
  · intro h
    rw [← ha.cast, ← hb.cast, h]
  · rintro rfl
    rw [← ha.val, ← hb.val]

end Stands

theorem stands_add {a b : U256} {x y : FieldP} (ha : Stands a x) (hb : Stands b y) :
    Stands (u256Add a b) (x + y) := by
  apply Stands.of_mod (toNat_u256Add ha.less hb.less)
  rw [Nat.cast_add, ha.cast, hb.cast]

theorem stands_sub {a b : U256} {x y : FieldP} (ha : Stands a x) (hb : Stands b y) :
    Stands (u256SubModP a b) (x - y) := by
  apply Stands.of_mod (toNat_u256SubModP ha.less hb.less)
  rw [Nat.cast_add, Nat.cast_sub hb.less.le, ZMod.natCast_self, ha.cast, hb.cast]
  ring

/-- A difference is zero for equal numbers only. -/
theorem isZero_sub_iff {a b : U256} {x y : FieldP} (ha : Stands a x) (hb : Stands b y) :
    u256IsZero (u256SubModP a b) = true ↔ x = y := by
  have hDifference := stands_sub ha hb
  have hZero : (u256SubModP a b).toNat = 0 ↔ x - y = 0 := by
    rw [← hDifference.val, ZMod.val_eq_zero]
  rw [u256IsZero_iff, hZero, sub_eq_zero]

section Exact

variable {mult : U64x4 → U64x4 → U64x4} (hMult : ExactMult mult)

include hMult

theorem cast_mult (a b : U64x4) : ((mult a b).toNat : FieldP) = a.toNat * b.toNat := by
  have hMod := (ZMod.natCast_eq_natCast_iff' _ _ secp256k1Prime).mpr (hMult a b)
  rw [hMod, Nat.cast_mul]

theorem stands_mul {a b : U256} {x y : FieldP} (ha : Stands a x) (hb : Stands b y) :
    Stands (u256MulWith mult a b) (x * y) := by
  apply Stands.of_mod (toNat_u256FromU64x4 _)
  rw [cast_mult hMult, toNat_u256ToU64x4, toNat_u256ToU64x4, ha.cast, hb.cast]

end Exact

/-! ## Loops over bits -/

theorem word_bit (e : UInt64) {bit : ℕ} (h : bit < 64) :
    ((e >>> UInt64.ofNat bit) &&& 1 ≠ 0) ↔ e.toNat.testBit bit = true := by
  have hShift : (UInt64.ofNat bit).toNat % 64 = bit := by
    rw [UInt64.toNat_ofNat', Nat.mod_eq_of_lt (by omega : bit < 2 ^ 64), Nat.mod_eq_of_lt h]
  have hBit : ((e >>> UInt64.ofNat bit) &&& 1).toNat = e.toNat >>> bit % 2 := by
    rw [UInt64.toNat_and, UInt64.toNat_shiftRight, hShift]
    exact Nat.and_two_pow_sub_one_eq_mod _ 1
  rw [Ne, ← UInt64.toNat_inj, hBit, Nat.testBit, Nat.one_and_eq_mod_two]
  simp

theorem byte_bit (b : UInt8) {bit : ℕ} (h : bit < 8) :
    ((b >>> UInt8.ofNat bit) &&& 1 ≠ 0) ↔ b.toNat.testBit bit = true := by
  have hShift : (UInt8.ofNat bit).toNat % 8 = bit := by
    rw [UInt8.toNat_ofNat', Nat.mod_eq_of_lt (by omega : bit < 2 ^ 8), Nat.mod_eq_of_lt h]
  have hBit : ((b >>> UInt8.ofNat bit) &&& 1).toNat = b.toNat >>> bit % 2 := by
    rw [UInt8.toNat_and, UInt8.toNat_shiftRight, hShift]
    exact Nat.and_two_pow_sub_one_eq_mod _ 1
  rw [Ne, ← UInt8.toNat_inj, hBit, Nat.testBit, Nat.one_and_eq_mod_two]
  simp

/-- A loop over the bits of some words is one over their bits. -/
theorem foldl_bits {σ ω : Type} {width : ℕ} {number : ω → ℕ} {isSet : ω → ℕ → Prop}
    [∀ e bit, Decidable (isSet e bit)]
    (hBit : ∀ e, ∀ bit < width, isSet e bit ↔ (number e).testBit bit = true) (step : σ → Bool → σ) (l : List ω)
    (s : σ) :
    l.foldl (fun s e => (List.range width).reverse.foldl (fun s bit => step s (decide (isSet e bit))) s) s =
      ((l.map number).flatMap (bits width)).foldl step s := by
  rw [List.foldl_flatMap, List.foldl_map]
  congr 1
  funext s e
  rw [bits, List.foldl_map]
  apply List.foldl_ext
  intro s bit hMem
  have hLess := List.mem_range.mp (List.mem_reverse.mp hMem)
  rw [Bool.decide_congr (hBit e bit hLess), Bool.decide_eq_true]

/-! ## The inverse -/

/-- A round of the exponentiation. -/
def powerRound (mult : U64x4 → U64x4 → U64x4) (base res : U64x4) (bit : Bool) : U64x4 :=
  let res := mult res res
  if bit then mult res base else res

def inverseBits : List Bool := ([3, 2, 1, 0].map fun limb => (invExponent.getD limb 0).toNat).flatMap (bits 64)

theorem valueFrom_inverseBits : valueFrom 0 inverseBits = secp256k1Prime - 2 := by decide +kernel

theorem u256InvModP_eq (mult : U64x4 → U64x4 → U64x4) (a : U256) :
    u256InvModP mult a =
      u256FromU64x4 (inverseBits.foldl (powerRound mult (u256ToU64x4 a)) ⟨1, 0, 0, 0⟩) := by
  have hLoop := foldl_bits (fun limb _ => word_bit (invExponent.getD limb 0))
    (powerRound mult (u256ToU64x4 a)) [3, 2, 1, 0] ⟨1, 0, 0, 0⟩
  rw [inverseBits, ← hLoop]
  simp only [powerRound, decide_eq_true_eq]
  rfl

theorem pow_prime_sub_two (x : FieldP) : x ^ (secp256k1Prime - 2) = x⁻¹ := by
  by_cases hx : x = 0
  · rw [hx, inv_zero, zero_pow (by decide)]
  · have hSucc : secp256k1Prime - 2 + 1 = secp256k1Prime - 1 := by decide
    apply eq_inv_of_mul_eq_one_left
    rw [← pow_succ, hSucc]
    exact ZMod.pow_card_sub_one_eq_one hx

section Exact

variable {mult : U64x4 → U64x4 → U64x4} (hMult : ExactMult mult)

include hMult

theorem stands_inv {a : U256} {x : FieldP} (ha : Stands a x) : Stands (u256InvModP mult a) x⁻¹ := by
  have hRun := @run U64x4 (fun s n => (s.toNat : FieldP) = x ^ n) (powerRound mult (u256ToU64x4 a))
    (fun {s n} bit hs => ?_) ⟨1, 0, 0, 0⟩ 0 (by rw [pow_zero]; rfl) inverseBits
  · rw [valueFrom_inverseBits, pow_prime_sub_two] at hRun
    rw [u256InvModP_eq]
    exact Stands.of_mod (toNat_u256FromU64x4 _) hRun
  · have hSquare : ((mult s s).toNat : FieldP) = x ^ (2 * n) := by
      rw [cast_mult hMult, hs, ← pow_add, Nat.two_mul]
    cases bit with
    | false => exact hSquare
    | true =>
      have hBase : ((u256ToU64x4 a).toNat : FieldP) = x := by rw [toNat_u256ToU64x4, ha.cast]
      have hProduct := cast_mult hMult (mult s s) (u256ToU64x4 a)
      rw [hSquare, hBase, ← pow_succ] at hProduct
      exact hProduct

end Exact

/-! ## Points -/

/-- A point of the device and an element of the group. -/
inductive StandsFor : AffinePoint → CurvePoint → Prop
  | inf {a : AffinePoint} : a.inf = true → StandsFor a 0
  | affine {a : AffinePoint} {P : CurvePoint} {x y : FieldP} : a.inf = false → Stands a.x x → Stands a.y y →
      coords P = some (x, y) → StandsFor a P

namespace StandsFor

variable {a b : AffinePoint} {P Q : CurvePoint}

theorem inf_iff (h : StandsFor a P) : a.inf = true ↔ P = 0 := by
  cases h with
  | inf hInf => exact ⟨fun _ => rfl, fun _ => hInf⟩
  | affine hInf _ _ hCoords =>
    constructor
    · intro hTrue
      rw [hInf] at hTrue
      cases hTrue
    · rintro rfl
      cases hCoords

theorem of_coords (h : StandsFor a P) {x y : FieldP} (hP : coords P = some (x, y)) :
    a.inf = false ∧ Stands a.x x ∧ Stands a.y y := by
  cases h with
  | inf => cases hP
  | affine hInf hx hy hCoords =>
    cases hP.symm.trans hCoords
    exact ⟨hInf, hx, hy⟩

end StandsFor

theorem standsFor_generator : StandsFor affineSetG generator := by
  refine .affine rfl ⟨?_, ?_⟩ ⟨?_, ?_⟩ coords_generator
  · decide
  · exact congrArg (Nat.cast : ℕ → FieldP) (by decide : affineSetG.x.toNat = generatorX)
  · decide
  · exact congrArg (Nat.cast : ℕ → FieldP) (by decide : affineSetG.y.toNat = generatorY)

section Exact

variable {mult : U64x4 → U64x4 → U64x4} (hMult : ExactMult mult) {a b : AffinePoint} {P Q : CurvePoint}

include hMult

/-- The tangent. -/
theorem standsFor_double (h : StandsFor a P) : StandsFor (affineDouble mult a) (P + P) := by
  cases h with
  | inf hInf =>
    rw [affineDouble, if_pos hInf, add_zero]
    exact .inf rfl
  | @affine _ x y hInf hx hy hCoords =>
    have hTangent := coords_double two_ne_zero_fieldP hCoords (y_ne_zero hCoords)
    have hSlope : (x * x + x * x + x * x) * (y + y)⁻¹ = 3 * x ^ 2 / (2 * y) := by
      rw [div_eq_mul_inv]
      congr 1
      · ring
      · rw [two_mul]
    have hLam := stands_mul hMult
      (stands_add (stands_add (stands_mul hMult hx hx) (stands_mul hMult hx hx)) (stands_mul hMult hx hx))
      (stands_inv hMult (stands_add hy hy))
    have hX := stands_sub (stands_mul hMult hLam hLam) (stands_add hx hx)
    have hY := stands_sub (stands_mul hMult hLam (stands_sub hx hX)) hy
    rw [affineDouble, if_neg (by rw [hInf]; decide)]
    rw [hSlope] at hX hY
    refine .affine rfl hX hY (hTangent.trans ?_)
    congr 2
    · ring
    · ring

/-- The chord. -/
theorem standsFor_chord (ha : StandsFor a P) (hb : StandsFor b Q) {x1 y1 x2 y2 : FieldP}
    (hP : coords P = some (x1, y1)) (hQ : coords Q = some (x2, y2)) (hx : x1 ≠ x2) :
    StandsFor (affineChord mult a b (u256SubModP b.x a.x)) (P + Q) := by
  obtain ⟨-, hx1, hy1⟩ := ha.of_coords hP
  obtain ⟨-, hx2, hy2⟩ := hb.of_coords hQ
  have hLine := coords_add hP hQ hx
  have hLam := stands_mul hMult (stands_sub hy2 hy1) (stands_inv hMult (stands_sub hx2 hx1))
  rw [← div_eq_mul_inv] at hLam
  have hX := stands_sub (stands_sub (stands_mul hMult hLam hLam) hx1) hx2
  have hY := stands_sub (stands_mul hMult hLam (stands_sub hx1 hX)) hy1
  refine .affine rfl hX hY (hLine.trans ?_)
  congr 2
  · ring
  · ring

end Exact

/-! ### Branches of the addition -/

/-- The branches of `affine_add`. -/
inductive AddBranch
  | onlyB
  | onlyA
  | double
  | opposite
  | chord
  deriving DecidableEq

/-- The branch that `affine_add` takes. -/
def addBranch (a b : AffinePoint) : AddBranch :=
  if a.inf then .onlyB
  else if b.inf then .onlyA
  else if u256IsZero (u256SubModP b.x a.x) then
    if u256IsZero (u256SubModP b.y a.y) then .double else .opposite
  else .chord

theorem affineAdd_eq (mult : U64x4 → U64x4 → U64x4) (a b : AffinePoint) :
    affineAdd mult a b = match addBranch a b with
      | .onlyB => b
      | .onlyA => a
      | .double => affineDouble mult a
      | .opposite => affineSetInf
      | .chord => affineChord mult a b (u256SubModP b.x a.x) := by
  unfold affineAdd addBranch
  dsimp only
  split
  · rfl
  · split
    · rfl
    · split
      · split <;> rfl
      · rfl

/-- The branch that the addition of two elements of the group needs. -/
def rightBranch (P Q : CurvePoint) : AddBranch :=
  if P = 0 then .onlyB
  else if Q = 0 then .onlyA
  else if P = Q then .double
  else if P = -Q then .opposite
  else .chord

/-- `affine_add` takes the right branch for zeros, equal and opposite points. -/
theorem addBranch_eq {a b : AffinePoint} {P Q : CurvePoint} (ha : StandsFor a P) (hb : StandsFor b Q) :
    addBranch a b = rightBranch P Q := by
  unfold addBranch rightBranch
  by_cases hP : P = 0
  · rw [if_pos (ha.inf_iff.mpr hP), if_pos hP]
  by_cases hQ : Q = 0
  · rw [if_neg (fun hInf => hP (ha.inf_iff.mp hInf)), if_pos (hb.inf_iff.mpr hQ), if_neg hP, if_pos hQ]
  rw [if_neg (fun hInf => hP (ha.inf_iff.mp hInf)), if_neg (fun hInf => hQ (hb.inf_iff.mp hInf)), if_neg hP,
    if_neg hQ]
  cases ha with
  | inf => exact absurd rfl hP
  | @affine _ x1 y1 _ hx1 hy1 hCoords =>
    cases hb with
    | inf => exact absurd rfl hQ
    | @affine _ x2 y2 _ hx2 hy2 hCoords' =>
      have hEqual : P = Q ↔ x2 = x1 ∧ y2 = y1 := by
        rw [← coords_injective.eq_iff, hCoords, hCoords', Option.some_inj, Prod.mk.injEq, eq_comm (a := x1),
          eq_comm (a := y1)]
      have hOpposite : P = -Q ↔ x2 = x1 ∧ y2 = -y1 := by
        rw [← coords_injective.eq_iff, hCoords, coords_neg hCoords', Option.some_inj, Prod.mk.injEq,
          eq_comm (a := x1), eq_neg_iff_add_eq_zero, eq_neg_iff_add_eq_zero, add_comm]
      by_cases hx : x2 = x1
      · rw [if_pos ((isZero_sub_iff hx2 hx1).mpr hx)]
        by_cases hy : y2 = y1
        · rw [if_pos ((isZero_sub_iff hy2 hy1).mpr hy), if_pos (hEqual.mpr ⟨hx, hy⟩)]
        · have hSum : y2 = -y1 := by
            have h1 := equation_of_coords hCoords
            have h2 := equation_of_coords hCoords'
            have hSquares : (y2 - y1) * (y2 + y1) = 0 := by
              rw [hx] at h2
              linear_combination h2 - h1
            exact eq_neg_of_add_eq_zero_left ((mul_eq_zero.mp hSquares).resolve_left (sub_ne_zero.mpr hy))
          rw [if_neg (fun h => hy ((isZero_sub_iff hy2 hy1).mp h)), if_neg (fun h => hy (hEqual.mp h).2),
            if_pos (hOpposite.mpr ⟨hx, hSum⟩)]
      · rw [if_neg (fun h => hx ((isZero_sub_iff hx2 hx1).mp h)), if_neg (fun h => hx (hEqual.mp h).1),
          if_neg (fun h => hx (hOpposite.mp h).1)]

section Exact

variable {mult : U64x4 → U64x4 → U64x4} (hMult : ExactMult mult) {a b : AffinePoint} {P Q : CurvePoint}

include hMult

theorem standsFor_add (ha : StandsFor a P) (hb : StandsFor b Q) : StandsFor (affineAdd mult a b) (P + Q) := by
  rw [affineAdd_eq, addBranch_eq ha hb]
  unfold rightBranch
  by_cases hP : P = 0
  · rw [if_pos hP, hP, zero_add]
    exact hb
  by_cases hQ : Q = 0
  · rw [if_neg hP, if_pos hQ, hQ, add_zero]
    exact ha
  rw [if_neg hP, if_neg hQ]
  by_cases hEqual : P = Q
  · rw [if_pos hEqual, ← hEqual]
    exact standsFor_double hMult ha
  rw [if_neg hEqual]
  by_cases hOpposite : P = -Q
  · rw [if_pos hOpposite, hOpposite, neg_add_cancel]
    exact .inf rfl
  rw [if_neg hOpposite]
  dsimp only
  obtain ⟨⟨x1, y1⟩, hCoords⟩ := Option.ne_none_iff_exists'.mp fun hNone => hP (coords_eq_none.mp hNone)
  obtain ⟨⟨x2, y2⟩, hCoords'⟩ := Option.ne_none_iff_exists'.mp fun hNone => hQ (coords_eq_none.mp hNone)
  refine standsFor_chord hMult ha hb hCoords hCoords' ?_
  rintro rfl
  -- equal first coordinates leave only equal and opposite points
  rcases eq_or_ne y1 y2 with rfl | hy
  · exact hEqual (coords_injective (hCoords.trans hCoords'.symm))
  · exact hOpposite (eq_neg_of_add_eq_zero_left (add_of_opposite hCoords hCoords' hy))

end Exact

/-! ## Compressed points -/

/-- The compressed encoding of a point that has coordinates. -/
def compressed (P : CurvePoint) : Option Bytes :=
  (coords P).map fun c => (if c.2.val % 2 = 1 then 0x03 else 0x02) :: Sha2.bigEndian 32 c.1.val

/-- The bytes of some limbs, which come with the most significant one first. -/
theorem number_bytes {l : List ℕ} (h : ∀ w ∈ l, w < 2 ^ 32) :
    ((l.flatMap fun w => [UInt8.ofNat (w >>> 24), UInt8.ofNat (w >>> 16), UInt8.ofNat (w >>> 8), UInt8.ofNat w]).map
        UInt8.toNat).length = 4 * l.length ∧
      Radix.number 256 ((l.flatMap fun w => [UInt8.ofNat (w >>> 24), UInt8.ofNat (w >>> 16), UInt8.ofNat (w >>> 8),
        UInt8.ofNat w]).map UInt8.toNat) = Radix.number (2 ^ 32) l := by
  induction l with
  | nil => simp
  | cons w l ih =>
    obtain ⟨hLength, hNumber⟩ := ih fun v hv => h v (List.mem_cons_of_mem w hv)
    have hw := h w List.mem_cons_self
    have hBytes : Radix.number 256 ([UInt8.ofNat (w >>> 24), UInt8.ofNat (w >>> 16), UInt8.ofNat (w >>> 8),
        UInt8.ofNat w].map UInt8.toNat) = w := by
      simp only [List.map_cons, List.map_nil, Radix.number, List.foldl_cons, List.foldl_nil, UInt8.toNat_ofNat',
        Nat.shiftRight_eq_div_pow]
      omega
    have hPow : 256 ^ (4 * l.length) = (2 ^ 32) ^ l.length := by
      rw [pow_mul]
      norm_num
    constructor
    · rw [List.flatMap_cons, List.map_append, List.length_append, hLength, List.length_cons]
      simp only [List.length_map, List.length_cons, List.length_nil]
      omega
    · rw [List.flatMap_cons, List.map_append, Radix.number_append, hBytes, hLength, hNumber, hPow,
        Radix.number_cons]

theorem u256ToBe32_eq (a : U256) : u256ToBe32 a = Sha2.bigEndian 32 a.toNat := by
  obtain ⟨hLength, hNumber⟩ := number_bytes fun w hw => a.limb_lt w (List.mem_reverse.mp hw)
  rw [List.length_map, List.length_reverse, a.length_limbs] at hLength
  apply keyNumber_inj hLength
  rw [keyNumber_bigEndian, keyNumber, u256ToBe32, hNumber, ← value_reverse, List.reverse_reverse]
  exact (Nat.mod_eq_of_lt (toNat_lt_u256 a)).symm

theorem parity_limb (a : U256) : (a.limbs.headD 0 &&& 1 ≠ 0) ↔ a.toNat % 2 = 1 := by
  obtain ⟨limb, rest, hLimbs⟩ := List.exists_cons_of_length_eq_add_one a.length_limbs
  have hBit : limb &&& 1 = limb % 2 := Nat.and_two_pow_sub_one_eq_mod limb 1
  rw [Word.toNat, hLimbs, List.headD_cons, value_cons, hBit]
  omega

theorem affineToCompressed_eq {a : AffinePoint} {P : CurvePoint} (h : StandsFor a P) (hP : P ≠ 0) (out33 : Bytes) :
    some (affineToCompressed out33 a) = compressed P := by
  cases h with
  | inf => exact absurd rfl hP
  | affine hInf hx hy hCoords =>
    rw [affineToCompressed, if_neg (by rw [hInf]; decide), compressed, hCoords, Option.map_some, hx.val, hy.val,
      u256ToBe32_eq]
    simp only [parity_limb]

/-! ## The loop over the bits of a key -/

section Loop

variable (mult : U64x4 → U64x4 → U64x4)

/-- A round of `secp256k1_pubkey_create`. -/
def pointRound (r : AffinePoint) (bit : Bool) : AffinePoint :=
  let r := affineDouble mult r
  if bit then affineAdd mult r affineSetG else r

/-- The point of the loop behind some bits. -/
def pointAfter (bs : List Bool) : AffinePoint := bs.foldl (pointRound mult) affineSetInf

/-- The bits of a key. -/
def keyBits (priv32 : Bytes) : List Bool := (priv32.map UInt8.toNat).flatMap (bits 8)

theorem secp256k1PubkeyCreate_eq (out33 priv32 : Bytes) :
    secp256k1PubkeyCreate mult out33 priv32 =
      affineToCompressed out33 (pointAfter mult (keyBits (keyBelowOrder priv32))) := by
  have hLoop := foldl_bits (fun b _ => byte_bit b) (pointRound mult) (keyBelowOrder priv32) affineSetInf
  rw [pointAfter, keyBits, ← hLoop]
  simp only [pointRound, decide_eq_true_eq]
  rfl

theorem valueFrom_keyBits (priv32 : Bytes) : valueFrom 0 (keyBits priv32) = keyNumber priv32 := by
  have hBytes := @valueFrom_flatMap 8 0 (priv32.map UInt8.toNat) fun d => toNat_lt_of_mem
  rw [Nat.zero_mul, Nat.zero_add] at hBytes
  exact hBytes

theorem keyBelowOrder_of_lt {priv32 : Bytes} (hLength : priv32.length = 32)
    (hLess : keyNumber priv32 < secp256k1Order) : keyBelowOrder priv32 = priv32 := by
  have hOrder : keyNumber secpNBe = secp256k1Order := by decide
  have hCompare := @compareFrom_eq 256 (by decide) (priv32.map UInt8.toNat) (secpNBe.map UInt8.toNat)
    (by rw [List.length_map, List.length_map, hLength]; rfl) (fun d => toNat_lt_of_mem) (fun d => toNat_lt_of_mem)
  rw [← hOrder] at hLess
  rw [keyBelowOrder, hCompare, if_neg]
  rw [Nat.compare_eq_gt]
  exact Nat.lt_asymm hLess

variable {mult} (hMult : ExactMult mult)

include hMult

theorem standsFor_pointAfter (bs : List Bool) : StandsFor (pointAfter mult bs) (valueFrom 0 bs • generator) := by
  apply @run _ (fun r n => StandsFor r (n • generator)) (pointRound mult) ?_ affineSetInf 0
  · rw [zero_nsmul]
    exact .inf rfl
  · intro r n bit hr
    have hDouble := standsFor_double hMult hr
    rw [← add_nsmul, ← Nat.two_mul] at hDouble
    cases bit with
    | false => exact hDouble
    | true =>
      rw [Bool.toNat_true, succ_nsmul]
      exact standsFor_add hMult hDouble standsFor_generator

end Loop

/-- What holds of the key of a private key, and of every step of the loop that leads to it. -/
structure KeyCorrect (mult : U64x4 → U64x4 → U64x4) (priv32 : Bytes) : Prop where
  encoded : ∀ out33, some (secp256k1PubkeyCreate mult out33 priv32) = compressed (keyNumber priv32 • generator)
  loop : ∀ out33,
    secp256k1PubkeyCreate mult out33 priv32 = affineToCompressed out33 (pointAfter mult (keyBits priv32))
  infinite : ∀ bs, bs <+: keyBits priv32 → ((pointAfter mult bs).inf = true ↔ valueFrom 0 bs • generator = 0)
  branch : ∀ bs, bs <+: keyBits priv32 →
    addBranch (affineDouble mult (pointAfter mult bs)) affineSetG =
      rightBranch ((2 * valueFrom 0 bs) • generator) generator

/-- With an exact multiplication, the device computes keys and inverses. -/
theorem pubkey_create_correct {mult : U64x4 → U64x4 → U64x4} (hMult : ExactMult mult) :
    (∀ priv32 : Bytes, priv32.length = 32 → 1 ≤ keyNumber priv32 → keyNumber priv32 < secp256k1Order →
      KeyCorrect mult priv32) ∧
    ∀ a : U256, 0 < a.toNat → a.toNat < secp256k1Prime →
      (u256InvModP mult a).toNat < secp256k1Prime ∧ (u256InvModP mult a).toNat * a.toNat % secp256k1Prime = 1 := by
  constructor
  · intro priv32 hLength hPos hLess
    have hSame := keyBelowOrder_of_lt hLength hLess
    have hLoop : ∀ out33, secp256k1PubkeyCreate mult out33 priv32 =
        affineToCompressed out33 (pointAfter mult (keyBits priv32)) := fun out33 => by
      rw [secp256k1PubkeyCreate_eq, hSame]
    have hPoint := standsFor_pointAfter hMult (keyBits priv32)
    rw [valueFrom_keyBits] at hPoint
    refine ⟨fun out33 => ?_, hLoop, fun bs _ => (standsFor_pointAfter hMult bs).inf_iff, fun bs _ => ?_⟩
    · rw [hLoop]
      exact affineToCompressed_eq hPoint (nsmul_generator_ne_zero hPos hLess) out33
    · have hDouble := standsFor_double hMult (standsFor_pointAfter hMult bs)
      rw [← add_nsmul, ← Nat.two_mul] at hDouble
      exact addBranch_eq hDouble standsFor_generator
  · intro a hPos hLess
    have hInverse := stands_inv hMult (a := a) ⟨hLess, rfl⟩
    have hne : (a.toNat : FieldP) ≠ 0 := by
      rw [Ne, ZMod.natCast_eq_zero_iff]
      exact fun hDvd => absurd (Nat.le_of_dvd hPos hDvd) (by omega)
    refine ⟨hInverse.less, ?_⟩
    have hOne : (((u256InvModP mult a).toNat * a.toNat : ℕ) : FieldP) = ((1 : ℕ) : FieldP) := by
      rw [Nat.cast_mul, hInverse.cast, inv_mul_cancel₀ hne, Nat.cast_one]
    exact (ZMod.natCast_eq_natCast_iff' _ _ secp256k1Prime).mp hOne

/-- The words of a number below 2²⁵⁶. -/
def U64x4.ofNat (n : ℕ) : U64x4 :=
  ⟨UInt64.ofNat n, UInt64.ofNat (n / 2 ^ 64), UInt64.ofNat (n / 2 ^ 128), UInt64.ofNat (n / 2 ^ 192)⟩

theorem U64x4.toNat_ofNat {n : ℕ} (h : n < 2 ^ 256) : (U64x4.ofNat n).toNat = n := by
  simp only [U64x4.toNat, U64x4.ofNat, UInt64.toNat_ofNat']
  omega

def exactMult (a b : U64x4) : U64x4 := U64x4.ofNat (a.toNat * b.toNat % secp256k1Prime)

theorem exactMult_exact : ExactMult exactMult := by
  intro a b
  rw [exactMult, U64x4.toNat_ofNat ((Nat.mod_lt _ (by decide)).trans prime_lt), Nat.mod_mod]

theorem compressed_generator : compressed generator = some (0x02 :: Sha2.bigEndian 32 generatorX) := by
  have hX : (generatorX : FieldP).val = generatorX := ZMod.val_natCast_of_lt (by decide)
  have hY : (generatorY : FieldP).val = generatorY := ZMod.val_natCast_of_lt (by decide)
  rw [compressed, coords_generator, Option.map_some, hX, hY]
  rfl

/-- The key one gives the generator. -/
theorem pubkey_create_one :
    some (secp256k1PubkeyCreate exactMult [] (List.replicate 31 0 ++ [1])) =
      some (0x02 :: Sha2.bigEndian 32 generatorX) := by
  have hOne : keyNumber (List.replicate 31 0 ++ [1]) = 1 := by decide
  have hKey := (pubkey_create_correct exactMult_exact).1 (List.replicate 31 0 ++ [1]) rfl (by decide) (by decide)
  rw [hKey.encoded, hOne, one_nsmul, compressed_generator]

end Bloodhound.Scanner
