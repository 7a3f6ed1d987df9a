import Mathlib

/-! Finite floating-point numbers are ordered by sign, exponent and mantissa, and negation turns
this order around. -/
namespace FloatOrder

open Float.Model Float.Model.UnpackedFloat

/-- The leading bit of a normal number. -/
theorem toNat_one_append (m : BitVec 52) : (1#1 ++ m).toNat = 2 ^ 52 + m.toNat := by
  have hlt := m.isLt
  rw [BitVec.toNat_append, Nat.shiftLeft_eq, BitVec.toNat_ofNat]
  rw [show (1 % 2 ^ 1 * 2 ^ 52 : ℕ) = 2 ^ 52 * 1 from rfl, ← Nat.two_pow_add_eq_or_of_lt hlt,
    Nat.mul_one]

def ofParts (s : Sign) (e : BitVec 11) (m : BitVec 52) : UnpackedFloat :=
  if e = -1#11 then (if m = 0#52 then .infinity s else .notANumber)
  else if e = 0#11 then
    if h : m = 0#52 then .zero s
    else .finite s m.toNat ((e.toNat : ℤ) - ((1023 : ℕ) + (52 : ℕ)) + 1)
      (by simpa [BitVec.toNat_pos, BitVec.pos_iff_ne_zero])
  else .finite s (1#1 ++ m).toNat ((e.toNat : ℤ) - ((1023 : ℕ) + (52 : ℕ)))
      (by rw [toNat_one_append]; omega)

theorem unpack_eq_ofParts (b : BitVec 64) : UnpackedFloat.unpack Format.binary64 b =
    ofParts (Sign.ofBitVec (@unpackSign Format.binary64 b)) (@unpackExponent Format.binary64 b)
      (@unpackMantissa Format.binary64 b) :=
  rfl

theorem neg_ofParts (s : Sign) (e : BitVec 11) (m : BitVec 52) :
    (ofParts s e m).neg = ofParts (-s) e m := by
  unfold ofParts
  split_ifs <;> rfl

theorem ofBitVec_toBitVec (s : Sign) : Sign.ofBitVec s.toBitVec = s := by
  cases s <;> rfl

theorem unpackSign_parts (s : Sign) (e : BitVec 11) (m : BitVec 52) :
    unpackSign (packComponents Format.binary64 s e m) = s.toBitVec := by
  have hlast : (s.toBitVec ++ e ++ m).getLsbD 63 = s.toBitVec.getLsbD 0 := by
    rw [BitVec.getLsbD_append, BitVec.getLsbD_append]
    rfl
  ext i hi
  obtain rfl : i = 0 := by omega
  simp [unpackSign, packComponents]
  exact hlast

theorem unpack_parts (s : Sign) (e : BitVec 11) (m : BitVec 52) :
    UnpackedFloat.unpack Format.binary64 (packComponents Format.binary64 s e m) =
      ofParts s e m := by
  rw [unpack_eq_ofParts, unpackSign_parts, ofBitVec_toBitVec, unpackExponent_packComponents,
    unpackMantissa_packComponents]

/-- A finite number is packed into the fields that it has come from. -/
theorem pack_ofParts {s : Sign} {e : BitVec 11} {m : BitVec 52} (h : (ofParts s e m).isFinite) :
    UnpackedFloat.pack Format.binary64 (ofParts s e m) = packComponents Format.binary64 s e m := by
  have hmlt := m.isLt
  have helt := e.isLt
  unfold ofParts at h ⊢
  split_ifs at h ⊢ with hones hzero hzero hmzero
  · simp [UnpackedFloat.isFinite] at h
  · simp [UnpackedFloat.isFinite] at h
  · rw [hzero, hmzero]
    rfl
  · have hne : m.toNat ≠ 0 := fun heq => hmzero (BitVec.eq_of_toNat_eq heq)
    have hlog : m.toNat.log2 < 52 := (Nat.log2_lt hne).mpr hmlt
    have hbias :
      ((((0#11).toNat : ℤ) - ((1023 : ℕ) + (52 : ℕ)) + 1 + (Format.binary64.exponentBias : ℕ) +
      (Format.binary64.mantissaBitsWithoutImplicit : ℕ)).toNat) = 1 := by decide
    have hbits : ¬ m.toNat.log2 + 1 = Format.binary64.mantissaBits := by
      change ¬ m.toNat.log2 + 1 = 53
      omega
    rw [hzero, UnpackedFloat.pack, hbias, if_neg (by decide), if_neg hbits, BitVec.ofNat_toNat,
      BitVec.setWidth_eq]
  · have hne : (1#1 ++ m).toNat ≠ 0 := by
      rw [toNat_one_append]
      omega
    have hlog : (1#1 ++ m).toNat.log2 = 52 := by
      rw [Nat.log2_eq_iff hne, toNat_one_append]
      omega
    have hexponent : e.toNat + 1 < 2 ^ 11 := by
      have hlast : e.toNat ≠ 2 ^ 11 - 1 := fun heq => hones (BitVec.eq_of_toNat_eq heq)
      omega
    have hbias : (((e.toNat : ℤ) - ((1023 : ℕ) + (52 : ℕ)) + (Format.binary64.exponentBias : ℕ) +
        (Format.binary64.mantissaBitsWithoutImplicit : ℕ)).toNat) = e.toNat := by
      change ((e.toNat : ℤ) - ((1023 : ℕ) + (52 : ℕ)) + (1023 : ℕ) + (52 : ℕ)).toNat = e.toNat
      omega
    have hbits : (1#1 ++ m).toNat.log2 + 1 = Format.binary64.mantissaBits := by
      rw [hlog]
      rfl
    have hmantissa : BitVec.ofNat 52 (1#1 ++ m).toNat = m := by
      apply BitVec.eq_of_toNat_eq
      rw [BitVec.toNat_ofNat, toNat_one_append]
      omega
    rw [UnpackedFloat.pack, hbias, if_neg (Nat.not_le_of_lt hexponent), if_pos hbits,
      BitVec.ofNat_toNat, BitVec.setWidth_eq, hmantissa]

theorem unpack_neg {x : Float.Model} (h : x.unpack.isFinite) : (-x).unpack = x.unpack.neg := by
  have hx := unpack_eq_ofParts x.toBits.toBitVec
  set s := Sign.ofBitVec (@unpackSign Format.binary64 x.toBits.toBitVec)
  set e := @unpackExponent Format.binary64 x.toBits.toBitVec
  set m := @unpackMantissa Format.binary64 x.toBits.toBitVec
  have hunpack : x.unpack = ofParts s e m := hx
  have hfinite : (ofParts (-s) e m).isFinite := by
    rw [hunpack] at h
    rw [← neg_ofParts]
    cases hparts : ofParts s e m <;> simp_all [UnpackedFloat.neg, UnpackedFloat.isFinite]
  have hneg : (-x).unpack =
      UnpackedFloat.unpack Format.binary64 (UnpackedFloat.pack Format.binary64 x.unpack.neg) := rfl
  rw [hneg, hunpack, neg_ofParts, pack_ofParts hfinite, unpack_parts]

/-! The order. -/

/-- The place of a finite number; both zeros are at the origin. -/
def place : UnpackedFloat → ℤ ×ₗ ℤ ×ₗ ℤ
  | .finite .positive m e _ => toLex (1, toLex (e, (m : ℤ)))
  | .finite .negative m e _ => toLex (-1, toLex (-e, -(m : ℤ)))
  | _ => toLex (0, toLex (0, 0))

theorem lt_iff_place {a b : UnpackedFloat} (ha : a.isFinite) (hb : b.isFinite) :
    a.lt b = true ↔ place a < place b := by
  cases a <;> cases b <;> simp [UnpackedFloat.isFinite] at ha hb
  case zero.zero s t =>
    simp [UnpackedFloat.lt, UnpackedFloat.compare, place]
  case zero.finite s t m e hm =>
    cases t <;> simp [UnpackedFloat.lt, UnpackedFloat.compare, place, Prod.Lex.toLex_lt_toLex]
  case finite.zero s m e hm t =>
    cases s <;> simp [UnpackedFloat.lt, UnpackedFloat.compare, place, Prod.Lex.toLex_lt_toLex]
  case finite.finite s m e hm t m' e' hm' =>
    cases s <;> cases t <;> simp [UnpackedFloat.lt, UnpackedFloat.compare, place,
      Prod.Lex.toLex_lt_toLex, Ordering.then_eq_lt, Ordering.then_eq_gt, compare_lt_iff_lt,
      compare_gt_iff_gt]

theorem beq_iff_place {a b : UnpackedFloat} (ha : a.isFinite) (hb : b.isFinite) :
    a.beq b = true ↔ place a = place b := by
  cases a <;> cases b <;> simp [UnpackedFloat.isFinite] at ha hb
  case zero.zero s t =>
    simp [UnpackedFloat.beq, UnpackedFloat.compare, place]
  case zero.finite s t m e hm =>
    cases t <;> simp [UnpackedFloat.beq, UnpackedFloat.compare, place]
  case finite.zero s m e hm t =>
    cases s <;> simp [UnpackedFloat.beq, UnpackedFloat.compare, place]
  case finite.finite s m e hm t m' e' hm' =>
    cases s <;> cases t <;> simp [UnpackedFloat.beq, UnpackedFloat.compare, place]

/-- Negation turns the order around. -/
theorem place_neg_lt {a b : UnpackedFloat} : place a.neg < place b.neg ↔ place b < place a := by
  cases a with
  | finite s m e hm =>
    cases b with
    | finite t m' e' hm' =>
      cases s <;> cases t <;> simp [UnpackedFloat.neg, place, Prod.Lex.toLex_lt_toLex] <;> omega
    | _ => cases s <;> simp [UnpackedFloat.neg, place, Prod.Lex.toLex_lt_toLex]
  | _ =>
    cases b with
    | finite t m' e' hm' =>
      cases t <;> simp [UnpackedFloat.neg, place, Prod.Lex.toLex_lt_toLex]
    | _ => simp [UnpackedFloat.neg, place]

theorem place_neg_eq {a b : UnpackedFloat} : place a.neg = place b.neg ↔ place a = place b := by
  rw [le_antisymm_iff, le_antisymm_iff, ← not_lt, ← not_lt, ← not_lt, ← not_lt, place_neg_lt,
    place_neg_lt, and_comm]

/-- The place of a number of Python. -/
def key (x : Float) : ℤ ×ₗ ℤ ×ₗ ℤ := place x.toModel.unpack

theorem lt_iff_key {x y : Float} (hx : x.isFinite) (hy : y.isFinite) : x < y ↔ key x < key y := by
  have hlt : x < y ↔ x.toModel.unpack.lt y.toModel.unpack = true := by
    change decide (x.toModel < y.toModel) = true ↔ _
    rw [decide_eq_true_iff]
    rfl
  rw [hlt]
  exact lt_iff_place hx hy

theorem beq_iff_key {x y : Float} (hx : x.isFinite) (hy : y.isFinite) :
    (x == y) = true ↔ key x = key y :=
  beq_iff_place hx hy

theorem unpack_neg_float {x : Float} (hx : x.isFinite) :
    (-x).toModel.unpack = x.toModel.unpack.neg :=
  unpack_neg hx

theorem isFinite_neg {x : Float} (hx : x.isFinite) : (-x).isFinite := by
  have hfinite : x.toModel.unpack.isFinite = true := hx
  have hneg : x.toModel.unpack.neg.isFinite = true := by
    cases hunpack : x.toModel.unpack <;> simp_all [UnpackedFloat.neg, UnpackedFloat.isFinite]
  rw [← unpack_neg_float hx] at hneg
  exact hneg

theorem neg_lt_neg_iff_key {x y : Float} (hx : x.isFinite) (hy : y.isFinite) :
    -x < -y ↔ key y < key x := by
  rw [lt_iff_key (isFinite_neg hx) (isFinite_neg hy), key, key, unpack_neg_float hx,
    unpack_neg_float hy]
  exact place_neg_lt

theorem neg_beq_neg_iff_key {x y : Float} (hx : x.isFinite) (hy : y.isFinite) :
    (-x == -y) = true ↔ key x = key y := by
  rw [beq_iff_key (isFinite_neg hx) (isFinite_neg hy), key, key, unpack_neg_float hx,
    unpack_neg_float hy]
  exact place_neg_eq

end FloatOrder
