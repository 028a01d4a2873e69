import NumericSteps.Proofs.Double.Order

namespace NumericSteps.Double

open Float.Model (Format UnpackedFloat)
open Float.Model.UnpackedFloat

section Unpacked

variable {spec : Format} {u v : UnpackedFloat}

/-- What is left of a result in the bits of a double. -/
def settled (u : UnpackedFloat) : UnpackedFloat := unpack .binary64 (pack .binary64 u)

theorem settled_of_not_finite (h : u.isFinite = false) : settled u = u := by
  cases u with
  | notANumber => rfl
  | infinity s => cases s <;> rfl
  | zero s => cases h
  | finite s m e hm => cases h

/-- Only the sign of what is read back depends on the sign that was packed. -/
theorem unpack_packComponents_neg (s : Sign) (e : BitVec 11) (m : BitVec 52) :
    unpack .binary64 (packComponents .binary64 (-s) e m) =
      (unpack .binary64 (packComponents .binary64 s e m)).neg := by
  have hsign (s : Sign) : Sign.ofBitVec (unpackSign (packComponents .binary64 s e m)) = s := by
    rw [unpackSign_packComponents]
    cases s <;> rfl
  unfold unpack
  simp only [unpackExponent_packComponents, unpackMantissa_packComponents, hsign]
  split
  · split <;> rfl
  · split
    · split <;> rfl
    · rfl

theorem settled_neg (u : UnpackedFloat) : settled u.neg = (settled u).neg := by
  cases u with
  | notANumber => rfl
  | infinity s => cases s <;> rfl
  | zero s => cases s <;> rfl
  | finite s m e hm =>
    simp only [settled, UnpackedFloat.neg, pack]
    split
    · exact unpack_packComponents_neg s _ _
    · split <;> exact unpack_packComponents_neg s _ _

/-- Positive infinity, or no number. -/
def IsLost (u : UnpackedFloat) : Prop := u = .infinity .positive ∨ u = .notANumber

theorem IsLost.isFinite (h : IsLost u) : u.isFinite = false := by
  rcases h with rfl | rfl <;> rfl

theorem IsLost.settled (h : IsLost u) : IsLost (settled u) := by
  rw [settled_of_not_finite h.isFinite]
  exact h

theorem add_comm (spec : Format) (u v : UnpackedFloat) :
    UnpackedFloat.add spec u v = UnpackedFloat.add spec v u := by
  cases u with
  | notANumber => cases v <;> rfl
  | infinity s =>
    cases v with
    | infinity s' => cases s <;> cases s' <;> rfl
    | _ => rfl
  | zero s =>
    cases v with
    | zero s' => cases s <;> cases s' <;> rfl
    | _ => rfl
  | finite s m e hm =>
    cases v with
    | finite s' m' e' hm' =>
      simp only [UnpackedFloat.add]
      rw [Int.min_comm, Int.add_comm]
    | _ => rfl

/-- An infinity of the other sign does not bring a sum back. -/
theorem IsLost.add_left (h : IsLost u) (v : UnpackedFloat) : IsLost (UnpackedFloat.add spec u v) := by
  rcases h with rfl | rfl
  · cases v with
    | notANumber => exact Or.inr rfl
    | infinity s =>
      cases s with
      | positive => exact Or.inl rfl
      | negative => exact Or.inr rfl
    | zero s => exact Or.inl rfl
    | finite s m e hm => exact Or.inl rfl
  · cases v <;> exact Or.inr rfl

theorem IsLost.sqrt (h : IsLost u) : IsLost (UnpackedFloat.sqrt spec u) := by
  rcases h with rfl | rfl
  · exact Or.inl rfl
  · exact Or.inr rfl

theorem IsLost.compare_ne_lt (h : IsLost u) (v : UnpackedFloat) : u.compare v ≠ some .lt := by
  rcases h with rfl | rfl
  · cases v with
    | infinity s => cases s <;> exact nofun
    | _ => exact nofun
  · cases v <;> exact nofun

theorem isLost_square (h : u.isFinite = false) : IsLost (UnpackedFloat.mul spec u u) := by
  cases u with
  | notANumber => exact Or.inr rfl
  | infinity s => cases s <;> exact Or.inl rfl
  | zero s => cases h
  | finite s m e hm => cases h

theorem isFinite_sub (h : u.isFinite = false ∨ v.isFinite = false) :
    (UnpackedFloat.sub spec u v).isFinite = false := by
  cases u with
  | notANumber => cases v <;> rfl
  | infinity s =>
    cases v with
    | infinity s' => cases s <;> cases s' <;> rfl
    | _ => rfl
  | zero s => cases v <;> simp_all [UnpackedFloat.sub, UnpackedFloat.isFinite]
  | finite s m e hm => cases v <;> simp_all [UnpackedFloat.sub, UnpackedFloat.isFinite]

theorem roundWithAccuracy_neg (s : Sign) (m : Nat) (e : Int) (a : Accuracy) :
    roundWithAccuracy spec (-s) m e a = (roundWithAccuracy spec s m e a).neg := by
  unfold roundWithAccuracy
  dsimp only
  split <;> rfl

/-- A difference of zero is positive zero either way round. -/
theorem normalize_neg (n e : Int) :
    UnpackedFloat.normalize spec (-n) e .positive = UnpackedFloat.normalize spec n e .positive ∨
      UnpackedFloat.normalize spec (-n) e .positive =
        (UnpackedFloat.normalize spec n e .positive).neg := by
  rcases Int.lt_trichotomy n 0 with hn | rfl | hn
  · have hneg : compare n 0 = .lt := Int.compare_eq_lt.2 hn
    have hpos : compare (-n) 0 = .gt := Int.compare_eq_gt.2 (by omega)
    right
    simp only [UnpackedFloat.normalize, hneg, hpos]
    exact roundWithAccuracy_neg .negative _ _ _
  · exact Or.inl rfl
  · have hpos : compare n 0 = .gt := Int.compare_eq_gt.2 hn
    have hneg : compare (-n) 0 = .lt := Int.compare_eq_lt.2 (by omega)
    right
    simp only [UnpackedFloat.normalize, hneg, hpos, Int.neg_neg]
    exact roundWithAccuracy_neg .positive _ _ _

theorem sub_swap (spec : Format) (u v : UnpackedFloat) :
    UnpackedFloat.sub spec v u = UnpackedFloat.sub spec u v ∨
      UnpackedFloat.sub spec v u = (UnpackedFloat.sub spec u v).neg := by
  cases u with
  | notANumber => cases v <;> exact Or.inl rfl
  | infinity s =>
    cases v with
    | notANumber => exact Or.inl rfl
    | infinity s' => cases s <;> cases s' <;> exact Or.inr rfl
    | zero s' => exact Or.inr rfl
    | finite s' m e hm => exact Or.inr rfl
  | zero s =>
    cases v with
    | notANumber => exact Or.inl rfl
    | infinity s' => cases s' <;> exact Or.inr rfl
    | zero s' =>
      cases s with
      | positive =>
        cases s' with
        | positive => exact Or.inl rfl
        | negative => exact Or.inr rfl
      | negative =>
        cases s' with
        | positive => exact Or.inr rfl
        | negative => exact Or.inl rfl
    | finite s' m e hm => cases s' <;> exact Or.inr rfl
  | finite s m e hm =>
    cases v with
    | notANumber => exact Or.inl rfl
    | infinity s' => cases s' <;> exact Or.inr rfl
    | zero s' => exact Or.inr rfl
    | finite s' m' e' hm' =>
      simp only [UnpackedFloat.sub]
      rw [Int.min_comm e' e, ← Int.neg_sub]
      exact normalize_neg _ _

theorem mul_neg_neg (u : UnpackedFloat) :
    UnpackedFloat.mul spec u.neg u.neg = UnpackedFloat.mul spec u u := by
  cases u with
  | notANumber => rfl
  | infinity s => cases s <;> rfl
  | zero s => cases s <;> rfl
  | finite s m e hm => cases s <;> rfl

/-- Zero, of either sign. -/
def IsZero (u : UnpackedFloat) : Prop := ∃ s, u = .zero s

theorem IsZero.settled (h : IsZero u) : IsZero (settled u) := by
  obtain ⟨s, rfl⟩ := h
  exact ⟨s, by cases s <;> rfl⟩

theorem IsZero.add (hu : IsZero u) (hv : IsZero v) : IsZero (UnpackedFloat.add spec u v) := by
  obtain ⟨s, rfl⟩ := hu
  obtain ⟨s', rfl⟩ := hv
  cases s <;> cases s' <;> exact ⟨_, rfl⟩

theorem IsZero.square (h : IsZero u) : IsZero (UnpackedFloat.mul spec u u) := by
  obtain ⟨s, rfl⟩ := h
  exact ⟨s * s, rfl⟩

theorem IsZero.sqrt (h : IsZero u) : IsZero (UnpackedFloat.sqrt spec u) := by
  obtain ⟨s, rfl⟩ := h
  exact ⟨s, rfl⟩

theorem IsZero.compare_eq (hu : IsZero u) (hv : IsZero v) (w : UnpackedFloat) :
    u.compare w = v.compare w := by
  obtain ⟨s, rfl⟩ := hu
  obtain ⟨s', rfl⟩ := hv
  cases w with
  | notANumber => rfl
  | infinity t => cases t <;> rfl
  | zero t => rfl
  | finite t m e hm => cases t <;> rfl

theorem isZero_sub_self (h : u.isFinite = true) : IsZero (UnpackedFloat.sub spec u u) := by
  cases u with
  | notANumber => cases h
  | infinity s => cases h
  | zero s => exact ⟨.positive, by cases s <;> rfl⟩
  | finite s m e hm =>
    refine ⟨.positive, ?_⟩
    simp only [UnpackedFloat.sub, Int.sub_self]
    rfl

end Unpacked

section Doubles

variable {x y : Float}

theorem eq_of_unpack_eq (h : x.toModel.unpack = y.toModel.unpack) : x = y := by
  have hbits : x.toModel.toBits.toBitVec = y.toModel.toBits.toBitVec :=
    (unpack_inj_of_valid x.toModel.valid y.toModel.valid).1 h
  rw [← ofBits_toBits x, ← ofBits_toBits y]
  exact congrArg Float.ofBits (UInt64.toBitVec_inj.1 hbits)

theorem settled_unpack (x : Float) : settled x.toModel.unpack = x.toModel.unpack :=
  congrArg (unpack .binary64) (pack_unpack x.toModel.valid)

theorem unpack_abs (x : Float) : x.abs.toModel.unpack = x.toModel.unpack.abs := by
  have hx := settled_unpack x
  change settled x.toModel.unpack.abs = _
  generalize x.toModel.unpack = u at hx ⊢
  have habs : u.abs = u ∨ u.abs = u.neg := by
    cases u with
    | notANumber => exact Or.inl rfl
    | infinity s | zero s | finite s m e hm =>
      cases s with
      | positive => exact Or.inl rfl
      | negative => exact Or.inr rfl
  rcases habs with h | h
  · rw [h, hx]
  · rw [h, settled_neg, hx]

theorem isNaN_abs (x : Float) : x.abs.isNaN = x.isNaN := by
  change x.abs.toModel.unpack.isNaN = x.toModel.unpack.isNaN
  rw [unpack_abs]
  cases x.toModel.unpack <;> rfl

theorem unpack_add (x y : Float) : (x + y).toModel.unpack =
    settled (UnpackedFloat.add .binary64 x.toModel.unpack y.toModel.unpack) := rfl

theorem unpack_sub (x y : Float) : (x - y).toModel.unpack =
    settled (UnpackedFloat.sub .binary64 x.toModel.unpack y.toModel.unpack) := rfl

theorem unpack_mul (x y : Float) : (x * y).toModel.unpack =
    settled (UnpackedFloat.mul .binary64 x.toModel.unpack y.toModel.unpack) := rfl

theorem unpack_sqrt (x : Float) : x.sqrt.toModel.unpack =
    settled (UnpackedFloat.sqrt .binary64 x.toModel.unpack) := rfl

def Lost (x : Float) : Prop := IsLost x.toModel.unpack

theorem Lost.isFinite (h : Lost x) : x.isFinite = false := IsLost.isFinite h

theorem Lost.add_left (h : Lost x) (y : Float) : Lost (x + y) := by
  rw [Lost, unpack_add]
  exact (IsLost.add_left h _).settled

theorem Lost.add_right (h : Lost y) (x : Float) : Lost (x + y) := by
  rw [Lost, unpack_add, add_comm]
  exact (IsLost.add_left h _).settled

theorem Lost.sqrt (h : Lost x) : Lost x.sqrt := by
  rw [Lost, unpack_sqrt]
  exact (IsLost.sqrt h).settled

theorem Lost.not_lt (h : Lost x) (y : Float) : ¬ x < y := by
  rw [lt_iff_compare]
  exact IsLost.compare_ne_lt h _

theorem lost_square (h : x.isFinite = false) : Lost (x * x) := by
  rw [Lost, unpack_mul]
  exact (isLost_square h).settled

theorem isFinite_sub_eq_false (h : x.isFinite = false ∨ y.isFinite = false) :
    (x - y).isFinite = false := by
  have hsub : (UnpackedFloat.sub .binary64 x.toModel.unpack y.toModel.unpack).isFinite = false :=
    isFinite_sub h
  change (x - y).toModel.unpack.isFinite = false
  rw [unpack_sub, settled_of_not_finite hsub]
  exact hsub

/-- The order of the operands does not show in the square of a difference. -/
theorem square_sub_comm (x y : Float) : (x - y) * (x - y) = (y - x) * (y - x) := by
  apply eq_of_unpack_eq
  rw [unpack_mul, unpack_mul, unpack_sub x y, unpack_sub y x]
  rcases sub_swap .binary64 x.toModel.unpack y.toModel.unpack with hsame | hneg
  · rw [hsame]
  · rw [hneg, settled_neg, mul_neg_neg]

def Null (x : Float) : Prop := IsZero x.toModel.unpack

theorem null_sub_self (h : x.isFinite = true) : Null (x - x) := by
  rw [Null, unpack_sub]
  exact (isZero_sub_self h).settled

theorem Null.add_square (hx : Null x) (hy : Null y) : Null (x + y * y) := by
  rw [Null, unpack_add, unpack_mul]
  exact (IsZero.add hx (IsZero.square hy).settled).settled

theorem Null.sqrt (h : Null x) : Null x.sqrt := by
  rw [Null, unpack_sqrt]
  exact (IsZero.sqrt h).settled

/-- Negative zero is below the same values as positive zero. -/
theorem Null.lt_iff (hx : Null x) (hy : Null y) (z : Float) : x < z ↔ y < z := by
  rw [lt_iff_compare, lt_iff_compare, IsZero.compare_eq hx hy]

end Doubles

end NumericSteps.Double
