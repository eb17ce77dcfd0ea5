import ShapeSchema.Proofs.Binary64.Nearest
import ShapeSchema.Proofs.Schema.Encoding
import ShapeSchema.Proofs.Schema.Meaning

/-!
# Literals that are numbers

The schema of a numeric literal names the literal as its constant. A whole-number literal accepts only
itself. A floating point literal accepts every number that is rounded to it, and that is the constant
just if the number is a double at all.
-/

namespace ShapeSchema

/-! ## The values of numbers -/

namespace Number

/-- The number, counted in smallest doubles. -/
def scaled : Number → Int
  | .int i => i * 2 ^ 1074
  | .float x => x.scaled

/-- The number that is written. -/
def value : Number → ℚ
  | .int i => i
  | .float x => x.value

/-- Some double is this number. -/
def IsDouble (n : Number) : Prop := ∃ x : Double, x.value = n.value

theorem value_eq (n : Number) : n.value = n.scaled / 2 ^ 1074 := by
  cases n with
  | int i =>
    rw [value, scaled, Int.cast_mul, Int.cast_pow, Int.cast_ofNat]
    exact (mul_div_cancel_right₀ _ (pow_ne_zero _ two_ne_zero)).symm
  | float x => rfl

theorem value_eq_iff {m n : Number} : m.value = n.value ↔ m.scaled = n.scaled := by
  rw [value_eq, value_eq, div_left_inj' (pow_ne_zero _ two_ne_zero), Int.cast_inj]

theorem abs_value_sub_le {l m n : Number}
    (h : (l.scaled - n.scaled).natAbs ≤ (m.scaled - n.scaled).natAbs) :
    |l.value - n.value| ≤ |m.value - n.value| := by
  have hdistance : ∀ k : Number,
      |k.value - n.value| = ((k.scaled - n.scaled).natAbs : ℚ) / 2 ^ 1074 := fun k => by
    rw [value_eq, value_eq, ← sub_div, ← Int.cast_sub, abs_div, Nat.cast_natAbs, Int.cast_abs,
      abs_of_pos (show (0 : ℚ) < 2 ^ 1074 from pow_pos two_pos _)]
  rw [hdistance, hdistance]
  exact div_le_div_of_nonneg_right (Nat.cast_le.mpr h) (pow_pos two_pos _).le

theorem natAbs_lt_of_inRange {i : Int} (h : (int i).InRange) : i.natAbs < 2 ^ 64 := by
  rcases h with h | h <;> omega

/-- No double is nearer to a number than the one that is taken for it. -/
theorem toDouble_nearest {n : Number} (hn : n.InRange) (x : Double) :
    |n.toDouble.value - n.value| ≤ |x.value - n.value| := by
  cases n with
  | int i =>
    exact abs_value_sub_le (l := .float (.ofInt i)) (m := .float x) (n := .int i)
      (Double.ofInt_nearest (natAbs_lt_of_inRange hn) x)
  | float y =>
    show |y.value - y.value| ≤ _
    rw [sub_self, abs_zero]
    exact abs_nonneg _

/-- A number is taken exactly just if it is a double. -/
theorem toDouble_value_eq_iff {n : Number} (hn : n.InRange) :
    n.toDouble.value = n.value ↔ n.IsDouble := by
  constructor
  · exact fun h => ⟨n.toDouble, h⟩
  · rintro ⟨x, hx⟩
    have hnearest := toDouble_nearest hn x
    rw [hx, sub_self, abs_zero] at hnearest
    exact sub_eq_zero.mp (abs_nonpos_iff.mp hnearest)

/-- The whole numbers that are doubles: at most 53 bits, and zeros behind them. -/
theorem isDouble_int_iff {i : Int} :
    (int i).IsDouble ↔ ∃ m e, m < mantissaBound ∧ e ≤ 971 ∧ i.natAbs = m * 2 ^ e := by
  have hvalue : ∀ x : Double, x.value = (int i).value ↔ x.scaled = i * 2 ^ 1074 := fun x =>
    value_eq_iff (m := .float x)
  simp only [IsDouble, hvalue]
  constructor
  · rintro ⟨x, hx⟩
    have hunits : x.units = i.natAbs <<< 1074 := by
      rw [Double.mul_two_pow, Double.scaled] at hx
      split at hx <;> split at hx <;> omega
    have hexponent := x.exponent_le
    rcases Nat.le_total 1074 x.exponent with hle | hle
    · exact ⟨x.mantissa, x.exponent - 1074, x.mantissa_lt, by omega, Double.eq_mul_two_pow hle hunits⟩
    · -- The mantissa has a point in it, and zeros behind the point.
      have hmantissa : x.mantissa = i.natAbs * 2 ^ (1074 - x.exponent) :=
        Double.eq_mul_two_pow hle hunits.symm
      refine ⟨i.natAbs, 0, ?_, Nat.zero_le _, (Nat.mul_one _).symm⟩
      calc i.natAbs ≤ i.natAbs * 2 ^ (1074 - x.exponent) :=
          Nat.le_mul_of_pos_right _ (Nat.two_pow_pos _)
        _ = x.mantissa := hmantissa.symm
        _ < mantissaBound := x.mantissa_lt
  · rintro ⟨m, e, hm, he, hi⟩
    obtain ⟨x, hsign, hunits⟩ := Double.exists_units (i < 0) hm (e := e + 1074) (by omega)
    have hmagnitude : i.natAbs <<< 1074 = x.units := by
      rw [hunits, hi, Double.shiftLeft_mul_two_pow]
    refine ⟨x, ?_⟩
    rw [Double.mul_two_pow, hmagnitude, Double.scaled, hsign]
    simp only [decide_eq_true_eq]

end Number

/-! ## Literals and their constants -/

/-- The number that a numeric literal is. -/
def Literal.number? : Literal → Option Number
  | .int i => some (.int i)
  | .float (.finite x) => some (.float x)
  | _ => none

/-- Numbers are equal if their values are, and whole if these are. -/
def Reading.byValue : Reading where
  whole n := n.value.isInt
  constant c n := decide (c.value = n.value)

theorem Literal.admits_int {i : Int} {n : Number} :
    (Literal.int i).admits (.number n) = true ↔ n = .int i ∧ IsInt64 i := by
  rw [admits, beq_iff_eq, Number.toInt64?_eq_some]

/-- The numbers that are taken for the double. -/
theorem Literal.admits_float {x : Double} {n : Number} :
    (Literal.float (.finite x)).admits (.number n) = true ↔ x.value = n.toDouble.value := by
  rw [admits, Binary64.numEq, Double.numEq_iff_scaled]
  exact (Number.value_eq_iff (m := .float x) (n := .float n.toDouble)).symm

theorem Struct.node_literal {l : Literal} {f : Fragment} (hf : l.fragment? = some f)
    (config : Config) : ((Struct.literal l).node config).result = .ok ⟨f, true⟩ :=
  lower_eq_ok.mpr ⟨Nat.zero_le _, ⟨f, true⟩, lowerShape_leaf_eq_ok.mpr ⟨f, hf, rfl⟩, none, rfl, rfl⟩

/-- **Numeric literals.** The schema of a numeric literal has the literal as its constant. A number that
the literal accepts is that constant if the literal is a whole number; if it is a double, the constant
is one of the doubles nearest to the number, and it is the number itself just if that is a double. Under
the schema, with numbers compared by value, the number is valid just in these cases. A floating point
literal accepts every number that it is. -/
theorem numeric_literal (l : Literal) (c : Number) (hl : l.number? = some c) (config : Config) :
    ∃ node, ((Struct.literal l).node config).result = .ok node ∧
      Table.find? "const" node.schema = some (.number c) ∧
      (∀ n : Number, n.InRange → ∀ w, (Struct.literal l).encode (.number n) = .ok w →
        w = .number n ∧
        (∀ x : Double, c = .float x → ∀ y : Double, |x.value - n.value| ≤ |y.value - n.value|) ∧
        (c.value = n.value ↔ (∃ i, c = .int i) ∨ n.IsDouble) ∧
        (Reading.byValue.Valid w node.schema ↔ c.value = n.value)) ∧
      ∀ x : Double, c = .float x → ∀ n : Number, n.InRange → c.value = n.value →
        ∃ w, (Struct.literal l).encode (.number n) = .ok w := by
  cases l with
  | int i =>
    cases hl
    refine ⟨_, Struct.node_literal rfl config, rfl, ?_, by rintro x ⟨⟩⟩
    intro n hn w hw
    obtain ⟨hadmits, rfl⟩ := Struct.encode_leaf_eq_ok.mp hw
    obtain ⟨rfl, -⟩ := Literal.admits_int.mp hadmits
    refine ⟨rfl, ?_, iff_of_true rfl (.inl ⟨i, rfl⟩), iff_of_true ?_ rfl⟩
    · rintro x ⟨⟩
    · exact Reading.valid_integerConst.mpr ⟨_, rfl, rfl, decide_eq_true rfl⟩
  | float y =>
    cases y with
    | finite x =>
      cases hl
      refine ⟨_, Struct.node_literal rfl config, rfl, ?_, ?_⟩
      · intro n hn w hw
        obtain ⟨hadmits, rfl⟩ := Struct.encode_leaf_eq_ok.mp hw
        have hvalue : x.value = n.toDouble.value := Literal.admits_float.mp hadmits
        refine ⟨rfl, ?_, ?_, ?_⟩
        · rintro _ ⟨⟩ y
          rw [hvalue]
          exact Number.toDouble_nearest hn y
        · show x.value = n.value ↔ _
          rw [hvalue, Number.toDouble_value_eq_iff hn]
          simp
        · simp [Reading.valid_numberConst, Reading.byValue]
      · intro _ _ n hn hc
        have hdouble := (Number.toDouble_value_eq_iff hn).mpr ⟨x, hc⟩
        exact ⟨_, Struct.encode_leaf_eq_ok.mpr ⟨Literal.admits_float.mpr (hc.trans hdouble.symm), rfl⟩⟩
    | _ => cases hl
  | _ => cases hl

/-- The double `2 ^ 53`. -/
def twoPow53 : Double := ⟨false, leastNormal, 1075, by decide, by decide, by decide⟩

/-- Up to `2 ^ 53`, whole numbers are doubles. -/
theorem numeric_literal_twoPow53 :
    Literal.number? (.float (.finite twoPow53)) = some (.float twoPow53) ∧
      (Struct.literal (.float (.finite twoPow53))).encode (.int 0x20000000000000) =
        .ok (.int 0x20000000000000) ∧
      (Number.float twoPow53).value = (Number.int 0x20000000000000).value := by
  have hencode : (Struct.literal (.float (.finite twoPow53))).encode (.int 0x20000000000000) =
      .ok (.int 0x20000000000000) :=
    Struct.encode_leaf_eq_ok.mpr ⟨by decide +kernel, rfl⟩
  obtain ⟨_, -, -, haccepted, -⟩ := numeric_literal (.float (.finite twoPow53)) (.float twoPow53) rfl {}
  obtain ⟨-, -, hvalue, -⟩ := haccepted (.int 0x20000000000000) (by decide) _ hencode
  exact ⟨rfl, hencode, hvalue.mpr (.inr (Number.isDouble_int_iff.mpr
    ⟨leastNormal, 1, by decide, by decide, by decide⟩))⟩

/-- The whole number behind `2 ^ 53` is accepted as `2 ^ 53`, which it is not. -/
theorem twoPow53_accepts_next :
    (Struct.literal (.float (.finite twoPow53))).encode (.int 0x20000000000001) =
        .ok (.int 0x20000000000001) ∧
      (∃ node, ((Struct.literal (.float (.finite twoPow53))).node {}).result = .ok node ∧
        Table.find? "const" node.schema = some (.number (.float twoPow53))) ∧
      (Number.float twoPow53).value ≠ (Number.int 0x20000000000001).value := by
  refine ⟨Struct.encode_leaf_eq_ok.mpr ⟨by decide +kernel, rfl⟩,
    ⟨_, Struct.node_literal rfl {}, rfl⟩, ?_⟩
  rw [ne_eq, Number.value_eq_iff]
  decide +kernel

end ShapeSchema
