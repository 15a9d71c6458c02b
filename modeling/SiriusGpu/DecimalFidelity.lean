import SiriusGpu.DecimalExpressions
import SiriusGpu.FallibleMaps

/-!
# Decimal fidelity

An expression denotes a rational. The number delivered for a row is this rational exactly
when the executed column has the planned scale or the value is zero: a cast takes the id of
the planned type alone, so its column has scale 0.
-/

namespace DecimalFidelity

open GpuMemory GpuColumns ResultCollector HostColumns ResultChunks HalfAwayRounding NumericTypes
  DecimalExpressions
open DecimalScalars (Texts leftDecimalScalar rightDecimalScalar scalarFor)
open FallibleMaps (bind_ok_iff)
open IntegerArithmetic (getValueIn)

section Meaning

/-- What a type makes of a value: it is rounded to its digits, and has to be in range. -/
def checked (t : NumericType) (q : ℚ) : Option ℚ :=
  if t.Holds (roundTo t.scale q) then some (roundTo t.scale q / 10 ^ t.scale) else none

/-- The quotient is an operator of integers. -/
def BinaryOperator.apply : BinaryOperator → ℚ → ℚ → Option ℚ
  | .add, x, y => some (x + y)
  | .sub, x, y => some (x - y)
  | .mul, x, y => some (x * y)
  | .div, x, y => if y = 0 then none else some (truncate (x / y))
  | .mod, x, y => if y = 0 then none else some (x - y * truncate (x / y))

def scalesFor (op : BinaryOperator) (left right : Nat) : Bool :=
  op ≠ .div ∨ left = 0 ∧ right = 0

variable (columns : List GPUColumnType)

/-- The value of an expression for a row, when it is neither NULL nor an error. The result of
a function is not rounded: its type is planned to hold it. -/
def meaning : Expression → Row → Option ℚ
  | .reference index type, row => (row[index]?).join.map fun (raw : Int) =>
      (raw : ℚ) / 10 ^ type.scale
  | .constant value type, _ => some ((value : ℚ) / 10 ^ type.scale)
  | .cast child type, row => (meaning child row).bind (checked type)
  | .function op left right type, row =>
    (meaning left row).bind fun x => (meaning right row).bind fun y =>
      if scalesFor op left.returnType.scale right.returnType.scale then
        (BinaryOperator.apply op x y).bind fun q =>
          if checked type q = some q then some q else none
      else none
  | .caseWhen check result otherwise _, row =>
    if check row then meaning result row else meaning otherwise row

/-- Whether an expression is NULL for a row. -/
def isNull : Expression → Row → Bool
  | .reference index _, row => (row[index]?).join.isNone
  | .constant _ _, _ => false
  | .cast child _, row => isNull child row
  | .function _ left right _, row => isNull left row || isNull right row
  | .caseWhen check result otherwise _, row =>
    if check row then isNull result row else isNull otherwise row

/-- What is assumed of cudf: digits the new scale has no place for are cut off or rounded, and
arithmetic is exact where the type given has a representation of the result. -/
structure Exact (cudf : Cudf) : Prop where
  cast : ∀ source target raw, cudf.castable source target = true →
    let scaled := source.value raw * 10 ^ target.scale
    target.Fits (nearest scaled) →
      cudf.cast source target raw = truncate scaled ∨ cudf.cast source target raw = nearest scaled
  compute : ∀ op left right type x y q, cudf.computable op left right type = true →
    scalesFor op left.scale right.scale = true →
    BinaryOperator.apply op (left.value x) (right.value y) = some (type.value q) → type.Fits q →
      cudf.compute op left right type x y = q

end Meaning

section Typing

/-- A GPU column of the type planned for it. A decimal planned with 16 bytes may lie in a
smaller one. -/
def Agrees : NumericType → GPUColumnType → Prop
  | .smallint, .int16 | .integer, .int32 | .bigint, .int64 | .hugeint, .int64 => True
  | .decimal width scale, .decimal width' scale' =>
    scale = scale' ∧ (width ≤ 18 → decimalTypeSize width = decimalTypeSize width')
  | _, _ => False

def WellFormed : NumericType → Prop
  | .decimal width _ => width ≤ 38
  | _ => True

variable (columns : List GPUColumnType)

/-- What the binder guarantees of an expression. -/
def WellTyped : Expression → Prop
  | .reference index type => WellFormed type ∧ ∀ column, columns[index]? = some column →
      Agrees type column
  | .constant value type => WellFormed type ∧ type.Holds value
  | .cast child type => WellFormed type ∧ WellTyped child
  | .function _ left right type => WellFormed type ∧ WellTyped left ∧ WellTyped right
  | .caseWhen _ result otherwise type => WellFormed type ∧ WellTyped result ∧
      WellTyped otherwise ∧ result.returnType = type ∧ otherwise.returnType = type

/-- The values of a row are values of its columns. -/
def RowFits (row : Row) : Prop :=
  ∀ (index : Nat) type raw, columns[index]? = some type → row[index]? = some (some raw) →
    -(256 ^ getColumnTypeSize type : Int) ≤ 2 * raw ∧ 2 * raw < 256 ^ getColumnTypeSize type

/-- The type of the column an expression is executed as. -/
def executedType : Expression → Except Exception CudfType
  | .reference index _ =>
    match columns[index]? with
    | none => .error (.internal "Attempted to access index within vector")
    | some type => columnCudfType type
  | .constant _ type => getCudfType type
  | .cast _ type => CudfType.ofId <$> getCudfType type
  | .function _ _ _ type => getCudfType type
  | .caseWhen _ result _ _ => executedType result

def executedScale (e : Expression) : Nat :=
  match executedType columns e with
  | .ok type => type.scale
  | .error _ => 0

end Typing

section Losses

variable (columns : List GPUColumnType)

/-- A constant keeps its value as a scalar of the other side's type. -/
def ScalarFits (value : Int) (type : NumericType) (other : Expression) : Prop :=
  match type with
  | .decimal _ _ => ∀ cudfType, executedType columns other = .ok cudfType → cudfType.Fits value
  | _ => True

def ScalarsFit : Expression → Expression → Prop
  | .constant value type, right => ScalarFits columns value type right
  | left, .constant value type => ScalarFits columns value type left
  | _, _ => True

/-- `HUGEINT` is executed with 64 bits. -/
def InRange (type : NumericType) (q : ℚ) : Prop := type = .hugeint → CudfType.int64.Fits q.num

/-- No step of the expression loses anything of the value of a row. -/
def Lossless (row : Row) : Expression → Prop
  | .reference _ _ | .constant _ _ => True
  | .cast child type => Lossless row child ∧
      ∀ x ∈ meaning child row, x.den = 1 ∧ InRange type x
  | .function op left right type => Lossless row left ∧ Lossless row right ∧
      ScalarsFit columns left right ∧
      ∀ q ∈ meaning (.function op left right type) row, InRange type q
  | .caseWhen check result otherwise _ =>
    if check row then Lossless row result else Lossless row otherwise

/-- No step below a cast to a decimal loses anything, and the cast only what its scale has no
place for. -/
def OperandsLossless (row : Row) : Expression → Prop
  | .cast child type => Lossless columns row child ∧
      (type.scale = 0 → ∀ x ∈ meaning child row, x.den = 1)
  | .caseWhen check result otherwise _ =>
    if check row then OperandsLossless row result else OperandsLossless row otherwise
  | e => Lossless columns row e

end Losses

section Types

variable {columns : List GPUColumnType} {t : NumericType} {type : CudfType} {raw : Int}

theorem ofId_scale (type : CudfType) : type.ofId.scale = 0 := by
  cases type <;> rfl

theorem ofId_fits : type.ofId.Fits raw ↔ type.Fits raw := by
  cases type <;> rfl

theorem getCudfType_decimal {width scale : Nat}
    (cudfType : getCudfType (.decimal width scale) = .ok type) :
    decimalTypeSize width = 4 ∧ type = .decimal32 scale ∨
      decimalTypeSize width = 8 ∧ type = .decimal64 scale ∨
      decimalTypeSize width = 16 ∧ type = .decimal128 scale := by
  simp only [getCudfType] at cudfType
  split at cudfType <;> simp_all

theorem columnCudfType_decimal {width scale : Nat}
    (cudfType : columnCudfType (.decimal width scale) = .ok type) :
    decimalTypeSize width = 4 ∧ type = .decimal32 scale ∨
      decimalTypeSize width = 8 ∧ type = .decimal64 scale ∨
      decimalTypeSize width = 16 ∧ type = .decimal128 scale := by
  simp only [columnCudfType] at cudfType
  split at cudfType <;> simp_all

theorem getCudfType_scale (cudfType : getCudfType t = .ok type) : type.scale = t.scale := by
  cases t with
  | other => cases cudfType
  | decimal width scale =>
    rcases getCudfType_decimal cudfType with ⟨-, rfl⟩ | ⟨-, rfl⟩ | ⟨-, rfl⟩ <;> rfl
  | _ => cases cudfType; rfl

/-- A type holds no more than what the type of cudf has a representation for. -/
theorem fits_of_holds (formed : WellFormed t) (cudfType : getCudfType t = .ok type)
    (small : t ≠ .hugeint) (holds : t.Holds raw) : type.Fits raw := by
  cases t with
  | other => cases cudfType
  | hugeint => exact absurd rfl small
  | decimal width scale =>
    have bound : |raw| < 10 ^ width := holds
    rw [abs_lt] at bound
    have power : ∀ digits, width ≤ digits → (10 : Int) ^ width ≤ 10 ^ digits := fun digits le =>
      pow_le_pow_right₀ (by norm_num) le
    have inside : ∀ digits, width ≤ digits → 2 * 10 ^ digits ≤ (256 ^ type.size : Int) →
        type.Fits raw := by
      intro digits le room
      have := power digits le
      constructor <;> omega
    rcases getCudfType_decimal cudfType with ⟨size, rfl⟩ | ⟨size, rfl⟩ | ⟨size, rfl⟩
    · have le : width ≤ 9 := by
        unfold decimalTypeSize at size
        split_ifs at size <;> omega
      exact inside 9 le (by norm_num [CudfType.size])
    · have le : width ≤ 18 := by
        unfold decimalTypeSize at size
        split_ifs at size <;> omega
      exact inside 18 le (by norm_num [CudfType.size])
    · exact inside 38 formed (by norm_num [CudfType.size])
  | _ =>
    cases cudfType
    simp only [NumericType.Holds] at holds
    constructor <;> norm_num [CudfType.size] at holds ⊢ <;> omega

theorem agrees_scale {column : GPUColumnType} (agrees : Agrees t column)
    (cudfType : columnCudfType column = .ok type) : type.scale = t.scale := by
  cases t with
  | decimal width scale =>
    cases column with
    | decimal width' scale' =>
      obtain ⟨rfl, -⟩ := agrees
      rcases columnCudfType_decimal cudfType with ⟨-, rfl⟩ | ⟨-, rfl⟩ | ⟨-, rfl⟩ <;> rfl
    | _ => cases agrees
  | _ =>
    cases column <;> cases agrees <;> cases cudfType <;> rfl

theorem columnCudfType_size {column : GPUColumnType}
    (cudfType : columnCudfType column = .ok type) : type.size = getColumnTypeSize column := by
  cases column with
  | decimal width scale =>
    rcases columnCudfType_decimal cudfType with ⟨size, rfl⟩ | ⟨size, rfl⟩ | ⟨size, rfl⟩ <;>
      exact size.symm
  | _ => first | cases cudfType; rfl | cases cudfType

/-- An expression planned without digits is executed without digits. -/
theorem executedType_scale {e : Expression} (typed : WellTyped columns e)
    (none : e.returnType.scale = 0) (executed : executedType columns e = .ok type) :
    type.scale = 0 := by
  induction e with
  | reference index t =>
    unfold executedType at executed
    split at executed
    · cases executed
    · rename_i column found
      rw [agrees_scale (typed.2 column found) executed]
      exact none
  | constant value t => exact (getCudfType_scale executed).trans none
  | cast child t =>
    cases known : getCudfType t with
    | error e => rw [executedType, known] at executed; cases executed
    | ok type' =>
      rw [executedType, known] at executed
      cases executed
      exact ofId_scale type'
  | function op left right t => exact (getCudfType_scale executed).trans none
  | caseWhen check result otherwise t ihr iho =>
    have planned : result.returnType.scale = 0 := by
      rw [typed.2.2.2.1]
      exact none
    exact ihr typed.2.1 planned executed

theorem sameId_size {type' : CudfType} (same : type.sameId type' = true) :
    type.size = type'.size := by
  cases type <;> cases type' <;> first | rfl | simp [CudfType.sameId, CudfType.ofId] at same

theorem sameId_refl (type : CudfType) : type.sameId type = true := by
  simp [CudfType.sameId]

/-- Below 16 bytes an expression is executed as a type with the id of the planned one. -/
theorem executedType_sameId {e : Expression} {returnType : CudfType} (typed : WellTyped columns e)
    (executed : executedType columns e = .ok type)
    (known : getCudfType e.returnType = .ok returnType) (small : returnType.size ≠ 16) :
    type.sameId returnType = true := by
  induction e with
  | reference index t =>
    unfold executedType at executed
    split at executed
    · cases executed
    · rename_i column found
      have agrees := typed.2 column found
      unfold Expression.returnType at known
      cases t with
      | decimal width scale =>
        cases column with
        | decimal width' scale' =>
          have size : decimalTypeSize width = decimalTypeSize width' := by
            apply agrees.2
            rcases getCudfType_decimal known with ⟨h, -⟩ | ⟨h, -⟩ | ⟨-, rfl⟩
            · unfold decimalTypeSize at h
              split_ifs at h <;> omega
            · unfold decimalTypeSize at h
              split_ifs at h <;> omega
            · exact absurd rfl small
          rcases getCudfType_decimal known with ⟨h, rfl⟩ | ⟨h, rfl⟩ | ⟨-, rfl⟩
          · rcases columnCudfType_decimal executed with ⟨h', rfl⟩ | ⟨h', rfl⟩ | ⟨h', rfl⟩ <;>
              first | rfl | omega
          · rcases columnCudfType_decimal executed with ⟨h', rfl⟩ | ⟨h', rfl⟩ | ⟨h', rfl⟩ <;>
              first | rfl | omega
          · exact absurd rfl small
        | _ => cases agrees
      | _ =>
        cases column <;> cases agrees <;> cases executed <;> cases known <;> rfl
  | constant value t =>
    have same := executed.symm.trans known
    cases same
    exact sameId_refl _
  | cast child t =>
    unfold executedType at executed
    rw [show getCudfType t = .ok returnType from known] at executed
    cases executed
    cases returnType <;> rfl
  | function op left right t =>
    have same := executed.symm.trans known
    cases same
    exact sameId_refl _
  | caseWhen check result otherwise t ihr iho =>
    apply ihr typed.2.1 executed
    rw [typed.2.2.2.1]
    exact known

end Types

section Inversion

variable {cudf : Cudf} {columns : List GPUColumnType} {e left right : Expression}
  {t : NumericType} {type : CudfType} {column out : CudfType × Values}

theorem castColumn_inv (run : castColumn cudf type column = .ok out) :
    cudf.castable column.1 type = true ∧
      out = (type, fun row => (column.2 row).map (cudf.cast column.1 type)) := by
  unfold castColumn at run
  split at run
  · cases run
    constructor
    · assumption
    · rfl
  · cases run

theorem binaryOperation_inv {op : BinaryOperator} {a b : CudfType × Values}
    (run : binaryOperation cudf op a b type = .ok out) :
    cudf.computable op a.1 b.1 type = true ∧ out = (type, fun row => (a.2 row).bind fun x =>
      (b.2 row).map fun y => cudf.compute op a.1 b.1 type x y) := by
  unfold binaryOperation at run
  split at run
  · cases run
    constructor
    · assumption
    · rfl
  · cases run

theorem copyIfElse_inv {check : Row → Bool} {a b : CudfType × Values}
    (run : copyIfElse check a b = .ok out) :
    a.1 = b.1 ∧ out = (a.1, fun row => if check row then a.2 row else b.2 row) := by
  unfold copyIfElse at run
  split at run
  · cases run
    constructor
    · assumption
    · rfl
  · cases run

theorem execute_cast (run : execute cudf columns (.cast e t) = .ok out) :
    ∃ returnType column, getCudfType t = .ok returnType ∧ execute cudf columns e = .ok column ∧
      castColumn cudf returnType.ofId column = .ok out := by
  rw [execute] at run
  obtain ⟨returnType, known, run⟩ := bind_ok_iff.mp run
  obtain ⟨column, executed, run⟩ := bind_ok_iff.mp run
  exact ⟨returnType, column, known, executed, run⟩

theorem execute_case {check : Row → Bool}
    (run : execute cudf columns (.caseWhen check left right t) = .ok out) :
    ∃ a b, execute cudf columns left = .ok a ∧ execute cudf columns right = .ok b ∧
      copyIfElse check a b = .ok out := by
  rw [execute] at run
  obtain ⟨b, second, run⟩ := bind_ok_iff.mp run
  obtain ⟨a, first, run⟩ := bind_ok_iff.mp run
  exact ⟨a, b, first, second, run⟩

def IsConstant (e : Expression) : Prop := ∃ value t, e = .constant value t

/-- The sides of a function: columns, or a column and a scalar of a constant. -/
inductive Sides (cudf : Cudf) (columns : List GPUColumnType) :
    Expression → Expression → CudfType × Values → CudfType × Values → Prop
  | leftScalar {value constant right scalar raw b} :
    execute cudf columns right = .ok b →
      scalarOf (fun value left => leftDecimalScalar value left b.1) value constant =
        .ok (scalar, raw) →
      Sides cudf columns (.constant value constant) right (scalar, fun _ => some raw) b
  | rightScalar {left value constant a scalar raw} : ¬ IsConstant left →
    execute cudf columns left = .ok a →
      scalarOf (rightDecimalScalar a.1) value constant = .ok (scalar, raw) →
      Sides cudf columns left (.constant value constant) a (scalar, fun _ => some raw)
  | columns {left right a b} : execute cudf columns left = .ok a →
    execute cudf columns right = .ok b → Sides cudf columns left right a b

theorem execute_function {op : BinaryOperator}
    (run : execute cudf columns (.function op left right t) = .ok out) :
    ∃ a b returnType, Sides cudf columns left right a b ∧ getCudfType t = .ok returnType ∧
      binaryOperation cudf op a b returnType = .ok out := by
  by_cases first : IsConstant left
  · obtain ⟨value, constant, rfl⟩ := first
    rw [execute] at run
    obtain ⟨returnType, known, run⟩ := bind_ok_iff.mp run
    obtain ⟨column, executed, run⟩ := bind_ok_iff.mp run
    obtain ⟨scalar, made, run⟩ := bind_ok_iff.mp run
    exact ⟨_, _, returnType, .leftScalar executed made, known, run⟩
  · have other : ∀ value constant, left = .constant value constant → False :=
      fun value constant h => first ⟨value, constant, h⟩
    by_cases second : IsConstant right
    · obtain ⟨value, constant, rfl⟩ := second
      rw [execute.eq_5 _ _ _ _ _ _ _ other] at run
      obtain ⟨returnType, known, run⟩ := bind_ok_iff.mp run
      obtain ⟨column, executed, run⟩ := bind_ok_iff.mp run
      obtain ⟨scalar, made, run⟩ := bind_ok_iff.mp run
      exact ⟨_, _, returnType, .rightScalar first executed made, known, run⟩
    · rw [execute.eq_6 _ _ _ _ _ _ other fun value constant h =>
        second ⟨value, constant, h⟩] at run
      obtain ⟨a, executed, run⟩ := bind_ok_iff.mp run
      obtain ⟨b, executed', run⟩ := bind_ok_iff.mp run
      obtain ⟨returnType, known, run⟩ := bind_ok_iff.mp run
      exact ⟨a, b, returnType, .columns executed executed', known, run⟩

theorem integerValue_inv {value raw : Int} (made : integerValue type value = .ok raw) :
    raw = value ∧ type.Fits value := by
  unfold integerValue getValueIn at made
  split at made
  case isTrue inside =>
    cases made
    refine ⟨rfl, ?_⟩
    cases type <;> simp only [CudfType.size, CudfType.Fits] at inside ⊢ <;> norm_num at inside ⊢ <;>
      omega
  case isFalse => cases made

/-- A constant is one value for every row. -/
theorem makeColumnFromConstant_inv {value : Int}
    (run : makeColumnFromConstant value t = .ok out) :
    getCudfType t = .ok out.1 ∧ (∀ row, out.2 row = some value) ∧
      ((∃ width scale, t = .decimal width scale) ∨ out.1.Fits value) := by
  unfold makeColumnFromConstant at run
  obtain ⟨type, known, run⟩ := bind_ok_iff.mp run
  have decimals : ∀ scale, type = .decimal32 scale ∨ type = .decimal64 scale →
      ∃ width scale, t = .decimal width scale := by
    intro scale h
    cases t with
    | decimal width scale => exact ⟨width, scale, rfl⟩
    | other => cases known
    | _ => cases known; rcases h with h | h <;> cases h
  cases type with
  | decimal32 scale =>
    cases run
    exact ⟨known, fun _ => rfl, .inl (decimals scale (.inl rfl))⟩
  | decimal64 scale =>
    cases run
    exact ⟨known, fun _ => rfl, .inl (decimals scale (.inr rfl))⟩
  | decimal128 scale => cases run
  | _ =>
    obtain ⟨raw, made, run⟩ := bind_ok_iff.mp run
    cases run
    obtain ⟨rfl, fits⟩ := integerValue_inv made
    exact ⟨known, fun _ => rfl, .inr fits⟩

theorem execute_type (run : execute cudf columns e = .ok out) :
    executedType columns e = .ok out.1 := by
  induction e generalizing out with
  | reference index t =>
    unfold execute at run
    unfold executedType
    split at run
    · cases run
    · rename_i column found
      obtain ⟨type, known, run⟩ := bind_ok_iff.mp run
      cases run
      simpa only [found] using known
  | constant value t => exact (makeColumnFromConstant_inv run).1
  | cast child t ih =>
    obtain ⟨returnType, column, known, -, made⟩ := execute_cast run
    obtain ⟨-, rfl⟩ := castColumn_inv made
    rw [executedType, known]
    rfl
  | function op left right t =>
    obtain ⟨a, b, returnType, -, known, made⟩ := execute_function run
    obtain ⟨-, rfl⟩ := binaryOperation_inv made
    exact known
  | caseWhen check result otherwise t ihr iho =>
    obtain ⟨a, b, first, -, made⟩ := execute_case run
    obtain ⟨-, rfl⟩ := copyIfElse_inv made
    have known : executedType columns result = .ok a.1 := ihr first
    exact known

end Inversion

section Values

variable {cudf : Cudf} {columns : List GPUColumnType} {e left right : Expression}
  {t : NumericType} {type : CudfType} {column a b : CudfType × Values} {row : Row} {x y q : ℚ}

/-- A column has a value in a row. -/
def Shows (column : CudfType × Values) (row : Row) (q : ℚ) : Prop :=
  ∃ raw, column.2 row = some raw ∧ column.1.Fits raw ∧ column.1.value raw = q

theorem checked_inv (value : checked t x = some q) :
    t.Holds (roundTo t.scale x) ∧ q = roundTo t.scale x / 10 ^ t.scale := by
  unfold checked at value
  split at value
  · cases value
    constructor
    · assumption
    · rfl
  · cases value

theorem holds_nearest (holds : t.Holds (roundTo t.scale x)) : t.Holds (nearest x) := by
  cases t with
  | decimal width scale =>
    have le := abs_roundTo_zero_le scale x
    rw [roundTo_zero] at le
    exact lt_of_le_of_lt le holds
  | _ =>
    rw [← roundTo_zero]
    exact holds

theorem eq_num (whole : x.den = 1) : x = x.num :=
  ((Rat.den_eq_one_iff x).mp whole).symm

theorem roundTo_int (digits : Nat) (n : Int) : roundTo digits n = n * 10 ^ digits := by
  rw [roundTo, ← nearest_int (n * 10 ^ digits)]
  push_cast
  rfl

theorem truncate_fits (fits : type.Fits (nearest x)) : type.Fits (truncate x) := by
  have positive : (0 : Int) < 256 ^ type.size := by positivity
  unfold CudfType.Fits at fits ⊢
  rcases truncate_between x with ⟨low, high⟩ | ⟨low, high⟩ <;> constructor <;> omega

/-- An integer is one value at two scales only if it is zero. -/
theorem rescaled_iff (raw : Int) (m n : Nat) :
    (raw : ℚ) / 10 ^ m = raw / 10 ^ n ↔ n = m ∨ (raw : ℚ) / 10 ^ n = 0 := by
  have hm : (10 : ℚ) ^ m ≠ 0 := pow_ne_zero _ (by norm_num)
  have hn : (10 : ℚ) ^ n ≠ 0 := pow_ne_zero _ (by norm_num)
  rw [div_eq_div_iff hm hn, div_eq_zero_iff, mul_eq_mul_left_iff,
    pow_right_inj₀ (by norm_num) (by norm_num)]
  simp [hn]

/-- What a cast without digits leaves, read at a scale. -/
theorem cast_scale_iff {n : Int} {scale : Nat} (left : n = truncate x ∨ n = nearest x)
    (whole : scale = 0 → x.den = 1) :
    (n : ℚ) / 10 ^ scale = roundTo scale x / 10 ^ scale ↔
      type.ofId.scale = scale ∨ (roundTo scale x : ℚ) / 10 ^ scale = 0 := by
  have positive : (10 : ℚ) ^ scale ≠ 0 := pow_ne_zero _ (by norm_num)
  rw [div_left_inj' positive, Int.cast_inj, div_eq_zero_iff, Int.cast_eq_zero, ofId_scale]
  by_cases none : scale = 0
  · have integer := eq_num (whole none)
    subst none
    rw [integer, truncate_int, nearest_int, or_self] at left
    rw [integer, roundTo_zero, nearest_int]
    simp [left]
  · rw [whole_eq_roundTo_iff none left]
    simp [positive, Ne.symm none]

/-- A cast keeps a whole value that its type has a representation for. -/
theorem cast_shows (exact : Exact cudf) (formed : WellFormed t)
    (known : getCudfType t = .ok type) (shows : Shows column row x)
    (made : castColumn cudf type.ofId column = .ok a) (value : checked t x = some q)
    (whole : x.den = 1) (range : InRange t x) : Shows a row q := by
  obtain ⟨castable, rfl⟩ := castColumn_inv made
  obtain ⟨raw, cell, -, rfl⟩ := shows
  obtain ⟨holds, rfl⟩ := checked_inv value
  have integer : column.1.value raw = ((column.1.value raw).num : ℚ) := eq_num whole
  generalize (column.1.value raw).num = n at *
  have fits : type.Fits n := by
    by_cases huge : t = .hugeint
    · subst huge
      cases known
      have inside := range rfl
      rwa [integer, Rat.num_intCast] at inside
    · apply fits_of_holds formed known huge
      have := holds_nearest holds
      rwa [integer, nearest_int] at this
  have scaled : column.1.value raw * 10 ^ type.ofId.scale = n := by
    rw [ofId_scale, pow_zero, mul_one]
    exact integer
  have kept : cudf.cast column.1 type.ofId raw = n := by
    have exactly := exact.cast column.1 type.ofId raw castable
    simp only [scaled, nearest_int, truncate_int, or_self] at exactly
    exact exactly (ofId_fits.mpr fits)
  refine ⟨n, ?_, ofId_fits.mpr fits, ?_⟩
  · simp only [cell, Option.map_some, kept]
  · have positive : (10 : ℚ) ^ t.scale ≠ 0 := pow_ne_zero _ (by norm_num)
    rw [CudfType.value, ofId_scale, pow_zero, div_one, integer, roundTo_int]
    push_cast
    rw [mul_div_cancel_right₀ _ positive]

theorem constant_shows {value : Int} (formed : WellFormed t) (holds : t.Holds value)
    (made : makeColumnFromConstant value t = .ok column) :
    Shows column row (value / 10 ^ t.scale) := by
  obtain ⟨known, cell, room⟩ := makeColumnFromConstant_inv made
  refine ⟨value, cell row, ?_, ?_⟩
  · rcases room with ⟨width, scale, rfl⟩ | fits
    · exact fits_of_holds formed known (by simp) holds
    · exact fits
  · rw [CudfType.value, getCudfType_scale known]

/-- The raw integer of a scalar is that of its constant. -/
theorem scalarOf_inv {value raw : Int} {other scalar : CudfType} {texts : Texts}
    {decimalScalar : Int → CudfType → Except Exception (CudfType × Int)}
    (member : ∀ value constant, decimalScalar value constant = scalarFor texts value constant other)
    (formed : WellFormed t) (holds : t.Holds value)
    (fits : (∃ width scale, t = .decimal width scale) → other.Fits value)
    (made : scalarOf decimalScalar value t = .ok (scalar, raw)) :
    raw = value ∧ scalar.Fits value ∧ scalar.scale = t.scale := by
  unfold scalarOf at made
  obtain ⟨type, known, made⟩ := bind_ok_iff.mp made
  have scale := getCudfType_scale known
  have decimals : (∃ width scale, t = .decimal width scale) → type.Fits value := by
    rintro ⟨width, scale, rfl⟩
    exact fits_of_holds formed known (by simp) holds
  have retyped : ∀ digits, (type = .decimal32 digits ∨ type = .decimal64 digits ∨
      type = .decimal128 digits) → decimalScalar value type = .ok (scalar, raw) →
      raw = value ∧ scalar.Fits value ∧ scalar.scale = t.scale := by
    intro digits kind made
    have decimal : ∃ width scale, t = .decimal width scale := by
      cases t with
      | decimal width digits => exact ⟨width, digits, rfl⟩
      | other => cases known
      | _ => cases known; rcases kind with h | h | h <;> cases h
    have room := fits decimal
    rw [member] at made
    unfold scalarFor at made
    split at made
    · cases made
      exact ⟨rfl, decimals decimal, scale⟩
    · cases other with
      | decimal32 s =>
        simp only at made
        split at made
        · cases made
        · cases made
          refine ⟨?_, room, scale⟩
          apply Int.bmod_eq_of_le <;> norm_num [CudfType.Fits, CudfType.size] at room ⊢ <;> omega
      | decimal64 s =>
        simp only at made
        split at made
        · cases made
        · cases made
          refine ⟨?_, room, scale⟩
          apply Int.bmod_eq_of_le <;> norm_num [CudfType.Fits, CudfType.size] at room ⊢ <;> omega
      | decimal128 s =>
        cases made
        refine ⟨?_, room, scale⟩
        apply Int.bmod_eq_of_le <;> norm_num [CudfType.Fits, CudfType.size] at room ⊢ <;> omega
      | _ => cases made
  cases type with
  | decimal32 digits => exact retyped digits (.inl rfl) made
  | decimal64 digits => exact retyped digits (.inr (.inl rfl)) made
  | decimal128 digits => exact retyped digits (.inr (.inr rfl)) made
  | _ =>
    obtain ⟨integer, checkedRaw, made⟩ := bind_ok_iff.mp made
    cases made
    obtain ⟨rfl, inside⟩ := integerValue_inv checkedRaw
    exact ⟨rfl, inside, scale⟩

theorem scalar_shows {value raw : Int} {other : Expression} {scalar : CudfType} {texts : Texts}
    {decimalScalar : Int → CudfType → Except Exception (CudfType × Int)}
    (member : ∀ value constant, decimalScalar value constant = scalarFor texts value constant type)
    (typed : WellTyped columns (.constant value t)) (fits : ScalarFits columns value t other)
    (executed : executedType columns other = .ok type)
    (made : scalarOf decimalScalar value t = .ok (scalar, raw)) :
    Shows (scalar, fun _ => some raw) row (value / 10 ^ t.scale) ∧ scalar.scale = t.scale := by
  have room : (∃ width scale, t = .decimal width scale) → type.Fits value := by
    rintro ⟨width, scale, rfl⟩
    exact fits type executed
  obtain ⟨rfl, inside, scale⟩ := scalarOf_inv member typed.1 typed.2 room made
  constructor
  · refine ⟨raw, rfl, inside, ?_⟩
    rw [CudfType.value, scale]
  · exact scale

/-- The sides of a function show the values of its operands. -/
theorem sides_show (sides : Sides cudf columns left right a b) (typedLeft : WellTyped columns left)
    (typedRight : WellTyped columns right) (fits : ScalarsFit columns left right)
    (first : ∀ column x, execute cudf columns left = .ok column → meaning left row = some x →
      Shows column row x)
    (second : ∀ column x, execute cudf columns right = .ok column → meaning right row = some x →
      Shows column row x)
    (hx : meaning left row = some x) (hy : meaning right row = some y) :
    Shows a row x ∧ Shows b row y ∧ (left.returnType.scale = 0 → a.1.scale = 0) ∧
      (right.returnType.scale = 0 → b.1.scale = 0) := by
  cases sides with
  | leftScalar executed made =>
    cases hx
    obtain ⟨shows, scale⟩ :=
      scalar_shows (fun _ _ => rfl) typedLeft fits (execute_type executed) made
    exact ⟨shows, second _ _ executed hy, scale.trans,
      fun none => executedType_scale typedRight none (execute_type executed)⟩
  | rightScalar other executed made =>
    rename_i value constant scalar raw
    have fits' : ScalarFits columns value constant left := by
      rwa [ScalarsFit.eq_2 _ _ _ _ fun value t h => other ⟨value, t, h⟩] at fits
    obtain ⟨shows, scale⟩ :=
      scalar_shows (fun _ _ => rfl) typedRight fits' (execute_type executed) made
    cases hy
    exact ⟨first _ _ executed hx, shows,
      fun none => executedType_scale typedLeft none (execute_type executed), scale.trans⟩
  | columns executed executed' =>
    exact ⟨first _ _ executed hx, second _ _ executed' hy,
      fun none => executedType_scale typedLeft none (execute_type executed),
      fun none => executedType_scale typedRight none (execute_type executed')⟩

variable (exact : Exact cudf) (fits : RowFits columns row)
include exact fits

/-- The column of an expression that loses nothing has the value of the expression. -/
theorem execute_shows (typed : WellTyped columns e) (lossless : Lossless columns row e)
    (run : execute cudf columns e = .ok column) (value : meaning e row = some q) :
    Shows column row q := by
  induction e generalizing column q with
  | reference index t =>
    unfold execute at run
    split at run
    · cases run
    · rename_i type found
      obtain ⟨cudfType, known, run⟩ := bind_ok_iff.mp run
      cases run
      obtain ⟨raw, cell, rfl⟩ := Option.map_eq_some_iff.mp value
      have present : row[index]? = some (some raw) := Option.join_eq_some_iff.mp cell
      refine ⟨raw, cell, ?_, ?_⟩
      · unfold CudfType.Fits
        rw [columnCudfType_size known]
        exact fits index type raw found present
      · rw [CudfType.value, agrees_scale (typed.2 type found) known]
  | constant raw t =>
    cases value
    exact constant_shows typed.1 typed.2 run
  | cast child t ih =>
    obtain ⟨returnType, column, known, executed, made⟩ := execute_cast run
    obtain ⟨x, hx, value⟩ := Option.bind_eq_some_iff.mp value
    obtain ⟨whole, range⟩ := lossless.2 x hx
    exact cast_shows exact typed.1 known (ih typed.2 lossless.1 executed hx) made value whole range
  | function op left right t ihl ihr =>
    obtain ⟨lossLeft, lossRight, scalars, range⟩ := lossless
    obtain ⟨a, b, returnType, sides, known, made⟩ := execute_function run
    obtain ⟨computable, rfl⟩ := binaryOperation_inv made
    have denoted := value
    obtain ⟨x, hx, value⟩ := Option.bind_eq_some_iff.mp value
    obtain ⟨y, hy, value⟩ := Option.bind_eq_some_iff.mp value
    split at value
    · rename_i scales
      obtain ⟨q', applied, value⟩ := Option.bind_eq_some_iff.mp value
      split at value
      · rename_i kept
        cases value
        obtain ⟨holds, same⟩ := checked_inv kept
        obtain ⟨⟨rawX, cellX, -, valueX⟩, ⟨rawY, cellY, -, valueY⟩, scaleX, scaleY⟩ :=
          sides_show sides typed.2.1 typed.2.2 scalars
            (fun column x run value => ihl typed.2.1 lossLeft run value)
            (fun column x run value => ihr typed.2.2 lossRight run value) hx hy
        have room : returnType.Fits (roundTo t.scale q) := by
          by_cases huge : t = .hugeint
          · subst huge
            cases known
            have inside := range q denoted rfl
            rw [show NumericType.hugeint.scale = 0 from rfl, pow_zero, div_one] at same
            rwa [same, Rat.num_intCast] at inside
          · exact fits_of_holds typed.1 known huge holds
        have denotes : returnType.value (roundTo t.scale q) = q := by
          rw [CudfType.value, getCudfType_scale known]
          exact same.symm
        have scales' : scalesFor op a.1.scale b.1.scale = true := by
          unfold scalesFor at scales ⊢
          simp only [decide_eq_true_eq] at scales ⊢
          exact scales.imp_right fun none => ⟨scaleX none.1, scaleY none.2⟩
        have computed :=
          exact.compute op a.1 b.1 returnType rawX rawY (roundTo t.scale q) computable
          scales' (by rwa [valueX, valueY, denotes]) room
        refine ⟨roundTo t.scale q, ?_, room, denotes⟩
        simp only [cellX, cellY, Option.bind_some, Option.map_some, computed]
      · cases value
    · cases value
  | caseWhen check result otherwise t ihr iho =>
    obtain ⟨a, b, first, second, made⟩ := execute_case run
    obtain ⟨same, rfl⟩ := copyIfElse_inv made
    unfold Lossless at lossless
    unfold meaning at value
    by_cases chosen : check row = true
    · simp only [chosen, if_true] at lossless value
      obtain ⟨raw, cell, inside, denotes⟩ := ihr typed.2.1 lossless first value
      exact ⟨raw, by simpa only [chosen, if_true] using cell, inside, denotes⟩
    · simp only [chosen, Bool.false_eq_true, if_false] at lossless value
      obtain ⟨raw, cell, inside, denotes⟩ := iho typed.2.2.1 lossless second value
      refine ⟨raw, by simpa only [chosen, Bool.false_eq_true, if_false] using cell, ?_, ?_⟩
      · rwa [same]
      · rwa [same]

/-- The raw integer a column of planned decimals has for a row, and when it is that of the
value at the planned scale. -/
theorem root_shows {width scale : Nat} (typed : WellTyped columns e)
    (planned : e.returnType = .decimal width scale) (lossless : OperandsLossless columns row e)
    (run : execute cudf columns e = .ok column) (value : meaning e row = some q) :
    ∃ raw, column.2 row = some raw ∧ column.1.Fits raw ∧
      ((raw : ℚ) / 10 ^ scale = q ↔ column.1.scale = scale ∨ q = 0) := by
  have exactly : Lossless columns row e → ∃ raw, column.2 row = some raw ∧ column.1.Fits raw ∧
      ((raw : ℚ) / 10 ^ scale = q ↔ column.1.scale = scale ∨ q = 0) := by
    intro all
    obtain ⟨raw, cell, inside, rfl⟩ := execute_shows exact fits typed all run value
    exact ⟨raw, cell, inside, rescaled_iff raw scale column.1.scale⟩
  induction e generalizing column q with
  | reference index t => exact exactly trivial
  | constant raw t => exact exactly trivial
  | function op left right t => exact exactly lossless
  | cast child t =>
    obtain rfl : t = .decimal width scale := planned
    obtain ⟨returnType, column, known, executed, made⟩ := execute_cast run
    obtain ⟨castable, rfl⟩ := castColumn_inv made
    obtain ⟨x, hx, value⟩ := Option.bind_eq_some_iff.mp value
    obtain ⟨holds, rfl⟩ := checked_inv value
    obtain ⟨raw, cell, -, rfl⟩ := execute_shows exact fits typed.2 lossless.1 executed hx
    have scaled : column.1.value raw * 10 ^ returnType.ofId.scale = column.1.value raw := by
      rw [ofId_scale, pow_zero, mul_one]
    have room : returnType.ofId.Fits (nearest (column.1.value raw)) :=
      ofId_fits.mpr (fits_of_holds typed.1 known (by simp) (holds_nearest holds))
    have cut := exact.cast column.1 returnType.ofId raw castable
    simp only [scaled] at cut
    have whole := cut room
    refine ⟨cudf.cast column.1 returnType.ofId raw, ?_, ?_, ?_⟩
    · simp only [cell, Option.map_some]
    · rcases whole with same | same
      · rw [same]
        exact truncate_fits room
      · rwa [same]
    · exact cast_scale_iff whole fun none => lossless.2 none _ hx
  | caseWhen check result otherwise t ihr iho =>
    obtain rfl : t = .decimal width scale := planned
    obtain ⟨a, b, first, second, made⟩ := execute_case run
    obtain ⟨same, rfl⟩ := copyIfElse_inv made
    unfold OperandsLossless at lossless
    unfold meaning at value
    by_cases chosen : check row = true
    · simp only [chosen, if_true] at lossless value ⊢
      apply ihr typed.2.1 typed.2.2.2.1 lossless first value
      intro all
      obtain ⟨raw, cell, inside, rfl⟩ := execute_shows exact fits typed.2.1 all first value
      exact ⟨raw, cell, inside, rescaled_iff raw scale a.1.scale⟩
    · simp only [chosen, Bool.false_eq_true, if_false, same] at lossless value ⊢
      apply iho typed.2.2.1 typed.2.2.2.2 lossless second value
      intro all
      obtain ⟨raw, cell, inside, rfl⟩ := execute_shows exact fits typed.2.2.1 all second value
      exact ⟨raw, cell, inside, rescaled_iff raw scale b.1.scale⟩

end Values

section Nulls

variable {cudf : Cudf} {columns : List GPUColumnType}

/-- A column of cudf is NULL in a row where its expression is. -/
theorem execute_isNull {e : Expression} {out : CudfType × Values}
    (run : execute cudf columns e = .ok out) (row : Row) : (out.2 row).isNone = isNull e row := by
  induction e generalizing out with
  | reference index type =>
    rw [execute] at run
    split at run
    · cases run
    · obtain ⟨cudfType, -, run⟩ := bind_ok_iff.mp run
      cases run
      rfl
  | constant value type =>
    rw [(makeColumnFromConstant_inv run).2.1 row]
    rfl
  | cast child type ih =>
    obtain ⟨returnType, column, -, ran, made⟩ := execute_cast run
    obtain ⟨-, rfl⟩ := castColumn_inv made
    rw [isNull, ← ih ran, Option.isNone_map]
  | function op left right type ihLeft ihRight =>
    obtain ⟨a, b, returnType, sides, -, made⟩ := execute_function run
    obtain ⟨-, rfl⟩ := binaryOperation_inv made
    have both : (a.2 row).isNone = isNull left row ∧ (b.2 row).isNone = isNull right row := by
      cases sides with
      | leftScalar ran _ => exact ⟨rfl, ihRight ran⟩
      | rightScalar _ ran _ => exact ⟨ihLeft ran, rfl⟩
      | columns ran ran' => exact ⟨ihLeft ran, ihRight ran'⟩
    rw [isNull, ← both.1, ← both.2]
    cases left' : a.2 row <;> cases right' : b.2 row <;> simp [left', right']
  | caseWhen check result otherwise type ihResult ihOtherwise =>
    obtain ⟨a, b, ran, ran', made⟩ := execute_case run
    obtain ⟨-, rfl⟩ := copyIfElse_inv made
    rw [isNull]
    split <;> rename_i chosen
    · simp only [chosen, if_true]
      exact ihResult ran
    · simp only [chosen]
      exact ihOtherwise ran'

end Nulls

section Delivery

variable {cudf : Cudf} {columns : List GPUColumnType} {e : Expression} {row : Row} {q : ℚ}
  {decimalCast : DecimalCast} {rows : List Row} {cells : List (Option Value)} {i : Nat}
  {width scale : Nat}

/-- The entries the collector finds in a column. -/
def entries (type : GPUColumnType) (values : Values) (rows : List Row) : List Bytes :=
  rows.map fun row => encode (getColumnTypeSize type) ((values row).getD 0)

theorem entries_length (type : GPUColumnType) (values : Values) (rows : List Row) :
    ∀ piece ∈ entries type values rows, piece.length = getColumnTypeSize type := by
  intro piece member
  obtain ⟨row, -, rfl⟩ := List.mem_map.mp member
  exact bytesOf_length _ _

theorem deliver_inv (delivered : deliver cudf columns decimalCast rows e = .ok cells) :
    ∃ type values, executeProjection cudf columns e = .ok (type, values) ∧
      deliverable e.returnType.planned type = true ∧
      ∀ (i : Nat) first, i < rows.length → rows[i % standardVectorSize]? = some first →
        cells[i]? = some ((values first).map fun _ =>
          shown decimalCast e.returnType.planned type (entries type values rows) i) := by
  unfold deliver at delivered
  obtain ⟨⟨type, values⟩, executed, delivered⟩ := bind_ok_iff.mp delivered
  simp only at delivered
  split at delivered
  · rename_i ready
    cases delivered
    refine ⟨type, values, executed, ready, ?_⟩
    intro i first inside there
    simp [inside, there, entries]
  · cases delivered

theorem executeProjection_inv {type : GPUColumnType} {values : Values}
    (computed : ¬ ∃ index t, e = .reference index t)
    (executed : executeProjection cudf columns e = .ok (type, values)) :
    ∃ column returnType, execute cudf columns e = .ok column ∧
      getCudfType e.returnType = .ok returnType ∧
      (column.1.sameId returnType = true ∧ type = gpuColumnType column.1 ∧ values = column.2 ∨
        column.1.sameId returnType = false ∧ type = gpuColumnType returnType ∧
          ∃ f : Int → Int, values = fun row => (column.2 row).map f) := by
  have body : executeProjection cudf columns e = (do
      initializeState e
      let column ← execute cudf columns e
      let returnType ← getCudfType e.returnType
      let column ← if column.1.sameId returnType then .ok column
        else castColumn cudf returnType column
      .ok (gpuColumnType column.1, column.2)) := by
    cases e with
    | reference index t => exact absurd ⟨index, t, rfl⟩ computed
    | _ => rfl
  rw [body] at executed
  obtain ⟨-, -, executed⟩ := bind_ok_iff.mp executed
  obtain ⟨column, run, executed⟩ := bind_ok_iff.mp executed
  obtain ⟨returnType, known, executed⟩ := bind_ok_iff.mp executed
  refine ⟨column, returnType, run, known, ?_⟩
  by_cases same : column.1.sameId returnType = true
  · simp only [same, if_true] at executed
    cases executed
    exact .inl ⟨same, rfl, rfl⟩
  · simp only [same] at executed
    obtain ⟨last, made, executed⟩ := bind_ok_iff.mp executed
    obtain ⟨-, rfl⟩ := castColumn_inv made
    cases executed
    exact .inr ⟨eq_false_of_ne_true same, rfl, _, rfl⟩

theorem executeProjection_isNull {type : GPUColumnType} {values : Values}
    (executed : executeProjection cudf columns e = .ok (type, values)) (row : Row) :
    (values row).isNone = isNull e row := by
  by_cases passed : ∃ index t, e = .reference index t
  · obtain ⟨index, t, rfl⟩ := passed
    unfold executeProjection at executed
    cases found : columns[index]? with
    | none => simp [found] at executed
    | some type =>
      simp only [found, Except.ok.injEq, Prod.mk.injEq] at executed
      obtain ⟨-, rfl⟩ := executed
      rfl
  · obtain ⟨column, returnType, run, -, ⟨-, -, rfl⟩ | ⟨-, -, f, rfl⟩⟩ :=
      executeProjection_inv passed executed
    · exact execute_isNull run row
    · rw [Option.isNone_map, execute_isNull run row]

theorem deliverable_decimal {type : GPUColumnType}
    (ready : deliverable (.decimal width scale) type = true) :
    ∃ width' scale', type = .decimal width' scale' ∧
      (decimalTypeSize width' = 4 ∨ decimalTypeSize width' = 8) := by
  cases type with
  | decimal width' scale' =>
    refine ⟨width', scale', rfl, ?_⟩
    simp only [deliverable, finalMaterializable, Bool.and_true, decide_eq_true_eq] at ready
    unfold decimalTypeSize
    split_ifs <;> omega
  | _ => simp [deliverable, finalMaterializable, columnTypeToLogicalType] at ready

theorem gpuColumnType_decimal {type : CudfType} {width' scale' : Nat}
    (set : .decimal width' scale' = gpuColumnType type)
    (small : decimalTypeSize width' = 4 ∨ decimalTypeSize width' = 8) :
    type.size = decimalTypeSize width' ∧ type.size ≠ 16 := by
  cases type <;> cases set
  · exact ⟨rfl, by simp [CudfType.size]⟩
  · exact ⟨rfl, by simp [CudfType.size]⟩
  · exact absurd small (by decide)

/-- What is shown for a raw integer that was set in a column of the planned size. -/
theorem shown_raw {width' scale' : Nat} {values : Values} {raw : Int}
    (here : rows[i]? = some row) (cell : values row = some raw)
    (fits : -(256 ^ decimalTypeSize width' : Int) ≤ 2 * raw ∧
      2 * raw < 256 ^ decimalTypeSize width')
    (small : ¬ 18 < width) (size : decimalTypeSize width = decimalTypeSize width') :
    shown decimalCast (.decimal width scale) (.decimal width' scale')
      (entries (.decimal width' scale') values rows) i = .number (raw / 10 ^ scale) := by
  have inside : i < (entries (.decimal width' scale') values rows).length := by
    rw [entries, List.length_map]
    exact (List.getElem?_eq_some_iff.mp here).1
  have entry : (entries (.decimal width' scale') values rows)[i] =
      encode (decimalTypeSize width') raw := by
    have same := (List.getElem?_eq_some_iff.mp here).2
    simp only [entries, List.getElem_map, same, cell, Option.getD_some, getColumnTypeSize]
  have notBig : (LogicalType.decimal width scale).isInt128 = false := decide_eq_false small
  have plain : hostEntry decimalCast (.decimal width scale) (.decimal width' scale') = id := by
    funext piece
    simp [hostEntry, notBig]
  have widths : ∀ piece ∈ entries (.decimal width' scale') values rows,
      (hostEntry decimalCast (.decimal width scale) (.decimal width' scale') piece).length =
        (LogicalType.decimal width scale).size := by
    intro piece member
    rw [plain]
    exact (entries_length _ _ _ piece member).trans size.symm
  have hosted : hostWidth (.decimal width scale) (.decimal width' scale') =
      (LogicalType.decimal width scale).size := by
    simp [hostWidth, hostType, notBig, getColumnTypeSize, LogicalType.size, size]
  rw [shown_entry (by simp) inside widths hosted, plain, entry]
  have length : (encode (decimalTypeSize width') raw).length =
      (LogicalType.decimal width scale).size := (bytesOf_length _ _).trans size.symm
  rw [id, LogicalType.read, if_pos length, signed_encode _ fits.1 fits.2]

/-- What is shown for a raw integer of a smaller column of the planned scale. -/
theorem shown_widened {width' : Nat} {values : Values} {raw : Int}
    (exactCast : ExactCast decimalCast) (here : rows[i]? = some row) (cell : values row = some raw)
    (fits : -(256 ^ decimalTypeSize width' : Int) ≤ 2 * raw ∧
      2 * raw < 256 ^ decimalTypeSize width')
    (small : decimalTypeSize width' = 4 ∨ decimalTypeSize width' = 8) (big : 18 < width) :
    shown decimalCast (.decimal width scale) (.decimal width' scale)
      (entries (.decimal width' scale) values rows) i = .number (raw / 10 ^ scale) := by
  have inside : i < (entries (.decimal width' scale) values rows).length := by
    rw [entries, List.length_map]
    exact (List.getElem?_eq_some_iff.mp here).1
  have entry : (entries (.decimal width' scale) values rows)[i] =
      encode (decimalTypeSize width') raw := by
    have same := (List.getElem?_eq_some_iff.mp here).2
    simp only [entries, List.getElem_map, same, cell, Option.getD_some, getColumnTypeSize]
  have widths := entries_length (.decimal width' scale) values rows
  have value := signed_encode _ fits.1 fits.2
  have room : -2 ^ 127 ≤ raw ∧ raw < 2 ^ 127 := by
    rcases small with h | h <;> rw [h] at fits <;> norm_num at fits ⊢ <;> omega
  rw [(shown_castDecimal inside exactCast big widths).mpr]
  · rw [valueOf_decimal inside widths, entry, value]
  · rw [entry, value]
    exact ⟨raw, room.1, room.2, rfl⟩

/-- A number is shown as the value of the expression exactly when the executed column has the
planned scale or the value is zero. -/
theorem shown_number_iff {type : GPUColumnType} {values : Values} (exact : Exact cudf)
    (exactCast : ExactCast decimalCast) (typed : WellTyped columns e)
    (planned : e.returnType = .decimal width scale)
    (executed : executeProjection cudf columns e = .ok (type, values))
    (ready : deliverable (.decimal width scale) type = true) (here : rows[i]? = some row)
    (fits : RowFits columns row) (value : meaning e row = some q)
    (lossless : OperandsLossless columns row e) :
    shown decimalCast (.decimal width scale) type (entries type values rows) i = .number q ↔
      executedScale columns e = scale ∨ q = 0 := by
  obtain ⟨width', scale', rfl, small⟩ := deliverable_decimal ready
  by_cases passed : ∃ index t, e = .reference index t
  · obtain ⟨index, t, rfl⟩ := passed
    obtain rfl : t = .decimal width scale := planned
    unfold executeProjection at executed
    cases found : columns[index]? with
    | none => simp [found] at executed
    | some type =>
      simp only [found, Except.ok.injEq, Prod.mk.injEq] at executed
      obtain ⟨rfl, rfl⟩ := executed
      obtain ⟨rfl, size⟩ := typed.2 _ found
      obtain ⟨raw, present, rfl⟩ := Option.map_eq_some_iff.mp value
      have inside := fits index _ raw found (Option.join_eq_some_iff.mp present)
      have ownScale : executedScale columns (.reference index (.decimal width scale)) = scale := by
        unfold executedScale executedType
        rw [found]
        rcases small with h | h <;> simp only [columnCudfType, h] <;> rfl
      apply iff_of_true _ (.inl ownScale)
      by_cases big : 18 < width
      · exact shown_widened exactCast here present inside small big
      · exact shown_raw here present inside big (size (by omega))
  · obtain ⟨column, returnType, run, known, set⟩ := executeProjection_inv passed executed
    rw [planned] at known
    have scales : executedScale columns e = column.1.scale := by
      rw [executedScale, execute_type run]
    obtain ⟨raw, present, inside, right⟩ := root_shows exact fits typed planned lossless run value
    have plannedSize : returnType.size = decimalTypeSize width := by
      rcases getCudfType_decimal known with ⟨size, rfl⟩ | ⟨size, rfl⟩ | ⟨size, rfl⟩ <;>
        exact size.symm
    have narrow : returnType.size ≠ 16 := by
      rcases set with ⟨same, set, -⟩ | ⟨-, set, -⟩
      · rw [← sameId_size same]
        exact (gpuColumnType_decimal set small).2
      · exact (gpuColumnType_decimal set small).2
    have sameId :=
      executedType_sameId typed (execute_type run) (by rw [planned]; exact known) narrow
    rcases set with ⟨-, set, rfl⟩ | ⟨other, -⟩
    · have size : column.1.size = decimalTypeSize width' := (gpuColumnType_decimal set small).1
      have sizes : decimalTypeSize width = decimalTypeSize width' := by
        rw [← plannedSize, ← sameId_size sameId, size]
      have notBig : ¬ 18 < width := by
        intro big
        apply narrow
        rw [plannedSize]
        unfold decimalTypeSize
        split_ifs <;> omega
      have room : -(256 ^ decimalTypeSize width' : Int) ≤ 2 * raw ∧
          2 * raw < 256 ^ decimalTypeSize width' := by
        rw [← size]
        exact inside
      rw [shown_raw here present room notBig sizes, scales, Value.number.injEq]
      exact right
    · rw [sameId] at other
      cases other

end Delivery

section Bug

/-- The casts and the arithmetic of decimals, with digits cut off. -/
def truncating : Cudf where
  castable _ _ := true
  cast source target raw := truncate (source.value raw * 10 ^ target.scale)
  computable _ _ _ _ := true
  compute op left right type x y :=
    match BinaryOperator.apply op (left.value x) (right.value y) with
    | some q => truncate (q * 10 ^ type.scale)
    | none => 0

theorem truncating_exact : Exact truncating := by
  constructor
  · intro source target raw _ scaled _
    exact .inl rfl
  · intro op left right type x y q _ _ applied _
    have positive : (10 : ℚ) ^ type.scale ≠ 0 := pow_ne_zero _ (by norm_num)
    simp only [truncating, applied]
    rw [CudfType.value, div_mul_cancel₀ _ positive, truncate_int]

/-- A `BIGINT` cast to `DECIMAL(18, 2)`. -/
def widened : Expression := .cast (.reference 0 .bigint) (.decimal 18 2)

theorem widened_delivered :
    deliver truncating [.int64] rescale [[some 5]] widened = .ok [some (.number (5 / 100))] := by
  decide +kernel

/-- The square of a `DECIMAL(9, 2)`. -/
def square : Expression :=
  .function .mul (.reference 0 (.decimal 9 2)) (.reference 0 (.decimal 9 2)) (.decimal 18 4)

theorem square_typed : WellTyped [.decimal 9 2] square := by
  have side : WellTyped [.decimal 9 2] (.reference 0 (.decimal 9 2)) := by
    refine ⟨by simp [WellFormed], ?_⟩
    rintro column found
    cases found
    exact ⟨rfl, fun _ => rfl⟩
  exact ⟨by simp [WellFormed], side, side⟩

end Bug

end DecimalFidelity
