import Mathlib
import SiriusGpu.GpuMemory

/-!
# Integer arithmetic

The function evaluator's arithmetic on integers, on its three paths: a constant on the left, a
constant on the right, and columns on both sides.
-/

namespace IntegerArithmetic

open GpuMemory (Exception)

section Model

inductive IntegerType
  | int16 | int32 | int64
  deriving DecidableEq

def IntegerType.bits : IntegerType → Nat
  | .int16 => 16
  | .int32 => 32
  | .int64 => 64

def IntegerType.Fits (type : IntegerType) (n : Int) : Prop :=
  -2 ^ type.bits ≤ 2 * n ∧ 2 * n < 2 ^ type.bits

instance (type : IntegerType) (n : Int) : Decidable (type.Fits n) :=
  inferInstanceAs (Decidable (_ ∧ _))

/-- A bound constant; without value it is NULL. -/
structure Constant where
  type : IntegerType
  value : Option Int
  holds : ∀ n ∈ value, type.Fits n

/-- A row's value, or NULL. -/
abbrev Column (rows : Nat) := Fin rows → Option Int

/-- An operand: a constant, or another expression with the column it is executed as. -/
inductive Operand (rows : Nat)
  | constant (c : Constant)
  | expression (result : Except Exception (Column rows))

/-- `cudf::binary_operator` -/
inductive BinaryOperator
  | add | sub | mul | div | mod
  deriving DecidableEq

/-- `GetValue` of an integer that is not NULL, for a type with these numbers. -/
def getValueIn (low high n : Int) : Except Exception Int :=
  if low ≤ n ∧ n < high then .ok n
  else .error (.invalidInput ("Type %s with value %s can't be cast because the value is out of " ++
    "range for the destination type %s"))

/-- `GetValue` of a constant's own integer type. -/
def getValue (c : Constant) : Except Exception Int :=
  match c.value with
  | none => .error (.internal "Calling GetValueInternal on a value that is NULL")
  | some n => getValueIn (-2 ^ (c.type.bits - 1)) (2 ^ (c.type.bits - 1)) n

/-- What cudf's division by zero gives for a dividend. -/
abbrev Unspecified := BinaryOperator → IntegerType → Int → Int

variable (unspecified : Unspecified)

/-- `cudf::binary_operation` on two values, modulo the output type. -/
def compute (op : BinaryOperator) (type : IntegerType) (x y : Int) : Int :=
  match op with
  | .add => (x + y).bmod (2 ^ type.bits)
  | .sub => (x - y).bmod (2 ^ type.bits)
  | .mul => (x * y).bmod (2 ^ type.bits)
  | .div => if y = 0 then unspecified .div type x else (x.tdiv y).bmod (2 ^ type.bits)
  | .mod => if y = 0 then unspecified .mod type x else (x.tmod y).bmod (2 ^ type.bits)

variable {rows : Nat}

def binaryOperation (op : BinaryOperator) (left right : Column rows) (type : IntegerType) :
    Column rows :=
  fun row => (left row).bind fun x => (right row).map fun y => compute unspecified op type x y

/-- `Execute`; of a constant, a column of its value. -/
def executeOperand : Operand rows → Except Exception (Column rows)
  | .constant c => do
    let value ← getValue c
    .ok fun _ => some value
  | .expression result => result

def doLeftScalarBinaryOp (op : BinaryOperator) (leftValue : Int) (right : Column rows)
    (returnType : IntegerType) : Column rows :=
  binaryOperation unspecified op (fun _ => some leftValue) right returnType

def doRightScalarBinaryOp (op : BinaryOperator) (left : Column rows) (rightValue : Int)
    (returnType : IntegerType) : Column rows :=
  binaryOperation unspecified op left (fun _ => some rightValue) returnType

/-- The dispatch of `NumericBinaryFunctionDispatcher`. -/
def executeBinary (op : BinaryOperator) (left right : Operand rows) (returnType : IntegerType) :
    Except Exception (Column rows) :=
  match left, right with
  | .constant leftValue, right => do
    let right ← executeOperand right
    let leftValue ← getValue leftValue
    .ok (doLeftScalarBinaryOp unspecified op leftValue right returnType)
  | .expression left, .constant rightValue => do
    let left ← left
    let rightValue ← getValue rightValue
    .ok (doRightScalarBinaryOp unspecified op left rightValue returnType)
  | .expression left, .expression right => do
    let left ← left
    let right ← right
    .ok (binaryOperation unspecified op left right returnType)

/-- The arithmetic of `Execute` of a function: the operator by its name. -/
def executeFunction (funcStr : String) (left right : Operand rows) (returnType : IntegerType) :
    Except Exception (Column rows) :=
  if funcStr = "+" then executeBinary unspecified .add left right returnType
  else if funcStr = "-" then executeBinary unspecified .sub left right returnType
  else if funcStr = "*" then executeBinary unspecified .mul left right returnType
  else if funcStr = "/" ∨ funcStr = "//" then executeBinary unspecified .div left right returnType
  else if funcStr = "%" then executeBinary unspecified .mod left right returnType
  else .error (.internal "Execute[Function]: Unknown function: %s")

end Model

section Meaning

/-- The functions of SQL. -/
inductive Function
  | add | subtract | multiply | integerDivide | modulo
  deriving DecidableEq

def Function.name : Function → String
  | .add => "+"
  | .subtract => "-"
  | .multiply => "*"
  | .integerDivide => "//"
  | .modulo => "%"

def Function.divides : Function → Bool
  | .integerDivide | .modulo => true
  | _ => false

/-- The number of an application that has one. -/
def Function.value : Function → Int → Int → Int
  | .add, x, y => x + y
  | .subtract, x, y => x - y
  | .multiply, x, y => x * y
  | .integerDivide, x, y => x.tdiv y
  | .modulo, x, y => x.tmod y

/-- The result of SQL, before it is put into the return type. -/
def Function.apply (f : Function) : Option Int → Option Int → Option Int
  | some x, some y => if f.divides ∧ y = 0 then none else some (f.value x y)
  | _, _ => none

variable {rows : Nat}

/-- The values of an operand, where it has them. -/
def Operand.values : Operand rows → Except Exception (Column rows)
  | .constant c => .ok fun _ => c.value
  | .expression result => result

/-- A result is the column of exact values, or an exception if one does not fit. -/
def Exact (f : Function) (type : IntegerType) (left right : Column rows)
    (result : Except Exception (Column rows)) : Prop :=
  if ∀ row, ∀ n ∈ f.apply (left row) (right row), type.Fits n then
    result = .ok fun row => f.apply (left row) (right row)
  else ∃ e, result = .error e

/-- An exception of an operand is passed on; else the result is exact. -/
def Right (f : Function) (type : IntegerType) (left right : Operand rows)
    (result : Except Exception (Column rows)) : Prop :=
  (∀ e, left.values = .error e ∨ right.values = .error e → ∃ e', result = .error e') ∧
    ∀ xs ys, left.values = .ok xs → right.values = .ok ys → Exact f type xs ys result

/-- The operand is not the constant NULL. -/
def Operand.NotNull : Operand rows → Prop
  | .constant c => c.value ≠ none
  | .expression _ => True

/-- A row is without zero divisor and has a result that fits. -/
def Safe (f : Function) (type : IntegerType) (x y : Int) : Prop :=
  ¬ (f.divides = true ∧ y = 0) ∧ type.Fits (f.value x y)

end Meaning

section Values

variable {unspecified : Unspecified} {f : Function} {type : IntegerType} {rows : Nat}
  {left right : Operand rows} {xs ys : Column rows} {x y n : Int}

/-- The operator a function is executed by. -/
def Function.operator : Function → BinaryOperator
  | .add => .add
  | .subtract => .sub
  | .multiply => .mul
  | .integerDivide => .div
  | .modulo => .mod

theorem executeFunction_name : executeFunction unspecified f.name left right type =
    executeBinary unspecified f.operator left right type := by
  cases f <;> rfl

theorem bmod_fits (fits : type.Fits n) : n.bmod (2 ^ type.bits) = n := by
  obtain ⟨low, high⟩ := fits
  refine Int.bmod_eq_of_le_mul_two ?_ ?_ <;> push_cast <;> omega

/-- Without a zero divisor the value is taken modulo the type. -/
theorem compute_value (nonzero : ¬ (f.divides = true ∧ y = 0)) :
    compute unspecified f.operator type x y = (f.value x y).bmod (2 ^ type.bits) := by
  cases f with
  | add => rfl
  | subtract => rfl
  | multiply => rfl
  | integerDivide => exact if_neg fun zero => nonzero ⟨rfl, zero⟩
  | modulo => exact if_neg fun zero => nonzero ⟨rfl, zero⟩

theorem compute_safe (safe : Safe f type x y) :
    compute unspecified f.operator type x y = f.value x y := by
  rw [compute_value safe.1, bmod_fits safe.2]

theorem apply_some (nonzero : ¬ (f.divides = true ∧ y = 0)) :
    f.apply (some x) (some y) = some (f.value x y) := if_neg nonzero

theorem apply_cases (h : f.apply (xs row) (ys row) = some n) :
    ∃ x y, xs row = some x ∧ ys row = some y ∧ n = f.value x y := by
  cases left : xs row with
  | none => rw [left] at h; cases h
  | some x =>
    cases right : ys row with
    | none => rw [left, right] at h; cases h
    | some y =>
      rw [left, right, Function.apply] at h
      split at h
      · cases h
      · exact ⟨x, y, rfl, rfl, (Option.some.inj h).symm⟩

/-- The column cudf returns is exact when every row of numbers is safe, and only then. -/
theorem binaryOperation_exact_iff :
    Exact f type xs ys (.ok (binaryOperation unspecified f.operator xs ys type)) ↔
      ∀ row x y, xs row = some x → ys row = some y → Safe f type x y := by
  constructor
  · intro exact row x y atLeft atRight
    have fits : ∀ row, ∀ n ∈ f.apply (xs row) (ys row), type.Fits n := by
      by_contra misfit
      rw [Exact, if_neg misfit] at exact
      obtain ⟨e, raised⟩ := exact
      cases raised
    rw [Exact, if_pos fits] at exact
    have cell := congrFun (Except.ok.inj exact) row
    rw [binaryOperation, atLeft, atRight] at cell
    have nonzero : ¬ (f.divides = true ∧ y = 0) := by
      intro zero
      rw [Function.apply, if_pos zero] at cell
      cases cell
    refine ⟨nonzero, fits row _ ?_⟩
    rw [atLeft, atRight, apply_some nonzero]
    rfl
  · intro safe
    have fits : ∀ row, ∀ n ∈ f.apply (xs row) (ys row), type.Fits n := by
      intro row n member
      obtain ⟨x, y, atLeft, atRight, rfl⟩ := apply_cases member
      exact (safe row x y atLeft atRight).2
    rw [Exact, if_pos fits]
    refine congrArg Except.ok (funext fun row => ?_)
    rw [binaryOperation]
    cases atLeft : xs row with
    | none => rfl
    | some x =>
      cases atRight : ys row with
      | none => rfl
      | some y =>
        have here := safe row x y atLeft atRight
        rw [apply_some here.1]
        exact congrArg some (compute_safe here)

end Values

section Paths

variable {unspecified : Unspecified} {op : BinaryOperator} {type : IntegerType} {rows : Nat}
  {left right : Operand rows} {xs ys : Column rows}

theorem getValue_some {c : Constant} {n : Int} (value : c.value = some n) :
    getValue c = .ok n := by
  have inside := c.holds n value
  unfold getValue
  rw [value]
  refine if_pos ?_
  cases type : c.type <;> simp only [type, IntegerType.Fits, IntegerType.bits] at inside ⊢ <;> omega

theorem getValue_none {c : Constant} (null : c.value = none) : ∃ e, getValue c = .error e := by
  unfold getValue
  rw [null]
  exact ⟨_, rfl⟩

theorem executeOperand_values (notNull : left.NotNull) : executeOperand left = left.values := by
  cases left with
  | expression result => rfl
  | constant c =>
    obtain ⟨n, value⟩ := Option.ne_none_iff_exists'.mp notNull
    rw [executeOperand, getValue_some value, Operand.values, value]
    rfl

/-- With constants that are not NULL the three paths do the same. -/
theorem executeBinary_columns (leftNotNull : left.NotNull) (rightNotNull : right.NotNull)
    (atLeft : left.values = .ok xs) (atRight : right.values = .ok ys) :
    executeBinary unspecified op left right type =
      .ok (binaryOperation unspecified op xs ys type) := by
  have ran := (executeOperand_values rightNotNull).trans atRight
  cases left with
  | constant c =>
    obtain ⟨n, value⟩ := Option.ne_none_iff_exists'.mp leftNotNull
    rw [Operand.values, value] at atLeft
    cases atLeft
    rw [executeBinary, ran, getValue_some value]
    rfl
  | expression result =>
    cases right with
    | constant d =>
      obtain ⟨n, value⟩ := Option.ne_none_iff_exists'.mp rightNotNull
      rw [Operand.values, value] at atRight
      cases atRight
      rw [executeBinary, show result = .ok xs from atLeft, getValue_some value]
      rfl
    | expression result' =>
      rw [executeBinary, show result = .ok xs from atLeft, show result' = .ok ys from atRight]
      rfl

theorem bind_error {α β : Type} {x : Except Exception α} {f : α → Except Exception β}
    (raises : ∀ a, ∃ e, f a = .error e) : ∃ e, (x >>= f) = .error e := by
  cases x with
  | error e => exact ⟨e, rfl⟩
  | ok a => exact raises a

/-- A NULL constant raises. -/
theorem executeBinary_null (null : ¬ (left.NotNull ∧ right.NotNull)) :
    ∃ e, executeBinary unspecified op left right type = .error e := by
  cases left with
  | constant c =>
    rw [executeBinary]
    by_cases value : c.value = none
    · refine bind_error fun _ => ?_
      obtain ⟨e, raised⟩ := getValue_none value
      exact ⟨e, by rw [raised]; rfl⟩
    · cases right with
      | constant d =>
        have value' : d.value = none := by
          by_contra other
          exact null ⟨value, other⟩
        obtain ⟨e, raised⟩ := getValue_none value'
        exact ⟨e, by rw [executeOperand, raised]; rfl⟩
      | expression result => exact absurd ⟨value, trivial⟩ null
  | expression result =>
    cases right with
    | constant d =>
      have value : d.value = none := by
        by_contra other
        exact null ⟨trivial, other⟩
      rw [executeBinary]
      refine bind_error fun _ => ?_
      obtain ⟨e, raised⟩ := getValue_none value
      exact ⟨e, by rw [raised]; rfl⟩
    | expression result' => exact absurd ⟨trivial, trivial⟩ null

/-- An exception of an operand is not lost. -/
theorem executeBinary_error {e : Exception}
    (raises : left.values = .error e ∨ right.values = .error e) :
    ∃ e', executeBinary unspecified op left right type = .error e' := by
  cases left with
  | constant c =>
    cases right with
    | constant d => exact absurd raises (by simp [Operand.values])
    | expression result =>
      have raised : result = .error e := raises.resolve_left (by simp [Operand.values])
      exact ⟨e, by rw [executeBinary, executeOperand, raised]; rfl⟩
  | expression result =>
    cases right with
    | constant d =>
      have raised : result = .error e := raises.resolve_right (by simp [Operand.values])
      exact ⟨e, by rw [executeBinary, raised]; rfl⟩
    | expression result' =>
      rw [executeBinary]
      obtain raised | raised := raises
      · exact ⟨e, by rw [show result = .error e from raised]; rfl⟩
      · refine bind_error fun _ => ⟨e, ?_⟩
        rw [show result' = .error e from raised]
        rfl

end Paths

section Results

variable {rows : Nat}

theorem null_apply {left right : Operand rows} {xs ys : Column rows} (f : Function)
    (null : ¬ (left.NotNull ∧ right.NotNull)) (atLeft : left.values = .ok xs)
    (atRight : right.values = .ok ys) (row : Fin rows) : f.apply (xs row) (ys row) = none := by
  have column : ∀ {operand : Operand rows} {zs : Column rows}, ¬ operand.NotNull →
      operand.values = .ok zs → zs row = none := by
    intro operand zs isNull values
    cases operand with
    | constant c =>
      cases values
      exact not_not.mp isNull
    | expression result => exact absurd trivial isNull
  obtain isNull | isNull := not_and_or.mp null
  · rw [column isNull atLeft]
    rfl
  · rw [column isNull atRight]
    cases xs row <;> rfl

/-- For operands of every kind: exact when no constant is NULL and every row of numbers is safe,
and only then. -/
theorem executeFunction_right_iff (unspecified : Unspecified) (f : Function) (type : IntegerType)
    (left right : Operand rows) :
    Right f type left right (executeFunction unspecified f.name left right type) ↔
      ∀ xs ys, left.values = .ok xs → right.values = .ok ys →
        left.NotNull ∧ right.NotNull ∧
          ∀ row x y, xs row = some x → ys row = some y → Safe f type x y := by
  rw [executeFunction_name]
  constructor
  · rintro ⟨-, exact⟩ xs ys atLeft atRight
    have here := exact xs ys atLeft atRight
    have notNull : left.NotNull ∧ right.NotNull := by
      by_contra null
      obtain ⟨e, raised⟩ := @executeBinary_null unspecified f.operator type rows left right null
      rw [raised, Exact, if_pos] at here
      · cases here
      · intro row n member
        rw [null_apply f null atLeft atRight row] at member
        cases member
    rw [executeBinary_columns notNull.1 notNull.2 atLeft atRight] at here
    exact ⟨notNull.1, notNull.2, binaryOperation_exact_iff.mp here⟩
  · intro safe
    refine ⟨fun e raises => executeBinary_error raises, fun xs ys atLeft atRight => ?_⟩
    obtain ⟨leftNotNull, rightNotNull, rowwise⟩ := safe xs ys atLeft atRight
    rw [executeBinary_columns leftNotNull rightNotNull atLeft atRight]
    exact binaryOperation_exact_iff.mpr rowwise

/-- `2147483647 + 1` in 32 bits is `-2147483648`. -/
theorem sum_wraps : ¬ ∀ (rows : Nat) (unspecified : Unspecified) (f : Function)
    (type : IntegerType) (left right : Operand rows),
      Right f type left right (executeFunction unspecified f.name left right type) := by
  intro right
  have exact := (right 1 (fun _ _ _ => 0) .add .int32 (.expression (.ok fun _ => some 2147483647))
    (.constant ⟨.int32, some 1, by decide⟩)).2 _ _ rfl rfl
  have misfit : ¬ ∀ row : Fin 1, ∀ n ∈ Function.add.apply (some 2147483647) (some 1),
      IntegerType.int32.Fits n := fun fits => by
    have here := fits 0 2147483648 rfl
    revert here
    decide
  rw [Exact, if_neg misfit] at exact
  obtain ⟨e, raised⟩ := exact
  cases raised

end Results

end IntegerArithmetic
