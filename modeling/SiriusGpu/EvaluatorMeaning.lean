import Mathlib
import SiriusGpu.FilterSelection
import SiriusGpu.GpuExpressions
import SiriusGpu.ThreeValued

/-!
# What the expression executor computes

The value of an expression in a row, in SQL's three-valued logic, compared with the column the
executor returns. The connectives of cudf are strict, those of SQL are not. Comparisons,
functions and casts of values are parameters. Where SQL raises, cudf may return anything.
-/

namespace EvaluatorMeaning

open GpuMemory (Exception Bytes)
open GpuColumns (GPUColumnType)
open GpuExpressions hiding isTrue
open ResultCollector (LogicalType)
open ColumnValues FallibleMaps ThreeValued
open FilterSelection (Bitmap dispatchSelect flag select)

section Values

/-- A value with its type. -/
abbrev Datum := GPUColumnType × Bytes

/-- A value, or NULL. -/
abbrev Value := Option Datum

def truth (b : Bool) : Datum := (.boolean, [if b then 1 else 0])

def isTrue (d : Datum) : Bool := d.2.any (· ≠ 0)

@[simp] theorem isTrue_truth (b : Bool) : isTrue (truth b) = b := by
  cases b <;> decide

def boolOf (v : Value) : Option Bool := v.map isTrue

def valueOf (b : Option Bool) : Value := b.map truth

@[simp] theorem boolOf_valueOf (b : Option Bool) : boolOf (valueOf b) = b := by
  cases b with
  | none => rfl
  | some b => exact congrArg some (isTrue_truth b)

/-- What comparisons, functions and casts are in SQL for values that are not NULL; without a
value SQL raises. -/
structure Sql where
  holds : ComparisonType → Datum → Datum → Bool
  arithmetic : String → LogicalType → List Datum → Option Value
  function : String → List Datum → Option Value
  cast : GPUColumnType → Datum → Option Value

/-- A function is NULL where an argument is. -/
def call (f : List Datum → Option Value) (values : List Value) : Option Value :=
  match values.mapM id with
  | some data => f data
  | none => some none

def castValue (sql : Sql) (type : GPUColumnType) (v : Value) : Option Value :=
  v.elim (some none) (sql.cast type)

def functionOf (sql : Sql) (name : String) (returnType : LogicalType) :
    List Datum → Option Value :=
  if name ∈ arithmeticFunctions then sql.arithmetic name returnType else sql.function name

/-- The value of a constant. -/
def constantValue (c : Constant) : Value :=
  match getCudfType c.type with
  | .ok type => c.value.map (type, ·)
  | .error _ => none

/-- The value of a column of cudf in a row, if it has the row. -/
def valueAt (column : CudfColumn) (row : Nat) : Option Value :=
  (column.values[row]?).map fun v => v.map (column.type, ·)

end Values

section Meaning

variable (sql : Sql) (columns : List Column) (row : Nat)

/-- A comparison of two values; those with DISTINCT take NULL as a value. -/
def compareValues (type : ComparisonType) (x y : Value) : Option Bool :=
  match type, x, y with
  | .distinctFrom, some a, some b => some (sql.holds .notEqual a b)
  | .distinctFrom, x, y => some (x.isSome || y.isSome)
  | .notDistinctFrom, some a, some b => some (sql.holds .equal a b)
  | .notDistinctFrom, x, y => some (x.isNone && y.isNone)
  | type, x, y => Option.map₂ (sql.holds type) x y

/-- The truth value that decides a conjunction. -/
def deciding : ConjunctionType → Bool
  | .and => false
  | .or => true

abbrev Outcome := Except Exception Value

def outcomeOf : Option Value → Outcome
  | some v => .ok v
  | none => .error (.internal "error")

theorem outcomeOf_ok_iff {made : Option Value} {v : Value} :
    outcomeOf made = .ok v ↔ made = some v := by
  cases made <;> simp [outcomeOf]

/-- The operands of a connective, if none raises. -/
def operands (outcomes : List Outcome) : Except Exception (List Value) := outcomes.mapM id

def betweenMeaning (input lower upper : Outcome) : Outcome := do
  let x ← input
  let low ← lower
  let high ← upper
  .ok (valueOf (decidedBy false [compareValues sql .greaterThanOrEqualTo x low,
    compareValues sql .lessThanOrEqualTo x high]))

def comparisonMeaning (type : ComparisonType) (left right : Outcome) : Outcome := do
  let x ← left
  let y ← right
  .ok (valueOf (compareValues sql type x y))

def conjunctionMeaning (type : ConjunctionType) (outcomes : List Outcome) : Outcome := do
  let values ← operands outcomes
  .ok (valueOf (decidedBy (deciding type) (values.map boolOf)))

/-- Of the branches of a CASE only one is evaluated. -/
def caseMeaning (whenOutcome thenOutcome elseOutcome : Outcome) : Outcome := do
  let condition ← whenOutcome
  if condition.any isTrue then thenOutcome else elseOutcome

def castMeaning (returnType : LogicalType) (child : Outcome) : Outcome := do
  let type ← getCudfType returnType
  let v ← child
  outcomeOf (castValue sql type v)

def functionMeaning (name : String) (returnType : LogicalType) (outcomes : List Outcome) :
    Outcome :=
  if name = errorFuncStr then .error (.internal "error")
  else do
    let values ← operands outcomes
    outcomeOf (call (functionOf sql name returnType) values)

/-- Whether the first of some values is among the others. -/
def inMeaning (outcomes : List Outcome) : Except Exception (Option Bool) := do
  let values ← operands outcomes
  match values with
  | [] => .error .fault
  | x :: others => .ok (decidedBy true (others.map (compareValues sql .equal x)))

def operatorMeaning (type : OperatorType) (outcomes : List Outcome) : Outcome :=
  match type, outcomes with
  | .compareIn, outcomes => do
    let found ← inMeaning sql outcomes
    .ok (valueOf found)
  | .compareNotIn, outcomes => do
    let found ← inMeaning sql outcomes
    .ok (valueOf (found.map (!·)))
  | .coalesce, outcomes => do
    let values ← operands outcomes
    .ok (values.find? (·.isSome)).join
  | .not, [outcome] => do
    let v ← outcome
    .ok (valueOf ((boolOf v).map (!·)))
  | .isNull, [outcome] => do
    let v ← outcome
    .ok (some (truth v.isNone))
  | .isNotNull, [outcome] => do
    let v ← outcome
    .ok (some (truth v.isSome))
  | _, _ => .error .fault

mutual

/-- The value of an expression in a row. -/
def meaning : Expression → Outcome
  | .between input lower upper =>
    betweenMeaning sql (meaning input) (meaning lower) (meaning upper)
  | .case whenExpr thenExpr elseExpr =>
    caseMeaning (meaning whenExpr) (meaning thenExpr) (meaning elseExpr)
  | .cast child returnType => castMeaning sql returnType (meaning child)
  | .comparison type left right => comparisonMeaning sql type (meaning left) (meaning right)
  | .conjunction type children => conjunctionMeaning type (meanings children)
  | .constant value => .ok (constantValue value)
  | .function name children returnType => functionMeaning sql name returnType (meanings children)
  | .operator type children => operatorMeaning sql type (meanings children)
  | .reference index => .ok ((columns[index]?).bind fun c => (c.cell row).map (c.type, ·))

def meanings : List Expression → List Outcome
  | [] => []
  | child :: rest => meaning child :: meanings rest

end

end Meaning

section Assumptions

variable (sql : Sql)

def binaryEffect (op : BinaryOperator) (returnType : LogicalType) (x y : Value) : Option Value :=
  match op with
  | .comparison type => some (valueOf (compareValues sql type x y))
  | .logical type => some (valueOf (strict (deciding type) (boolOf x) (boolOf y)))
  | .arithmetic name => call (sql.arithmetic name returnType) [x, y]

/-- What an operation of cudf makes of the values of a row, if SQL does not raise there. -/
def effect : Operation → List Value → Option Value
  | .binary op returnType, [x, y] => binaryEffect sql op returnType x y
  | .leftScalar op c returnType, [y] => binaryEffect sql op returnType (constantValue c) y
  | .rightScalar op c returnType, [x] => binaryEffect sql op returnType x (constantValue c)
  | .contains haystack, [x] =>
    some (x.map fun a => truth (haystack.any fun c => (constantValue c).any (sql.holds .equal a)))
  | .not, [x] => some (valueOf ((boolOf x).map (!·)))
  | .isNull, [x] => some (some (truth x.isNone))
  | .cast type, [x] => castValue sql type x
  | .copyIfElse, [x, y, mask] => some (if mask.any isTrue then x else y)
  | .function name constants, [x] =>
    let others := constants.map constantValue
    call (sql.function name) (if name = "date_trunc" then others ++ [x] else x :: others)
  | _, _ => none

/-- The constants of an operation are not NULL. -/
def Valued : Operation → Prop
  | .leftScalar _ c _ | .rightScalar _ c _ => constantValue c ≠ none
  | .contains constants | .function _ constants => ∀ c ∈ constants, constantValue c ≠ none
  | _ => True

/-- cudf does what it says, row by row, and a scalar is its constant. -/
structure Documented (cudf : Cudf) : Prop where
  run : ∀ op args out, Valued op → cudf.run op args = .ok out → ∀ row v,
    valueAt out row = some v →
      ∃ xs, List.Forall₂ (fun a x => valueAt a row = some x) args xs ∧
        ∀ w, effect sql op xs = some w → v = w
  scalar : ∀ c s, constantValue c ≠ none → cudf.scalar c = .ok s →
    s.value.map (s.type, ·) = constantValue c

variable {sql} {cudf : Cudf} {op : Operation} {a b c out : CudfColumn} {row : Nat} {v : Value}

theorem Documented.run₁ (documented : Documented sql cudf) (valued : Valued op)
    (ran : cudf.run op [a] = .ok out) (here : valueAt out row = some v) :
    ∃ x, valueAt a row = some x ∧ ∀ w, effect sql op [x] = some w → v = w := by
  obtain ⟨xs, each, made⟩ := documented.run op _ out valued ran row v here
  obtain ⟨x, _, first, tail, rfl⟩ := List.forall₂_cons_left_iff.mp each
  cases tail
  exact ⟨x, first, made⟩

theorem Documented.run₂ (documented : Documented sql cudf) (valued : Valued op)
    (ran : cudf.run op [a, b] = .ok out) (here : valueAt out row = some v) :
    ∃ x y, valueAt a row = some x ∧ valueAt b row = some y ∧
      ∀ w, effect sql op [x, y] = some w → v = w := by
  obtain ⟨xs, each, made⟩ := documented.run op _ out valued ran row v here
  obtain ⟨x, _, first, tail, rfl⟩ := List.forall₂_cons_left_iff.mp each
  obtain ⟨y, _, second, tail', rfl⟩ := List.forall₂_cons_left_iff.mp tail
  cases tail'
  exact ⟨x, y, first, second, made⟩

theorem Documented.run₃ (documented : Documented sql cudf) (valued : Valued op)
    (ran : cudf.run op [a, b, c] = .ok out) (here : valueAt out row = some v) :
    ∃ x y z, valueAt a row = some x ∧ valueAt b row = some y ∧ valueAt c row = some z ∧
      ∀ w, effect sql op [x, y, z] = some w → v = w := by
  obtain ⟨xs, each, made⟩ := documented.run op _ out valued ran row v here
  obtain ⟨x, _, first, tail, rfl⟩ := List.forall₂_cons_left_iff.mp each
  obtain ⟨y, _, second, tail', rfl⟩ := List.forall₂_cons_left_iff.mp tail
  obtain ⟨z, _, third, tail'', rfl⟩ := List.forall₂_cons_left_iff.mp tail'
  cases tail''
  exact ⟨x, y, z, first, second, third, made⟩

theorem Documented.compared (documented : Documented sql cudf) {type : ComparisonType}
    {returnType : LogicalType}
    (ran : cudf.run (.binary (.comparison type) returnType) [a, b] = .ok out)
    (here : valueAt out row = some v) : ∃ x y, valueAt a row = some x ∧ valueAt b row = some y ∧
      v = valueOf (compareValues sql type x y) := by
  obtain ⟨x, y, first, second, made⟩ := documented.run₂ (by trivial) ran here
  exact ⟨x, y, first, second, made _ rfl⟩

theorem Documented.connected (documented : Documented sql cudf) {type : ConjunctionType}
    {returnType : LogicalType}
    (ran : cudf.run (.binary (.logical type) returnType) [a, b] = .ok out)
    (here : valueAt out row = some v) : ∃ x y, valueAt a row = some x ∧ valueAt b row = some y ∧
      v = valueOf (strict (deciding type) (boolOf x) (boolOf y)) := by
  obtain ⟨x, y, first, second, made⟩ := documented.run₂ (by trivial) ran here
  exact ⟨x, y, first, second, made _ rfl⟩

end Assumptions

section Precision

variable (sql : Sql) (columns : List Column) (row : Nat)

/-- The value of the executor is the one of SQL, or has less information. -/
def Agrees {α : Type} (exact : Bool) (v w : Option α) : Prop :=
  Below v w ∧ (exact = true → v = w)

def asksNull : OperatorType → Bool
  | .isNull | .isNotNull => true
  | _ => false

mutual

/-- What the result needs to be no more than SQL's value, or to be exactly this value: an operand
that is asked for NULLs or selects in a CASE is exact, constants are not NULL, a negated IN has
not only constants, casts to decimals have no scale, SQL does not raise, and for an exact result
no connective has a NULL beside an operand that decides. Of the branches of a CASE only the one
that is selected needs this. -/
def Keeps : Bool → Expression → Prop
  | exact, .between input lower upper =>
    Keeps exact input ∧ Keeps exact lower ∧ Keeps exact upper ∧ (exact = true →
      ∀ x low high, meaning sql columns row input = .ok x →
        meaning sql columns row lower = .ok low →
          meaning sql columns row upper = .ok high →
            Clear false [compareValues sql .greaterThanOrEqualTo x low,
              compareValues sql .lessThanOrEqualTo x high])
  | exact, .case whenExpr thenExpr elseExpr =>
    Keeps true whenExpr ∧ (thenExpr.isError = true ∧ hasNullLeaf columns whenExpr = false ∨
      thenExpr.isError = false ∧ ∀ v, meaning sql columns row whenExpr = .ok v →
        v.any isTrue = true → Keeps exact thenExpr) ∧
      ∀ v, meaning sql columns row whenExpr = .ok v → v.any isTrue = false → Keeps exact elseExpr
  | exact, .cast child returnType =>
    Keeps exact child ∧ (∀ width scale, returnType = .decimal width scale → scale = 0) ∧
      ∀ type v, getCudfType returnType = .ok type → meaning sql columns row child = .ok v →
        castValue sql type v ≠ none
  | exact, .comparison _ left right => Keeps exact left ∧ Keeps exact right
  | exact, .conjunction type children =>
    2 ≤ children.length ∧ KeepsAll exact children ∧ (exact = true →
      ∀ values, operands (meanings sql columns row children) = .ok values →
        Clear (deciding type) (values.map boolOf))
  | _, .constant c => constantValue c ≠ none
  | exact, .function name children returnType =>
    KeepsAll exact children ∧ ∀ values, operands (meanings sql columns row children) = .ok values →
      call (functionOf sql name returnType) values ≠ none
  | exact, .operator type children =>
    KeepsAll (exact || asksNull type) children ∧
      (type = .compareNotIn → children.tail.mapM Expression.asConstant = none) ∧
        (exact = true → ∀ x ys,
          operands (meanings sql columns row children) = .ok (x :: ys) →
            Clear true (ys.map (compareValues sql .equal x)))
  | _, .reference _ => True

def KeepsAll : Bool → List Expression → Prop
  | _, [] => True
  | exact, child :: rest => Keeps exact child ∧ KeepsAll exact rest

end

/-- A child that is a constant has its value. -/
def Known (child : Expression) (outcome : Outcome) : Prop :=
  ∀ c, child.asConstant = some c → constantValue c ≠ none ∧ outcome = .ok (constantValue c)

/-- A result of the executor, and what SQL has for it. -/
def Right (exact : Bool) (result : Except Exception CudfColumn) (outcome : Outcome) : Prop :=
  ∀ out v, result = .ok out → valueAt out row = some v →
    ∃ w, outcome = .ok w ∧ Agrees exact v w

end Precision

section Agreement

variable {α β γ : Type} {exact : Bool} {v w : Option α} {v' w' : Option β}
  {d : Bool} {x y : Option Bool} {xs ys : List (Option Bool)}

theorem Agrees.refl (v : Option α) : Agrees exact v v := ⟨Below.refl v, fun _ => rfl⟩

theorem agrees_exact : Agrees true v w ↔ v = w := by
  constructor
  · exact fun agrees => agrees.2 rfl
  · rintro rfl
    exact Agrees.refl v

theorem Agrees.map (agrees : Agrees exact v w) (f : α → γ) : Agrees exact (v.map f) (w.map f) :=
  ⟨agrees.1.map f, fun same => by rw [agrees.2 same]⟩

theorem Agrees.map₂ (agrees : Agrees exact v w) (agrees' : Agrees exact v' w') (f : α → β → γ) :
    Agrees exact (Option.map₂ f v v') (Option.map₂ f w w') :=
  ⟨agrees.1.map₂ f agrees'.1, fun same => by rw [agrees.2 same, agrees'.2 same]⟩

theorem agrees_below (agrees : List.Forall₂ (Agrees exact) xs ys) : List.Forall₂ Below xs ys :=
  agrees.imp fun _ _ both => both.1

theorem agrees_eq {vs ws : List (Option α)} (agrees : List.Forall₂ (Agrees true) vs ws) :
    vs = ws := by
  rw [← List.forall₂_eq_eq_eq]
  exact agrees.imp fun _ _ both => both.2 rfl

/-- A strict connective, and the one of SQL. -/
theorem agrees_fold (agrees : List.Forall₂ (Agrees exact) (x :: xs) (y :: ys))
    (clear : exact = true → Clear d (y :: ys)) :
    Agrees exact (strictFold d x xs) (decidedBy d (y :: ys)) := by
  refine ⟨(strictFold_below x xs).trans (decidedBy_mono (agrees_below agrees)), fun same => ?_⟩
  subst same
  cases agrees_eq agrees
  exact (strictFold_eq_iff x xs).mpr (clear rfl)

theorem agrees_known {vs ws : List Value} (agrees : List.Forall₂ (Agrees exact) vs ws)
    {data : List Datum} (known : vs.mapM id = some data) : ws.mapM id = some data := by
  rw [mapM_some_iff] at known ⊢
  induction agrees generalizing data with
  | nil =>
    cases known
    exact .nil
  | cons head _ ih =>
    obtain ⟨a, rest, first, others, rfl⟩ := List.forall₂_cons_left_iff.mp known
    exact .cons (head.1 a first) (ih others)

/-- A function on values that have less information, where SQL has a value. -/
theorem agrees_call {vs ws : List Value} (agrees : List.Forall₂ (Agrees exact) vs ws)
    {f : List Datum → Option Value} {v w : Value}
    (made : ∀ u, call f vs = some u → v = u)
    (returns : call f ws = some w) : Agrees exact v w := by
  cases known : vs.mapM id with
  | some data =>
    rw [made w]
    · exact Agrees.refl w
    · rw [EvaluatorMeaning.call, agrees_known agrees known] at returns
      rw [EvaluatorMeaning.call, known]
      exact returns
  | none =>
    have same : call f vs = some none := by
      rw [EvaluatorMeaning.call, known]
    cases made none same
    refine ⟨below_none w, ?_⟩
    rintro rfl
    rw [← agrees_eq agrees, same] at returns
    exact Option.some.inj returns

theorem agrees_castValue {sql : Sql} {type : GPUColumnType} {x y v w : Value}
    (agrees : Agrees exact x y)
    (made : ∀ u, castValue sql type x = some u → v = u)
    (returns : castValue sql type y = some w) : Agrees exact v w := by
  cases x with
  | some d =>
    rw [agrees.1 d rfl] at returns
    rw [made w returns]
    exact Agrees.refl w
  | none =>
    cases made none rfl
    refine ⟨below_none w, ?_⟩
    rintro rfl
    rw [← agrees.2 rfl] at returns
    exact Option.some.inj returns

variable {sql : Sql} {type : ComparisonType}

def Plain (type : ComparisonType) : Prop := type ≠ .distinctFrom ∧ type ≠ .notDistinctFrom

instance : Decidable (Plain type) := inferInstanceAs (Decidable (_ ∧ _))

theorem compareValues_plain (plain : Plain type) (a b : Value) :
    compareValues sql type a b = Option.map₂ (sql.holds type) a b := by
  cases type with
  | distinctFrom => exact absurd rfl plain.1
  | notDistinctFrom => exact absurd rfl plain.2
  | _ => cases a <;> cases b <;> rfl

theorem Agrees.compare {a b a' b' : Value} (agrees : Agrees exact a a')
    (agrees' : Agrees exact b b') (plain : Plain type) :
    Agrees exact (compareValues sql type a b) (compareValues sql type a' b') := by
  rw [compareValues_plain plain, compareValues_plain plain]
  exact agrees.map₂ agrees' _

end Agreement

section Steps

variable {sql : Sql} {cudf : Cudf} {row : Nat} {exact : Bool}
  {result₁ result₂ result₃ : Except Exception CudfColumn} {outcome₁ outcome₂ outcome₃ : Outcome}
  {results : Results} {outcomes : List Outcome} {type : ConjunctionType}

theorem strict_comm (d : Bool) (x y : Option Bool) : strict d x y = strict d y x := by
  cases x with
  | none => exact (strict_none y).symm
  | some a =>
    cases y with
    | none => rfl
    | some b => cases d <;> simp [strict, Bool.or_comm, Bool.and_comm]

/-- The loop of a conjunction, from a truth value on. -/
theorem conjunction_fold (documented : Documented sql cudf)
    (all : List.Forall₂ (Right row exact) results outcomes) {output out : CudfColumn} {v : Value}
    (ran : executeConjunction cudf type output results = .ok out)
    (here : valueAt out row = some v) :
    ∃ start vs ws, valueAt output row = some start ∧ outcomes = ws.map .ok ∧
      List.Forall₂ (Agrees exact) vs ws ∧ ∀ s, start = valueOf s →
        v = valueOf (strictFold (deciding type) s (vs.map boolOf)) := by
  induction all generalizing output with
  | nil =>
    cases ran
    exact ⟨v, [], [], here, rfl, .nil, fun s same => same⟩
  | cons head _ ih =>
    obtain ⟨current, made, ran⟩ := bind_ok_iff.mp ran
    obtain ⟨output', connected, ran⟩ := bind_ok_iff.mp ran
    obtain ⟨start', vs, ws, there, rfl, agrees, fold⟩ := ih ran
    obtain ⟨x, start, first, second, rfl⟩ := documented.connected connected there
    obtain ⟨w, rfl, agree⟩ := head current x made first
    refine ⟨start, x :: vs, w :: ws, second, rfl, .cons agree agrees, ?_⟩
    rintro s rfl
    exact fold _ (by rw [boolOf_valueOf])

/-- The loop of an IN, from a truth value on. -/
theorem anyEqual_fold (documented : Documented sql cudf)
    (all : List.Forall₂ (Right row exact) results outcomes) {left output out : CudfColumn}
    {v : Value} (ran : executeAnyEqual cudf left output results = .ok out)
    (here : valueAt out row = some v) :
    ∃ start vs ws, valueAt output row = some start ∧ outcomes = ws.map .ok ∧
      List.Forall₂ (Agrees exact) vs ws ∧ ∀ x s, valueAt left row = some x → start = valueOf s →
        v = valueOf (strictFold true s (vs.map (compareValues sql .equal x))) := by
  induction all generalizing output with
  | nil =>
    cases ran
    exact ⟨v, [], [], here, rfl, .nil, fun x s _ same => same⟩
  | cons head _ ih =>
    obtain ⟨comparator, made, ran⟩ := bind_ok_iff.mp ran
    obtain ⟨comparison, compared, ran⟩ := bind_ok_iff.mp ran
    obtain ⟨output', connected, ran⟩ := bind_ok_iff.mp ran
    obtain ⟨start', vs, ws, there, rfl, agrees, fold⟩ := ih ran
    obtain ⟨start, c, first, second, rfl⟩ := documented.connected connected there
    obtain ⟨x', y, left', right', rfl⟩ := documented.compared compared second
    obtain ⟨w, rfl, agree⟩ := head comparator y made right'
    refine ⟨start, y :: vs, w :: ws, first, rfl, .cons agree agrees, ?_⟩
    rintro x s searched rfl
    rw [searched] at left'
    cases left'
    exact fold _ _ searched (by rw [boolOf_valueOf, boolOf_valueOf, strict_comm]; rfl)

theorem between_right (documented : Documented sql cudf) (input : Right row exact result₁ outcome₁)
    (lower : Right row exact result₂ outcome₂) (upper : Right row exact result₃ outcome₃)
    (clear : exact = true → ∀ x low high, outcome₁ = .ok x → outcome₂ = .ok low →
      outcome₃ = .ok high → Clear false [compareValues sql .greaterThanOrEqualTo x low,
        compareValues sql .lessThanOrEqualTo x high]) :
    Right row exact (executeBetween cudf result₁ result₂ result₃)
      (betweenMeaning sql outcome₁ outcome₂ outcome₃) := by
  intro out v ran here
  obtain ⟨a, made, ran⟩ := bind_ok_iff.mp ran
  obtain ⟨b, made', ran⟩ := bind_ok_iff.mp ran
  obtain ⟨c, made'', ran⟩ := bind_ok_iff.mp ran
  obtain ⟨lowerCmp, compared, ran⟩ := bind_ok_iff.mp ran
  obtain ⟨upperCmp, compared', ran⟩ := bind_ok_iff.mp ran
  obtain ⟨p, q, first, second, rfl⟩ := documented.connected ran here
  obtain ⟨x, low, atInput, atLower, rfl⟩ := documented.compared compared first
  obtain ⟨x', high, atInput', atUpper, rfl⟩ := documented.compared compared' second
  rw [atInput] at atInput'
  cases atInput'
  obtain ⟨w, rfl, agrees⟩ := input a x made atInput
  obtain ⟨wl, rfl, agrees'⟩ := lower b low made' atLower
  obtain ⟨wh, rfl, agrees''⟩ := upper c high made'' atUpper
  refine ⟨_, rfl, ?_⟩
  rw [boolOf_valueOf, boolOf_valueOf, strict_comm]
  exact (agrees_fold (.cons (agrees.compare agrees' (by decide))
    (.cons (agrees.compare agrees'' (by decide)) .nil))
      fun same => clear same w wl wh rfl rfl rfl).map truth

/-- A comparison with a constant runs against a scalar. -/
theorem executeComparison_constant {type : ComparisonType} (plain : Plain type)
    {right : Expression} {c : Constant} (known : right.asConstant = some c) :
    executeComparison cudf type right result₁ result₂ = (do
      let left ← result₁
      cudf.run (.rightScalar (.comparison type) c .boolean) [left]) := by
  cases type with
  | distinctFrom => exact absurd rfl plain.1
  | notDistinctFrom => exact absurd rfl plain.2
  | _ => simp only [executeComparison, known]

theorem executeComparison_column {type : ComparisonType} (plain : Plain type)
    {right : Expression} (known : right.asConstant = none) :
    executeComparison cudf type right result₁ result₂ = (do
      let left ← result₁
      let right ← result₂
      cudf.run (.binary (.comparison type) .boolean) [left, right]) := by
  cases type with
  | distinctFrom => exact absurd rfl plain.1
  | notDistinctFrom => exact absurd rfl plain.2
  | _ => simp only [executeComparison, known]

theorem comparison_right (documented : Documented sql cudf) (type : ComparisonType)
    {right : Expression} (left : Right row exact result₁ outcome₁)
    (other : Right row exact result₂ outcome₂)
    (constant : Known right outcome₂) :
    Right row exact (executeComparison cudf type right result₁ result₂)
      (comparisonMeaning sql type outcome₁ outcome₂) := by
  intro out v ran here
  have plain : Plain type := by
    constructor
    · rintro rfl
      cases ran
    · rintro rfl
      cases ran
  cases known : right.asConstant with
  | some c =>
    rw [executeComparison_constant plain known] at ran
    obtain ⟨a, made, run⟩ := bind_ok_iff.mp ran
    obtain ⟨valued, rfl⟩ := constant c known
    obtain ⟨x, atLeft, effected⟩ := documented.run₁ (by exact valued) run here
    obtain ⟨w, rfl, agrees⟩ := left a x made atLeft
    obtain rfl := effected _ rfl
    exact ⟨_, rfl, (agrees.compare (Agrees.refl _) plain).map truth⟩
  | none =>
    rw [executeComparison_column plain known] at ran
    obtain ⟨a, made, run⟩ := bind_ok_iff.mp ran
    obtain ⟨b, made', run⟩ := bind_ok_iff.mp run
    obtain ⟨x, y, atLeft, atRight, rfl⟩ := documented.compared run here
    obtain ⟨w, rfl, agrees⟩ := left a x made atLeft
    obtain ⟨w', rfl, agrees'⟩ := other b y made' atRight
    exact ⟨_, rfl, (agrees.compare agrees' plain).map truth⟩

theorem operands_ok (values : List Value) : operands (values.map .ok) = .ok values := by
  rw [operands, mapM_ok_iff, List.forall₂_map_left_iff]
  exact List.forall₂_same.mpr fun v _ => rfl

theorem agrees_boolOf {vs ws : List Value} (agrees : List.Forall₂ (Agrees exact) vs ws) :
    List.Forall₂ (Agrees exact) (vs.map boolOf) (ws.map boolOf) := by
  rw [List.forall₂_map_left_iff, List.forall₂_map_right_iff]
  exact agrees.imp fun _ _ both => both.map isTrue

theorem conjunction_right (documented : Documented sql cudf)
    (first : Right row exact result₁ outcome₁) (second : Right row exact result₂ outcome₂)
    (all : List.Forall₂ (Right row exact) results outcomes)
    (clear : exact = true → ∀ values, operands (outcome₁ :: outcome₂ :: outcomes) = .ok values →
      Clear (deciding type) (values.map boolOf)) :
    Right row exact (do
        let output ← result₁
        executeConjunction cudf type output (result₂ :: results))
      (conjunctionMeaning type (outcome₁ :: outcome₂ :: outcomes)) := by
  intro out v ran here
  obtain ⟨output, made, ran⟩ := bind_ok_iff.mp ran
  obtain ⟨current, made', ran⟩ := bind_ok_iff.mp ran
  obtain ⟨output', connected, ran⟩ := bind_ok_iff.mp ran
  obtain ⟨start, vs, ws, there, rfl, agrees, fold⟩ := conjunction_fold documented all ran here
  obtain ⟨y, x, atCurrent, atOutput, same⟩ := documented.connected connected there
  obtain ⟨w, rfl, agree⟩ := first output x made atOutput
  obtain ⟨w', rfl, agree'⟩ := second current y made' atCurrent
  have whole : operands (.ok w :: .ok w' :: ws.map .ok) = .ok (w :: w' :: ws) :=
    operands_ok (w :: w' :: ws)
  refine ⟨valueOf (decidedBy (deciding type) ((w :: w' :: ws).map boolOf)), ?_, ?_⟩
  · rw [conjunctionMeaning, whole]
    rfl
  · rw [fold _ same]
    exact (agrees_fold (agrees_boolOf (.cons agree (.cons agree' agrees)))
      fun same => clear same _ whole).map truth

theorem known_constants {children : List Expression} (known : List.Forall₂ Known children outcomes)
    {constants : List Constant} (all : children.mapM Expression.asConstant = some constants) :
    (∀ c ∈ constants, constantValue c ≠ none) ∧
      outcomes = (constants.map constantValue).map .ok := by
  have each := mapM_some_iff.mp all
  clear all
  induction known generalizing constants with
  | nil =>
    cases each
    exact ⟨fun c member => (List.not_mem_nil member).elim, rfl⟩
  | cons head _ ih =>
    obtain ⟨c, rest, here, others, rfl⟩ := List.forall₂_cons_left_iff.mp each
    obtain ⟨valued, rfl⟩ := head c here
    obtain ⟨valued', rfl⟩ := ih others
    refine ⟨fun c' member => ?_, rfl⟩
    rcases List.mem_cons.mp member with rfl | later
    · exact valued
    · exact valued' c' later

/-- A search for a value among constants. -/
theorem decidedBy_constants {haystack : List Constant} (some' : haystack ≠ [])
    (valued : ∀ c ∈ haystack, constantValue c ≠ none) (x : Value) :
    decidedBy true ((haystack.map constantValue).map (compareValues sql .equal x)) =
      x.map fun a => haystack.any fun c => (constantValue c).any (sql.holds .equal a) := by
  have plain := @compareValues_plain sql .equal (by decide)
  cases x with
  | none =>
    have none (c : Constant) : compareValues sql .equal none (constantValue c) = none := by
      rw [plain]
      rfl
    obtain ⟨c, rest, rfl⟩ := List.exists_cons_of_ne_nil some'
    simp [decidedBy, Function.comp_def, none]
  | some a =>
    have known (c : Constant) (member : c ∈ haystack) :
        compareValues sql .equal (some a) (constantValue c) =
          some ((constantValue c).any (sql.holds .equal a)) := by
      obtain ⟨b, there⟩ := Option.ne_none_iff_exists'.mp (valued c member)
      rw [plain, there]
      rfl
    rw [List.map_map, Option.map_some]
    simp only [Function.comp_def]
    rw [List.map_congr_left known]
    cases found : haystack.any fun c => (constantValue c).any (sql.holds .equal a) with
    | true =>
      obtain ⟨c, member, here⟩ := List.any_eq_true.mp found
      rw [decidedBy, if_pos (List.mem_map.mpr ⟨c, member, by rw [here]⟩)]
    | false =>
      have others := List.any_eq_false.mp found
      rw [decidedBy, if_neg, if_neg]
      · rfl
      · simp
      · intro member
        obtain ⟨c, inside, here⟩ := List.mem_map.mp member
        exact others c inside (Option.some.inj here)

/-- An IN: what is found, before it is negated. -/
theorem in_right (documented : Documented sql cudf) {children : List Expression}
    {x₁ x₂ : Expression} (first : Right row exact result₁ outcome₁)
    (second : Right row exact result₂ outcome₂)
    (all : List.Forall₂ (Right row exact) results outcomes)
    (known : List.Forall₂ Known (x₂ :: children) (outcome₂ :: outcomes))
    (clear : exact = true → ∀ x ys, operands (outcome₁ :: outcome₂ :: outcomes) = .ok (x :: ys) →
      Clear true (ys.map (compareValues sql .equal x))) {out : CudfColumn} {v : Value}
    (ran : executeIn cudf false (x₁ :: x₂ :: children) (result₁ :: result₂ :: results) = .ok out)
    (here : valueAt out row = some v) :
    ∃ g found, inMeaning sql (outcome₁ :: outcome₂ :: outcomes) = .ok found ∧
      v = valueOf g ∧ Agrees exact g found := by
  obtain ⟨left, made, ran⟩ := bind_ok_iff.mp ran
  cases constants : (x₂ :: children).mapM Expression.asConstant with
  | some haystack =>
    simp only [constants] at ran
    obtain ⟨valued, same⟩ := known_constants known constants
    obtain ⟨x, atLeft, effected⟩ := documented.run₁ (by exact valued) ran here
    obtain ⟨w, rfl, agrees⟩ := first left x made atLeft
    have some' : haystack ≠ [] := by
      rintro rfl
      cases same
    have whole := operands_ok (w :: haystack.map constantValue)
    rw [List.map_cons, ← same] at whole
    refine ⟨x.map fun a => haystack.any fun c => (constantValue c).any (sql.holds .equal a),
      decidedBy true ((haystack.map constantValue).map (compareValues sql .equal w)), ?_, ?_, ?_⟩
    · rw [inMeaning, whole]
      rfl
    · rw [effected _ rfl, valueOf, Option.map_map]
      rfl
    · rw [decidedBy_constants some' valued]
      exact agrees.map _
  | none =>
    simp only [constants] at ran
    obtain ⟨comparator, made', ran⟩ := bind_ok_iff.mp ran
    obtain ⟨comparison, compared, ran⟩ := bind_ok_iff.mp ran
    obtain ⟨result, collected, ran⟩ := bind_ok_iff.mp ran
    cases ran
    obtain ⟨start, vs, ws, there, rfl, agrees, fold⟩ := anyEqual_fold documented all collected here
    obtain ⟨x, y, atLeft, atRight, same⟩ := documented.compared compared there
    obtain ⟨w, rfl, agree⟩ := first left x made atLeft
    obtain ⟨w', rfl, agree'⟩ := second comparator y made' atRight
    have whole : operands (.ok w :: .ok w' :: ws.map .ok) = .ok (w :: w' :: ws) :=
      operands_ok (w :: w' :: ws)
    refine ⟨strictFold true (compareValues sql .equal x y) (vs.map (compareValues sql .equal x)),
      decidedBy true ((w' :: ws).map (compareValues sql .equal w)), ?_, ?_, ?_⟩
    · rw [inMeaning, whole]
      rfl
    · exact fold x _ atLeft same
    · refine agrees_fold (.cons (agree.compare agree' (by decide)) ?_)
        fun same => clear same _ _ whole
      rw [List.forall₂_map_left_iff, List.forall₂_map_right_iff]
      exact agrees.imp fun _ _ both => agree.compare both (by decide)

theorem not_right (documented : Documented sql cudf) {a out : CudfColumn} {g : Option Bool}
    {found : Option Bool} {v : Value} (agrees : Agrees exact g found)
    (at' : ∀ x, valueAt a row = some x → boolOf x = g) (ran : cudf.run .not [a] = .ok out)
    (here : valueAt out row = some v) : Agrees exact v (valueOf (found.map (!·))) := by
  obtain ⟨x, there, effected⟩ := documented.run₁ (by trivial) ran here
  rw [effected _ rfl, at' x there]
  exact (agrees.map _).map truth

theorem unary_right (documented : Documented sql cudf) {type : OperatorType}
    (child : Right row (exact || asksNull type) result₁ outcome₁) :
    Right row exact (do
        let child ← result₁
        executeUnary cudf type child) (operatorMeaning sql type [outcome₁]) := by
  intro out v ran here
  obtain ⟨a, made, ran⟩ := bind_ok_iff.mp ran
  cases type with
  | not =>
    obtain ⟨x, there, -⟩ := documented.run₁ (by trivial) ran here
    obtain ⟨w, rfl, agrees⟩ := child a x made there
    simp only [asksNull, Bool.or_false] at agrees
    refine ⟨_, rfl, not_right documented (agrees.map isTrue) (fun x' there' => ?_) ran here⟩
    rw [there] at there'
    cases there'
    rfl
  | isNull =>
    obtain ⟨x, there, effected⟩ := documented.run₁ (by trivial) ran here
    obtain ⟨w, rfl, agrees⟩ := child a x made there
    rw [asksNull, Bool.or_true, agrees_exact] at agrees
    subst agrees
    obtain rfl := effected _ rfl
    exact ⟨_, rfl, Agrees.refl _⟩
  | isNotNull =>
    obtain ⟨temp, asked, ran⟩ := bind_ok_iff.mp ran
    obtain ⟨y, there', effected'⟩ := documented.run₁ (by trivial) ran here
    obtain ⟨x, there, effected⟩ := documented.run₁ (by trivial) asked there'
    obtain ⟨w, rfl, agrees⟩ := child a x made there
    rw [asksNull, Bool.or_true, agrees_exact] at agrees
    subst agrees
    obtain rfl := effected _ rfl
    refine ⟨_, rfl, ?_⟩
    rw [effected' _ rfl, boolOf, Option.map_some, isTrue_truth]
    cases x with
    | none => exact Agrees.refl _
    | some a => exact Agrees.refl _
  | _ => cases ran

theorem case_right (documented : Documented sql cudf) {thenExpr : Expression}
    (when' : Right row true result₁ outcome₁)
    (then' : thenExpr.isError = false → ∀ v, outcome₁ = .ok v → v.any isTrue = true →
      Right row exact result₂ outcome₂)
    (else' : ∀ v, outcome₁ = .ok v → v.any isTrue = false → Right row exact result₃ outcome₃)
    (rows : thenExpr.isError = true → ∀ mask, result₁ = .ok mask →
      ∃ m, valueAt mask row = some m) :
    Right row exact (executeCase cudf thenExpr result₁ result₂ result₃)
      (caseMeaning outcome₁ outcome₂ outcome₃) := by
  intro out v ran here
  obtain ⟨output, made, ran⟩ := bind_ok_iff.mp ran
  obtain ⟨mask, masked, ran⟩ := bind_ok_iff.mp ran
  cases raises : thenExpr.isError with
  | true =>
    simp only [raises, if_true] at ran
    split at ran
    · cases ran
    case isFalse none =>
      cases ran
      obtain ⟨m, there⟩ := rows raises mask masked
      obtain ⟨w, rfl, agrees⟩ := when' mask m masked there
      rw [agrees_exact] at agrees
      subst agrees
      obtain ⟨value, inside, rfl⟩ := Option.map_eq_some_iff.mp there
      have no : ¬ (value.map (mask.type, ·)).any isTrue = true := by
        intro yes
        refine none (List.any_eq_true.mpr ⟨value, List.mem_of_getElem? inside, ?_⟩)
        cases value with
        | none => cases yes
        | some bits => exact yes
      obtain ⟨w', rfl, agrees⟩ := else' _ rfl (Bool.eq_false_iff.mpr no) out v made here
      exact ⟨w', by rw [caseMeaning]; exact if_neg no, agrees⟩
  | false =>
    simp only [raises, Bool.false_eq_true, if_false] at ran
    obtain ⟨chosen, made', ran⟩ := bind_ok_iff.mp ran
    obtain ⟨x, y, m, atThen, atElse, atMask, effected⟩ := documented.run₃ (by trivial) ran here
    obtain ⟨w, rfl, agrees⟩ := when' mask m masked atMask
    rw [agrees_exact] at agrees
    subst agrees
    rw [effected _ rfl]
    by_cases yes : m.any isTrue = true
    · obtain ⟨w₂, rfl, agrees₂⟩ := then' raises m rfl yes chosen x made' atThen
      exact ⟨w₂, by rw [caseMeaning]; exact if_pos yes, by rwa [if_pos yes]⟩
    · obtain ⟨w₃, rfl, agrees₃⟩ := else' m rfl (Bool.eq_false_iff.mpr yes) output y made atElse
      exact ⟨w₃, by rw [caseMeaning]; exact if_neg yes, by rwa [if_neg yes]⟩

theorem executeIn_right (documented : Documented sql cudf) {children : List Expression}
    (negated : Bool) (all : List.Forall₂ (Right row exact) results outcomes)
    (known : List.Forall₂ Known children outcomes)
    (searched : negated = true → children.tail.mapM Expression.asConstant = none)
    (clear : exact = true → ∀ x ys, operands outcomes = .ok (x :: ys) →
      Clear true (ys.map (compareValues sql .equal x))) :
    Right row exact (executeIn cudf negated children results) (do
      let found ← inMeaning sql outcomes
      .ok (valueOf (if negated then found.map (!·) else found))) := by
  intro out v ran here
  match children, results, outcomes, all, known with
  | x₁ :: x₂ :: children, result₁ :: result₂ :: results, outcome₁ :: outcome₂ :: outcomes,
      .cons first (.cons second all), .cons _ known =>
    cases negated with
    | false =>
      obtain ⟨g, found, meant, rfl, agrees⟩ :=
        in_right documented first second all known clear ran here
      rw [meant]
      exact ⟨_, rfl, agrees.map truth⟩
    | true =>
      have constants : (x₂ :: children).mapM Expression.asConstant = none := searched rfl
      obtain ⟨left, made, ran⟩ := bind_ok_iff.mp ran
      simp only [constants] at ran
      obtain ⟨comparator, made', ran⟩ := bind_ok_iff.mp ran
      obtain ⟨comparison, compared, ran⟩ := bind_ok_iff.mp ran
      obtain ⟨result, collected, ran⟩ := bind_ok_iff.mp ran
      have plain : executeIn cudf false (x₁ :: x₂ :: children) (result₁ :: result₂ :: results) =
          .ok result := by
        refine bind_ok_iff.mpr ⟨left, made, ?_⟩
        simp only [constants]
        exact bind_ok_iff.mpr ⟨comparator, made', bind_ok_iff.mpr ⟨comparison, compared,
          bind_ok_iff.mpr ⟨result, collected, rfl⟩⟩⟩
      obtain ⟨y, there, -⟩ := documented.run₁ (by trivial) ran here
      obtain ⟨g, found, meant, rfl, agrees⟩ :=
        in_right documented first second all known clear plain there
      rw [meant]
      refine ⟨_, rfl, not_right documented agrees (fun x' there' => ?_) ran here⟩
      rw [there] at there'
      cases there'
      exact boolOf_valueOf g
  | [], _, _, _, _ => cases ran
  | [_], _ :: _, _, _, _ => cases ran

theorem operator_right (documented : Documented sql cudf) {children : List Expression}
    (type : OperatorType) (all : List.Forall₂ (Right row (exact || asksNull type)) results outcomes)
    (known : List.Forall₂ Known children outcomes)
    (searched : type = .compareNotIn → children.tail.mapM Expression.asConstant = none)
    (clear : exact = true → ∀ x ys, operands outcomes = .ok (x :: ys) →
      Clear true (ys.map (compareValues sql .equal x))) :
    Right row exact (executeOperator cudf type children results)
      (operatorMeaning sql type outcomes) := by
  intro out v ran here
  unfold executeOperator at ran
  split at ran
  · simp only [asksNull, Bool.or_false] at all
    exact executeIn_right documented false all known (fun no => nomatch no) clear out v ran here
  · simp only [asksNull, Bool.or_false] at all
    exact executeIn_right documented true all known (fun _ => searched rfl) clear out v ran here
  · cases ran
  · split at ran
    · obtain ⟨outcome, _, head, tail, rfl⟩ := List.forall₂_cons_left_iff.mp all
      cases tail
      exact unary_right documented head out v ran here
    · cases ran

/-- The type of a cast without scale is that of its id. -/
theorem ofId_getCudfType {returnType : LogicalType} {type : GPUColumnType}
    (scaleless : ∀ width scale, returnType = .decimal width scale → scale = 0)
    (typed : getCudfType returnType = .ok type) : ofId type = type := by
  cases returnType with
  | decimal width scale =>
    obtain rfl := scaleless width scale rfl
    rw [getCudfType] at typed
    split at typed
    · cases typed
    · cases typed
      rfl
  | _ =>
    cases typed
    try rfl

theorem cast_right (documented : Documented sql cudf) {returnType : LogicalType}
    (child : Right row exact result₁ outcome₁)
    (scaleless : ∀ width scale, returnType = .decimal width scale → scale = 0)
    (returns : ∀ type v, getCudfType returnType = .ok type → outcome₁ = .ok v →
      castValue sql type v ≠ none) :
    Right row exact (do
        let type ← getCudfType returnType
        let child ← result₁
        cudf.run (.cast (ofId type)) [child]) (castMeaning sql returnType outcome₁) := by
  intro out v ran here
  obtain ⟨type, typed, ran⟩ := bind_ok_iff.mp ran
  obtain ⟨a, made, ran⟩ := bind_ok_iff.mp ran
  obtain ⟨x, there, effected⟩ := documented.run₁ (by trivial) ran here
  obtain ⟨w, rfl, agrees⟩ := child a x made there
  rw [ofId_getCudfType scaleless typed] at effected
  obtain ⟨u, cast⟩ := Option.ne_none_iff_exists'.mp (returns type w typed rfl)
  refine ⟨u, ?_, agrees_castValue agrees effected cast⟩
  rw [castMeaning, typed]
  exact congrArg outcomeOf cast

/-- A function of values that SQL has, where SQL has its value. -/
theorem call_right {f : List Datum → Option Value} {vs ws : List Value} {v : Value}
    (whole : operands outcomes = .ok ws) (agrees : List.Forall₂ (Agrees exact) vs ws)
    (made : ∀ u, call f vs = some u → v = u)
    (returns : ∀ values, operands outcomes = .ok values → call f values ≠ none) :
    ∃ w, (do
      let values ← operands outcomes
      outcomeOf (call f values)) = .ok w ∧ Agrees exact v w := by
  obtain ⟨w, called⟩ := Option.ne_none_iff_exists'.mp (returns ws whole)
  refine ⟨w, ?_, agrees_call agrees made called⟩
  rw [whole]
  exact congrArg outcomeOf called

theorem arithmetic_right (documented : Documented sql cudf) (name : String)
    (returnType : LogicalType) {children : List Expression}
    (all : List.Forall₂ (Right row exact) results outcomes)
    (known : List.Forall₂ Known children outcomes)
    (returns : ∀ values, operands outcomes = .ok values →
      call (sql.arithmetic name returnType) values ≠ none) :
    Right row exact (executeArithmetic cudf name children results returnType) (do
      let values ← operands outcomes
      outcomeOf (call (sql.arithmetic name returnType) values)) := by
  intro out v ran here
  unfold executeArithmetic at ran
  split at ran
  case h_1 left right leftResult rightResult =>
    obtain ⟨o₁, _, first, tail, rfl⟩ := List.forall₂_cons_left_iff.mp all
    obtain ⟨o₂, _, second, tail', rfl⟩ := List.forall₂_cons_left_iff.mp tail
    cases tail'
    obtain ⟨first', tail''⟩ := List.forall₂_cons.mp known
    obtain ⟨second', -⟩ := List.forall₂_cons.mp tail''
    split at ran
    case h_1 c constant =>
      obtain ⟨valued, rfl⟩ := first' c constant
      obtain ⟨b, made, ran⟩ := bind_ok_iff.mp ran
      obtain ⟨y, there, effected⟩ := documented.run₁ (by exact valued) ran here
      obtain ⟨w, rfl, agrees⟩ := second b y made there
      exact call_right (operands_ok [constantValue c, w])
        (.cons (Agrees.refl _) (.cons agrees .nil)) effected returns
    case h_2 c _ constant =>
      obtain ⟨valued, rfl⟩ := second' c constant
      obtain ⟨a, made, ran⟩ := bind_ok_iff.mp ran
      obtain ⟨x, there, effected⟩ := documented.run₁ (by exact valued) ran here
      obtain ⟨w, rfl, agrees⟩ := first a x made there
      exact call_right (operands_ok [w, constantValue c])
        (.cons agrees (.cons (Agrees.refl _) .nil)) effected returns
    case h_3 =>
      obtain ⟨a, made, ran⟩ := bind_ok_iff.mp ran
      obtain ⟨b, made', ran⟩ := bind_ok_iff.mp ran
      obtain ⟨x, y, there, there', effected⟩ := documented.run₂ (by trivial) ran here
      obtain ⟨w, rfl, agrees⟩ := first a x made there
      obtain ⟨w', rfl, agrees'⟩ := second b y made' there'
      exact call_right (operands_ok [w, w']) (.cons agrees (.cons agrees' .nil)) effected returns
  case h_2 => cases ran

/-- A call with constants after its first argument, or before it. -/
theorem onColumn_right (documented : Documented sql cudf) {name : String}
    {arguments : List Expression} (child : Right row exact result₁ outcome₁)
    (known : List.Forall₂ Known arguments outcomes)
    (returns : ∀ values, operands (if name = "date_trunc" then outcomes ++ [outcome₁] else
      outcome₁ :: outcomes) = .ok values → call (sql.function name) values ≠ none) :
    Right row exact (executeOnColumn cudf name result₁ arguments) (do
      let values ← operands
        (if name = "date_trunc" then outcomes ++ [outcome₁] else outcome₁ :: outcomes)
      outcomeOf (call (sql.function name) values)) := by
  intro out v ran here
  unfold executeOnColumn at ran
  split at ran
  case h_1 constants all =>
    obtain ⟨valued, rfl⟩ := known_constants known all
    obtain ⟨a, made, ran⟩ := bind_ok_iff.mp ran
    obtain ⟨x, there, effected⟩ := documented.run₁ (by exact valued) ran here
    obtain ⟨w, rfl, agrees⟩ := child a x made there
    have others : List.Forall₂ (Agrees exact) (constants.map constantValue)
        (constants.map constantValue) := List.forall₂_same.mpr fun v _ => Agrees.refl v
    by_cases truncated : name = "date_trunc"
    · have whole := operands_ok (constants.map constantValue ++ [w])
      rw [List.map_append, List.map_singleton] at whole
      rw [if_pos truncated] at returns ⊢
      refine call_right whole (List.rel_append others (.cons agrees .nil)) ?_ returns
      simpa only [effect, if_pos truncated] using effected
    · have whole := operands_ok (w :: constants.map constantValue)
      rw [List.map_cons] at whole
      rw [if_neg truncated] at returns ⊢
      refine call_right whole (.cons agrees others) ?_ returns
      simpa only [effect, if_neg truncated] using effected
  case h_2 => cases ran

theorem function_right (documented : Documented sql cudf) (name : String)
    (returnType : LogicalType) {children : List Expression}
    (all : List.Forall₂ (Right row exact) results outcomes)
    (known : List.Forall₂ Known children outcomes)
    (returns : ∀ values, operands outcomes = .ok values →
      call (functionOf sql name returnType) values ≠ none) :
    Right row exact (executeFunction cudf name children results returnType)
      (functionMeaning sql name returnType outcomes) := by
  intro out v ran here
  unfold executeFunction at ran
  split at ran
  case isTrue arithmetic =>
    have other : name ≠ errorFuncStr := by
      rintro rfl
      revert arithmetic
      decide
    rw [functionOf, if_pos arithmetic] at returns
    rw [functionMeaning, if_neg other, functionOf, if_pos arithmetic]
    exact arithmetic_right documented name returnType all known returns out v ran here
  case isFalse arithmetic =>
    split at ran
    · cases ran
    case isFalse other =>
      rw [functionOf, if_neg arithmetic] at returns
      rw [functionMeaning, if_neg other, functionOf, if_neg arithmetic]
      split at ran
      case isTrue truncated =>
        split at ran
        case h_1 frequency child result input =>
          obtain ⟨o₁, _, first, tail, rfl⟩ := List.forall₂_cons_left_iff.mp all
          obtain ⟨o₂, _, second, tail', rfl⟩ := List.forall₂_cons_left_iff.mp tail
          cases tail'
          have column := onColumn_right documented second
            (.cons (List.forall₂_cons.mp known).1 .nil) (by rwa [if_pos truncated]) out v ran here
          rwa [if_pos truncated] at column
        case h_2 => cases ran
      case isFalse truncated =>
        split at ran
        case h_1 count _ =>
          split at ran
          case h_1 first arguments input rest =>
            obtain ⟨o, os, head, tail, rfl⟩ := List.forall₂_cons_left_iff.mp all
            split at ran
            · have column := onColumn_right documented head (List.forall₂_cons.mp known).2
                (by rwa [if_neg truncated]) out v ran here
              rwa [if_neg truncated] at column
            · cases ran
          case h_2 => cases ran
        case h_2 => cases ran

theorem executeReference_values {c : Column} {out : CudfColumn}
    (run : executeReference c = .ok out) :
    out.type = c.type ∧ out.values = c.shown.map Entry.value := by
  rw [executeReference] at run
  cases ids : c.rowIds with
  | some ids' =>
    simp only [ids] at run
    split at run
    · cases run
    · obtain ⟨output, made, run⟩ := bind_ok_iff.mp run
      obtain ⟨-, materialized⟩ := materialize_inv made
      rw [← materialized.type, ← materialized.shown]
      exact convertToCudfColumn_inv materialized.direct run
  | none =>
    simp only [ids] at run
    split at run
    · cases run
    · exact convertToCudfColumn_inv ids run

theorem reference_right {c : Column} :
    Right row exact (executeReference c) (.ok ((c.cell row).map (c.type, ·))) := by
  intro out v run here
  obtain ⟨type, values⟩ := executeReference_values run
  refine ⟨_, rfl, ?_⟩
  obtain ⟨value, there, rfl⟩ := Option.map_eq_some_iff.mp here
  rw [values, List.getElem?_map] at there
  obtain ⟨entry, inside, rfl⟩ := Option.map_eq_some_iff.mp there
  rw [type, Column.cell, inside]
  exact Agrees.refl _

end Steps

section Whole

variable {sql : Sql} {cudf : Cudf} {columns : List Column} {count row : Nat}

theorem keeps_known : ∀ (exact : Bool) (children : List Expression),
    KeepsAll sql columns row exact children →
      List.Forall₂ Known children (meanings sql columns row children)
  | _, [], _ => by
    rw [meanings]
    exact .nil
  | exact, child :: rest, keeps => by
    rw [KeepsAll] at keeps
    rw [meanings]
    refine .cons (fun c constant => ?_) (keeps_known exact rest keeps.2)
    cases child with
    | constant value =>
      cases constant
      rw [Keeps] at keeps
      exact ⟨keeps.1, by rw [meaning]⟩
    | _ => cases constant

mutual

/-- What the executor has in a row is the value of the expression, or it is NULL. -/
theorem execute_right (documented : Documented sql cudf) (even : LengthPreserving cudf)
    (counted : Counted columns count) (inside : row < count) : ∀ (exact : Bool) (e : Expression),
      Keeps sql columns row exact e →
        Right row exact (execute cudf columns count e) (meaning sql columns row e)
  | exact, .between input lower upper, keeps => by
    rw [Keeps] at keeps
    rw [execute, meaning]
    obtain ⟨first, second, third, clear⟩ := keeps
    exact between_right documented
      (execute_right documented even counted inside exact input first)
      (execute_right documented even counted inside exact lower second)
      (execute_right documented even counted inside exact upper third) clear
  | exact, .case whenExpr thenExpr elseExpr, keeps => by
    rw [Keeps] at keeps
    rw [execute, meaning]
    obtain ⟨first, second, third⟩ := keeps
    refine case_right documented
      (execute_right documented even counted inside true whenExpr first)
        (fun runs v meant yes => ?_)
      (fun v meant no => execute_right documented even counted inside exact elseExpr
        (third v meant no)) fun raises mask made => ?_
    · rcases second with ⟨raises, -⟩ | ⟨-, second⟩
      · rw [raises] at runs
        cases runs
      · exact execute_right documented even counted inside exact thenExpr (second v meant yes)
    · rcases second with ⟨-, full⟩ | ⟨runs, -⟩
      · have length := execute_sized even counted whenExpr (.inr full) mask made
        rw [full] at length
        have inside' : row < mask.values.length := by
          rw [length]
          exact inside
        rw [valueAt, List.getElem?_eq_getElem inside']
        exact ⟨_, rfl⟩
      · rw [runs] at raises
        cases raises
  | exact, .cast child returnType, keeps => by
    rw [Keeps] at keeps
    rw [execute, meaning]
    exact cast_right documented (execute_right documented even counted inside exact child keeps.1)
      keeps.2.1 keeps.2.2
  | exact, .comparison type left right, keeps => by
    rw [Keeps] at keeps
    rw [execute, meaning]
    refine comparison_right documented type
      (execute_right documented even counted inside exact left keeps.1)
      (execute_right documented even counted inside exact right keeps.2) fun c constant => ?_
    cases right with
    | constant value =>
      cases constant
      have valued := keeps.2
      rw [Keeps] at valued
      exact ⟨valued, by rw [meaning]⟩
    | _ => cases constant
  | exact, .conjunction type children, keeps => by
    rw [Keeps] at keeps
    obtain ⟨two, all, clear⟩ := keeps
    have each := executeChildren_right documented even counted inside exact children all
    rw [execute, meaning]
    match children, two with
    | first :: second :: rest, _ =>
      rw [executeChildren, executeChildren, meanings, meanings] at each ⊢
      rw [meanings, meanings] at clear
      obtain ⟨head, tail⟩ := List.forall₂_cons.mp each
      obtain ⟨head', tail'⟩ := List.forall₂_cons.mp tail
      exact conjunction_right documented head head' tail' clear
  | exact, .constant c, keeps => by
    rw [Keeps] at keeps
    rw [execute, meaning]
    intro out v ran here
    obtain ⟨s, made, ran⟩ := bind_ok_iff.mp ran
    cases ran
    refine ⟨_, rfl, ?_⟩
    rw [← documented.scalar c s keeps made]
    rw [valueAt, List.getElem?_replicate, if_pos inside] at here
    cases Option.some.inj here
    exact Agrees.refl _
  | exact, .function name children returnType, keeps => by
    rw [Keeps] at keeps
    rw [execute, meaning]
    exact function_right documented name returnType
      (executeChildren_right documented even counted inside exact children keeps.1)
      (keeps_known exact children keeps.1) keeps.2
  | exact, .operator type children, keeps => by
    rw [Keeps] at keeps
    obtain ⟨all, searched, clear⟩ := keeps
    rw [execute, meaning]
    exact operator_right documented type
      (executeChildren_right documented even counted inside (exact || asksNull type) children all)
      (keeps_known _ children all) searched clear
  | exact, .reference index, _ => by
    rw [execute, meaning]
    cases columns[index]? with
    | none =>
      intro out v ran
      cases ran
    | some c => exact reference_right

theorem executeChildren_right (documented : Documented sql cudf) (even : LengthPreserving cudf)
    (counted : Counted columns count) (inside : row < count) :
    ∀ (exact : Bool) (children : List Expression), KeepsAll sql columns row exact children →
      List.Forall₂ (Right row exact) (executeChildren cudf columns count children)
        (meanings sql columns row children)
  | _, [], _ => by
    rw [executeChildren, meanings]
    exact .nil
  | exact, child :: rest, keeps => by
    rw [KeepsAll] at keeps
    rw [executeChildren, meanings]
    exact .cons (execute_right documented even counted inside exact child keeps.1)
      (executeChildren_right documented even counted inside exact rest keeps.2)

end

/-- Whatever is NULL, a value of the executor is the value of the expression. -/
theorem execute_below (documented : Documented sql cudf) (even : LengthPreserving cudf)
    (counted : Counted columns count) (inside : row < count) {e : Expression}
    (keeps : Keeps sql columns row false e) {out : CudfColumn}
    (ran : execute cudf columns count e = .ok out) {d : Datum}
    (here : valueAt out row = some (some d)) : meaning sql columns row e = .ok (some d) := by
  obtain ⟨w, meant, agrees⟩ :=
    execute_right documented even counted inside false e keeps out _ ran here
  rw [meant, agrees.1 d rfl]

/-- Where no NULL stands beside an operand that decides, the two are the same. -/
theorem execute_exact (documented : Documented sql cudf) (even : LengthPreserving cudf)
    (counted : Counted columns count) (inside : row < count) {e : Expression}
    (keeps : Keeps sql columns row true e) {out : CudfColumn}
    (ran : execute cudf columns count e = .ok out) {v : Value}
    (here : valueAt out row = some v) : meaning sql columns row e = .ok v := by
  obtain ⟨w, meant, agrees⟩ :=
    execute_right documented even counted inside true e keeps out v ran here
  rw [meant, agrees.2 rfl]

end Whole

section Selection

variable {sql : Sql} {cudf : Cudf} {r : Relation} {filter : Expression} {bitmap : Bitmap r}
  {exact : Bool} {out : CudfColumn}

/-- Whether an expression is TRUE in a row. -/
def holdsAt (sql : Sql) (columns : List Column) (filter : Expression) (row : Nat) : Bool :=
  match meaning sql columns row filter with
  | .ok v => v.any isTrue
  | .error _ => false

theorem counted_relation (r : Relation) : Counted r.columns r.rowCount :=
  fun c member data _ => r.even c member data

/-- A flag that is set stands for a condition that is TRUE. -/
theorem flag_right (documented : Documented sql cudf) (even : LengthPreserving cudf)
    (ran : execute cudf r.columns r.rowCount filter = .ok out)
    (values : bitmap.entries.map Entry.value = out.values)
    (clear : ∀ e ∈ bitmap.entries, e.valid = false → flag e = false)
    (keeps : ∀ row < r.rowCount, Keeps sql r.columns row exact filter) {row : Nat}
    (inside : row < r.rowCount) :
    ((bitmap.entries[row]?).any flag = true → holdsAt sql r.columns filter row = true) ∧
      (exact = true → (bitmap.entries[row]?).any flag = holdsAt sql r.columns filter row) := by
  have inside' : row < bitmap.entries.length := by rwa [bitmap.whole]
  have here : valueAt out row = some (bitmap.entries[row].value.map (out.type, ·)) := by
    rw [valueAt, ← values, List.getElem?_map, List.getElem?_eq_getElem inside']
    rfl
  obtain ⟨w, meant, agrees⟩ := execute_right documented even (counted_relation r) inside exact
    filter (keeps row inside) out _ ran here
  have set : flag bitmap.entries[row] =
      (bitmap.entries[row].value.map (out.type, ·)).any isTrue := by
    cases valid : bitmap.entries[row].valid with
    | true => simp [Entry.value, valid, flag, isTrue]
    | false => simp [Entry.value, valid, clear _ (List.getElem_mem inside') valid]
  rw [List.getElem?_eq_getElem inside', Option.any_some, set, holdsAt, meant]
  refine ⟨fun kept => ?_, fun same => by rw [agrees.2 same]⟩
  obtain ⟨d, known, here'⟩ := (Option.any_eq_true _ _).mp kept
  exact (Option.any_eq_true _ _).mpr ⟨d, agrees.1 d known, here'⟩

/-- A filter keeps rows where its condition is TRUE, in their order; an exact one keeps all. -/
theorem select_right (documented : Documented sql cudf) (even : LengthPreserving cudf)
    (ran : execute cudf r.columns r.rowCount filter = .ok out)
    (values : bitmap.entries.map Entry.value = out.values)
    (clear : ∀ e ∈ bitmap.entries, e.valid = false → flag e = false)
    (keeps : ∀ row < r.rowCount, Keeps sql r.columns row exact filter) :
    (select r filter bitmap).rowIds.Sublist
        ((List.range r.rowCount).filter (holdsAt sql r.columns filter)) ∧
      (exact = true → skipped r.columns filter = false → (select r filter bitmap).rowIds =
        (List.range r.rowCount).filter (holdsAt sql r.columns filter)) := by
  have each {row : Nat} (member : row ∈ List.range r.rowCount) :=
    flag_right documented even ran values clear keeps (List.mem_range.mp member)
  rw [select]
  split
  case isTrue skip =>
    refine ⟨List.nil_sublist _, fun _ run => ?_⟩
    rw [skip] at run
    cases run
  case isFalse =>
    change (dispatchSelect bitmap.entries).Sublist _ ∧ (_ → _ → dispatchSelect bitmap.entries = _)
    rw [dispatchSelect, bitmap.whole]
    constructor
    · refine List.monotone_filter_right _ fun row set => ?_
      by_cases inside : row < r.rowCount
      · exact (each (List.mem_range.mpr inside)).1 set
      · rw [List.getElem?_eq_none (by rw [bitmap.whole]; exact Nat.le_of_not_lt inside)] at set
        cases set
    · exact fun same _ => List.filter_congr fun row member => (each member).2 same

end Selection

section Witness

def number (d : Datum) : Nat := d.2.foldr (fun byte n => byte.toNat + 256 * n) 0

/-- Numbers that are not negative, with two comparisons. -/
def numbers : Sql where
  holds type a b :=
    match type with
    | .greaterThan => number b < number a
    | .lessThan => number a < number b
    | _ => a = b
  arithmetic _ _ _ := none
  function _ _ := none
  cast _ _ := none

def typed (column : CudfColumn) : List Value := column.values.map fun v => v.map (column.type, ·)

def truthColumn (values : List (Option Bool)) : CudfColumn :=
  ⟨.boolean, values.map fun b => b.map fun b => (truth b).2⟩

/-- A library with the comparison with a constant and the connectives. -/
def rowwise (sql : Sql) : Cudf where
  run op args :=
    match op, args with
    | .rightScalar (.comparison type) c _, [a] =>
      .ok (truthColumn ((typed a).map fun x => compareValues sql type x (constantValue c)))
    | .binary (.logical type) _, [a, b] =>
      if a.values.length = b.values.length then .ok (truthColumn (List.zipWith
        (fun x y => strict (deciding type) (boolOf x) (boolOf y)) (typed a) (typed b)))
      else .error .fault
    | _, _ => .error .fault
  scalar c :=
    match constantValue c with
    | some (type, bits) => .ok ⟨type, some bits⟩
    | none => .error .fault

theorem typed_getElem? (column : CudfColumn) (row : Nat) :
    (typed column)[row]? = valueAt column row := by
  rw [typed, List.getElem?_map]
  rfl

theorem valueAt_truthColumn (values : List (Option Bool)) (row : Nat) :
    valueAt (truthColumn values) row = (values[row]?).map valueOf := by
  rw [valueAt, truthColumn, List.getElem?_map, Option.map_map]
  cases values[row]? with
  | none => rfl
  | some b =>
    cases b with
    | none => rfl
    | some b => rfl

theorem rowwise_documented (sql : Sql) : Documented sql (rowwise sql) := by
  constructor
  · intro op args out _ ran row v here
    simp only [rowwise] at ran
    split at ran
    case h_1 type c _ a =>
      cases ran
      rw [valueAt_truthColumn, List.getElem?_map, typed_getElem?] at here
      obtain ⟨b, made, rfl⟩ := Option.map_eq_some_iff.mp here
      obtain ⟨x, there, rfl⟩ := Option.map_eq_some_iff.mp made
      exact ⟨[x], .cons there .nil, fun w made => Option.some.inj made⟩
    case h_2 type _ a b =>
      split at ran
      · cases ran
        rw [valueAt_truthColumn] at here
        obtain ⟨c, made, rfl⟩ := Option.map_eq_some_iff.mp here
        obtain ⟨x, y, first, second, rfl⟩ := List.getElem?_zipWith_eq_some.mp made
        rw [typed_getElem?] at first second
        exact ⟨[x, y], .cons first (.cons second .nil), fun w made => Option.some.inj made⟩
      · cases ran
    case h_3 => cases ran
  · intro c s valued made
    obtain ⟨⟨type, bits⟩, known⟩ := Option.ne_none_iff_exists'.mp valued
    simp only [rowwise, known] at made
    cases made
    exact known.symm

theorem rowwise_even (sql : Sql) : LengthPreserving (rowwise sql) := by
  intro op args out ran a member
  simp only [rowwise] at ran
  split at ran
  case h_1 type c _ b =>
    cases ran
    cases List.mem_singleton.mp member
    simp [truthColumn, typed]
  case h_2 type _ b c =>
    split at ran
    case isTrue same =>
      cases ran
      rcases List.mem_cons.mp member with rfl | later
      · simp [truthColumn, typed, same]
      · cases List.mem_singleton.mp later
        simp [truthColumn, typed, same]
    · cases ran
  case h_3 => cases ran

/-- An integer column: NULL, 7 and 3. -/
def integers : Column where
  type := .int32
  entries := some [⟨[9, 0, 0, 0], false⟩, ⟨[7, 0, 0, 0], true⟩, ⟨[3, 0, 0, 0], true⟩]
  columnLength := 3
  rowIds := none
  numBytes := 12
  isUnique := false
  long := by rintro _ ⟨⟩; rfl
  inside := by rintro _ _ _ ⟨⟩

def integerRelation : Relation where
  columns := [integers]
  rowCount := 3
  some := List.cons_ne_nil _ _
  even := fun c member _ => by rw [List.mem_singleton.mp member]; rfl
  empty := fun c member null => by rw [List.mem_singleton.mp member] at null; cases null
  measured := fun c member string => by rw [List.mem_singleton.mp member] at string; cases string

/-- Between 5 and 9, as a conjunction. -/
def inRange : Expression := .conjunction .and
  [.comparison .greaterThan (.reference 0) (.constant ⟨.integer, some [5, 0, 0, 0]⟩),
    .comparison .lessThan (.reference 0) (.constant ⟨.integer, some [9, 0, 0, 0]⟩)]

def inRangeColumn : CudfColumn := truthColumn [none, some true, some false]

theorem inRange_runs :
    execute (rowwise numbers) integerRelation.columns 3 inRange = .ok inRangeColumn := rfl

theorem inRange_keeps (exact : Bool) {row : Nat} (inside : row < 3) :
    Keeps numbers integerRelation.columns row exact inRange := by
  have valued (bits : Bytes) : constantValue ⟨.integer, some bits⟩ ≠ none := by
    intro none
    cases none
  refine ⟨le_refl 2, ⟨⟨trivial, valued _⟩, ⟨trivial, valued _⟩, trivial⟩, fun _ values known => ?_⟩
  rw [Clear]
  interval_cases row <;> cases known <;> decide

/-- The second row is in the range. -/
theorem second_inRange :
    meaning numbers integerRelation.columns 1 inRange = .ok (some (truth true)) :=
  execute_below (rowwise_documented numbers) (rowwise_even numbers)
    (counted_relation integerRelation) (by decide) (inRange_keeps false (by decide)) inRange_runs
    rfl

/-- In the first it is unknown. -/
theorem first_unknown : meaning numbers integerRelation.columns 0 inRange = .ok none :=
  execute_exact (rowwise_documented numbers) (rowwise_even numbers)
    (counted_relation integerRelation) (by decide) (inRange_keeps true (by decide)) inRange_runs rfl

/-- What the executor returns, with zeros under the NULL. -/
def inRangeBitmap : Bitmap integerRelation := ⟨[⟨[0], false⟩, ⟨[1], true⟩, ⟨[0], true⟩], rfl⟩

theorem second_selected : (select integerRelation inRange inRangeBitmap).rowIds =
    (List.range 3).filter (holdsAt numbers integerRelation.columns inRange) :=
  (@select_right numbers (rowwise numbers) integerRelation inRange inRangeBitmap true inRangeColumn
    (rowwise_documented numbers) (rowwise_even numbers) inRange_runs rfl (by decide)
    fun _ inside => inRange_keeps true inside).2 rfl (by decide)

end Witness

end EvaluatorMeaning
