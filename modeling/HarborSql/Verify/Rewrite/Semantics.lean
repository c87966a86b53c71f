import HarborSql.Verify.Engine.Minute
import HarborSql.Verify.Rewrite.Complete
import HarborSql.Verify.Rewrite.Like

/-! What expressions mean to an engine, over rows of any kind: a node means what its tokens make of
the meaning of its parts. And what is documented of the constructs of Databricks that the rewriter
replaces, and of those of DataFusion that it writes. -/

namespace HarborSql.Sql

open Mixfix (Shape)

/-! ## Values -/

/-- A value, or `NULL`. -/
inductive Datum where
  | null
  | boolean (value : Bool)
  | int (value : Int64)
  | text (value : String)
  | timestamp (unit : TimeUnit) (value : Int64)
  | array (items : List Datum)
  | map (entries : List (Datum × Datum))
  | struct (fields : List (String × Datum))
  | other (text : String)
deriving BEq

namespace Datum

def IsCondition : Datum → Prop
  | null | boolean _ => True
  | _ => False

/-- An array has fewer than `2 ^ 63` elements. -/
def IsArray : Datum → Prop
  | null => True
  | array items => items.length < 9223372036854775808
  | _ => False

def IsIndex : Datum → Prop
  | null | int _ => True
  | _ => False

def IsMap : Datum → Prop
  | null | map _ => True
  | _ => False

def IsTimestamp : Datum → Prop
  | null | timestamp .. => True
  | _ => False

def IsText : Datum → Prop
  | null | text _ => True
  | _ => False

/-- `NULL`, or a struct with the field. -/
def HasField (name : String) : Datum → Prop
  | null => True
  | struct fields => (fields.lookup name).isSome
  | _ => False

def field (name : String) : Datum → Option Datum
  | null => some null
  | struct fields => fields.lookup name
  | _ => none

end Datum

/-! ## Engines -/

/-- What a node means: an expression has a value in each row where it does not fail, and any other
node is its tokens around what its parts mean. An expression without parts keeps its tokens. -/
inductive Meaning (Row : Type) where
  | value (leaf : Option (Shape Kind Unit)) (eval : Row → Option Datum)
  | part (form : Shape Kind Unit) (parts : List (Meaning Row))

variable {Row : Type}

/-- The value of an expression; nothing else has a value. -/
def Meaning.eval : Meaning Row → Row → Option Datum
  | value _ eval => eval
  | part .. => fun _ => none

/-- Whether the tokens are those of an expression. -/
def Kind.isExpr : Kind → Bool
  | .identifier _ | .compoundIdentifier _ | .compoundFieldAccess | .isTest _ | .isDistinctFrom
  | .isNotDistinctFrom | .inList _ | .inSubquery _ | .between _ | .binaryOp _ | .like ..
  | .unaryOp _ | .cast .. | .extract .. | .value _ | .functionExpr | .case .. | .exists _
  | .subquery | .outerJoin | .prior | .other .. => true
  | _ => false

def isExprForm : Shape Kind Unit → Bool
  | .nested _ => true
  | .node kind .. => kind.isExpr

/-- How an engine reads the tokens of an expression around its parts, and one access to a value. -/
structure Engine (Row : Type) where
  interpret : Shape Kind Unit → List (Meaning Row) → Row → Option Datum
  access : Meaning Row → Row → Datum → Option Datum

namespace Engine

variable (engine : Engine Row)

/-- What the tokens mean around parts of the given meaning. -/
def around (form : Shape Kind Unit) (parts : List (Meaning Row)) : Meaning Row :=
  if isExprForm form then
    .value (if parts.isEmpty then some form else none) (engine.interpret form parts)
  else .part form parts

def meaning (n : Node) : Meaning Row :=
  engine.around n.form (n.children.attach.map fun c => meaning c.1)
termination_by sizeOf n
decreasing_by exact n.sizeOf_children c.1 c.2

/-- The value of an expression in a row, unless it fails there. -/
def value (e : Expr) (row : Row) : Option Datum := (engine.meaning (.expr e)).eval row

/-- One access after the other. -/
def accesses (accessChain : List (Meaning Row)) (row : Row) (d : Datum) : Option Datum :=
  accessChain.foldlM (fun d access => engine.access access row d) d

end Engine

/-- A function that is called with nothing but unnamed arguments. -/
def Meaning.call (name : ObjectName) (args : List (Meaning Row)) : Meaning Row :=
  .part (.node (.function name false none none false 0) none [(), ()] none)
    [.part (.node .noArguments none [] none) [],
      .part (.node (.arguments none [] args.length) none (args.map fun _ => ()) none)
        (args.map fun arg => .part (.node .unnamedArg none [()] none)
          [.part (.node .argExpr none [()] none) [arg]])]

def Engine.call (engine : Engine Row) (name : ObjectName) (args : List (Meaning Row)) :
    Row → Option Datum :=
  engine.interpret (.node .functionExpr none [()] none) [.call name args]

/-! ## The meaning of a node -/

theorem isExprForm_form (n : Node) : isExprForm n.form = true ↔ ∃ e, n = .expr e := by
  constructor
  · intro h
    cases n with
    | expr e => exact ⟨e, rfl⟩
    | _ n => cases n <;> cases h
  · rintro ⟨e, rfl⟩
    cases e <;> rfl

namespace Engine

variable (engine : Engine Row)

theorem meaning_eq (n : Node) :
    engine.meaning n = engine.around n.form (n.children.map engine.meaning) := by
  rw [meaning, List.attach_map_val]

theorem value_eq (e : Expr) (row : Row) : engine.value e row =
    engine.interpret (Node.expr e).form ((Node.expr e).children.map engine.meaning) row := by
  rw [value, meaning_eq, around, if_pos ((isExprForm_form _).mpr ⟨e, rfl⟩)]
  rfl

theorem eval_meaning (e : Expr) (row : Row) :
    (engine.meaning (.expr e)).eval row = engine.value e row := rfl

/-- An expression with parts is known by its values. -/
theorem meaning_expr {e : Expr} (h : (Node.expr e).children ≠ []) :
    engine.meaning (.expr e) = .value none (engine.value e) := by
  have hvalue : engine.value e =
      engine.interpret (Node.expr e).form ((Node.expr e).children.map engine.meaning) :=
    funext fun row => engine.value_eq e row
  rw [meaning_eq, around, if_pos ((isExprForm_form _).mpr ⟨e, rfl⟩), hvalue, if_neg]
  simpa using h

theorem meaning_of_not_expr {n : Node} (h : isExprForm n.form = false) :
    engine.meaning n = .part n.form (n.children.map engine.meaning) := by
  rw [meaning_eq, around, if_neg (by rw [h]; exact Bool.false_ne_true)]

theorem meaning_arg (e : Expr) : engine.meaning (.arg (.unnamed (.expr e))) =
    .part (.node .unnamedArg none [()] none)
      [.part (.node .argExpr none [()] none) [engine.meaning (.expr e)]] := by
  rw [meaning_of_not_expr _ rfl]
  refine congrArg _ (congrArg (fun m => [m]) ?_)
  exact meaning_of_not_expr _ rfl

theorem meaning_plain (name : ObjectName) (args : List Expr) :
    engine.meaning (.function (.mk name false .none
      (.list none (args.map fun e => .unnamed (.expr e)) [] []) none none none [] [])) =
      .call name (args.map fun e => engine.meaning (.expr e)) := by
  have hargs : engine.meaning
      (.arguments (.list none (args.map fun e => .unnamed (.expr e)) [] [])) =
      .part (.node (.arguments none [] args.length) none (args.map fun _ => ()) none)
        (args.map fun e => engine.meaning (.arg (.unnamed (.expr e)))) := by
    rw [meaning_of_not_expr _ rfl, children_bracket rfl]
    simp [Node.form, Node.shape, Node.argumentsShape, Shape.map, List.map_map, Function.comp_def]
  have hnone : engine.meaning (.arguments .none) = .part (.node .noArguments none [] none) [] :=
    meaning_of_not_expr _ rfl
  rw [meaning_of_not_expr _ rfl, children_bracket rfl]
  simp only [List.map_cons, List.map_nil, List.append_nil, Option.toList_none, hargs, hnone,
    meaning_arg, Meaning.call, List.length_map, List.map_map, Function.comp_def]
  rfl

/-- The value of a call with nothing but unnamed arguments. -/
theorem value_call {function : Function} {name : String} {args : List Expr}
    (h : function.Calls name args) : ∃ ident, eqIgnoreAsciiCase ident.value name = true ∧
      ∀ (engine : Engine Row) row, engine.value (.function function) row =
        engine.call ⟨[.identifier ident]⟩ (args.map fun e => engine.meaning (.expr e)) row := by
  have hname := functionNameEq_of_plainFunctionArgs h
  obtain ⟨objectName, rfl⟩ := eq_of_plainFunctionArgs h
  obtain ⟨ident, rfl, hident⟩ : ∃ ident, objectName = ⟨[.identifier ident]⟩ ∧
      eqIgnoreAsciiCase ident.value name = true := by
    unfold functionNameEq at hname
    split at hname
    · rename_i heq
      cases heq
      exact ⟨_, rfl, hname⟩
    · cases hname
  refine ⟨ident, hident, fun engine row => ?_⟩
  rw [value_eq, call, ← meaning_plain]
  rfl

theorem value_functionExpr (name : String) (args : List Expr) (row : Row) :
    engine.value (functionExpr name args) row =
      engine.call ⟨[.identifier (.new name)]⟩ (args.map fun e => engine.meaning (.expr e)) row := by
  rw [value_eq, call, ← meaning_plain]
  rfl

theorem value_binaryOp (left right : Expr) (op : BinaryOperator) (row : Row) :
    engine.value (.binaryOp left op right) row =
      engine.interpret (.node (.binaryOp op) (some ()) [] (some ()))
        [engine.meaning (.expr left), engine.meaning (.expr right)] row := value_eq ..

theorem value_case (condition result elseResult : Expr) (row : Row) :
    engine.value (.case none [.mk condition result] (some elseResult)) row =
      engine.interpret (.node (.case false true) none [(), ()] none)
        [.part (.node .caseWhen none [(), ()] none)
          [engine.meaning (.expr condition), engine.meaning (.expr result)],
          engine.meaning (.expr elseResult)] row := by
  have hwhen : engine.meaning (.caseWhen (.mk condition result)) =
      .part (.node .caseWhen none [(), ()] none)
        [engine.meaning (.expr condition), engine.meaning (.expr result)] :=
    meaning_of_not_expr _ rfl
  rw [← hwhen]
  exact value_eq ..

theorem value_compoundFieldAccess (root : Expr) (accessChain : List AccessExpr) (row : Row) :
    engine.value (.compoundFieldAccess root accessChain) row =
      engine.interpret (.node .compoundFieldAccess (some ()) (accessChain.map fun _ => ()) none)
        (engine.meaning (.expr root) ::
          accessChain.map fun access => engine.meaning (.accessExpr access)) row := by
  rw [value_eq, children_compoundFieldAccess, List.map_cons, List.map_map]
  simp [Node.form, Node.shape, Node.exprShape, Shape.map, Function.comp_def]

end Engine

/-! ## What Databricks documents -/

/-- Only the branch that is taken can fail. -/
def choose (condition result elseResult : Option Datum) : Option Datum :=
  condition.bind fun
    | .boolean true => result
    | .boolean false | .null => elseResult
    | _ => none

/-- `get(array, index)`, where the index of the first element is 0. -/
def getItem : Datum → Datum → Option Datum
  | .array items, .int index =>
    some (if 0 ≤ index.toInt then items.getD index.toInt.toNat .null else .null)
  | .null, .null | .null, .int _ | .array _, .null => some .null
  | _, _ => none

/-- `element_at(map, key)`. -/
def elementAt : Datum → Datum → Option Datum
  | .map entries, key => some ((entries.lookup key).getD .null)
  | .null, _ => some .null
  | _, _ => none

/-- `EXTRACT(MINUTE FROM timestamp)`. -/
def minuteOfHour : Datum → Option Datum
  | .timestamp unit value => some (.int (.ofInt (Minute.minuteOf unit value)))
  | .null => some .null
  | _ => none

/-- `LIKE` with a literal at its right. -/
def likeLiteral (negated : Bool) (pattern : String) : Datum → Option Datum
  | .text text => some (.boolean (like text pattern ^^ negated))
  | .null => some .null
  | _ => none

/-- The constructs of Databricks that the rewriter replaces. An operand that fails makes `get`,
`element_at` and `EXTRACT` fail. -/
structure Databricks (engine : Engine Row) : Prop where
  ifCall : ∀ ident condition result elseResult row, eqIgnoreAsciiCase ident.value "if" = true →
    (∀ d ∈ condition.eval row, d.IsCondition) →
    engine.call ⟨[.identifier ident]⟩ [condition, result, elseResult] row =
      choose (condition.eval row) (result.eval row) (elseResult.eval row)
  get : ∀ ident array index row, eqIgnoreAsciiCase ident.value "get" = true →
    (∀ d ∈ array.eval row, d.IsArray) → (∀ d ∈ index.eval row, d.IsIndex) →
    engine.call ⟨[.identifier ident]⟩ [array, index] row =
      (array.eval row).bind fun a => (index.eval row).bind (getItem a)
  elementAt : ∀ ident map key row, eqIgnoreAsciiCase ident.value "element_at" = true →
    (∀ d ∈ map.eval row, d.IsMap) →
    engine.call ⟨[.identifier ident]⟩ [map, key] row =
      (map.eval row).bind fun m => (key.eval row).bind (elementAt m)
  extractMinute : ∀ field text source row, field = .minute ∨ field = .minutes →
    (∀ d ∈ source.eval row, d.IsTimestamp) →
    engine.interpret (.node (.extract field text) none [()] none) [source] row =
      (source.eval row).bind minuteOfHour
  like : ∀ negated operand pattern value row, stringLiteralValue pattern = some value →
    (∀ d ∈ operand.eval row, d.IsText) →
    engine.interpret (.node (.like negated false none) (some ()) [] (some ()))
      [operand, engine.meaning (.expr pattern)] row =
      (operand.eval row).bind (likeLiteral negated value)
  accesses : ∀ root accessChain row, engine.interpret
    (.node .compoundFieldAccess (some ()) (accessChain.map fun _ => ()) none)
    (root :: accessChain) row = (root.eval row).bind (engine.accesses accessChain row)
  /-- A field by its name. -/
  dot : ∀ ident row d, d.HasField ident.value →
    engine.access (engine.meaning (.accessExpr (.dot (.identifier ident)))) row d =
      d.field ident.value

/-! ## What DataFusion documents -/

/-- What an addition of `BIGINT` makes of a sum that is none. -/
inductive Overflow where
  | wraps
  | null

def Overflow.plus : Overflow → Int64 → Int64 → Datum
  | wraps, i, j => .int (i + j)
  | null, i, j => if (i + j).toInt = i.toInt + j.toInt then .int (i + j) else .null

def lessThan : Datum → Datum → Option Datum
  | .int i, .int j => some (.boolean (i.toInt < j.toInt))
  | .null, .int _ => some .null
  | _, _ => none

def plus (overflow : Overflow) : Datum → Datum → Option Datum
  | .int i, .int j => some (overflow.plus i j)
  | .null, .int _ => some .null
  | _, _ => none

/-- `array_element(array, index)`, where the index of the first element is 1 and that of the last
one -1. -/
def arrayElement : Datum → Datum → Option Datum
  | .array items, .int index => some <|
    if 0 < index.toInt then items.getD (index.toInt - 1).toNat .null
    else if index.toInt < 0 ∧ 0 ≤ items.length + index.toInt then
      items.getD (items.length + index.toInt).toNat .null
    else .null
  | .null, .null | .null, .int _ | .array _, .null => some .null
  | _, _ => none

/-- `map_extract(map, key)`: a list of the value, or for a key that is absent a list without any. -/
inductive Extracts : Datum → Datum → Datum → Prop
  | found {entries key d} : entries.lookup key = some d → Extracts (.map entries) key (.array [d])
  | absent {entries key} : entries.lookup key = none → Extracts (.map entries) key (.array [])
  | absentNull {entries key} :
    entries.lookup key = none → Extracts (.map entries) key (.array [.null])
  | null {key} : Extracts .null key .null
  | nullNull {key} : Extracts .null key (.array [.null])

/-- `harborsql_extract_minute`, of one value. -/
def extractMinute : Datum → Option Datum
  | .timestamp unit value =>
    match Minute.timestampMinute (.ofInt (Minute.unitsPerSecond unit)) value with
    | .ok (some minute) => some (.int minute.toInt64)
    | _ => none
  | .null => some .null
  | _ => none

/-- `contains(text, needle)`. -/
def containsLiteral (needle : String) : Datum → Option Datum
  | .text text => some (.boolean (contains text needle))
  | .null => some .null
  | _ => none

def negate : Datum → Option Datum
  | .boolean value => some (.boolean !value)
  | .null => some .null
  | _ => none

/-- The constructs of DataFusion that the rewriter writes, and the function it registers. -/
structure DataFusion (overflow : Overflow) (engine : Engine Row) : Prop where
  zero : ∀ row, engine.value (numberExpr "0") row = some (.int 0)
  one : ∀ row, engine.value (numberExpr "1") row = some (.int 1)
  lessThan : ∀ left right row,
    (∀ d ∈ left.eval row, d.IsIndex) → (∀ d ∈ right.eval row, d.IsIndex) →
    engine.interpret (.node (.binaryOp .lt) (some ()) [] (some ())) [left, right] row =
      (left.eval row).bind fun d => (right.eval row).bind (lessThan d)
  plus : ∀ left right row,
    (∀ d ∈ left.eval row, d.IsIndex) → (∀ d ∈ right.eval row, d.IsIndex) →
    engine.interpret (.node (.binaryOp .plus) (some ()) [] (some ())) [left, right] row =
      (left.eval row).bind fun d => (right.eval row).bind (plus overflow d)
  case : ∀ condition result elseResult row, (∀ d ∈ condition.eval row, d.IsCondition) →
    engine.interpret (.node (.case false true) none [(), ()] none)
      [.part (.node .caseWhen none [(), ()] none) [condition, result], elseResult] row =
      choose (condition.eval row) (result.eval row) (elseResult.eval row)
  arrayElement : ∀ array index row,
    (∀ d ∈ array.eval row, d.IsArray) → (∀ d ∈ index.eval row, d.IsIndex) →
    engine.call ⟨[.identifier (.new "array_element")]⟩ [array, index] row =
      (array.eval row).bind fun a => (index.eval row).bind (arrayElement a)
  mapExtract : ∀ map key row, (∀ d ∈ map.eval row, d.IsMap) →
    (engine.call ⟨[.identifier (.new "map_extract")]⟩ [map, key] row = none ↔
      map.eval row = none ∨ key.eval row = none) ∧
    ∀ m ∈ map.eval row, ∀ k ∈ key.eval row,
      ∀ d ∈ engine.call ⟨[.identifier (.new "map_extract")]⟩ [map, key] row, Extracts m k d
  extractMinute : ∀ source row, (∀ d ∈ source.eval row, d.IsTimestamp) →
    engine.call ⟨[.identifier (.new extractMinuteUdf)]⟩ [source] row =
      (source.eval row).bind extractMinute
  contains : ∀ haystack needle row, (∀ d ∈ haystack.eval row, d.IsText) →
    engine.call ⟨[.identifier (.new "contains")]⟩
      [haystack, engine.meaning (.expr (singleQuotedStringExpr needle))] row =
      (haystack.eval row).bind (containsLiteral needle)
  not : ∀ operand row, (∀ d ∈ operand.eval row, d.IsCondition) →
    engine.interpret (.node (.unaryOp .not) none [] (some ())) [operand] row =
      (operand.eval row).bind negate
  accesses : ∀ root accessChain row, engine.interpret
    (.node .compoundFieldAccess (some ()) (accessChain.map fun _ => ()) none)
    (root :: accessChain) row = (root.eval row).bind (engine.accesses accessChain row)
  /-- A field by a subscript. -/
  subscript : ∀ name row d, d.HasField name →
    engine.access (engine.meaning (.accessExpr (.index (singleQuotedStringExpr name)))) row d =
      d.field name

end HarborSql.Sql
