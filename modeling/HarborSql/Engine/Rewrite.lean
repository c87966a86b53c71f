import Mathlib.Algebra.Group.Nat.Defs
import HarborSql.Sql.Ast
import HarborSql.Text

/-! The rewriting of statements before they are planned (`engine.rs`). A function that changes a tree
in place and says whether it did returns the new tree and the flag. -/

namespace HarborSql.Sql

structure RewriteOptions where
  databricksCountStarAliasRewrite : Bool
  databricksExpressionAliasRewrite : Bool

/-- What `sqlparser` prints for the parts that a projection alias renders as they are. -/
structure Display where
  expr : Expr → String
  function : Function → String
  functionArg : FunctionArg → String
  objectName : ObjectName → String
  value : Value → String
  binaryOperator : BinaryOperator → String
  unaryOperator : UnaryOperator → String

/-! ## Reading functions and literals -/

def functionNameEq (function : Function) (expected : String) : Bool :=
  match function with
  | .mk ⟨[.identifier ident]⟩ .. => eqIgnoreAsciiCase ident.value expected
  | _ => false

def functionArgExpr : FunctionArg → Option Expr
  | .unnamed (.expr expr) => some expr
  | _ => none

/-- The arguments of a function of the given name that is called with nothing but a list of them. -/
def plainFunctionArgs (function : Function) (name : String) : Option (List FunctionArg) :=
  match function with
  | .mk _ false .none (.list none args [] []) none none none [] [] =>
    if functionNameEq function name then some args else none
  | _ => none

def stringLiteralValue : Expr → Option String
  | .value (.singleQuotedString value) | .value (.escapedStringLiteral value)
  | .value (.doubleQuotedString value) => some value
  | _ => none

/-! ## Nodes of the rewriter -/

/-- A call with nothing but a list of unnamed arguments. -/
def Function.plain (name : String) (args : List Expr) : Function :=
  .mk ⟨[.identifier (.new name)]⟩ false .none
    (.list none (args.map fun arg => .unnamed (.expr arg)) [] []) none none none [] []

def functionExpr (name : String) (args : List Expr) : Expr := .function (.plain name args)

def numberExpr (value : String) : Expr := .value (.number value false)

def singleQuotedStringExpr (value : String) : Expr := .value (.singleQuotedString value)

def extractMinuteUdf : String := "harborsql_extract_minute"

def regexpReplaceCaptureUdf : String := "harborsql_regexp_replace_capture"

def extractMinuteExpr (source : Expr) : Expr := functionExpr extractMinuteUdf [source]

def arrayElementExpr (array oneBasedIndex : Expr) : Expr :=
  functionExpr "array_element" [array, oneBasedIndex]

def mapExtractExpr (map key : Expr) : Expr := functionExpr "map_extract" [map, key]

def regexpReplaceCaptureExpr (source : Expr) (pattern : String) (captureIndex : Nat) : Expr :=
  functionExpr regexpReplaceCaptureUdf
    [source, singleQuotedStringExpr pattern, numberExpr (toString captureIndex)]

def containsExpr (haystack : Expr) (needle : String) (negated : Bool) : Expr :=
  let contains := functionExpr "contains" [haystack, singleQuotedStringExpr needle]
  if negated then .unaryOp .not contains else contains

def databricksGetArrayIndexExpr (index : Expr) : Expr :=
  .case none [.mk (.binaryOp index .lt (numberExpr "0")) (numberExpr "0")]
    (some (.binaryOp index .plus (numberExpr "1")))

def databricksGetArrayExpr (array zeroBasedIndex : Expr) : Expr :=
  arrayElementExpr array (databricksGetArrayIndexExpr zeroBasedIndex)

/-- `map_extract` returns a list of one value. -/
def databricksElementAtMapExpr (map key : Expr) : Expr :=
  arrayElementExpr (mapExtractExpr map key) (numberExpr "1")

/-! ## The fast paths -/

def databricksIfExpr (function : Function) : Option Expr :=
  match plainFunctionArgs function "if" with
  | some [condition, result, elseResult] => do
    let condition ← functionArgExpr condition
    let result ← functionArgExpr result
    let elseResult ← functionArgExpr elseResult
    return .case none [.mk condition result] (some elseResult)
  | _ => none

def databricksGetArrayArgs (function : Function) : Option (Expr × Expr) :=
  match plainFunctionArgs function "get" with
  | some [array, index] => do
    let array ← functionArgExpr array
    let index ← functionArgExpr index
    return (array, index)
  | _ => none

def databricksElementAtMapArgs (function : Function) : Option (Expr × Expr) :=
  match plainFunctionArgs function "element_at" with
  | some [map, key] => do
    let map ← functionArgExpr map
    let key ← functionArgExpr key
    return (map, key)
  | _ => none

/-- `digits.parse::<u64>()`, of ASCII digits. -/
def parseU64 (digits : List Char) : Option Nat :=
  let n := digits.foldl (fun n c => 10 * n + (c.toNat - '0'.toNat)) 0
  if n < 2 ^ 64 then some n else none

/-- `strip_prefix`. -/
def stripPrefix (c : Char) : List Char → Option (List Char)
  | [] => none
  | d :: text => if d = c then some text else none

/-- `strip_suffix`. -/
def stripSuffix (c : Char) (text : List Char) : Option (List Char) :=
  if text.getLast? = some c then some text.dropLast else none

def captureReplacementIndex (replacement : String) : Option Nat := do
  let digits ← stripPrefix '$' replacement.toList <|> stripPrefix '\\' replacement.toList
  let digits := ((stripPrefix '{' digits).bind (stripSuffix '}')).getD digits
  if digits.isEmpty || !digits.all Char.isDigit then none else parseU64 digits

def regexpReplaceCaptureFastPathArgs (function : Function) : Option (Expr × String × Nat) :=
  match plainFunctionArgs function "regexp_replace" with
  | some [source, pattern, replacement] => do
    let source ← functionArgExpr source
    let pattern ← stringLiteralValue (← functionArgExpr pattern)
    let replacement ← stringLiteralValue (← functionArgExpr replacement)
    let captureIndex ← captureReplacementIndex replacement
    return (source, pattern, captureIndex)
  | _ => none

def containsNeedleFromLikePattern (pattern : Expr) : Option String := do
  let pattern ← stringLiteralValue pattern
  let inner ← stripPrefix '%' pattern.toList
  let needle ← stripSuffix '%' inner
  if '%' ∈ needle ∨ '_' ∈ needle then none else some (.ofList needle)

/-- The part of `rewrite_leaf_expr_fast_paths` that looks at a function, whose arguments have been
rewritten. -/
def rewriteLeafFunction (function : Function) (changedArgs : Bool) : Expr × Bool :=
  match databricksIfExpr function with
  | some replacement => (replacement, true)
  | none =>
    match databricksGetArrayArgs function with
    | some (array, index) => (databricksGetArrayExpr array index, true)
    | none =>
      match databricksElementAtMapArgs function with
      | some (map, key) => (databricksElementAtMapExpr map key, true)
      | none =>
        match regexpReplaceCaptureFastPathArgs function with
        | some (source, pattern, captureIndex) =>
          (regexpReplaceCaptureExpr source pattern captureIndex, true)
        | none => (.function function, changedArgs)

def isDatabricksGetArrayExpr : Expr → Bool
  | .function function => (databricksGetArrayArgs function).isSome
  | _ => false

/-- `rewrite_dot_accesses_as_named_field_subscripts`, on one access. -/
def rewriteDotAccessAsNamedFieldSubscript : AccessExpr → AccessExpr
  | .dot (.identifier ident) => .index (singleQuotedStringExpr ident.value)
  | access => access

/-! ## Expressions -/

mutual

/-- The arms of `rewrite_leaf_expr_fast_paths` come first. Where it changes nothing, no other arm is
left for these variants. -/
def rewriteExprFastPaths : Expr → Expr × Bool
  | .extract .minute _ source | .extract .minutes _ source => (extractMinuteExpr source, true)
  | .function function =>
    let (function, changedArgs) := rewriteFunctionFastPaths function
    rewriteLeafFunction function changedArgs
  | .like negated false likeExpr pattern none =>
    match containsNeedleFromLikePattern pattern with
    | some needle => (containsExpr likeExpr needle negated, true)
    | none => (.like negated false likeExpr pattern none, false)
  | .binaryOp left op right =>
    let (left, changedLeft) := rewriteExprFastPaths left
    let (right, changedRight) := rewriteExprFastPaths right
    (.binaryOp left op right, changedLeft || changedRight)
  | .isDistinctFrom left right =>
    let (left, changedLeft) := rewriteExprFastPaths left
    let (right, changedRight) := rewriteExprFastPaths right
    (.isDistinctFrom left right, changedLeft || changedRight)
  | .isNotDistinctFrom left right =>
    let (left, changedLeft) := rewriteExprFastPaths left
    let (right, changedRight) := rewriteExprFastPaths right
    (.isNotDistinctFrom left right, changedLeft || changedRight)
  | .unaryOp op expr =>
    let (expr, changed) := rewriteExprFastPaths expr
    (.unaryOp op expr, changed)
  | .isTest test expr =>
    let (expr, changed) := rewriteExprFastPaths expr
    (.isTest test expr, changed)
  | .nested expr =>
    let (expr, changed) := rewriteExprFastPaths expr
    (.nested expr, changed)
  | .outerJoin expr =>
    let (expr, changed) := rewriteExprFastPaths expr
    (.outerJoin expr, changed)
  | .prior expr =>
    let (expr, changed) := rewriteExprFastPaths expr
    (.prior expr, changed)
  | .compoundFieldAccess root accessChain =>
    let (root', changedRoot) := rewriteExprFastPaths root
    let rootIsDatabricksGet := isDatabricksGetArrayExpr root
    let (accessChain, changedChain) := rewriteAccessChain rootIsDatabricksGet accessChain
    (.compoundFieldAccess root' accessChain, changedRoot || changedChain)
  | expr => (expr, false)

/-- The accesses of a chain are rewritten one by one. Those of a `get` have been turned into
subscripts before, and nothing is left to rewrite in such a subscript. -/
def rewriteAccessChain (rootIsDatabricksGet : Bool) : List AccessExpr → List AccessExpr × Bool
  | [] => ([], false)
  | .dot (.identifier ident) :: accessChain =>
    let (accessChain, changed) := rewriteAccessChain rootIsDatabricksGet accessChain
    if rootIsDatabricksGet then
      (.index (singleQuotedStringExpr ident.value) :: accessChain, true)
    else (.dot (.identifier ident) :: accessChain, changed)
  | access :: accessChain =>
    let (access, changedAccess) := rewriteAccessExprFastPaths access
    let (accessChain, changed) := rewriteAccessChain rootIsDatabricksGet accessChain
    (access :: accessChain, changedAccess || changed)

/-- With `rewrite_subscript_fast_paths`. -/
def rewriteAccessExprFastPaths : AccessExpr → AccessExpr × Bool
  | .dot expr =>
    let (expr, changed) := rewriteExprFastPaths expr
    (.dot expr, changed)
  | .index index =>
    let (index, changed) := rewriteExprFastPaths index
    (.index index, changed)
  | .slice lowerBound upperBound stride =>
    let (lowerBound, changedLower) := rewriteOption lowerBound
    let (upperBound, changedUpper) := rewriteOption upperBound
    let (stride, changedStride) := rewriteOption stride
    (.slice lowerBound upperBound stride, changedLower || changedUpper || changedStride)

def rewriteOption : Option Expr → Option Expr × Bool
  | none => (none, false)
  | some expr =>
    let (expr, changed) := rewriteExprFastPaths expr
    (some expr, changed)

def rewriteFunctionFastPaths : Function → Function × Bool
  | .mk name usesOdbcSyntax parameters (.list duplicateTreatment args clauses operands) filter
      nullTreatment overClause windowOperands withinGroup =>
    let (args, changed) := rewriteFunctionArgs args
    (.mk name usesOdbcSyntax parameters (.list duplicateTreatment args clauses operands) filter
      nullTreatment overClause windowOperands withinGroup, changed)
  | function => (function, false)

def rewriteFunctionArgs : List FunctionArg → List FunctionArg × Bool
  | [] => ([], false)
  | arg :: args =>
    let (arg, changedArg) := rewriteFunctionArgFastPaths arg
    let (args, changed) := rewriteFunctionArgs args
    (arg :: args, changedArg || changed)

def rewriteFunctionArgFastPaths : FunctionArg → FunctionArg × Bool
  | .named name arg operator =>
    let (arg, changed) := rewriteFunctionArgExpr arg
    (.named name arg operator, changed)
  | .exprNamed name arg operator =>
    let (arg, changed) := rewriteFunctionArgExpr arg
    (.exprNamed name arg operator, changed)
  | .unnamed arg =>
    let (arg, changed) := rewriteFunctionArgExpr arg
    (.unnamed arg, changed)

def rewriteFunctionArgExpr : FunctionArgExpr → FunctionArgExpr × Bool
  | .expr expr =>
    let (expr, changed) := rewriteExprFastPaths expr
    (.expr expr, changed)
  | arg => (arg, false)

end

/-- The part of `rewriteExprFastPaths` that comes first. -/
def rewriteLeafExprFastPaths : Expr → Expr × Bool
  | .extract .minute _ source | .extract .minutes _ source => (extractMinuteExpr source, true)
  | .function function =>
    let (function, changedArgs) := rewriteFunctionFastPaths function
    rewriteLeafFunction function changedArgs
  | .like negated false likeExpr pattern none =>
    match containsNeedleFromLikePattern pattern with
    | some needle => (containsExpr likeExpr needle negated, true)
    | none => (.like negated false likeExpr pattern none, false)
  | expr => (expr, false)

/-- The rewriting of each part in turn. -/
def rewriteEach {α : Type} (rewrite : α → α × Bool) (parts : List α) : List α × Bool :=
  let parts := parts.map rewrite
  (parts.map Prod.fst, parts.any Prod.snd)

/-! ## Projection aliases -/

def isCountWildcardFunction (function : Function) : Bool :=
  match plainFunctionArgs function "count" with
  | some [.unnamed .wildcard] => true
  | _ => false

def isCountWildcardProjection : Expr → Bool
  | .function function => isCountWildcardFunction function
  | .nested expr => isCountWildcardProjection expr
  | _ => false

def shouldAliasDatabricksExpression : Expr → Bool
  | .function _ | .binaryOp .. | .value _ => true
  | .nested expr => shouldAliasDatabricksExpression expr
  | _ => false

section

variable (display : Display)

def databricksValueName : Value → String
  | .number value _ => value
  | value => display.value value

def databricksBinaryOperatorName : BinaryOperator → String
  | .plus => "+"
  | .minus => "-"
  | .multiply => "*"
  | .divide => "/"
  | .modulo => "%"
  | op => display.binaryOperator op

mutual

def databricksExprName : Expr → String
  | .identifier ident => ident.value
  | .compoundIdentifier idents => ".".intercalate (idents.map Ident.value)
  | .value value => databricksValueName display value
  | .binaryOp left op right =>
    "(" ++ databricksExprName left ++ " " ++ databricksBinaryOperatorName display op ++ " " ++
      databricksExprName right ++ ")"
  | .function function => databricksFunctionName function
  | .nested expr => "(" ++ databricksExprName expr ++ ")"
  | .unaryOp op expr => display.unaryOperator op ++ databricksExprName expr
  | expr => display.expr expr

/-- With `databricks_function_argument_list_name`. -/
def databricksFunctionName : Function → String
  | .mk name false .none (.list duplicateTreatment args [] []) none none none [] [] =>
    let distinct := match duplicateTreatment with
      | some .distinct => "DISTINCT "
      | some .all => "ALL "
      | none => ""
    (display.objectName name).map Char.toLower ++ "(" ++ distinct ++
      ", ".intercalate (databricksFunctionArgNames args) ++ ")"
  | function => display.function function

def databricksFunctionArgNames : List FunctionArg → List String
  | [] => []
  | arg :: args => databricksFunctionArgName arg :: databricksFunctionArgNames args

def databricksFunctionArgName : FunctionArg → String
  | .unnamed (.expr expr) => databricksExprName expr
  | .unnamed .wildcard => "*"
  | .unnamed (.qualifiedWildcard name) => display.objectName name ++ ".*"
  | arg => display.functionArg arg

end

variable (options : RewriteOptions)

def databricksProjectionAlias (expr : Expr) : Option String :=
  if options.databricksCountStarAliasRewrite && isCountWildcardProjection expr then
    some "count(1)"
  else if options.databricksExpressionAliasRewrite && shouldAliasDatabricksExpression expr then
    some (databricksExprName display expr)
  else none

/-! ## Statements -/

/-- The loop of `rewrite_select_fast_paths` over the projection, on one item. -/
def rewriteSelectItem : SelectItem → SelectItem × Bool
  | .unnamedExpr expr =>
    let (expr, changed) := rewriteExprFastPaths expr
    match databricksProjectionAlias display options expr with
    | some aliasName => (.exprWithAlias expr (.withQuote '"' aliasName), true)
    | none => (.unnamedExpr expr, changed)
  | .exprWithAlias expr aliasName =>
    let (expr, changed) := rewriteExprFastPaths expr
    (.exprWithAlias expr aliasName, changed)
  | item => (item, false)

def rewriteOrderByExpr : OrderByExpr → OrderByExpr × Bool
  | .mk expr options withFill =>
    let (expr, changed) := rewriteExprFastPaths expr
    (.mk expr options withFill, changed)

def rewriteGroupBy : GroupByExpr → GroupByExpr × Bool
  | .expressions expressions modifiers =>
    let (expressions, changed) := rewriteEach rewriteExprFastPaths expressions
    (.expressions expressions modifiers, changed)
  | groupBy => (groupBy, false)

def rewriteSelectFastPaths : Select → Select × Bool
  | .mk text operands projection into tables prewhere selection groupBy clusterBy distributeBy sortBy
      having qualify =>
    let (projection, changedProjection) := rewriteEach (rewriteSelectItem display options) projection
    let (selection, changedSelection) := rewriteOption selection
    let (prewhere, changedPrewhere) := rewriteOption prewhere
    let (groupBy, changedGroupBy) := rewriteGroupBy groupBy
    let (clusterBy, changedClusterBy) := rewriteEach rewriteExprFastPaths clusterBy
    let (distributeBy, changedDistributeBy) := rewriteEach rewriteExprFastPaths distributeBy
    let (sortBy, changedSortBy) := rewriteEach rewriteOrderByExpr sortBy
    let (having, changedHaving) := rewriteOption having
    let (qualify, changedQualify) := rewriteOption qualify
    (.mk text operands projection into tables prewhere selection groupBy clusterBy distributeBy sortBy
      having qualify,
      changedProjection || changedSelection || changedPrewhere || changedGroupBy ||
        changedClusterBy || changedDistributeBy || changedSortBy || changedHaving || changedQualify)

def rewriteOrderByFastPaths : OrderBy → OrderBy × Bool
  | .expressions expressions interpolate =>
    let (expressions, changed) := rewriteEach rewriteOrderByExpr expressions
    (.expressions expressions interpolate, changed)
  | orderBy => (orderBy, false)

mutual

def rewriteQueryFastPaths : Query → Query × Bool
  | .mk recursive cteTables body orderBy text operands =>
    let (cteTables, changedCtes) := rewriteCteTables cteTables
    let (body, changedBody) := rewriteSetExprFastPaths body
    let (orderBy, changedOrderBy) := rewriteOrderByFastPaths orderBy
    (.mk recursive cteTables body orderBy text operands,
      changedCtes || changedBody || changedOrderBy)

def rewriteCteTables : List Cte → List Cte × Bool
  | [] => ([], false)
  | .mk aliasName query :: cteTables =>
    let (query, changedQuery) := rewriteQueryFastPaths query
    let (cteTables, changed) := rewriteCteTables cteTables
    (.mk aliasName query :: cteTables, changedQuery || changed)

def rewriteSetExprFastPaths : SetExpr → SetExpr × Bool
  | .select select =>
    let (select, changed) := rewriteSelectFastPaths display options select
    (.select select, changed)
  | .query query =>
    let (query, changed) := rewriteQueryFastPaths query
    (.query query, changed)
  | .setOperation op left right =>
    let (left, changedLeft) := rewriteSetExprFastPaths left
    let (right, changedRight) := rewriteSetExprFastPaths right
    (.setOperation op left right, changedLeft || changedRight)
  | setExpr => (setExpr, false)

end

def rewriteStatementFastPaths : Statement → Statement × Bool
  | .query query =>
    let (query, changed) := rewriteQueryFastPaths display options query
    (.query query, changed)
  | .explain explainOptions statement =>
    let (statement, changed) := rewriteStatementFastPaths statement
    (.explain explainOptions statement, changed)
  | statement => (statement, false)

/-- `rewrite_sql_fast_paths_with_options`, of a parser and the texts of statements. -/
def rewriteSqlFastPathsWithOptions (parseSql : String → Option (List Statement))
    (statementToString : Statement → String) (sql : String) : String :=
  match parseSql sql with
  | some [statement] =>
    let (statement, changed) := rewriteStatementFastPaths display options statement
    if changed then statementToString statement else sql
  | _ => sql

end

end HarborSql.Sql
