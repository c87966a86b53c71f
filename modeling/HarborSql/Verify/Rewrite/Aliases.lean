import HarborSql.Engine.Rewrite

/-! The names of projections: each is the text of the expression itself, with its operations in
parentheses, so that two items have one name only if that text does not tell them apart. -/

namespace HarborSql.Sql

/-- The name in lower case, its quotes as they are. -/
def ObjectName.toLower (name : ObjectName) : ObjectName where
  parts := name.parts.map fun
    | .identifier ident => .identifier { ident with value := ident.value.map Char.toLower }
    | .function text => .function (text.map Char.toLower)

/-! ## The expression that is spelled -/

mutual

/-- The expression without what its name leaves out: the quotes of identifiers, the case of the names
of functions, and the suffix of a long number. With `parens`, operations are in parentheses. -/
def namedExpr (parens : Bool) : Expr → Expr
  | .identifier ident => .identifier (.new ident.value)
  | .compoundIdentifier idents => .compoundIdentifier (idents.map fun ident => .new ident.value)
  | .value (.number value _) => .value (.number value false)
  | .binaryOp left op right =>
    let operation := .binaryOp (namedExpr parens left) op (namedExpr parens right)
    if parens then .nested operation else operation
  | .function function => .function (namedFunction parens function)
  | .nested expr => .nested (namedExpr parens expr)
  | .unaryOp op expr => .unaryOp op (namedExpr parens expr)
  | expr => expr

def namedFunction (parens : Bool) : Function → Function
  | .mk name false .none (.list duplicateTreatment args [] []) none none none [] [] =>
    .mk name.toLower false .none (.list duplicateTreatment (namedFunctionArgs parens args) [] []) none
      none none [] []
  | function => function

def namedFunctionArgs (parens : Bool) : List FunctionArg → List FunctionArg
  | [] => []
  | arg :: args => namedFunctionArg parens arg :: namedFunctionArgs parens args

def namedFunctionArg (parens : Bool) : FunctionArg → FunctionArg
  | .unnamed (.expr expr) => .unnamed (.expr (namedExpr parens expr))
  | arg => arg

end

mutual

/-- The unary operators that a name spells. -/
def namedOperators : Expr → List UnaryOperator
  | .binaryOp left _ right => namedOperators left ++ namedOperators right
  | .function function => namedFunctionOperators function
  | .nested expr => namedOperators expr
  | .unaryOp op expr => op :: namedOperators expr
  | _ => []

def namedFunctionOperators : Function → List UnaryOperator
  | .mk _ false .none (.list _ args [] []) none none none [] [] => namedArgsOperators args
  | _ => []

def namedArgsOperators : List FunctionArg → List UnaryOperator
  | [] => []
  | arg :: args => namedArgOperators arg ++ namedArgsOperators args

def namedArgOperators : FunctionArg → List UnaryOperator
  | .unnamed (.expr expr) => namedOperators expr
  | _ => []

end

/-! ## The text of the expression -/

def DuplicateTreatment.text : Option DuplicateTreatment → String
  | some .distinct => "DISTINCT "
  | some .all => "ALL "
  | none => ""

/-- How `sqlparser` prints the expressions whose names the program puts together itself. -/
structure Display.Prints (display : Display) : Prop where
  identifier (value : String) : display.expr (.identifier (.new value)) = value
  compoundIdentifier (values : List String) :
    display.expr (.compoundIdentifier (values.map .new)) = ".".intercalate values
  value (value : Value) : display.expr (.value value) = display.value value
  number (value : String) : display.value (.number value false) = value
  binaryOp (left : Expr) (op : BinaryOperator) (right : Expr) :
    display.expr (.binaryOp left op right) =
      display.expr left ++ " " ++ display.binaryOperator op ++ " " ++ display.expr right
  plus : display.binaryOperator .plus = "+"
  minus : display.binaryOperator .minus = "-"
  multiply : display.binaryOperator .multiply = "*"
  divide : display.binaryOperator .divide = "/"
  modulo : display.binaryOperator .modulo = "%"
  nested (expr : Expr) : display.expr (.nested expr) = "(" ++ display.expr expr ++ ")"
  function (function : Function) : display.expr (.function function) = display.function function
  call (name : ObjectName) (duplicateTreatment : Option DuplicateTreatment) (args : List FunctionArg) :
    display.function
        (.mk name false .none (.list duplicateTreatment args [] []) none none none [] []) =
      display.objectName name ++ "(" ++ DuplicateTreatment.text duplicateTreatment ++
        ", ".intercalate (args.map display.functionArg) ++ ")"
  exprArg (expr : Expr) : display.functionArg (.unnamed (.expr expr)) = display.expr expr
  wildcardArg : display.functionArg (.unnamed .wildcard) = "*"
  qualifiedWildcardArg (name : ObjectName) :
    display.functionArg (.unnamed (.qualifiedWildcard name)) = display.objectName name ++ ".*"
  objectName (value : String) : display.objectName ⟨[.identifier (.new value)]⟩ = value
  toLower (name : ObjectName) :
    display.objectName name.toLower = (display.objectName name).map Char.toLower

/-- The operator stands right in front of its operand, as `-` does and `NOT` does not. -/
def Display.Prefixes (display : Display) (op : UnaryOperator) : Prop :=
  ∀ expr, display.expr (.unaryOp op expr) = display.unaryOperator op ++ display.expr expr

section

variable {display : Display} (h : display.Prints)
include h

theorem databricksBinaryOperatorName_eq (op : BinaryOperator) :
    databricksBinaryOperatorName display op = display.binaryOperator op := by
  cases op with
  | plus => exact h.plus.symm
  | minus => exact h.minus.symm
  | multiply => exact h.multiply.symm
  | divide => exact h.divide.symm
  | modulo => exact h.modulo.symm
  | _ => rfl

mutual

theorem databricksExprName_eq : ∀ (expr : Expr), (∀ op ∈ namedOperators expr, display.Prefixes op) →
    databricksExprName display expr = display.expr (namedExpr true expr)
  | .identifier ident, _ => (h.identifier ident.value).symm
  | .compoundIdentifier idents, _ => by
    have hprint := h.compoundIdentifier (idents.map Ident.value)
    rw [List.map_map] at hprint
    exact hprint.symm
  | .value value, _ => by
    cases value with
    | number value long => exact ((h.value _).trans (h.number value)).symm
    | _ => exact (h.value _).symm
  | .binaryOp left op right, hops => by
    rw [namedOperators, List.forall_mem_append] at hops
    rw [databricksExprName, databricksExprName_eq left hops.1, databricksExprName_eq right hops.2,
      databricksBinaryOperatorName_eq h, namedExpr]
    simp [h.nested, h.binaryOp, String.append_assoc]
  | .function function, hops => by
    rw [databricksExprName, databricksFunctionName_eq function hops, namedExpr, h.function]
  | .nested expr, hops => by
    rw [databricksExprName, databricksExprName_eq expr hops, namedExpr, h.nested]
  | .unaryOp op expr, hops => by
    obtain ⟨hop, hops⟩ := List.forall_mem_cons.mp hops
    rw [databricksExprName, databricksExprName_eq expr hops, namedExpr, hop]
  | .compoundFieldAccess _ _, _ | .isTest _ _, _ | .isDistinctFrom _ _, _ | .isNotDistinctFrom _ _, _
  | .inList _ _ _, _ | .inSubquery _ _ _, _ | .between _ _ _ _, _ | .like _ _ _ _ _, _ | .cast _ _ _, _
  | .extract _ _ _, _ | .case _ _ _, _ | .exists _ _, _ | .subquery _, _ | .outerJoin _, _ | .prior _, _
  | .other _ _ _ _, _ => rfl

theorem databricksFunctionName_eq : ∀ (function : Function),
    (∀ op ∈ namedFunctionOperators function, display.Prefixes op) →
    databricksFunctionName display function = display.function (namedFunction true function) := by
  intro function hops
  unfold namedFunctionOperators at hops
  split at hops
  next name duplicateTreatment args =>
    have hcall := h.call name.toLower duplicateTreatment (namedFunctionArgs true args)
    rw [h.toLower, ← databricksFunctionArgNames_eq args hops] at hcall
    exact hcall.symm
  next hcall =>
    rw [databricksFunctionName.eq_4 _ _ hcall, namedFunction.eq_2 _ _ hcall]

theorem databricksFunctionArgNames_eq : ∀ (args : List FunctionArg),
    (∀ op ∈ namedArgsOperators args, display.Prefixes op) →
    databricksFunctionArgNames display args = (namedFunctionArgs true args).map display.functionArg
  | [], _ => rfl
  | arg :: args, hops => by
    rw [namedArgsOperators, List.forall_mem_append] at hops
    rw [databricksFunctionArgNames, databricksFunctionArgName_eq arg hops.1,
      databricksFunctionArgNames_eq args hops.2]
    rfl

theorem databricksFunctionArgName_eq : ∀ (arg : FunctionArg),
    (∀ op ∈ namedArgOperators arg, display.Prefixes op) →
    databricksFunctionArgName display arg = display.functionArg (namedFunctionArg true arg)
  | .unnamed (.expr expr), hops =>
    (databricksExprName_eq expr hops).trans (h.exprArg (namedExpr true expr)).symm
  | .unnamed .wildcard, _ => h.wildcardArg.symm
  | .unnamed (.qualifiedWildcard name), _ => (h.qualifiedWildcardArg name).symm
  | .named _ _ _, _ | .exprNamed _ _ _, _ => rfl

end

end

/-! ## The expression without the parentheses -/

mutual

/-- The expression without the parentheses right around an operation. -/
def ungroupExpr : Expr → Expr
  | .nested (.binaryOp left op right) => .binaryOp (ungroupExpr left) op (ungroupExpr right)
  | .nested expr => .nested (ungroupExpr expr)
  | .unaryOp op expr => .unaryOp op (ungroupExpr expr)
  | .function function => .function (ungroupFunction function)
  | expr => expr

def ungroupFunction : Function → Function
  | .mk name false .none (.list duplicateTreatment args [] []) none none none [] [] =>
    .mk name false .none (.list duplicateTreatment (ungroupFunctionArgs args) [] []) none none none
      [] []
  | function => function

def ungroupFunctionArgs : List FunctionArg → List FunctionArg
  | [] => []
  | arg :: args => ungroupFunctionArg arg :: ungroupFunctionArgs args

def ungroupFunctionArg : FunctionArg → FunctionArg
  | .unnamed (.expr expr) => .unnamed (.expr (ungroupExpr expr))
  | arg => arg

end

theorem namedExpr_ne_binaryOp (expr left right : Expr) (op : BinaryOperator) :
    namedExpr true expr ≠ .binaryOp left op right := by
  cases expr with
  | value value => cases value <;> nofun
  | _ => nofun

mutual

/-- The parentheses around operations are the only ones that a name adds. -/
theorem ungroup_namedExpr : ∀ (expr : Expr), ungroupExpr (namedExpr true expr) = namedExpr false expr
  | .binaryOp left op right => by
    have heq : ungroupExpr (namedExpr true (.binaryOp left op right)) =
      .binaryOp (ungroupExpr (namedExpr true left)) op (ungroupExpr (namedExpr true right)) := rfl
    rw [heq, ungroup_namedExpr left, ungroup_namedExpr right]
    rfl
  | .nested expr => by
    rw [namedExpr, ungroupExpr, ungroup_namedExpr expr, namedExpr]
    exact fun left op right => namedExpr_ne_binaryOp expr left right op
  | .unaryOp op expr => by rw [namedExpr, ungroupExpr, ungroup_namedExpr expr, namedExpr]
  | .function function => by rw [namedExpr, ungroupExpr, ungroup_namedFunction function, namedExpr]
  | .value value => by cases value <;> rfl
  | .identifier _ | .compoundIdentifier _ | .compoundFieldAccess _ _ | .isTest _ _
  | .isDistinctFrom _ _ | .isNotDistinctFrom _ _ | .inList _ _ _ | .inSubquery _ _ _
  | .between _ _ _ _ | .like _ _ _ _ _ | .cast _ _ _ | .extract _ _ _ | .case _ _ _ | .exists _ _
  | .subquery _ | .outerJoin _ | .prior _ | .other _ _ _ _ => rfl

theorem ungroup_namedFunction (function : Function) :
    ungroupFunction (namedFunction true function) = namedFunction false function := by
  by_cases h : ∃ name duplicateTreatment args, function =
      .mk name false .none (.list duplicateTreatment args [] []) none none none [] []
  · obtain ⟨name, duplicateTreatment, args, rfl⟩ := h
    rw [namedFunction, ungroupFunction, ungroup_namedFunctionArgs args, namedFunction]
  · have h (name duplicateTreatment args) (heq : function =
        .mk name false .none (.list duplicateTreatment args [] []) none none none [] []) : False :=
      h ⟨name, duplicateTreatment, args, heq⟩
    rw [namedFunction.eq_2 _ _ h, namedFunction.eq_2 _ _ h, ungroupFunction.eq_2 _ h]

theorem ungroup_namedFunctionArgs : ∀ (args : List FunctionArg),
    ungroupFunctionArgs (namedFunctionArgs true args) = namedFunctionArgs false args
  | [] => rfl
  | arg :: args => by
    rw [namedFunctionArgs, ungroupFunctionArgs, ungroup_namedFunctionArg arg,
      ungroup_namedFunctionArgs args, namedFunctionArgs]

theorem ungroup_namedFunctionArg : ∀ (arg : FunctionArg),
    ungroupFunctionArg (namedFunctionArg true arg) = namedFunctionArg false arg
  | .unnamed (.expr expr) => by
    rw [namedFunctionArg, ungroupFunctionArg, ungroup_namedExpr expr, namedFunctionArg]
  | .unnamed .wildcard | .unnamed (.qualifiedWildcard _) | .named _ _ _ | .exprNamed _ _ _ => rfl

end

/-! ## Aliases -/

/-- The expression that the alias of an item spells. That of `count(*)` spells `count(1)`. -/
def aliasedExpr (options : RewriteOptions) (parens : Bool) (expr : Expr) : Expr :=
  if options.databricksCountStarAliasRewrite && isCountWildcardProjection expr then
    functionExpr "count" [numberExpr "1"]
  else namedExpr parens expr

/-- Its name puts the item together as `sqlparser` does: an operator in front of its operand stands
right in front of it, and what is spelled is an expression that the parser returns, so that no
identifier needed its quotes. -/
structure Spelled (display : Display) (parse : String → Option Expr) (options : RewriteOptions)
    (expr : Expr) : Prop where
  prefixes : ∀ op ∈ namedOperators expr, display.Prefixes op
  parsed : ∃ text, parse text = some (aliasedExpr options true expr)

section

variable {display : Display} (h : display.Prints) {options : RewriteOptions}
include h

theorem expr_countOne : display.expr (functionExpr "count" [numberExpr "1"]) = "count(1)" := by
  have hcall := h.call ⟨[.identifier (.new "count")]⟩ none [.unnamed (.expr (numberExpr "1"))]
  rw [h.objectName, List.map_singleton, h.exprArg, numberExpr, h.value, h.number] at hcall
  exact (h.function _).trans hcall

theorem databricksProjectionAlias_eq {expr : Expr} {name : String}
    (hops : ∀ op ∈ namedOperators expr, display.Prefixes op)
    (hname : databricksProjectionAlias display options expr = some name) :
    name = display.expr (aliasedExpr options true expr) := by
  unfold databricksProjectionAlias at hname
  unfold aliasedExpr
  split at hname
  next hcount =>
    rw [if_pos hcount, expr_countOne h]
    exact (Option.some.inj hname).symm
  next hcount =>
    rw [if_neg hcount]
    split at hname
    next => exact (Option.some.inj hname).symm.trans (databricksExprName_eq h expr hops)
    next => cases hname

omit h in
theorem ungroup_aliasedExpr (options : RewriteOptions) (expr : Expr) :
    ungroupExpr (aliasedExpr options true expr) = aliasedExpr options false expr := by
  unfold aliasedExpr
  split
  next => rfl
  next => exact ungroup_namedExpr expr

variable {parse : String → Option Expr}
  (hparse : ∀ text expr, parse text = some expr → parse (display.expr expr) = some expr)
include hparse

theorem aliasedExpr_eq {expr expr' : Expr} (hspelled : Spelled display parse options expr)
    (hspelled' : Spelled display parse options expr') {name : String}
    (hname : databricksProjectionAlias display options expr = some name)
    (hname' : databricksProjectionAlias display options expr' = some name) :
    aliasedExpr options false expr = aliasedExpr options false expr' := by
  obtain ⟨text, htext⟩ := hspelled.parsed
  obtain ⟨text', htext'⟩ := hspelled'.parsed
  have hprint := databricksProjectionAlias_eq h hspelled.prefixes hname
  rw [databricksProjectionAlias_eq h hspelled'.prefixes hname'] at hprint
  have hread := hparse _ _ htext
  rw [← hprint, hparse _ _ htext'] at hread
  rw [← ungroup_aliasedExpr, ← ungroup_aliasedExpr, Option.some.inj hread]

end

/-! ### Two items with one alias -/

def objectNameText (name : ObjectName) : String :=
  ".".intercalate (name.parts.map fun
    | .identifier ident => ident.value
    | .function text => text)

def valueText : Value → String
  | .number value long => if long then value ++ "L" else value
  | .singleQuotedString value => "'" ++ value ++ "'"
  | .escapedStringLiteral value => "E'" ++ value ++ "'"
  | .doubleQuotedString value => "\"" ++ value ++ "\""
  | .boolean value => if value then "true" else "false"
  | .null => "NULL"
  | .other text => text

def binaryOperatorText : BinaryOperator → String
  | .plus => "+" | .minus => "-" | .multiply => "*" | .divide => "/" | .modulo => "%"
  | .stringConcat => "||" | .gt => ">" | .lt => "<" | .gtEq => ">=" | .ltEq => "<="
  | .spaceship => "<=>" | .eq => "=" | .notEq => "<>" | .and => "AND" | .or => "OR" | .xor => "XOR"
  | .bitwiseOr => "|" | .bitwiseAnd => "&" | .bitwiseXor => "^" | .other text _ => text

def unaryOperatorText : UnaryOperator → String
  | .plus => "+" | .minus => "-" | .not => "NOT" | .other text _ => text

mutual

/-- The text of an expression without quotes. What a name leaves to it is left out. -/
def exprText : Expr → String
  | .identifier ident => ident.value
  | .compoundIdentifier idents => ".".intercalate (idents.map Ident.value)
  | .value value => valueText value
  | .binaryOp left op right => exprText left ++ " " ++ binaryOperatorText op ++ " " ++ exprText right
  | .unaryOp .not expr => "NOT " ++ exprText expr
  | .unaryOp op expr => unaryOperatorText op ++ exprText expr
  | .nested expr => "(" ++ exprText expr ++ ")"
  | .function function => functionText function
  | _ => ""

def functionText : Function → String
  | .mk name _ _ (.list duplicateTreatment args _ _) .. =>
    objectNameText name ++ "(" ++ DuplicateTreatment.text duplicateTreatment ++
      ", ".intercalate (functionArgTexts args) ++ ")"
  | .mk name .. => objectNameText name

def functionArgTexts : List FunctionArg → List String
  | [] => []
  | arg :: args => functionArgText arg :: functionArgTexts args

def functionArgText : FunctionArg → String
  | .unnamed (.expr expr) => exprText expr
  | .unnamed .wildcard => "*"
  | .unnamed (.qualifiedWildcard name) => objectNameText name ++ ".*"
  | .named .. | .exprNamed .. => ""

end

def textDisplay : Display where
  expr := exprText
  function := functionText
  functionArg := functionArgText
  objectName := objectNameText
  value := valueText
  binaryOperator := binaryOperatorText
  unaryOperator := unaryOperatorText

theorem functionArgTexts_eq (args : List FunctionArg) :
    functionArgTexts args = args.map functionArgText := by
  induction args with
  | nil => rfl
  | cons arg args ih => rw [functionArgTexts, ih, List.map_cons]

theorem map_intercalate {α β : Type} (f : α → β) (sep : List α) (texts : List (List α)) :
    (sep.intercalate texts).map f = (sep.map f).intercalate (texts.map (·.map f)) := by
  induction texts with
  | nil => rfl
  | cons text texts ih =>
    cases texts with
    | nil => simp only [List.map_cons, List.map_nil, List.intercalate_singleton]
    | cons next texts =>
      simp only [List.map_cons, List.intercalate_cons_cons, List.map_append] at ih ⊢
      rw [ih]

theorem objectNameText_toLower (name : ObjectName) :
    objectNameText name.toLower = (objectNameText name).map Char.toLower := by
  have hsep : ".".toList.map Char.toLower = ".".toList := by decide +kernel
  apply String.toList_inj.mp
  rw [objectNameText, objectNameText, String.toList_map, String.toList_intercalate,
    String.toList_intercalate, map_intercalate, hsep, ObjectName.toLower]
  simp only [List.map_map]
  refine congrArg _ (List.map_congr_left fun part _ => ?_)
  cases part <;> exact String.toList_map

theorem prints_textDisplay : textDisplay.Prints where
  identifier _ := rfl
  compoundIdentifier values := by
    change ".".intercalate ((values.map Ident.new).map Ident.value) = _
    rw [List.map_map]
    exact congrArg _ (List.map_id _)
  value _ := rfl
  number _ := rfl
  binaryOp _ _ _ := rfl
  plus := rfl
  minus := rfl
  multiply := rfl
  divide := rfl
  modulo := rfl
  nested _ := rfl
  function _ := rfl
  call name duplicateTreatment args := by
    change objectNameText name ++ "(" ++ _ ++ ", ".intercalate (functionArgTexts args) ++ ")" = _
    rw [functionArgTexts_eq]
    rfl
  exprArg _ := rfl
  wildcardArg := rfl
  qualifiedWildcardArg _ := rfl
  objectName value := by simp [textDisplay, objectNameText, Ident.new]
  toLower := objectNameText_toLower

def countStar : Expr :=
  .function (.mk ⟨[.identifier (.new "count")]⟩ false .none (.list none [.unnamed .wildcard] [] [])
    none none none [] [])

def countOne : Expr := functionExpr "count" [numberExpr "1"]

/-- The expression inside its parentheses. -/
def unparenthesized : Expr → Expr
  | .nested expr => unparenthesized expr
  | expr => expr

def sumExpr : Expr := .binaryOp (.identifier (.new "a")) .plus (numberExpr "1")

def callExpr : Expr := functionExpr "f" [.identifier (.new "a")]

/-- What is parsed of the names of `a + 1` and `f(a)`. -/
def parseNames (text : String) : Option Expr :=
  if text = "(a + 1)" then some (.nested sumExpr) else if text = "f(a)" then some callExpr else none

theorem parseNames_exprText (text : String) (expr : Expr) (h : parseNames text = some expr) :
    parseNames (textDisplay.expr expr) = some expr := by
  have hsum : exprText (.nested sumExpr) = "(a + 1)" := by decide +kernel
  have hcall : exprText callExpr = "f(a)" := by decide +kernel
  unfold parseNames at h
  split at h
  · obtain rfl := Option.some.inj h
    exact congrArg parseNames hsum
  · split at h
    · obtain rfl := Option.some.inj h
      exact congrArg parseNames hcall
    · cases h

theorem spelled_sumExpr : ∀ expr ∈ [sumExpr, callExpr], Spelled textDisplay parseNames ⟨true, true⟩ expr := by
  have hname : "f".map Char.toLower = "f" := by decide +kernel
  have hcall : aliasedExpr ⟨true, true⟩ true callExpr = callExpr := by
    change Expr.function (.mk ⟨[.identifier ⟨"f".map Char.toLower, none⟩]⟩ ..) = callExpr
    rw [hname]
    rfl
  simp only [List.forall_mem_cons, List.not_mem_nil, false_imp_iff, implies_true, and_true]
  refine ⟨⟨?_, "(a + 1)", rfl⟩, ?_, "f(a)", by rw [hcall]; rfl⟩
  · intro inner h
    cases h
  · intro inner h
    cases h

end HarborSql.Sql
