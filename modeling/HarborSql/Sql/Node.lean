import HarborSql.Sql.Ast
import HarborSql.Theory.Mixfix
import Mathlib.Logic.Relation

/-! The nodes of a statement of every syntactic category, and how each is printed around its parts. -/

namespace HarborSql.Sql

open Mixfix (Shape)

/-- A node without its parts: what its tokens say, and how many parts stand between them. -/
inductive Kind where
  | identifier (ident : Ident)
  | compoundIdentifier (idents : List Ident)
  | compoundFieldAccess
  | isTest (test : IsTest)
  | isDistinctFrom
  | isNotDistinctFrom
  | inList (negated : Bool)
  | inSubquery (negated : Bool)
  | between (negated : Bool)
  | binaryOp (op : BinaryOperator)
  | like (negated any : Bool) (escapeChar : Option Value)
  | unaryOp (op : UnaryOperator)
  | cast (kind dataType : String)
  | extract (field : DateTimeField) (text : String)
  | value (value : Value)
  | functionExpr
  | case (operand elseResult : Bool)
  | exists (negated : Bool)
  | subquery
  | outerJoin
  | prior
  | other (form : Form) (left right : Bool)
  | dot
  | index
  | slice (lowerBound upperBound stride : Bool)
  | caseWhen
  | function (name : ObjectName) (usesOdbcSyntax : Bool) (nullTreatment overClause : Option String)
    (filter : Bool) (windowOperands : Nat)
  | noArguments
  | subqueryArgument
  | arguments (duplicateTreatment : Option DuplicateTreatment) (clauses : List String) (args : Nat)
  | namedArg (name : Ident) (operator : String)
  | exprNamedArg (operator : String)
  | unnamedArg
  | argExpr
  | qualifiedWildcardArg (name : ObjectName)
  | wildcardArg
  | orderByExpr (options : String)
  | query (recursive : Bool) (cteTables : Nat) (text : String)
  | cte (aliasName : String)
  | noOrderBy
  | orderByAll (options : String)
  | orderBy (expressions : Nat)
  | selectBody
  | queryBody
  | setOperation (op : String)
  | values (rowLengths : List Nat)
  | insert
  | update
  | delete
  | merge
  | table (name : String)
  | select (text : String) (into : Option String)
    (operands projection tables clusterBy distributeBy sortBy : Nat)
    (prewhere selection having : Bool)
  | unnamedExpr
  | exprWithAlias (aliasName : Ident)
  | qualifiedWildcard (text : String)
  | wildcard (text : String)
  | groupByAll
  | groupBy (expressions : Nat)
  | tableFactor (text : String)
  | derived (lateral : Bool) (aliasName : String)
  | join (operator : String)
  | otherTable (text : String) (tables : Nat)
  | statement
  | explain (options : String)
  | otherStatement (text : String)

inductive Node where
  | expr (expr : Expr)
  | accessExpr (access : AccessExpr)
  | caseWhen (condition : CaseWhen)
  | function (function : Function)
  | arguments (arguments : FunctionArguments)
  | arg (arg : FunctionArg)
  | argExpr (arg : FunctionArgExpr)
  | orderByExpr (expr : OrderByExpr)
  | query (query : Query)
  | cte (cte : Cte)
  | orderBy (orderBy : OrderBy)
  | setExpr (setExpr : SetExpr)
  | select (select : Select)
  | selectItem (item : SelectItem)
  | groupBy (groupBy : GroupByExpr)
  | tableFactor (table : TableFactor)
  | statement (statement : Statement)

namespace Node

/-- A node whose parts all stand between its tokens. -/
abbrev bracket (kind : Kind) (inner : List Node) : Shape Kind Node := .node kind none inner none

/-- The expressions among the operands that stand between the tokens. -/
abbrev exprs (operands : List Expr) : List Node := operands.map expr

def exprShape : Expr → Shape Kind Node
  | .identifier ident => bracket (.identifier ident) []
  | .compoundIdentifier idents => bracket (.compoundIdentifier idents) []
  | .compoundFieldAccess root accessChain =>
    .node .compoundFieldAccess (some (expr root)) (accessChain.map accessExpr) none
  | .isTest test e => .node (.isTest test) (some (expr e)) [] none
  | .isDistinctFrom left right => .node .isDistinctFrom (some (expr left)) [] (some (expr right))
  | .isNotDistinctFrom left right =>
    .node .isNotDistinctFrom (some (expr left)) [] (some (expr right))
  | .inList e list negated => .node (.inList negated) (some (expr e)) (exprs list) none
  | .inSubquery e subquery negated =>
    .node (.inSubquery negated) (some (expr e)) [query subquery] none
  | .between e negated low high =>
    .node (.between negated) (some (expr e)) [expr low] (some (expr high))
  | .binaryOp left op right => .node (.binaryOp op) (some (expr left)) [] (some (expr right))
  | .like negated any e pattern escapeChar =>
    .node (.like negated any escapeChar) (some (expr e)) [] (some (expr pattern))
  | .unaryOp op e => .node (.unaryOp op) none [] (some (expr e))
  | .cast kind e dataType => bracket (.cast kind dataType) [expr e]
  | .extract field text e => bracket (.extract field text) [expr e]
  | .nested e => .nested (expr e)
  | .value value => bracket (.value value) []
  | .function f => bracket .functionExpr [function f]
  | .case operand conditions elseResult =>
    bracket (.case operand.isSome elseResult.isSome)
      (exprs operand.toList ++ conditions.map caseWhen ++ exprs elseResult.toList)
  | .exists subquery negated => bracket (.exists negated) [query subquery]
  | .subquery q => bracket .subquery [query q]
  | .outerJoin e => .node .outerJoin (some (expr e)) [] none
  | .prior e => .node .prior none [] (some (expr e))
  | .other form left operands right =>
    .node (.other form left.isSome right.isSome) (left.map expr) (exprs operands) (right.map expr)

def accessShape : AccessExpr → Shape Kind Node
  | .dot e => bracket .dot [expr e]
  | .index e => bracket .index [expr e]
  | .slice lowerBound upperBound stride =>
    bracket (.slice lowerBound.isSome upperBound.isSome stride.isSome)
      (exprs (lowerBound.toList ++ upperBound.toList ++ stride.toList))

def functionShape : Function → Shape Kind Node
  | .mk name usesOdbcSyntax parameters args filter nullTreatment overClause windowOperands withinGroup =>
    bracket (.function name usesOdbcSyntax nullTreatment overClause filter.isSome windowOperands.length)
      ([arguments parameters, arguments args] ++ exprs (filter.toList ++ windowOperands) ++
        withinGroup.map orderByExpr)

def argumentsShape : FunctionArguments → Shape Kind Node
  | .none => bracket .noArguments []
  | .subquery q => bracket .subqueryArgument [query q]
  | .list duplicateTreatment args clauses operands =>
    bracket (.arguments duplicateTreatment clauses args.length) (args.map arg ++ exprs operands)

def argShape : FunctionArg → Shape Kind Node
  | .named name a operator => bracket (.namedArg name operator) [argExpr a]
  | .exprNamed name a operator => bracket (.exprNamedArg operator) [expr name, argExpr a]
  | .unnamed a => bracket .unnamedArg [argExpr a]

def argExprShape : FunctionArgExpr → Shape Kind Node
  | .expr e => bracket .argExpr [expr e]
  | .qualifiedWildcard name => bracket (.qualifiedWildcardArg name) []
  | .wildcard => bracket .wildcardArg []

def orderByShape : OrderBy → Shape Kind Node
  | .none => bracket .noOrderBy []
  | .all options interpolate => bracket (.orderByAll options) (exprs interpolate)
  | .expressions expressions interpolate =>
    bracket (.orderBy expressions.length) (expressions.map orderByExpr ++ exprs interpolate)

def setExprShape : SetExpr → Shape Kind Node
  | .select s => bracket .selectBody [select s]
  | .query q => bracket .queryBody [query q]
  | .setOperation op left right => bracket (.setOperation op) [setExpr left, setExpr right]
  | .values rowLengths cells => bracket (.values rowLengths) (exprs cells)
  | .insert s => bracket .insert [statement s]
  | .update s => bracket .update [statement s]
  | .delete s => bracket .delete [statement s]
  | .merge s => bracket .merge [statement s]
  | .table name => bracket (.table name) []

def selectShape : Select → Shape Kind Node
  | .mk text operands projection into tables prewhere selection by_ clusterBy distributeBy sortBy
      having qualify =>
    bracket (.select text into operands.length projection.length tables.length clusterBy.length
        distributeBy.length sortBy.length prewhere.isSome selection.isSome having.isSome)
      (exprs operands ++ projection.map selectItem ++ tables.map tableFactor ++
        exprs (prewhere.toList ++ selection.toList) ++ [groupBy by_] ++
        exprs (clusterBy ++ distributeBy) ++ sortBy.map orderByExpr ++
        exprs (having.toList ++ qualify.toList))

def selectItemShape : SelectItem → Shape Kind Node
  | .unnamedExpr e => bracket .unnamedExpr [expr e]
  | .exprWithAlias e aliasName => bracket (.exprWithAlias aliasName) [expr e]
  | .qualifiedWildcard text operands => bracket (.qualifiedWildcard text) (exprs operands)
  | .wildcard text operands => bracket (.wildcard text) (exprs operands)

def groupByShape : GroupByExpr → Shape Kind Node
  | .all modifiers => bracket .groupByAll (exprs modifiers)
  | .expressions expressions modifiers =>
    bracket (.groupBy expressions.length) (exprs (expressions ++ modifiers))

def tableFactorShape : TableFactor → Shape Kind Node
  | .table text operands => bracket (.tableFactor text) (exprs operands)
  | .derived lateral subquery aliasName => bracket (.derived lateral aliasName) [query subquery]
  | .join left operator right on =>
    bracket (.join operator) ([tableFactor left, tableFactor right] ++ exprs on)
  | .other text tables operands =>
    bracket (.otherTable text tables.length) (tables.map tableFactor ++ exprs operands)

def statementShape : Statement → Shape Kind Node
  | .query q => bracket .statement [query q]
  | .explain options s => bracket (.explain options) [statement s]
  | .other text operands => bracket (.otherStatement text) (exprs operands)

def shape : Node → Shape Kind Node
  | expr e => exprShape e
  | accessExpr access => accessShape access
  | caseWhen (.mk condition result) => bracket .caseWhen (exprs [condition, result])
  | function f => functionShape f
  | arguments a => argumentsShape a
  | arg a => argShape a
  | argExpr a => argExprShape a
  | orderByExpr (.mk e options withFill) => bracket (.orderByExpr options) (exprs (e :: withFill))
  | query (.mk recursive cteTables body order text operands) =>
    bracket (.query recursive cteTables.length text)
      (cteTables.map cte ++ [setExpr body, orderBy order] ++ exprs operands)
  | cte (.mk aliasName q) => bracket (.cte aliasName) [query q]
  | orderBy order => orderByShape order
  | setExpr body => setExprShape body
  | select s => selectShape s
  | selectItem item => selectItemShape item
  | groupBy by_ => groupByShape by_
  | tableFactor table => tableFactorShape table
  | statement s => statementShape s

/-- The nodes right under a node. -/
def children (n : Node) : List Node := n.shape.children

/-- The tokens of a node, around places for its parts. -/
def form (n : Node) : Shape Kind Unit := n.shape.map fun _ => ()

/-! ### The size of the parts -/

section

variable {k : Nat}

theorem sizeOf_map {α : Type} [SizeOf α] {f : α → Node} (hf : ∀ a, sizeOf (f a) = 1 + sizeOf a)
    {as : List α} (h : 1 + sizeOf as ≤ k) : ∀ c ∈ as.map f, sizeOf c < k := by
  intro c hc
  obtain ⟨a, ha, rfl⟩ := List.mem_map.mp hc
  have hlt := List.sizeOf_lt_of_mem ha
  rw [hf]
  omega

theorem sizeOf_exprs {as : List Expr} (h : 1 + sizeOf as ≤ k) : ∀ c ∈ exprs as, sizeOf c < k :=
  sizeOf_map (fun _ => rfl) h

theorem sizeOf_toList {o : Option Expr} (h : 1 + sizeOf o ≤ k) :
    ∀ c ∈ exprs o.toList, sizeOf c < k := by
  cases o with
  | none => nofun
  | some e =>
    intro c hc
    obtain rfl := List.mem_singleton.mp hc
    simp only [Option.some.sizeOf_spec, expr.sizeOf_spec] at *
    omega

theorem sizeOf_option {o : Option Expr} (h : 1 + sizeOf o ≤ k) :
    ∀ c ∈ (o.map expr).toList, sizeOf c < k := by
  cases o with
  | none => nofun
  | some e => exact sizeOf_toList h

end

theorem sizeOf_children (n : Node) : ∀ c ∈ n.children, sizeOf c < sizeOf n := by
  cases n <;> rename_i x <;> cases x <;>
    simp only [children, shape, exprShape, accessShape, functionShape, argumentsShape, argShape,
      argExprShape, orderByShape, setExprShape, selectShape, selectItemShape, groupByShape,
      tableFactorShape, statementShape, Shape.children, Option.toList_none, Option.toList_some,
      List.append_nil, List.nil_append, List.map_append, List.forall_mem_append,
      List.forall_mem_cons, List.not_mem_nil, false_imp_iff, implies_true, and_true] <;>
    and_intros <;>
    first
      | (simp <;> omega)
      | (apply sizeOf_toList; simp <;> omega)
      | (apply sizeOf_option; simp <;> omega)
      | (apply sizeOf_exprs; simp <;> omega)
      | (refine sizeOf_map (fun _ => rfl) ?_; simp <;> omega)

theorem induction {P : Node → Prop} (h : ∀ n, (∀ c ∈ n.children, P c) → P n) (n : Node) : P n :=
  h n fun c _ => induction h c
termination_by sizeOf n
decreasing_by exact sizeOf_children n c ‹_›

/-! ### Nodes at any depth -/

/-- The node is, or has at any depth, the other one. -/
def Contains : Node → Node → Prop := Relation.ReflTransGen fun n m => m ∈ n.children

theorem contains_iff {n m : Node} : n.Contains m ↔ n = m ∨ ∃ c ∈ n.children, c.Contains m :=
  Relation.ReflTransGen.cases_head_iff

theorem forall_contains {n : Node} {P : Node → Prop} :
    (∀ m, n.Contains m → P m) ↔ P n ∧ ∀ c ∈ n.children, ∀ m, c.Contains m → P m := by
  constructor
  · intro h
    exact ⟨h n .refl, fun c hc m hm => h m (.head hc hm)⟩
  · intro ⟨hn, hchildren⟩ m hm
    rcases contains_iff.mp hm with rfl | ⟨c, hc, hm⟩
    · exact hn
    · exact hchildren c hc m hm

/-- Whether all nodes at any depth pass the check. -/
def all (p : Node → Bool) (n : Node) : Bool := p n && n.children.attach.all fun c => c.1.all p
termination_by sizeOf n
decreasing_by exact sizeOf_children n c.1 c.2

theorem all_eq_true {p : Node → Bool} (n : Node) :
    n.all p = true ↔ ∀ m, n.Contains m → p m = true := by
  induction n using Node.induction with
  | h n ih =>
    rw [all, Bool.and_eq_true, List.all_eq_true, forall_contains]
    refine and_congr_right fun _ => ?_
    constructor
    · intro h c hc
      exact (ih c hc).mp (h ⟨c, hc⟩ (List.mem_attach _ _))
    · intro h c _
      exact (ih c.1 c.2).mpr (h c.1 c.2)

end Node

end HarborSql.Sql
