import HarborSql.Sql.Node
import HarborSql.Verify.Rewrite.Frame

/-! One pass of the rewriter as a relation between the nodes of a statement: which nodes are
replaced and by what, and which parts are not looked into. -/

namespace HarborSql.Sql

open Mixfix (Shape)

/-! ## The parts that are not visited -/

mutual

/-- The largest parts of an expression that the rewriter does not look into. -/
def unvisited : Expr → List Node
  | .extract .minute _ source | .extract .minutes _ source => [.expr source]
  | .function function => unvisitedFunction function
  | .like negated false likeExpr pattern none =>
    match containsNeedleFromLikePattern pattern with
    | some _ => [.expr likeExpr]
    | none => (Node.expr (.like negated false likeExpr pattern none)).children
  | .binaryOp left _ right | .isDistinctFrom left right | .isNotDistinctFrom left right =>
    unvisited left ++ unvisited right
  | .unaryOp _ expr | .isTest _ expr | .nested expr | .outerJoin expr | .prior expr =>
    unvisited expr
  | .compoundFieldAccess root accessChain => unvisited root ++ unvisitedChain accessChain
  | expr => (Node.expr expr).children

def unvisitedChain : List AccessExpr → List Node
  | [] => []
  | access :: accessChain => unvisitedAccess access ++ unvisitedChain accessChain

def unvisitedAccess : AccessExpr → List Node
  | .dot expr => unvisited expr
  | .index index => unvisited index
  | .slice lowerBound upperBound stride =>
    unvisitedOption lowerBound ++ unvisitedOption upperBound ++ unvisitedOption stride

def unvisitedOption : Option Expr → List Node
  | none => []
  | some expr => unvisited expr

def unvisitedFunction : Function → List Node
  | .mk _ _ parameters (.list _ args _ operands) filter _ _ windowOperands withinGroup =>
    .arguments parameters :: (unvisitedArgs args ++ Node.exprs operands ++
      Node.exprs (filter.toList ++ windowOperands) ++ withinGroup.map .orderByExpr)
  | function => (Node.function function).children

def unvisitedArgs : List FunctionArg → List Node
  | [] => []
  | arg :: args => unvisitedArg arg ++ unvisitedArgs args

def unvisitedArg : FunctionArg → List Node
  | .named _ arg _ => unvisitedArgExpr arg
  | .exprNamed name arg _ => .expr name :: unvisitedArgExpr arg
  | .unnamed arg => unvisitedArgExpr arg

def unvisitedArgExpr : FunctionArgExpr → List Node
  | .expr expr => unvisited expr
  | .qualifiedWildcard _ | .wildcard => []

end

def unvisitedItem : SelectItem → List Node
  | .unnamedExpr expr | .exprWithAlias expr _ => unvisited expr
  | item => (Node.selectItem item).children

def unvisitedOrderByExpr : OrderByExpr → List Node
  | .mk expr _ withFill => unvisited expr ++ Node.exprs withFill

def unvisitedGroupBy : GroupByExpr → List Node
  | .expressions expressions modifiers => expressions.flatMap unvisited ++ Node.exprs modifiers
  | groupBy => (Node.groupBy groupBy).children

def unvisitedSelect : Select → List Node
  | .mk _ operands projection _ tables prewhere selection groupBy clusterBy distributeBy sortBy
      having qualify =>
    Node.exprs operands ++ projection.flatMap unvisitedItem ++ tables.map .tableFactor ++
      unvisitedOption prewhere ++ unvisitedOption selection ++ unvisitedGroupBy groupBy ++
      clusterBy.flatMap unvisited ++ distributeBy.flatMap unvisited ++
      sortBy.flatMap unvisitedOrderByExpr ++ unvisitedOption having ++ unvisitedOption qualify

def unvisitedOrderBy : OrderBy → List Node
  | .expressions expressions interpolate =>
    expressions.flatMap unvisitedOrderByExpr ++ Node.exprs interpolate
  | orderBy => (Node.orderBy orderBy).children

mutual

def unvisitedQuery : Query → List Node
  | .mk _ cteTables body orderBy _ operands =>
    unvisitedCtes cteTables ++ unvisitedSetExpr body ++ unvisitedOrderBy orderBy ++
      Node.exprs operands

def unvisitedCtes : List Cte → List Node
  | [] => []
  | .mk _ query :: cteTables => unvisitedQuery query ++ unvisitedCtes cteTables

def unvisitedSetExpr : SetExpr → List Node
  | .select select => unvisitedSelect select
  | .query query => unvisitedQuery query
  | .setOperation _ left right => unvisitedSetExpr left ++ unvisitedSetExpr right
  | setExpr => (Node.setExpr setExpr).children

end

/-- The largest parts of a statement that the rewriter does not look into. -/
def unvisitedStatement : Statement → List Node
  | .query query => unvisitedQuery query
  | .explain _ statement => unvisitedStatement statement
  | statement => (Node.statement statement).children

/-! ## The relation -/

/-- Two nodes of one kind, with as many parts at the same places. -/
def Node.SameForm (n n' : Node) : Prop := n.form = n'.form

/-- A construct that has a meaning of its own in Databricks: `if` of three arguments, `get` and
`element_at` of two, and `EXTRACT(MINUTE FROM ..)`. -/
def Node.isDatabricks : Node → Bool
  | .expr (.extract .minute _ _) | .expr (.extract .minutes _ _) => true
  | .expr (.function f) => (databricksIfExpr f).isSome || (databricksGetArrayArgs f).isSome ||
    (databricksElementAtMapArgs f).isSome
  | _ => false

/-- A construct of Databricks, or accesses after a `get`. -/
def Node.isFastPath : Node → Bool
  | .expr (.compoundFieldAccess root _) => isDatabricksGetArrayExpr root
  | n => n.isDatabricks

/-- What a pass makes of a node, where the parts that are not visited are as `U` says. -/
inductive Pass (U : Node → Prop) (aliasing : Prop) : Node → Node → Prop
  | kept {n} : U n → Pass U aliasing n n
  | within {n n'} : n.SameForm n' → n.isFastPath = false → n'.isDatabricks = false →
    (∀ p ∈ n.children.zip n'.children, Pass U aliasing p.1 p.2) → Pass U aliasing n n'
  | extractMinute {field text source} : field = .minute ∨ field = .minutes → U (.expr source) →
    Pass U aliasing (.expr (.extract field text source)) (.expr (extractMinuteExpr source))
  | contains {negated likeExpr pattern needle} :
    containsNeedleFromLikePattern pattern = some needle → U (.expr likeExpr) →
    Pass U aliasing (.expr (.like negated false likeExpr pattern none))
      (.expr (containsExpr likeExpr needle negated))
  | ifCall {function condition condition' result result' elseResult elseResult'} :
    databricksIfExpr function = some (.case none [.mk condition result] (some elseResult)) →
    Pass U aliasing (.expr condition) (.expr condition') →
    Pass U aliasing (.expr result) (.expr result') →
    Pass U aliasing (.expr elseResult) (.expr elseResult') →
    Pass U aliasing (.expr (.function function))
      (.expr (.case none [.mk condition' result'] (some elseResult')))
  | get {function array array' index index'} :
    databricksGetArrayArgs function = some (array, index) →
    Pass U aliasing (.expr array) (.expr array') → Pass U aliasing (.expr index) (.expr index') →
    Pass U aliasing (.expr (.function function)) (.expr (databricksGetArrayExpr array' index'))
  | elementAt {function map map' key key'} :
    databricksElementAtMapArgs function = some (map, key) →
    Pass U aliasing (.expr map) (.expr map') → Pass U aliasing (.expr key) (.expr key') →
    Pass U aliasing (.expr (.function function)) (.expr (databricksElementAtMapExpr map' key'))
  | capture {function source source' pattern captureIndex} :
    regexpReplaceCaptureFastPathArgs function = some (source, pattern, captureIndex) →
    Pass U aliasing (.expr source) (.expr source') →
    Pass U aliasing (.expr (.function function))
      (.expr (regexpReplaceCaptureExpr source' pattern captureIndex))
  | getFields {root root' accessChain accessChain'} : isDatabricksGetArrayExpr root = true →
    Pass U aliasing (.expr root) (.expr root') → accessChain.length = accessChain'.length →
    (∀ p ∈ accessChain.zip accessChain', ∀ ident, p.1 = .dot (.identifier ident) →
      p.2 = .index (singleQuotedStringExpr ident.value)) →
    (∀ p ∈ accessChain.zip accessChain', (∀ ident, p.1 ≠ .dot (.identifier ident)) →
      Pass U aliasing (.accessExpr p.1) (.accessExpr p.2)) →
    Pass U aliasing (.expr (.compoundFieldAccess root accessChain))
      (.expr (.compoundFieldAccess root' accessChain'))
  | aliased {e e' aliasName} : aliasing → Pass U aliasing (.expr e) (.expr e') →
    Pass U aliasing (.selectItem (.unnamedExpr e)) (.selectItem (.exprWithAlias e' aliasName))

variable {U : Node → Prop} {aliasing : Prop}

theorem Node.SameForm.length_children {n n' : Node} (h : n.SameForm n') :
    n.children.length = n'.children.length := by
  have hparts := congrArg (fun s => s.children.length) h
  simpa only [Node.children, Node.form, Shape.children_map, List.length_map] using hparts

theorem Node.isDatabricks_of_isFastPath {n : Node} (h : n.isFastPath = false) :
    n.isDatabricks = false := by
  cases n with
  | expr e => cases e <;> first | exact h | rfl
  | _ => rfl

theorem Pass.of_parts {n n' : Node} (hform : n.SameForm n') (hplain : n.isFastPath = false)
    (hplain' : n'.isDatabricks = false)
    (h : List.Forall₂ (Pass U aliasing) n.children n'.children) :
    Pass U aliasing n n' :=
  .within hform hplain hplain' fun _ hp => (List.forall₂_iff_zip.mp h).2 hp

theorem forall₂_kept {parts : List Node} (h : ∀ m ∈ parts, U m) :
    List.Forall₂ (Pass U aliasing) parts parts :=
  List.forall₂_same.mpr fun m hm => .kept (h m hm)

/-- A node whose parts are not visited. -/
theorem Pass.unchanged {n : Node} (hplain : n.isFastPath = false) (h : ∀ m ∈ n.children, U m) :
    Pass U aliasing n n :=
  .of_parts rfl hplain (Node.isDatabricks_of_isFastPath hplain) (forall₂_kept h)

theorem forall₂_append {R : Node → Node → Prop} {as as' bs bs' : List Node}
    (h : List.Forall₂ R as as') (h' : List.Forall₂ R bs bs') :
    List.Forall₂ R (as ++ bs) (as' ++ bs') :=
  List.rel_append h h'

/-- A node whose parts all stand between its tokens. -/
theorem Pass.bracket {n n' : Node} {kind kind' : Kind} {inner inner' : List Node}
    (h : n.shape = Node.bracket kind inner) (h' : n'.shape = Node.bracket kind' inner')
    (hkind : kind' = kind) (hplain : n.isFastPath = false) (hplain' : n'.isDatabricks = false)
    (hparts : List.Forall₂ (Pass U aliasing) inner inner') : Pass U aliasing n n' := by
  refine .of_parts ?_ hplain hplain' ?_
  · rw [Node.SameForm, Node.form, Node.form, h, h', hkind]
    simp only [Shape.map, List.map_const', hparts.length_eq]
  · simpa [Node.children, h, h', Shape.children] using hparts

/-! ## The arguments of a fast path -/

/-- The function is called with nothing but the expressions as unnamed arguments. -/
def Function.Calls (function : Function) (name : String) (exprs : List Expr) : Prop :=
  plainFunctionArgs function name = some (exprs.map fun e => .unnamed (.expr e))

theorem eq_of_plainFunctionArgs {function : Function} {name : String} {args : List FunctionArg}
    (h : plainFunctionArgs function name = some args) : ∃ objectName,
      function = .mk objectName false .none (.list none args [] []) none none none [] [] := by
  unfold plainFunctionArgs at h
  split at h
  · split at h
    · obtain rfl := Option.some.inj h
      exact ⟨_, rfl⟩
    · cases h
  · cases h

theorem functionArgExpr_eq_some {arg : FunctionArg} {e : Expr} :
    functionArgExpr arg = some e ↔ arg = .unnamed (.expr e) := by
  constructor
  · intro h
    unfold functionArgExpr at h
    split at h
    · rw [Option.some.inj h]
    · cases h
  · rintro rfl
    rfl

theorem databricksIfExpr_eq_some {function : Function} {e : Expr} :
    databricksIfExpr function = some e ↔ ∃ condition result elseResult,
      function.Calls "if" [condition, result, elseResult] ∧
        e = .case none [.mk condition result] (some elseResult) := by
  constructor
  · intro h
    unfold databricksIfExpr at h
    split at h
    · rename_i hargs
      simp only [Option.bind_eq_bind, Option.bind_eq_some_iff, functionArgExpr_eq_some] at h
      obtain ⟨condition, rfl, result, rfl, elseResult, rfl, he⟩ := h
      exact ⟨condition, result, elseResult, hargs, (Option.some.inj he).symm⟩
    · cases h
  · rintro ⟨condition, result, elseResult, hargs, rfl⟩
    rw [Function.Calls] at hargs
    simp [databricksIfExpr, hargs, functionArgExpr]

theorem databricksGetArrayArgs_eq_some {function : Function} {array index : Expr} :
    databricksGetArrayArgs function = some (array, index) ↔
      function.Calls "get" [array, index] := by
  constructor
  · intro h
    unfold databricksGetArrayArgs at h
    split at h
    · rename_i hargs
      simp only [Option.bind_eq_bind, Option.bind_eq_some_iff, functionArgExpr_eq_some] at h
      obtain ⟨array', rfl, index', rfl, he⟩ := h
      obtain ⟨rfl, rfl⟩ := Prod.mk.inj (Option.some.inj he)
      exact hargs
    · cases h
  · intro hargs
    rw [Function.Calls] at hargs
    simp [databricksGetArrayArgs, hargs, functionArgExpr]

theorem databricksElementAtMapArgs_eq_some {function : Function} {map key : Expr} :
    databricksElementAtMapArgs function = some (map, key) ↔
      function.Calls "element_at" [map, key] := by
  constructor
  · intro h
    unfold databricksElementAtMapArgs at h
    split at h
    · rename_i hargs
      simp only [Option.bind_eq_bind, Option.bind_eq_some_iff, functionArgExpr_eq_some] at h
      obtain ⟨map', rfl, key', rfl, he⟩ := h
      obtain ⟨rfl, rfl⟩ := Prod.mk.inj (Option.some.inj he)
      exact hargs
    · cases h
  · intro hargs
    rw [Function.Calls] at hargs
    simp [databricksElementAtMapArgs, hargs, functionArgExpr]

theorem regexpReplaceCaptureFastPathArgs_eq_some {function : Function} {source : Expr}
    {pattern : String} {captureIndex : Nat} :
    regexpReplaceCaptureFastPathArgs function = some (source, pattern, captureIndex) ↔
      ∃ patternExpr replacementExpr replacement,
        function.Calls "regexp_replace" [source, patternExpr, replacementExpr] ∧
        stringLiteralValue patternExpr = some pattern ∧
        stringLiteralValue replacementExpr = some replacement ∧
        captureReplacementIndex replacement = some captureIndex := by
  constructor
  · intro h
    unfold regexpReplaceCaptureFastPathArgs at h
    split at h
    · rename_i hargs
      simp only [Option.bind_eq_bind, Option.bind_eq_some_iff, functionArgExpr_eq_some] at h
      obtain ⟨source', rfl, patternExpr, rfl, pattern', hpattern, replacementExpr, rfl,
        replacement, hreplacement, captureIndex', hindex, he⟩ := h
      obtain ⟨rfl, hpair⟩ := Prod.mk.inj (Option.some.inj he)
      obtain ⟨rfl, rfl⟩ := Prod.mk.inj hpair
      exact ⟨patternExpr, replacementExpr, replacement, hargs, hpattern, hreplacement, hindex⟩
    · cases h
  · rintro ⟨patternExpr, replacementExpr, replacement, hargs, hpattern, hreplacement, hindex⟩
    rw [Function.Calls] at hargs
    simp [regexpReplaceCaptureFastPathArgs, hargs, functionArgExpr, hpattern, hreplacement, hindex]

theorem isDatabricks_function {function : Function} :
    (Node.expr (.function function)).isDatabricks = true ↔
      (∃ condition result elseResult, function.Calls "if" [condition, result, elseResult]) ∨
      (∃ array index, function.Calls "get" [array, index]) ∨
      ∃ map key, function.Calls "element_at" [map, key] := by
  simp only [Node.isDatabricks, Bool.or_eq_true, Option.isSome_iff_exists,
    databricksIfExpr_eq_some, Prod.exists, databricksGetArrayArgs_eq_some,
    databricksElementAtMapArgs_eq_some, or_assoc]
  refine or_congr ⟨?_, ?_⟩ Iff.rfl
  · rintro ⟨e, condition, result, elseResult, hcall, -⟩
    exact ⟨condition, result, elseResult, hcall⟩
  · rintro ⟨condition, result, elseResult, hcall⟩
    exact ⟨_, condition, result, elseResult, hcall, rfl⟩

/-! ### Rewriting the arguments does not change which fast path there is -/

theorem functionArgExpr_rewrite (arg : FunctionArg) :
    functionArgExpr (rewriteFunctionArgFastPaths arg).1 =
      (functionArgExpr arg).map fun e => (rewriteExprFastPaths e).1 := by
  rcases arg with ⟨_, _, _⟩ | ⟨_, _, _⟩ | e | name | _ <;> rfl

theorem rewriteFunctionArgs_fst (args : List FunctionArg) :
    (rewriteFunctionArgs args).1 = args.map fun arg => (rewriteFunctionArgFastPaths arg).1 := by
  induction args with
  | nil => rfl
  | cons arg args ih => rw [rewriteFunctionArgs, List.map_cons, ← ih]

theorem plainFunctionArgs_rewrite (function : Function) (name : String) :
    plainFunctionArgs (rewriteFunctionFastPaths function).1 name =
      (plainFunctionArgs function name).map fun args => (rewriteFunctionArgs args).1 := by
  obtain ⟨fname, odbc, parameters, args, filter, nulls, over', operands, within⟩ := function
  rcases args with _ | query | ⟨duplicateTreatment, args, clauses, exprs⟩
  · cases odbc <;> cases parameters <;> rfl
  · cases odbc <;> cases parameters <;> rfl
  rw [rewriteFunctionFastPaths]
  dsimp only
  by_cases hplain : odbc = false ∧ parameters = .none ∧ duplicateTreatment = none ∧ clauses = [] ∧
      exprs = [] ∧ filter = none ∧ nulls = none ∧ over' = none ∧ operands = [] ∧ within = []
  · obtain ⟨rfl, rfl, rfl, rfl, rfl, rfl, rfl, rfl, rfl, rfl⟩ := hplain
    have hname : ∀ args args', functionNameEq (.mk fname false .none (.list none args [] []) none
        none none [] []) name = functionNameEq (.mk fname false .none (.list none args' [] []) none none
        none [] []) name := by
      intro args args'
      apply functionNameEq_congr
      rfl
    simp only [plainFunctionArgs, hname (rewriteFunctionArgs args).1 args]
    split <;> rfl
  · have hnone : ∀ args, plainFunctionArgs (.mk fname odbc parameters
        (.list duplicateTreatment args clauses exprs) filter nulls over' operands within) name =
        none := by
      intro args
      unfold plainFunctionArgs
      split
      · rename_i heq
        cases heq
        simp at hplain
      · rfl
    rw [hnone, hnone]
    rfl

theorem Function.Calls.rewrite {function : Function} {name : String} {exprs : List Expr}
    (h : function.Calls name exprs) : (rewriteFunctionFastPaths function).1.Calls name
      (exprs.map fun e => (rewriteExprFastPaths e).1) := by
  rw [Function.Calls] at h ⊢
  rw [plainFunctionArgs_rewrite, h, Option.map_some, rewriteFunctionArgs_fst, List.map_map,
    List.map_map]
  rfl

/-- An argument that is an unnamed expression after the rewriting has been one before. -/
theorem exists_of_map_rewrite {args : List FunctionArg} {exprs : List Expr}
    (h : (args.map fun arg => (rewriteFunctionArgFastPaths arg).1) =
      exprs.map fun e => .unnamed (.expr e)) :
    ∃ exprs' : List Expr, (args = exprs'.map fun e => .unnamed (.expr e)) ∧
      exprs = exprs'.map fun e => (rewriteExprFastPaths e).1 := by
  induction args generalizing exprs with
  | nil =>
    obtain rfl := List.map_eq_nil_iff.mp h.symm
    exact ⟨[], rfl, rfl⟩
  | cons arg args ih =>
    rcases exprs with _ | ⟨e, exprs⟩
    · cases h
    obtain ⟨harg, hargs⟩ := List.cons.inj h
    obtain ⟨exprs', rfl, rfl⟩ := ih hargs
    have he := functionArgExpr_eq_some.mpr harg
    rw [functionArgExpr_rewrite] at he
    obtain ⟨e', he', rfl⟩ := Option.map_eq_some_iff.mp he
    obtain rfl := functionArgExpr_eq_some.mp he'
    exact ⟨e' :: exprs', rfl, rfl⟩

theorem Function.Calls.of_rewrite {function : Function} {name : String} {exprs : List Expr}
    (h : (rewriteFunctionFastPaths function).1.Calls name exprs) :
    ∃ exprs', function.Calls name exprs' ∧
      exprs = exprs'.map fun e => (rewriteExprFastPaths e).1 := by
  rw [Function.Calls, plainFunctionArgs_rewrite] at h
  obtain ⟨args, hargs, h⟩ := Option.map_eq_some_iff.mp h
  rw [rewriteFunctionArgs_fst] at h
  obtain ⟨exprs', rfl, he⟩ := exists_of_map_rewrite h
  exact ⟨exprs', hargs, he⟩

theorem Function.Calls.of_rewrite_pair {function : Function} {name : String} {a b : Expr}
    (h : (rewriteFunctionFastPaths function).1.Calls name [a, b]) :
    ∃ a₀ b₀, function.Calls name [a₀, b₀] ∧ a = (rewriteExprFastPaths a₀).1 ∧
      b = (rewriteExprFastPaths b₀).1 := by
  obtain ⟨exprs, hcall, heq⟩ := h.of_rewrite
  obtain ⟨a₀, _, rfl, ha, heq⟩ := List.map_eq_cons_iff.mp heq.symm
  obtain ⟨b₀, _, rfl, hb, heq⟩ := List.map_eq_cons_iff.mp heq
  obtain rfl := List.map_eq_nil_iff.mp heq
  exact ⟨a₀, b₀, hcall, ha.symm, hb.symm⟩

theorem Function.Calls.of_rewrite_triple {function : Function} {name : String} {a b c : Expr}
    (h : (rewriteFunctionFastPaths function).1.Calls name [a, b, c]) :
    ∃ a₀ b₀ c₀, function.Calls name [a₀, b₀, c₀] ∧ a = (rewriteExprFastPaths a₀).1 ∧
      b = (rewriteExprFastPaths b₀).1 ∧ c = (rewriteExprFastPaths c₀).1 := by
  obtain ⟨exprs, hcall, heq⟩ := h.of_rewrite
  obtain ⟨a₀, _, rfl, ha, heq⟩ := List.map_eq_cons_iff.mp heq.symm
  obtain ⟨b₀, _, rfl, hb, heq⟩ := List.map_eq_cons_iff.mp heq
  obtain ⟨c₀, _, rfl, hc, heq⟩ := List.map_eq_cons_iff.mp heq
  obtain rfl := List.map_eq_nil_iff.mp heq
  exact ⟨a₀, b₀, c₀, hcall, ha.symm, hb.symm, hc.symm⟩

/-- What the fast paths make of a call. -/
theorem rewriteLeafFunction_cases (function : Function) (changedArgs : Bool) :
    (∃ condition result elseResult, function.Calls "if" [condition, result, elseResult] ∧
      rewriteLeafFunction function changedArgs =
        (.case none [.mk condition result] (some elseResult), true)) ∨
    (∃ array index, function.Calls "get" [array, index] ∧
      rewriteLeafFunction function changedArgs = (databricksGetArrayExpr array index, true)) ∨
    (∃ map key, function.Calls "element_at" [map, key] ∧
      rewriteLeafFunction function changedArgs = (databricksElementAtMapExpr map key, true)) ∨
    (∃ source pattern captureIndex,
      regexpReplaceCaptureFastPathArgs function = some (source, pattern, captureIndex) ∧
      rewriteLeafFunction function changedArgs =
        (regexpReplaceCaptureExpr source pattern captureIndex, true)) ∨
    ((Node.expr (.function function)).isDatabricks = false ∧
      regexpReplaceCaptureFastPathArgs function = none ∧
      rewriteLeafFunction function changedArgs = (.function function, changedArgs)) := by
  unfold rewriteLeafFunction
  split
  · rename_i hif
    obtain ⟨condition, result, elseResult, hcall, rfl⟩ := databricksIfExpr_eq_some.mp hif
    exact .inl ⟨condition, result, elseResult, hcall, rfl⟩
  rename_i hif
  split
  · rename_i array index hget
    exact .inr (.inl ⟨array, index, databricksGetArrayArgs_eq_some.mp hget, rfl⟩)
  rename_i hget
  split
  · rename_i map key hmap
    exact .inr (.inr (.inl ⟨map, key, databricksElementAtMapArgs_eq_some.mp hmap, rfl⟩))
  rename_i hmap
  split
  · rename_i source pattern captureIndex hcapture
    exact .inr (.inr (.inr (.inl ⟨source, pattern, captureIndex, hcapture, rfl⟩)))
  · refine .inr (.inr (.inr (.inr ⟨?_, ‹_›, rfl⟩)))
    rw [Node.isDatabricks, hif, hget, hmap]
    rfl

theorem stringLiteralValue_rewriteLeaf (function : Function) (changedArgs : Bool) :
    stringLiteralValue (rewriteLeafFunction function changedArgs).1 = none := by
  rcases rewriteLeafFunction_cases function changedArgs with
    ⟨_, _, _, -, h⟩ | ⟨_, _, -, h⟩ | ⟨_, _, -, h⟩ | ⟨_, _, _, -, h⟩ | ⟨-, -, h⟩ <;> rw [h] <;> rfl

theorem stringLiteralValue_rewrite (e : Expr) :
    stringLiteralValue (rewriteExprFastPaths e).1 = stringLiteralValue e := by
  cases e with
  | extract field => cases field <;> rfl
  | function => exact stringLiteralValue_rewriteLeaf _ _
  | like negated any e pattern escapeChar =>
    cases any <;> cases escapeChar <;> try rfl
    rw [rewriteExprFastPaths]
    split
    · cases negated <;> rfl
    · rfl
  | _ => rfl

theorem isDatabricks_rewriteFunction (function : Function) :
    (Node.expr (.function (rewriteFunctionFastPaths function).1)).isDatabricks =
      (Node.expr (.function function)).isDatabricks := by
  rw [Bool.eq_iff_iff, isDatabricks_function, isDatabricks_function]
  constructor
  · rintro (⟨condition, result, elseResult, h⟩ | ⟨array, index, h⟩ | ⟨map, key, h⟩)
    · obtain ⟨_, _, _, hcall, -⟩ := h.of_rewrite_triple
      exact .inl ⟨_, _, _, hcall⟩
    · obtain ⟨_, _, hcall, -⟩ := h.of_rewrite_pair
      exact .inr (.inl ⟨_, _, hcall⟩)
    · obtain ⟨_, _, hcall, -⟩ := h.of_rewrite_pair
      exact .inr (.inr ⟨_, _, hcall⟩)
  · rintro (⟨condition, result, elseResult, h⟩ | ⟨array, index, h⟩ | ⟨map, key, h⟩)
    · exact .inl ⟨_, _, _, h.rewrite⟩
    · exact .inr (.inl ⟨_, _, h.rewrite⟩)
    · exact .inr (.inr ⟨_, _, h.rewrite⟩)

/-! ## Expressions -/

/-- One expression and what a pass makes of it. -/
abbrev ExprPass (U : Node → Prop) (aliasing : Prop) (e e' : Expr) : Prop :=
  Pass U aliasing (.expr e) (.expr e')

def OptionPass (U : Node → Prop) (aliasing : Prop) : Option Expr → Option Expr → Prop :=
  Option.Rel (ExprPass U aliasing)

theorem OptionPass.toList {e e' : Option Expr} (h : OptionPass U aliasing e e') :
    List.Forall₂ (Pass U aliasing) (Node.exprs e.toList) (Node.exprs e'.toList) := by
  cases h with
  | none => exact .nil
  | some h => exact .cons h .nil

theorem OptionPass.isSome {e e' : Option Expr} (h : OptionPass U aliasing e e') :
    e.isSome = e'.isSome := by
  cases h <;> rfl

/-- A call whose arguments have been rewritten, and then the call itself. -/
theorem Pass.call {function : Function} (changedArgs : Bool)
    (hfunction : Pass U aliasing (.function function)
      (.function (rewriteFunctionFastPaths function).1))
    (hargs : ∀ name exprs, function.Calls name exprs → ∀ e ∈ exprs,
      Pass U aliasing (.expr e) (.expr (rewriteExprFastPaths e).1)) :
    Pass U aliasing (.expr (.function function))
      (.expr (rewriteLeafFunction (rewriteFunctionFastPaths function).1 changedArgs).1) := by
  rcases rewriteLeafFunction_cases (rewriteFunctionFastPaths function).1 changedArgs with
    ⟨_, _, _, hcall, h⟩ | ⟨_, _, hcall, h⟩ | ⟨_, _, hcall, h⟩ | ⟨_, _, _, hcapture, h⟩ |
    ⟨hplain, -, h⟩
  all_goals rw [h]
  · obtain ⟨condition, result, elseResult, hcall', rfl, rfl, rfl⟩ := hcall.of_rewrite_triple
    have hparts := hargs _ _ hcall'
    exact .ifCall (databricksIfExpr_eq_some.mpr ⟨_, _, _, hcall', rfl⟩) (hparts _ (by simp))
      (hparts _ (by simp)) (hparts _ (by simp))
  · obtain ⟨array, index, hcall', rfl, rfl⟩ := hcall.of_rewrite_pair
    have hparts := hargs _ _ hcall'
    exact .get (databricksGetArrayArgs_eq_some.mpr hcall') (hparts _ (by simp))
      (hparts _ (by simp))
  · obtain ⟨map, key, hcall', rfl, rfl⟩ := hcall.of_rewrite_pair
    have hparts := hargs _ _ hcall'
    exact .elementAt (databricksElementAtMapArgs_eq_some.mpr hcall') (hparts _ (by simp))
      (hparts _ (by simp))
  · obtain ⟨_, _, replacement, hcall, hpattern, hreplacement, hindex⟩ :=
      regexpReplaceCaptureFastPathArgs_eq_some.mp hcapture
    obtain ⟨source, _, _, hcall', rfl, rfl, rfl⟩ := hcall.of_rewrite_triple
    rw [stringLiteralValue_rewrite] at hpattern hreplacement
    exact .capture (regexpReplaceCaptureFastPathArgs_eq_some.mpr
      ⟨_, _, replacement, hcall', hpattern, hreplacement, hindex⟩) (hargs _ _ hcall' _ (by simp))
  · have hplain' : (Node.expr (.function function)).isDatabricks = false :=
      isDatabricks_rewriteFunction function ▸ hplain
    exact .of_parts rfl hplain' hplain (.cons hfunction .nil)

theorem mem_zip_map {α β : Type} {f : α → β} {as : List α} {p : α × β}
    (h : p ∈ as.zip (as.map f)) : p.1 ∈ as ∧ p.2 = f p.1 := by
  induction as with
  | nil => cases h
  | cons a as ih =>
    rcases List.mem_cons.mp h with rfl | h
    · exact ⟨List.mem_cons_self, rfl⟩
    · exact ⟨List.mem_cons_of_mem a (ih h).1, (ih h).2⟩

theorem rewriteAccessChain_fst (rootIsDatabricksGet : Bool) (accessChain : List AccessExpr) :
    (rewriteAccessChain rootIsDatabricksGet accessChain).1 =
      accessChain.map fun access => (rewriteChainAccess rootIsDatabricksGet access).1 := by
  induction accessChain with
  | nil => rfl
  | cons access accessChain ih => rw [rewriteAccessChain_cons, List.map_cons, ih]

theorem rewriteChainAccess_of_ne {access : AccessExpr} (b : Bool)
    (h : ∀ ident, access ≠ .dot (.identifier ident)) :
    rewriteChainAccess b access = rewriteAccessExprFastPaths access := by
  rw [rewriteChainAccess]
  exact fun ident _ heq => h ident heq

/-- A chain of accesses, where those of a `get` are turned into subscripts. -/
theorem Pass.chain {root : Expr} {accessChain : List AccessExpr}
    (hroot : Pass U aliasing (.expr root) (.expr (rewriteExprFastPaths root).1))
    (hchain : ∀ access ∈ accessChain,
      Pass U aliasing (.accessExpr access) (.accessExpr (rewriteAccessExprFastPaths access).1)) :
    Pass U aliasing (.expr (.compoundFieldAccess root accessChain))
      (.expr (rewriteExprFastPaths (.compoundFieldAccess root accessChain)).1) := by
  rw [rewriteExprFastPaths]
  dsimp only
  rw [rewriteAccessChain_fst]
  cases hget : isDatabricksGetArrayExpr root with
  | false =>
    have hsame : ∀ access, rewriteChainAccess false access = rewriteAccessExprFastPaths access :=
      fun _ => rfl
    simp only [hsame]
    refine .of_parts ?_ hget rfl (.cons hroot ?_)
    · simp [Node.SameForm, Node.form, Node.shape, Node.exprShape, Shape.map]
    · simpa [List.forall₂_map_left_iff, List.forall₂_map_right_iff, List.forall₂_same] using hchain
  | true =>
    refine .getFields hget hroot (by rw [List.length_map]) ?_ ?_
    · intro p hp ident hident
      rw [(mem_zip_map hp).2, hident]
      rfl
    · intro p hp hne
      rw [(mem_zip_map hp).2, rewriteChainAccess_of_ne true hne]
      exact hchain p.1 (mem_zip_map hp).1

/-- An argument, and the expression that it is if it is unnamed. -/
def ArgPass (U : Node → Prop) (aliasing : Prop) (arg : FunctionArg) : Prop :=
  Pass U aliasing (.arg arg) (.arg (rewriteFunctionArgFastPaths arg).1) ∧
    ∀ e, functionArgExpr arg = some e → Pass U aliasing (.expr e) (.expr (rewriteExprFastPaths e).1)

theorem ArgPass.calls {name : String} {function : Function} {exprs : List Expr}
    (hcall : function.Calls name exprs)
    (h : ∀ args, plainFunctionArgs function name = some args →
      ∀ arg ∈ args, ArgPass U aliasing arg) :
    ∀ e ∈ exprs, Pass U aliasing (.expr e) (.expr (rewriteExprFastPaths e).1) := by
  intro e he
  exact (h _ hcall _ (List.mem_map_of_mem he)).2 e rfl

/-- The list of the arguments. -/
theorem Pass.arguments (duplicateTreatment : Option DuplicateTreatment) (clauses : List String)
    {args : List FunctionArg} {operands : List Expr} (hargs : ∀ arg ∈ args, ArgPass U aliasing arg)
    (hoperands : ∀ m ∈ Node.exprs operands, U m) :
    Pass U aliasing (.arguments (.list duplicateTreatment args clauses operands))
      (.arguments (.list duplicateTreatment (rewriteFunctionArgs args).1 clauses operands)) := by
  rw [rewriteFunctionArgs_fst]
  have hparts : List.Forall₂ (Pass U aliasing) (args.map .arg)
      ((args.map fun arg => (rewriteFunctionArgFastPaths arg).1).map .arg) := by
    rw [List.map_map, List.forall₂_map_left_iff, List.forall₂_map_right_iff, List.forall₂_same]
    exact fun arg harg => (hargs arg harg).1
  refine .bracket rfl rfl ?_ rfl rfl (forall₂_append hparts (forall₂_kept hoperands))
  rw [List.length_map]

mutual

theorem pass_expr : ∀ e : Expr, (∀ m ∈ unvisited e, U m) →
    Pass U aliasing (.expr e) (.expr (rewriteExprFastPaths e).1)
  | .extract .minute _ _, h => .extractMinute (.inl rfl) (h _ List.mem_cons_self)
  | .extract .minutes _ _, h => .extractMinute (.inr rfl) (h _ List.mem_cons_self)
  | .extract (.other _) _ _, h => .unchanged rfl h
  | .function function, h => by
    have hfunction := pass_function function h
    exact .call _ hfunction.1 fun name exprs hcall => ArgPass.calls hcall (hfunction.2 name)
  | .like negated false likeExpr pattern none, h => by
    rw [rewriteExprFastPaths]
    rw [unvisited] at h
    rcases hneedle : containsNeedleFromLikePattern pattern with _ | needle <;> rw [hneedle] at h
    · exact .unchanged rfl h
    · exact .contains hneedle (h _ List.mem_cons_self)
  | .like _ true _ _ _, h | .like _ false _ _ (some _), h => .unchanged rfl h
  | .binaryOp left _ right, h | .isDistinctFrom left right, h | .isNotDistinctFrom left right, h =>
    have h := List.forall_mem_append.mp h
    .of_parts rfl rfl rfl (.cons (pass_expr left h.1) (.cons (pass_expr right h.2) .nil))
  | .unaryOp _ e, h | .isTest _ e, h | .nested e, h | .outerJoin e, h | .prior e, h =>
    .of_parts rfl rfl rfl (.cons (pass_expr e h) .nil)
  | .compoundFieldAccess root accessChain, h =>
    have h := List.forall_mem_append.mp h
    .chain (pass_expr root h.1) (pass_chain accessChain h.2)
  | .identifier _, h | .compoundIdentifier _, h | .inList .., h | .inSubquery .., h
  | .between .., h | .cast .., h | .value _, h | .case .., h | .exists .., h | .subquery _, h
  | .other .., h => .unchanged rfl h

theorem pass_chain : ∀ accessChain : List AccessExpr, (∀ m ∈ unvisitedChain accessChain, U m) →
    ∀ access ∈ accessChain,
      Pass U aliasing (.accessExpr access) (.accessExpr (rewriteAccessExprFastPaths access).1)
  | [], _ => List.forall_mem_nil _
  | access :: accessChain, h =>
    have h := List.forall_mem_append.mp h
    List.forall_mem_cons.mpr ⟨pass_access access h.1, pass_chain accessChain h.2⟩

theorem pass_access : ∀ access : AccessExpr, (∀ m ∈ unvisitedAccess access, U m) →
    Pass U aliasing (.accessExpr access) (.accessExpr (rewriteAccessExprFastPaths access).1)
  | .dot e, h | .index e, h => .of_parts rfl rfl rfl (.cons (pass_expr e h) .nil)
  | .slice lowerBound upperBound stride, h => by
    obtain ⟨h, hstride⟩ := List.forall_mem_append.mp h
    obtain ⟨hlower, hupper⟩ := List.forall_mem_append.mp h
    have hlower := pass_option lowerBound hlower
    have hupper := pass_option upperBound hupper
    have hstride := pass_option stride hstride
    have hparts := forall₂_append (forall₂_append hlower.toList hupper.toList) hstride.toList
    simp only [← List.map_append] at hparts
    refine .bracket rfl rfl ?_ rfl rfl hparts
    rw [hlower.isSome, hupper.isSome, hstride.isSome]

theorem pass_option : ∀ e : Option Expr, (∀ m ∈ unvisitedOption e, U m) →
    OptionPass U aliasing e (rewriteOption e).1
  | none, _ => .none
  | some e, h => .some (pass_expr e h)

theorem pass_function : ∀ function : Function, (∀ m ∈ unvisitedFunction function, U m) →
    Pass U aliasing (.function function) (.function (rewriteFunctionFastPaths function).1) ∧
      ∀ name args, plainFunctionArgs function name = some args →
        ∀ arg ∈ args, ArgPass U aliasing arg
  | .mk _ _ parameters (.list duplicateTreatment args clauses operands) filter _ _ windowOperands
      within, h => by
    obtain ⟨hparameters, h⟩ := List.forall_mem_cons.mp h
    obtain ⟨h, hwithin⟩ := List.forall_mem_append.mp h
    obtain ⟨h, hwindow⟩ := List.forall_mem_append.mp h
    obtain ⟨hargs, hoperands⟩ := List.forall_mem_append.mp h
    have hargs := pass_args args hargs
    constructor
    · have hlist := Pass.arguments duplicateTreatment clauses hargs hoperands
      exact .bracket rfl rfl rfl rfl rfl (forall₂_append (forall₂_append
        (.cons (.kept hparameters) (.cons hlist .nil)) (forall₂_kept hwindow))
        (forall₂_kept hwithin))
    · intro _ args' hplain
      obtain ⟨_, heq⟩ := eq_of_plainFunctionArgs hplain
      cases heq
      exact hargs
  | .mk _ _ _ .none .., h | .mk _ _ _ (.subquery _) .., h => by
    refine ⟨.unchanged rfl h, fun _ args hplain => ?_⟩
    obtain ⟨_, heq⟩ := eq_of_plainFunctionArgs hplain
    cases heq

theorem pass_args : ∀ args : List FunctionArg, (∀ m ∈ unvisitedArgs args, U m) →
    ∀ arg ∈ args, ArgPass U aliasing arg
  | [], _ => List.forall_mem_nil _
  | arg :: args, h =>
    have h := List.forall_mem_append.mp h
    List.forall_mem_cons.mpr ⟨pass_arg arg h.1, pass_args args h.2⟩

theorem pass_arg : ∀ arg : FunctionArg, (∀ m ∈ unvisitedArg arg, U m) → ArgPass U aliasing arg
  | .named _ arg _, h => ⟨.of_parts rfl rfl rfl (.cons (pass_argExpr arg h).1 .nil), nofun⟩
  | .exprNamed name arg _, h =>
    have h := List.forall_mem_cons.mp h
    ⟨.of_parts rfl rfl rfl (.cons (.kept h.1) (.cons (pass_argExpr arg h.2).1 .nil)), nofun⟩
  | .unnamed arg, h =>
    have h := pass_argExpr arg h
    ⟨.of_parts rfl rfl rfl (.cons h.1 .nil), h.2⟩

theorem pass_argExpr : ∀ arg : FunctionArgExpr, (∀ m ∈ unvisitedArgExpr arg, U m) →
    Pass U aliasing (.argExpr arg) (.argExpr (rewriteFunctionArgExpr arg).1) ∧
      ∀ e, functionArgExpr (.unnamed arg) = some e →
        ExprPass U aliasing e (rewriteExprFastPaths e).1
  | .expr e, h => by
    refine ⟨.of_parts rfl rfl rfl (.cons (pass_expr e h) .nil), fun e' he => ?_⟩
    obtain rfl := Option.some.inj he
    exact pass_expr e h
  | .qualifiedWildcard _, h | .wildcard, h => ⟨.unchanged rfl h, nofun⟩

end

/-! ## Statements -/

section

variable (display : Display) (options : RewriteOptions)

theorem pass_item (item : SelectItem) (h : ∀ m ∈ unvisitedItem item, U m) :
    Pass U options.Aliasing (.selectItem item)
      (.selectItem (rewriteSelectItem display options item).1) := by
  cases item with
  | unnamedExpr e =>
    rw [rewriteSelectItem]
    dsimp only
    split
    · rename_i halias
      exact .aliased (databricksProjectionAlias_aliasing display options halias) (pass_expr e h)
    · exact .of_parts rfl rfl rfl (.cons (pass_expr e h) .nil)
  | exprWithAlias e => exact .of_parts rfl rfl rfl (.cons (pass_expr e h) .nil)
  | qualifiedWildcard | wildcard => exact .unchanged rfl h

theorem pass_orderByExpr (e : OrderByExpr) (h : ∀ m ∈ unvisitedOrderByExpr e, U m) :
    Pass U aliasing (.orderByExpr e) (.orderByExpr (rewriteOrderByExpr e).1) := by
  obtain ⟨e, orderOptions, withFill⟩ := e
  obtain ⟨he, hfill⟩ := List.forall_mem_append.mp h
  exact .bracket rfl rfl rfl rfl rfl (.cons (pass_expr e he) (forall₂_kept hfill))

/-- The parts of a list, one after the other. -/
theorem forall₂_each {α : Type} {node : α → Node} {visit : α → List Node} {rewrite : α → α × Bool}
    {parts : List α} (hrewrite : ∀ a, (∀ m ∈ visit a, U m) →
      Pass U aliasing (node a) (node (rewrite a).1)) (h : ∀ m ∈ parts.flatMap visit, U m) :
    List.Forall₂ (Pass U aliasing) (parts.map node) ((rewriteEach rewrite parts).1.map node) := by
  change List.Forall₂ (Pass U aliasing) _ (((parts.map rewrite).map Prod.fst).map node)
  rw [List.map_map, List.map_map, List.forall₂_map_left_iff, List.forall₂_map_right_iff,
    List.forall₂_same]
  exact fun a ha => hrewrite a fun m hm => h m (List.mem_flatMap.mpr ⟨a, ha, hm⟩)

theorem pass_groupBy (groupBy : GroupByExpr) (h : ∀ m ∈ unvisitedGroupBy groupBy, U m) :
    Pass U aliasing (.groupBy groupBy) (.groupBy (rewriteGroupBy groupBy).1) := by
  cases groupBy with
  | all modifiers => exact .unchanged rfl h
  | expressions expressions modifiers =>
    obtain ⟨he, hmodifiers⟩ := List.forall_mem_append.mp h
    have hparts := forall₂_append (R := Pass U aliasing) (forall₂_each pass_expr he)
      (forall₂_kept hmodifiers)
    simp only [← List.map_append] at hparts
    refine .bracket rfl rfl ?_ rfl rfl hparts
    simp only [List.length_map]

theorem pass_orderBy (orderBy : OrderBy) (h : ∀ m ∈ unvisitedOrderBy orderBy, U m) :
    Pass U aliasing (.orderBy orderBy) (.orderBy (rewriteOrderByFastPaths orderBy).1) := by
  cases orderBy with
  | none | all => exact .unchanged rfl h
  | expressions expressions interpolate =>
    obtain ⟨he, hinterpolate⟩ := List.forall_mem_append.mp h
    have hparts := forall₂_append (R := Pass U aliasing) (forall₂_each pass_orderByExpr he)
      (forall₂_kept hinterpolate)
    refine .bracket rfl rfl ?_ rfl rfl hparts
    simp only [List.length_map]

theorem pass_select (select : Select) (h : ∀ m ∈ unvisitedSelect select, U m) :
    Pass U options.Aliasing (.select select)
      (.select (rewriteSelectFastPaths display options select).1) := by
  obtain ⟨text, operands, projection, into, tables, prewhere, selection, groupBy, clusterBy,
    distributeBy, sortBy, having', qualify⟩ := select
  simp only [unvisitedSelect, List.forall_mem_append] at h
  obtain ⟨⟨⟨⟨⟨⟨⟨⟨⟨⟨hoperands, hprojection⟩, htables⟩, hprewhere⟩, hselection⟩, hgroupBy⟩,
    hclusterBy⟩, hdistributeBy⟩, hsortBy⟩, hhaving⟩, hqualify⟩ := h
  have hprewhere : OptionPass U options.Aliasing _ _ := pass_option prewhere hprewhere
  have hselection : OptionPass U options.Aliasing _ _ := pass_option selection hselection
  have hhaving : OptionPass U options.Aliasing _ _ := pass_option having' hhaving
  have hqualify : OptionPass U options.Aliasing _ _ := pass_option qualify hqualify
  have hfilters := forall₂_append hprewhere.toList hselection.toList
  have hclauses := forall₂_append (R := Pass U options.Aliasing) (forall₂_each pass_expr hclusterBy)
    (forall₂_each pass_expr hdistributeBy)
  have hlast := forall₂_append hhaving.toList hqualify.toList
  simp only [← List.map_append] at hfilters hclauses hlast
  have hparts := forall₂_append (forall₂_append (forall₂_append (forall₂_append (forall₂_append
    (forall₂_append (forall₂_append (forall₂_kept hoperands)
      (forall₂_each (pass_item display options) hprojection)) (forall₂_kept htables)) hfilters)
      (.cons (pass_groupBy groupBy hgroupBy) .nil)) hclauses)
      (forall₂_each pass_orderByExpr hsortBy)) hlast
  refine .bracket rfl rfl ?_ rfl rfl hparts
  simp only [List.length_map, hprewhere.isSome, hselection.isSome, hhaving.isSome]

mutual

theorem pass_query : ∀ query : Query, (∀ m ∈ unvisitedQuery query, U m) →
    Pass U options.Aliasing (.query query) (.query (rewriteQueryFastPaths display options query).1)
  | .mk _ cteTables body orderBy _ operands, h => by
    obtain ⟨h, hoperands⟩ := List.forall_mem_append.mp h
    obtain ⟨h, horderBy⟩ := List.forall_mem_append.mp h
    obtain ⟨hctes, hbody⟩ := List.forall_mem_append.mp h
    have hctes := pass_ctes cteTables hctes
    have hparts := forall₂_append (forall₂_append hctes (.cons (pass_setExpr body hbody)
      (.cons (pass_orderBy orderBy horderBy) .nil))) (forall₂_kept hoperands)
    refine .bracket rfl rfl ?_ rfl rfl hparts
    have hlen := hctes.length_eq
    rw [List.length_map, List.length_map] at hlen
    rw [hlen]

theorem pass_ctes : ∀ cteTables : List Cte, (∀ m ∈ unvisitedCtes cteTables, U m) →
    List.Forall₂ (Pass U options.Aliasing) (cteTables.map .cte)
      ((rewriteCteTables display options cteTables).1.map .cte)
  | [], _ => .nil
  | .mk _ query :: cteTables, h =>
    have h := List.forall_mem_append.mp h
    .cons (.of_parts rfl rfl rfl (.cons (pass_query query h.1) .nil)) (pass_ctes cteTables h.2)

theorem pass_setExpr : ∀ setExpr : SetExpr, (∀ m ∈ unvisitedSetExpr setExpr, U m) →
    Pass U options.Aliasing (.setExpr setExpr)
      (.setExpr (rewriteSetExprFastPaths display options setExpr).1)
  | .select select, h => .of_parts rfl rfl rfl (.cons (pass_select display options select h) .nil)
  | .query query, h => .of_parts rfl rfl rfl (.cons (pass_query query h) .nil)
  | .setOperation _ left right, h =>
    have h := List.forall_mem_append.mp h
    .of_parts rfl rfl rfl (.cons (pass_setExpr left h.1) (.cons (pass_setExpr right h.2) .nil))
  | .values .., h | .insert _, h | .update _, h | .delete _, h | .merge _, h | .table _, h =>
    .unchanged rfl h

end

/-- The rewriter makes a pass over the statement, and leaves the parts alone that it does not
visit. -/
theorem pass_statement : ∀ statement : Statement, (∀ m ∈ unvisitedStatement statement, U m) →
    Pass U options.Aliasing (.statement statement)
      (.statement (rewriteStatementFastPaths display options statement).1)
  | .query query, h => .of_parts rfl rfl rfl (.cons (pass_query display options query h) .nil)
  | .explain _ statement, h => .of_parts rfl rfl rfl (.cons (pass_statement statement h) .nil)
  | .other .., h => .unchanged rfl h

end

end HarborSql.Sql
