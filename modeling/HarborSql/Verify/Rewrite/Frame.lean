import HarborSql.Engine.Rewrite
import HarborSql.Theory.InPlace
import Mathlib.Data.List.Forall2

/-! What the rewriter leaves alone: the flag tells whether it changed anything, and outside of the
expressions that it visits and the aliases that it adds nothing changes. -/

namespace HarborSql.Sql

/-! ## Replacements -/

theorem functionNameEq_of_plainFunctionArgs {function : Function} {name : String}
    {args : List FunctionArg} (h : plainFunctionArgs function name = some args) :
    functionNameEq function name := by
  unfold plainFunctionArgs at h
  split at h
  · split at h
    · assumption
    · cases h
  · cases h

def Function.name : Function → ObjectName
  | .mk name .. => name

theorem functionNameEq_congr {function function' : Function} (h : function.name = function'.name)
    (name : String) : functionNameEq function name = functionNameEq function' name := by
  obtain ⟨parts, _, _, _, _, _, _, _, _⟩ := function
  obtain ⟨parts', _, _, _, _, _, _, _, _⟩ := function'
  obtain rfl : parts = parts' := h
  obtain ⟨parts⟩ := parts
  rcases parts with _ | ⟨part, _ | ⟨part', parts⟩⟩
  · rfl
  · cases part <;> rfl
  · cases part <;> rfl

theorem name_rewriteFunctionFastPaths (function : Function) :
    (rewriteFunctionFastPaths function).1.name = function.name := by
  obtain ⟨name, odbc, parameters, args, filter, nulls, over', operands, within⟩ := function
  cases args <;> rw [rewriteFunctionFastPaths] <;> first | rfl | nofun

/-- A function of another name is another expression. -/
theorem functionExpr_ne {function : Function} {name name' : String} {args : List Expr}
    (h : functionNameEq function name) (hname : eqIgnoreAsciiCase name' name = false) :
    functionExpr name' args ≠ .function function := by
  intro heq
  obtain rfl := Expr.function.inj heq
  have : functionNameEq (.plain name' args) name = eqIgnoreAsciiCase name' name := rfl
  rw [this, hname] at h
  cases h

theorem databricksIfExpr_ne {function function' : Function} {replacement : Expr}
    (h : databricksIfExpr function = some replacement) : replacement ≠ .function function' := by
  unfold databricksIfExpr at h
  split at h
  · simp only [Option.bind_eq_bind, Option.bind_eq_some_iff] at h
    obtain ⟨_, -, _, -, _, -, hcase⟩ := h
    obtain rfl := Option.some.inj hcase
    nofun
  · cases h

/-- A fast path puts another expression in the place of a call. -/
theorem tells_rewriteLeafFunction {function : Function} {rewritten : Function × Bool}
    (hname : rewritten.1.name = function.name) (h : Tells function rewritten) :
    Tells (.function function) (rewriteLeafFunction rewritten.1 rewritten.2) := by
  -- the calls that stand for another function have the name of that one
  have hother : ∀ {args : List FunctionArg} {name name' : String} {args' : List Expr},
      plainFunctionArgs rewritten.1 name = some args → eqIgnoreAsciiCase name' name = false →
      functionExpr name' args' ≠ .function function := by
    intro args name name' args' hargs hne
    refine functionExpr_ne ?_ hne
    rw [← functionNameEq_congr hname]
    exact functionNameEq_of_plainFunctionArgs hargs
  unfold rewriteLeafFunction
  split
  · rename_i hif
    exact .changed (databricksIfExpr_ne hif)
  · split
    · rename_i hget
      obtain ⟨args, hargs⟩ : ∃ args, plainFunctionArgs rewritten.1 "get" = some args := by
        unfold databricksGetArrayArgs at hget
        split at hget
        · exact ⟨_, ‹_›⟩
        · cases hget
      exact .changed (hother hargs (by decide))
    · split
      · rename_i hmap
        obtain ⟨args, hargs⟩ : ∃ args, plainFunctionArgs rewritten.1 "element_at" = some args := by
          unfold databricksElementAtMapArgs at hmap
          split at hmap
          · exact ⟨_, ‹_›⟩
          · cases hmap
        exact .changed (hother hargs (by decide))
      · split
        · rename_i hcapture
          obtain ⟨args, hargs⟩ :
              ∃ args, plainFunctionArgs rewritten.1 "regexp_replace" = some args := by
            unfold regexpReplaceCaptureFastPathArgs at hcapture
            split at hcapture
            · exact ⟨_, ‹_›⟩
            · cases hcapture
          exact .changed (hother hargs (by decide))
        · exact h.map fun _ _ => Expr.function.inj

/-! ## Expressions -/

/-- The rewriting of one access of a chain. -/
def rewriteChainAccess : Bool → AccessExpr → AccessExpr × Bool
  | true, .dot (.identifier ident) => (.index (singleQuotedStringExpr ident.value), true)
  | _, access => rewriteAccessExprFastPaths access

theorem rewriteAccessChain_cons (rootIsDatabricksGet : Bool) (access : AccessExpr)
    (accessChain : List AccessExpr) :
    rewriteAccessChain rootIsDatabricksGet (access :: accessChain) =
      ((rewriteChainAccess rootIsDatabricksGet access).1 ::
          (rewriteAccessChain rootIsDatabricksGet accessChain).1,
        (rewriteChainAccess rootIsDatabricksGet access).2 ||
          (rewriteAccessChain rootIsDatabricksGet accessChain).2) := by
  by_cases h : ∃ ident, access = .dot (.identifier ident)
  · obtain ⟨ident, rfl⟩ := h
    cases rootIsDatabricksGet <;> rfl
  · have hne : ∀ ident, access ≠ .dot (.identifier ident) := fun ident heq => h ⟨ident, heq⟩
    have haccess : rewriteChainAccess rootIsDatabricksGet access =
        rewriteAccessExprFastPaths access := by
      rw [rewriteChainAccess]
      exact fun ident _ heq => hne ident heq
    rw [rewriteAccessChain, haccess]
    exact fun ident heq => hne ident heq

mutual

theorem tells_expr : ∀ expr : Expr, Tells expr (rewriteExprFastPaths expr)
  | .extract .minute _ source | .extract .minutes _ source => .changed nofun
  | .extract (.other _) _ _ => .unchanged _
  | .function function => tells_rewriteLeafFunction (name_rewriteFunctionFastPaths function)
    (tells_function function)
  | .like negated false likeExpr pattern none => by
    rw [rewriteExprFastPaths]
    split
    · refine .changed ?_
      cases negated <;> nofun
    · exact .unchanged _
  | .like _ true _ _ _ | .like _ false _ _ (some _) => .unchanged _
  | .binaryOp left op right => by
    rw [rewriteExprFastPaths]
    exact (tells_expr left).map₂ (tells_expr right) (f := (Expr.binaryOp · op ·)) fun _ _ _ _ h =>
      ⟨(Expr.binaryOp.inj h).1, (Expr.binaryOp.inj h).2.2⟩
  | .isDistinctFrom left right =>
    (tells_expr left).map₂ (tells_expr right) fun _ _ _ _ => Expr.isDistinctFrom.inj
  | .isNotDistinctFrom left right =>
    (tells_expr left).map₂ (tells_expr right) fun _ _ _ _ => Expr.isNotDistinctFrom.inj
  | .unaryOp _ expr => (tells_expr expr).map fun _ _ h => (Expr.unaryOp.inj h).2
  | .isTest _ expr => (tells_expr expr).map fun _ _ h => (Expr.isTest.inj h).2
  | .nested expr => (tells_expr expr).map fun _ _ => Expr.nested.inj
  | .outerJoin expr => (tells_expr expr).map fun _ _ => Expr.outerJoin.inj
  | .prior expr => (tells_expr expr).map fun _ _ => Expr.prior.inj
  | .compoundFieldAccess root accessChain =>
    (tells_expr root).map₂ (tells_accessChain (isDatabricksGetArrayExpr root) accessChain)
      fun _ _ _ _ => Expr.compoundFieldAccess.inj
  | .identifier _ | .compoundIdentifier _ | .inList .. | .inSubquery .. | .between .. | .cast ..
  | .value _ | .case .. | .exists .. | .subquery _ | .other .. => .unchanged _

theorem tells_accessChain (rootIsDatabricksGet : Bool) : ∀ accessChain : List AccessExpr,
    Tells accessChain (rewriteAccessChain rootIsDatabricksGet accessChain)
  | [] => .unchanged _
  | access :: accessChain => by
    rw [rewriteAccessChain_cons]
    refine Tells.map₂ ?_ (tells_accessChain rootIsDatabricksGet accessChain)
      fun _ _ _ _ => List.cons.inj
    cases rootIsDatabricksGet with
    | false => exact tells_accessExpr access
    | true =>
      unfold rewriteChainAccess
      split
      · exact .changed nofun
      · exact tells_accessExpr _

theorem tells_accessExpr : ∀ access : AccessExpr, Tells access (rewriteAccessExprFastPaths access)
  | .dot expr => (tells_expr expr).map fun _ _ => AccessExpr.dot.inj
  | .index index => (tells_expr index).map fun _ _ => AccessExpr.index.inj
  | .slice lowerBound upperBound stride =>
    (((tells_option lowerBound).pair (tells_option upperBound)).pair (tells_option stride)).map
      (f := fun ((lowerBound, upperBound), stride) => AccessExpr.slice lowerBound upperBound stride)
      fun ((_, _), _) ((_, _), _) h => by cases h; rfl

theorem tells_option : ∀ expr : Option Expr, Tells expr (rewriteOption expr)
  | none => .unchanged _
  | some expr => (tells_expr expr).map fun _ _ => Option.some.inj

theorem tells_function : ∀ function : Function, Tells function (rewriteFunctionFastPaths function)
  | .mk name odbc parameters (.list duplicateTreatment args clauses operands) filter nulls over'
      windowOperands withinGroup => by
    rw [rewriteFunctionFastPaths]
    refine (tells_functionArgs args).map
      (f := fun args => Function.mk name odbc parameters
        (.list duplicateTreatment args clauses operands) filter nulls over' windowOperands
        withinGroup) fun _ _ h => ?_
    simpa using h
  | .mk _ _ _ .none .. | .mk _ _ _ (.subquery _) .. => .unchanged _

theorem tells_functionArgs : ∀ args : List FunctionArg, Tells args (rewriteFunctionArgs args)
  | [] => .unchanged _
  | arg :: args => (tells_functionArg arg).map₂ (tells_functionArgs args)
    fun _ _ _ _ => List.cons.inj

theorem tells_functionArg : ∀ arg : FunctionArg, Tells arg (rewriteFunctionArgFastPaths arg)
  | .named name arg operator =>
    (tells_functionArgExpr arg).map (f := (FunctionArg.named name · operator)) fun _ _ h =>
      (FunctionArg.named.inj h).2.1
  | .exprNamed name arg operator =>
    (tells_functionArgExpr arg).map (f := (FunctionArg.exprNamed name · operator)) fun _ _ h =>
      (FunctionArg.exprNamed.inj h).2.1
  | .unnamed arg => (tells_functionArgExpr arg).map fun _ _ => FunctionArg.unnamed.inj

theorem tells_functionArgExpr : ∀ arg : FunctionArgExpr, Tells arg (rewriteFunctionArgExpr arg)
  | .expr expr => (tells_expr expr).map fun _ _ => FunctionArgExpr.expr.inj
  | .qualifiedWildcard _ | .wildcard => .unchanged _

end

/-- The leaves come first: where one changes, nothing else is looked at. -/
theorem rewriteLeafExprFastPaths_eq (expr : Expr) :
    rewriteLeafExprFastPaths expr = (expr, false) ∨
      rewriteLeafExprFastPaths expr = rewriteExprFastPaths expr := by
  unfold rewriteLeafExprFastPaths
  split
  · exact .inr rfl
  · exact .inr rfl
  · exact .inr rfl
  · rw [rewriteExprFastPaths]
    exact .inr rfl
  · exact .inl rfl

theorem tells_leaf (expr : Expr) : Tells expr (rewriteLeafExprFastPaths expr) := by
  rcases rewriteLeafExprFastPaths_eq expr with h | h
  · rw [h]
    exact .unchanged expr
  · rw [h]
    exact tells_expr expr

/-! ## Statements -/

section

variable (display : Display) (options : RewriteOptions)

theorem tells_each {α : Type} {rewrite : α → α × Bool} (h : ∀ a, Tells a (rewrite a))
    (parts : List α) : Tells parts (rewriteEach rewrite parts) :=
  .each fun a _ => h a

theorem tells_selectItem (item : SelectItem) :
    Tells item (rewriteSelectItem display options item) := by
  cases item with
  | unnamedExpr expr =>
    have hexpr := tells_expr expr
    rw [rewriteSelectItem]
    generalize rewriteExprFastPaths expr = result at hexpr ⊢
    dsimp only
    split
    · refine .changed ?_
      intro h
      cases h
    · exact hexpr.map fun _ _ => SelectItem.unnamedExpr.inj
  | exprWithAlias expr aliasName =>
    exact (tells_expr expr).map (f := (SelectItem.exprWithAlias · aliasName)) fun _ _ h =>
      (SelectItem.exprWithAlias.inj h).1
  | qualifiedWildcard | wildcard => exact .unchanged _

theorem tells_orderByExpr : ∀ expr : OrderByExpr, Tells expr (rewriteOrderByExpr expr)
  | .mk expr options withFill =>
    (tells_expr expr).map (f := (OrderByExpr.mk · options withFill)) fun _ _ h =>
      (OrderByExpr.mk.inj h).1

theorem tells_groupBy : ∀ groupBy : GroupByExpr, Tells groupBy (rewriteGroupBy groupBy)
  | .expressions expressions modifiers =>
    (tells_each tells_expr expressions).map (f := (GroupByExpr.expressions · modifiers))
      fun _ _ h => (GroupByExpr.expressions.inj h).1
  | .all _ => .unchanged _

theorem tells_orderBy : ∀ orderBy : OrderBy, Tells orderBy (rewriteOrderByFastPaths orderBy)
  | .expressions expressions interpolate =>
    (tells_each tells_orderByExpr expressions).map (f := (OrderBy.expressions · interpolate))
      fun _ _ h => (OrderBy.expressions.inj h).1
  | .none | .all _ _ => .unchanged _

theorem tells_select : ∀ select : Select,
    Tells select (rewriteSelectFastPaths display options select)
  | .mk text operands projection into tables prewhere selection groupBy clusterBy distributeBy
      sortBy having qualify => by
    have hprojection := tells_each (tells_selectItem display options) projection
    have hselection := tells_option selection
    have hprewhere := tells_option prewhere
    have hgroupBy := tells_groupBy groupBy
    have hclusterBy := tells_each tells_expr clusterBy
    have hdistributeBy := tells_each tells_expr distributeBy
    have hsortBy := tells_each tells_orderByExpr sortBy
    have hhaving := tells_option having
    have hqualify := tells_option qualify
    exact ((((((((hprojection.pair hselection).pair hprewhere).pair hgroupBy).pair hclusterBy).pair
      hdistributeBy).pair hsortBy).pair hhaving).pair hqualify).map
      (f := fun ((((((((projection, selection), prewhere), groupBy), clusterBy), distributeBy),
          sortBy), having), qualify) =>
        Select.mk text operands projection into tables prewhere selection groupBy clusterBy
          distributeBy sortBy having qualify)
      fun ((((((((_, _), _), _), _), _), _), _), _) ((((((((_, _), _), _), _), _), _), _), _) h =>
        by cases h; rfl

mutual

theorem tells_query : ∀ query : Query, Tells query (rewriteQueryFastPaths display options query)
  | .mk recursive cteTables body orderBy text operands =>
    (((tells_cteTables cteTables).pair (tells_setExpr body)).pair (tells_orderBy orderBy)).map
      (f := fun ((cteTables, body), orderBy) =>
        Query.mk recursive cteTables body orderBy text operands)
      fun ((_, _), _) ((_, _), _) h => by cases h; rfl

theorem tells_cteTables : ∀ cteTables : List Cte,
    Tells cteTables (rewriteCteTables display options cteTables)
  | [] => .unchanged _
  | .mk _ query :: cteTables =>
    ((tells_query query).map fun _ _ h => (Cte.mk.inj h).2).map₂ (tells_cteTables cteTables)
      fun _ _ _ _ => List.cons.inj

theorem tells_setExpr : ∀ setExpr : SetExpr,
    Tells setExpr (rewriteSetExprFastPaths display options setExpr)
  | .select select => (tells_select display options select).map fun _ _ => SetExpr.select.inj
  | .query query => (tells_query query).map fun _ _ => SetExpr.query.inj
  | .setOperation _ left right => (tells_setExpr left).map₂ (tells_setExpr right)
    fun _ _ _ _ h => (SetExpr.setOperation.inj h).2
  | .values .. | .insert _ | .update _ | .delete _ | .merge _ | .table _ => .unchanged _

end

theorem tells_statement : ∀ statement : Statement,
    Tells statement (rewriteStatementFastPaths display options statement)
  | .query query => (tells_query display options query).map fun _ _ => Statement.query.inj
  | .explain _ statement => (tells_statement statement).map fun _ _ h => (Statement.explain.inj h).2
  | .other .. => .unchanged _

end

/-! ## The frame -/

section

variable (R : Expr → Expr → Prop) (aliasing : Prop)

/-- An item of the projection keeps its alias; one without may get one. -/
inductive SameItem : SelectItem → SelectItem → Prop
  | unnamedExpr {e e'} : R e e' → SameItem (.unnamedExpr e) (.unnamedExpr e')
  | aliased {e e' aliasName} : aliasing → R e e' →
    SameItem (.unnamedExpr e) (.exprWithAlias e' aliasName)
  | exprWithAlias {e e' aliasName} : R e e' →
    SameItem (.exprWithAlias e aliasName) (.exprWithAlias e' aliasName)
  | qualifiedWildcard {text operands} :
    SameItem (.qualifiedWildcard text operands) (.qualifiedWildcard text operands)
  | wildcard {text operands} : SameItem (.wildcard text operands) (.wildcard text operands)

inductive SameOrderByExpr : OrderByExpr → OrderByExpr → Prop
  | mk {e e' options withFill} : R e e' →
    SameOrderByExpr (.mk e options withFill) (.mk e' options withFill)

inductive SameOrderBy : OrderBy → OrderBy → Prop
  | none : SameOrderBy .none .none
  | all {options interpolate} : SameOrderBy (.all options interpolate) (.all options interpolate)
  | expressions {es es' interpolate} : List.Forall₂ (SameOrderByExpr R) es es' →
    SameOrderBy (.expressions es interpolate) (.expressions es' interpolate)

inductive SameGroupBy : GroupByExpr → GroupByExpr → Prop
  | all {modifiers} : SameGroupBy (.all modifiers) (.all modifiers)
  | expressions {es es' modifiers} : List.Forall₂ R es es' →
    SameGroupBy (.expressions es modifiers) (.expressions es' modifiers)

inductive SameSelect : Select → Select → Prop
  | mk {text operands into tables projection projection' prewhere prewhere' selection selection'
      groupBy groupBy' clusterBy clusterBy' distributeBy distributeBy' sortBy sortBy' having having'
      qualify qualify'} :
    List.Forall₂ (SameItem R aliasing) projection projection' →
    Option.Rel R prewhere prewhere' → Option.Rel R selection selection' →
    SameGroupBy R groupBy groupBy' → List.Forall₂ R clusterBy clusterBy' →
    List.Forall₂ R distributeBy distributeBy' → List.Forall₂ (SameOrderByExpr R) sortBy sortBy' →
    Option.Rel R having having' → Option.Rel R qualify qualify' →
    SameSelect
      (.mk text operands projection into tables prewhere selection groupBy clusterBy distributeBy
        sortBy having qualify)
      (.mk text operands projection' into tables prewhere' selection' groupBy' clusterBy'
        distributeBy' sortBy' having' qualify')

mutual

inductive SameQuery : Query → Query → Prop
  | mk {recursive cteTables cteTables' body body' orderBy orderBy' text operands} :
    SameCtes cteTables cteTables' → SameSetExpr body body' → SameOrderBy R orderBy orderBy' →
    SameQuery (.mk recursive cteTables body orderBy text operands)
      (.mk recursive cteTables' body' orderBy' text operands)

inductive SameCtes : List Cte → List Cte → Prop
  | nil : SameCtes [] []
  | cons {aliasName query query' ctes ctes'} : SameQuery query query' → SameCtes ctes ctes' →
    SameCtes (.mk aliasName query :: ctes) (.mk aliasName query' :: ctes')

inductive SameSetExpr : SetExpr → SetExpr → Prop
  | select {select select'} : SameSelect R aliasing select select' →
    SameSetExpr (.select select) (.select select')
  | query {query query'} : SameQuery query query' → SameSetExpr (.query query) (.query query')
  | setOperation {op left left' right right'} : SameSetExpr left left' →
    SameSetExpr right right' →
    SameSetExpr (.setOperation op left right) (.setOperation op left' right')
  | rfl {setExpr} : SameSetExpr setExpr setExpr

end

/-- Two statements that are the same outside of the expressions at the positions that the rewriter
visits, which `R` relates one by one, and outside of the aliases that unaliased items get. -/
inductive SameStatement : Statement → Statement → Prop
  | query {query query'} : SameQuery R aliasing query query' →
    SameStatement (.query query) (.query query')
  | explain {options statement statement'} : SameStatement statement statement' →
    SameStatement (.explain options statement) (.explain options statement')
  | other {text operands} : SameStatement (.other text operands) (.other text operands)

end

/-- The rewriting of an expression. -/
def RewritesTo (expr expr' : Expr) : Prop := expr' = (rewriteExprFastPaths expr).1

theorem rewritesTo (expr : Expr) : RewritesTo expr (rewriteExprFastPaths expr).1 := rfl

/-- Whether one of the two alias options is on. -/
def RewriteOptions.Aliasing (options : RewriteOptions) : Prop :=
  options.databricksCountStarAliasRewrite ∨ options.databricksExpressionAliasRewrite

section

variable (display : Display) (options : RewriteOptions)

theorem databricksProjectionAlias_aliasing {expr : Expr} {aliasName : String}
    (h : databricksProjectionAlias display options expr = some aliasName) : options.Aliasing := by
  unfold databricksProjectionAlias at h
  split at h
  · rename_i hcount
    exact .inl (Bool.and_eq_true_iff.mp hcount).1
  · split at h
    · rename_i hexpr
      exact .inr (Bool.and_eq_true_iff.mp hexpr).1
    · cases h

theorem forall₂_rewriteEach {α : Type} {R : α → α → Prop} {rewrite : α → α × Bool}
    (h : ∀ a, R a (rewrite a).1) (parts : List α) :
    List.Forall₂ R parts (rewriteEach rewrite parts).1 := by
  change List.Forall₂ R parts ((parts.map rewrite).map Prod.fst)
  rw [List.map_map, List.forall₂_map_right_iff, List.forall₂_same]
  exact fun a _ => h a

theorem rel_rewriteOption : ∀ expr : Option Expr, Option.Rel RewritesTo expr (rewriteOption expr).1
  | none => .none
  | some _ => .some rfl

theorem sameItem (item : SelectItem) :
    SameItem RewritesTo options.Aliasing item (rewriteSelectItem display options item).1 := by
  cases item with
  | unnamedExpr expr =>
    rw [rewriteSelectItem]
    dsimp only
    split
    · rename_i hname
      exact .aliased (databricksProjectionAlias_aliasing display options hname) rfl
    · exact .unnamedExpr rfl
  | exprWithAlias => exact .exprWithAlias rfl
  | qualifiedWildcard => exact .qualifiedWildcard
  | wildcard => exact .wildcard

theorem sameOrderByExpr : ∀ expr : OrderByExpr,
    SameOrderByExpr RewritesTo expr (rewriteOrderByExpr expr).1
  | .mk .. => .mk rfl

theorem sameGroupBy : ∀ groupBy : GroupByExpr,
    SameGroupBy RewritesTo groupBy (rewriteGroupBy groupBy).1
  | .all _ => .all
  | .expressions expressions _ => .expressions (forall₂_rewriteEach rewritesTo expressions)

theorem sameOrderBy : ∀ orderBy : OrderBy,
    SameOrderBy RewritesTo orderBy (rewriteOrderByFastPaths orderBy).1
  | .none => .none
  | .all .. => .all
  | .expressions expressions _ => .expressions (forall₂_rewriteEach sameOrderByExpr expressions)

theorem sameSelect : ∀ select : Select,
    SameSelect RewritesTo options.Aliasing select (rewriteSelectFastPaths display options select).1
  | .mk _ _ projection _ _ prewhere selection groupBy clusterBy distributeBy sortBy having
      qualify =>
    .mk (forall₂_rewriteEach (sameItem display options) projection) (rel_rewriteOption prewhere)
      (rel_rewriteOption selection) (sameGroupBy groupBy)
      (forall₂_rewriteEach rewritesTo clusterBy)
      (forall₂_rewriteEach rewritesTo distributeBy)
      (forall₂_rewriteEach sameOrderByExpr sortBy) (rel_rewriteOption having)
      (rel_rewriteOption qualify)

mutual

theorem sameQuery : ∀ query : Query,
    SameQuery RewritesTo options.Aliasing query (rewriteQueryFastPaths display options query).1
  | .mk _ cteTables body orderBy _ _ =>
    .mk (sameCtes cteTables) (sameSetExpr body) (sameOrderBy orderBy)

theorem sameCtes : ∀ cteTables : List Cte,
    SameCtes RewritesTo options.Aliasing cteTables (rewriteCteTables display options cteTables).1
  | [] => .nil
  | .mk _ query :: cteTables => .cons (sameQuery query) (sameCtes cteTables)

theorem sameSetExpr : ∀ setExpr : SetExpr,
    SameSetExpr RewritesTo options.Aliasing setExpr
      (rewriteSetExprFastPaths display options setExpr).1
  | .select select => .select (sameSelect display options select)
  | .query query => .query (sameQuery query)
  | .setOperation _ left right => .setOperation (sameSetExpr left) (sameSetExpr right)
  | .values .. | .insert _ | .update _ | .delete _ | .merge _ | .table _ => .rfl

end

theorem sameStatement : ∀ statement : Statement,
    SameStatement RewritesTo options.Aliasing statement
      (rewriteStatementFastPaths display options statement).1
  | .query query => .query (sameQuery display options query)
  | .explain _ statement => .explain (sameStatement statement)
  | .other .. => .other

/-! ## The result -/

/-- Each function of the rewriter tells whether it has changed its part of the statement; a text
whose statement was not changed is returned as it is; and outside of the visited expressions and
the added aliases a statement keeps everything. -/
structure RewriterFrame : Prop where
  leaf : ∀ expr, Tells expr (rewriteLeafExprFastPaths expr)
  expr : ∀ expr, Tells expr (rewriteExprFastPaths expr)
  access : ∀ access, Tells access (rewriteAccessExprFastPaths access)
  accessChain : ∀ rootIsDatabricksGet accessChain,
    Tells accessChain (rewriteAccessChain rootIsDatabricksGet accessChain)
  function : ∀ function, Tells function (rewriteFunctionFastPaths function)
  functionArg : ∀ arg, Tells arg (rewriteFunctionArgFastPaths arg)
  orderBy : ∀ orderBy, Tells orderBy (rewriteOrderByFastPaths orderBy)
  select : ∀ select, Tells select (rewriteSelectFastPaths display options select)
  setExpr : ∀ setExpr, Tells setExpr (rewriteSetExprFastPaths display options setExpr)
  query : ∀ query, Tells query (rewriteQueryFastPaths display options query)
  statement : ∀ statement, Tells statement (rewriteStatementFastPaths display options statement)
  text : ∀ parseSql statementToString sql,
    (∀ statement, parseSql sql = some [statement] →
      (rewriteStatementFastPaths display options statement).1 = statement) →
    rewriteSqlFastPathsWithOptions display options parseSql statementToString sql = sql
  frame : ∀ statement, SameStatement RewritesTo options.Aliasing statement
    (rewriteStatementFastPaths display options statement).1

theorem rewriterFrame : RewriterFrame display options where
  leaf := tells_leaf
  expr := tells_expr
  access := tells_accessExpr
  accessChain := tells_accessChain
  function := tells_function
  functionArg := tells_functionArg
  orderBy := tells_orderBy
  select := tells_select display options
  setExpr := tells_setExpr display options
  query := tells_query display options
  statement := tells_statement display options
  text parseSql statementToString sql hsame := by
    unfold rewriteSqlFastPathsWithOptions
    split
    · rename_i statement hparse
      have htells := tells_statement display options statement
      have hflag : (rewriteStatementFastPaths display options statement).2 = false := by
        rw [← Bool.not_eq_true]
        exact fun hchanged => htells.mp hchanged (hsame statement hparse)
      change (if (rewriteStatementFastPaths display options statement).2 then _ else sql) = sql
      rw [hflag]
      rfl
    · rfl
  frame := sameStatement display options

end

end HarborSql.Sql
