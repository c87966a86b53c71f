import HarborSql.Verify.Rewrite.Complete

/-! What a second pass of the rewriter changes: only operands that the first one did not visit, and
has put where the second one does. -/

namespace HarborSql.Sql

/-! ## The operands that a second pass visits for the first time -/

mutual

/-- The operands that the rewriter does not visit, but moves to a place that a second pass visits:
the source of `EXTRACT(MINUTE FROM ..)` and the text of a `LIKE`. -/
def newlyVisited : Expr → List Expr
  | .extract .minute _ source | .extract .minutes _ source => [source]
  | .function function => newlyVisitedFunction function
  | .like _ false likeExpr pattern none =>
    match containsNeedleFromLikePattern pattern with
    | some _ => [likeExpr]
    | none => []
  | .binaryOp left _ right | .isDistinctFrom left right | .isNotDistinctFrom left right =>
    newlyVisited left ++ newlyVisited right
  | .unaryOp _ expr | .isTest _ expr | .nested expr | .outerJoin expr | .prior expr =>
    newlyVisited expr
  | .compoundFieldAccess root accessChain => newlyVisited root ++ newlyVisitedChain accessChain
  | _ => []

def newlyVisitedChain : List AccessExpr → List Expr
  | [] => []
  | access :: accessChain => newlyVisitedAccess access ++ newlyVisitedChain accessChain

def newlyVisitedAccess : AccessExpr → List Expr
  | .dot expr => newlyVisited expr
  | .index index => newlyVisited index
  | .slice lowerBound upperBound stride => newlyVisitedOption lowerBound ++
    newlyVisitedOption upperBound ++ newlyVisitedOption stride

def newlyVisitedOption : Option Expr → List Expr
  | none => []
  | some expr => newlyVisited expr

/-- A second pass looks neither into the `CASE` that stands for an `if` nor into the one around the
index of a `get`. -/
def newlyVisitedFunction : Function → List Expr
  | .mk name odbc parameters (.list duplicateTreatment args clauses operands) filter nulls over'
      windowOperands within =>
    let visited := newlyVisitedArgs args
    let function : Function := .mk name odbc parameters
      (.list duplicateTreatment args clauses operands) filter nulls over' windowOperands within
    if (databricksIfExpr function).isSome then []
    else if (databricksGetArrayArgs function).isSome then visited.headD []
    else visited.flatten
  | _ => []

def newlyVisitedArgs : List FunctionArg → List (List Expr)
  | [] => []
  | arg :: args => newlyVisitedArg arg :: newlyVisitedArgs args

def newlyVisitedArg : FunctionArg → List Expr
  | .named _ arg _ | .exprNamed _ arg _ | .unnamed arg => newlyVisitedArgExpr arg

def newlyVisitedArgExpr : FunctionArgExpr → List Expr
  | .expr expr => newlyVisited expr
  | .qualifiedWildcard _ | .wildcard => []

end

def newlyVisitedItem : SelectItem → List Expr
  | .unnamedExpr expr | .exprWithAlias expr _ => newlyVisited expr
  | _ => []

def newlyVisitedOrderByExpr : OrderByExpr → List Expr
  | .mk expr _ _ => newlyVisited expr

def newlyVisitedGroupBy : GroupByExpr → List Expr
  | .expressions expressions _ => expressions.flatMap newlyVisited
  | _ => []

def newlyVisitedOrderBy : OrderBy → List Expr
  | .expressions expressions _ => expressions.flatMap newlyVisitedOrderByExpr
  | _ => []

def newlyVisitedSelect : Select → List Expr
  | .mk _ _ projection _ _ prewhere selection groupBy clusterBy distributeBy sortBy having qualify =>
    projection.flatMap newlyVisitedItem ++ newlyVisitedOption selection ++
      newlyVisitedOption prewhere ++ newlyVisitedGroupBy groupBy ++
      clusterBy.flatMap newlyVisited ++ distributeBy.flatMap newlyVisited ++
      sortBy.flatMap newlyVisitedOrderByExpr ++ newlyVisitedOption having ++
      newlyVisitedOption qualify

mutual

def newlyVisitedQuery : Query → List Expr
  | .mk _ cteTables body orderBy _ _ =>
    newlyVisitedCtes cteTables ++ newlyVisitedSetExpr body ++ newlyVisitedOrderBy orderBy

def newlyVisitedCtes : List Cte → List Expr
  | [] => []
  | .mk _ query :: cteTables => newlyVisitedQuery query ++ newlyVisitedCtes cteTables

def newlyVisitedSetExpr : SetExpr → List Expr
  | .select select => newlyVisitedSelect select
  | .query query => newlyVisitedQuery query
  | .setOperation _ left right => newlyVisitedSetExpr left ++ newlyVisitedSetExpr right
  | _ => []

end

def newlyVisitedStatement : Statement → List Expr
  | .query query => newlyVisitedQuery query
  | .explain _ statement => newlyVisitedStatement statement
  | .other .. => []

/-- Whether the rewriter changes the expression. -/
def changes (e : Expr) : Bool := (rewriteExprFastPaths e).2

/-! ## A second pass over what the fast paths have made -/

theorem rewriteFunctionArgs_snd (args : List FunctionArg) :
    (rewriteFunctionArgs args).2 = args.any fun arg => (rewriteFunctionArgFastPaths arg).2 := by
  induction args with
  | nil => rfl
  | cons arg args ih => rw [rewriteFunctionArgs, List.any_cons, ← ih]

theorem rewriteAccessChain_snd (rootIsDatabricksGet : Bool) (accessChain : List AccessExpr) :
    (rewriteAccessChain rootIsDatabricksGet accessChain).2 =
      accessChain.any fun access => (rewriteChainAccess rootIsDatabricksGet access).2 := by
  induction accessChain with
  | nil => rfl
  | cons access accessChain ih => rw [rewriteAccessChain_cons, List.any_cons, ih]

theorem rewriteFunctionFastPaths_plain (name : String) (args : List Expr) :
    rewriteFunctionFastPaths (.plain name args) =
      (.plain name (args.map fun e => (rewriteExprFastPaths e).1), args.any changes) := by
  have hfst := rewriteFunctionArgs_fst (args.map fun e => .unnamed (.expr e))
  have hsnd := rewriteFunctionArgs_snd (args.map fun e => .unnamed (.expr e))
  rw [List.map_map] at hfst
  rw [List.any_map] at hsnd
  rw [Function.plain, rewriteFunctionFastPaths]
  dsimp only
  rw [hfst, hsnd, Function.plain, List.map_map]
  rfl

/-- A call that no fast path applies to is changed as its arguments are. -/
theorem changes_functionExpr {name : String} {args : List Expr} (h : IsOther name)
    (hcapture : eqIgnoreAsciiCase name "regexp_replace" = false) :
    changes (functionExpr name args) = args.any changes := by
  unfold changes
  rw [functionExpr, rewriteExprFastPaths, rewriteFunctionFastPaths_plain]
  dsimp only
  rcases rewriteLeafFunction_cases (.plain name (args.map fun e => (rewriteExprFastPaths e).1))
    (args.any changes) with ⟨_, _, _, hcall, -⟩ | ⟨_, _, hcall, -⟩ | ⟨_, _, hcall, -⟩ |
      ⟨_, _, _, hargs, -⟩ | ⟨-, -, hleaf⟩
  · exact absurd hcall (not_calls_plain h.1)
  · exact absurd hcall (not_calls_plain h.2.1)
  · exact absurd hcall (not_calls_plain h.2.2)
  · obtain ⟨_, _, _, hcall, -⟩ := regexpReplaceCaptureFastPathArgs_eq_some.mp hargs
    exact absurd hcall (not_calls_plain hcapture)
  · rw [hleaf]
    rfl

theorem changes_getArrayExpr (array index : Expr) :
    changes (databricksGetArrayExpr array index) = changes array := by
  rw [databricksGetArrayExpr, arrayElementExpr, changes_functionExpr (by decide) (by decide)]
  simp only [List.any_cons, List.any_nil, Bool.or_false]
  exact Bool.or_false _

theorem changes_elementAtMapExpr (map key : Expr) :
    changes (databricksElementAtMapExpr map key) = (changes map || changes key) := by
  rw [databricksElementAtMapExpr, arrayElementExpr, changes_functionExpr (by decide) (by decide),
    List.any_cons, mapExtractExpr, changes_functionExpr (by decide) (by decide)]
  simp only [List.any_cons, List.any_nil, Bool.or_false]
  exact Bool.or_false _

theorem changes_captureExpr (source : Expr) (pattern : String) (captureIndex : Nat) :
    changes (regexpReplaceCaptureExpr source pattern captureIndex) = changes source := by
  rw [regexpReplaceCaptureExpr, changes_functionExpr (by decide) (by decide)]
  simp only [List.any_cons, List.any_nil, Bool.or_false]
  exact Bool.or_false _

theorem changes_extractMinuteExpr (source : Expr) :
    changes (extractMinuteExpr source) = changes source := by
  rw [extractMinuteExpr, changes_functionExpr (by decide) (by decide)]
  simp only [List.any_cons, List.any_nil, Bool.or_false]

theorem changes_containsExpr (haystack : Expr) (needle : String) (negated : Bool) :
    changes (containsExpr haystack needle negated) = changes haystack := by
  have hcall : changes (functionExpr "contains" [haystack, singleQuotedStringExpr needle]) =
      changes haystack := by
    rw [changes_functionExpr (by decide) (by decide)]
    simp only [List.any_cons, List.any_nil, Bool.or_false]
    exact Bool.or_false _
  cases negated <;> exact hcall

/-! ## A second pass over expressions -/

/-- A second pass changes the expression if and only if a pass changes one of the operands. -/
def Again (e : Expr) : Prop := changes (rewriteExprFastPaths e).1 = (newlyVisited e).any changes

theorem Function.Calls.eqIgnoreAsciiCase {function : Function} {name name' : String}
    {exprs exprs' : List Expr} (h : function.Calls name exprs) (h' : function.Calls name' exprs') :
    eqIgnoreAsciiCase name name' = true := by
  have hname := functionNameEq_of_plainFunctionArgs h
  have hname' := functionNameEq_of_plainFunctionArgs h'
  obtain ⟨objectName, rfl⟩ := eq_of_plainFunctionArgs h
  unfold functionNameEq at hname hname'
  split at hname
  · simp_all [HarborSql.eqIgnoreAsciiCase]
  · cases hname

theorem any_congr_of_mem {α : Type} {p q : α → Bool} {as : List α} (h : ∀ a ∈ as, p a = q a) :
    as.any p = as.any q := by
  rw [Bool.eq_iff_iff, List.any_eq_true, List.any_eq_true]
  exact exists_congr fun a => and_congr_right fun ha => by rw [h a ha]

theorem newlyVisitedArgs_eq (args : List FunctionArg) :
    newlyVisitedArgs args = args.map newlyVisitedArg := by
  induction args with
  | nil => rfl
  | cons arg args ih => rw [newlyVisitedArgs, List.map_cons, ih]

theorem newlyVisitedArgs_exprs (exprs : List Expr) :
    newlyVisitedArgs (exprs.map fun e => .unnamed (.expr e)) = exprs.map newlyVisited := by
  rw [newlyVisitedArgs_eq, List.map_map]
  rfl

theorem newlyVisitedFunction_calls {function : Function} {name : String} {exprs : List Expr}
    (h : function.Calls name exprs) : newlyVisitedFunction function =
      if (databricksIfExpr function).isSome then []
      else if (databricksGetArrayArgs function).isSome then (exprs.map newlyVisited).headD []
      else (exprs.map newlyVisited).flatten := by
  obtain ⟨objectName, rfl⟩ := eq_of_plainFunctionArgs h
  rw [newlyVisitedFunction, newlyVisitedArgs_exprs]

theorem databricksIfExpr_eq_none {function : Function} {name : String} {exprs : List Expr}
    (h : function.Calls name exprs) (hname : eqIgnoreAsciiCase name "if" = false) :
    databricksIfExpr function = none := by
  refine Option.eq_none_iff_forall_ne_some.mpr fun e he => ?_
  obtain ⟨_, _, _, hcall, -⟩ := databricksIfExpr_eq_some.mp he
  rw [h.eqIgnoreAsciiCase hcall] at hname
  cases hname

theorem databricksGetArrayArgs_eq_none {function : Function} {name : String} {exprs : List Expr}
    (h : function.Calls name exprs) (hname : eqIgnoreAsciiCase name "get" = false) :
    databricksGetArrayArgs function = none := by
  refine Option.eq_none_iff_forall_ne_some.mpr fun e he => ?_
  have hcall := databricksGetArrayArgs_eq_some.mp he
  rw [h.eqIgnoreAsciiCase hcall] at hname
  cases hname

theorem newlyVisited_of_literal {e : Expr} {literal : String}
    (h : stringLiteralValue e = some literal) : newlyVisited e = [] := by
  unfold stringLiteralValue at h
  split at h
  all_goals first | rfl | cases h

/-- The parts of a call that no fast path applies to. -/
def newlyVisitedAll : Function → List Expr
  | .mk _ _ _ (.list _ args _ _) _ _ _ _ _ => (newlyVisitedArgs args).flatten
  | _ => []

theorem newlyVisitedFunction_eq_all {function : Function}
    (hplain : (Node.expr (.function function)).isDatabricks = false) :
    newlyVisitedFunction function = newlyVisitedAll function := by
  simp only [Node.isDatabricks, Bool.or_eq_false_iff] at hplain
  obtain ⟨name, odbc, parameters, args, filter, nulls, over', operands, within⟩ := function
  cases args with
  | list =>
    rw [newlyVisitedFunction]
    simp only [hplain.1.1, hplain.1.2, Bool.false_eq_true, if_false]
    rfl
  | _ => rfl

/-- Rewriting the arguments makes no fast path apply. -/
theorem rewriteLeafFunction_rewrite {function : Function} {changedArgs : Bool}
    (hplain : (Node.expr (.function function)).isDatabricks = false)
    (hcapture : regexpReplaceCaptureFastPathArgs function = none) :
    rewriteLeafFunction (rewriteFunctionFastPaths function).1 changedArgs =
      (.function (rewriteFunctionFastPaths function).1, changedArgs) := by
  have hplain' := hplain
  rw [← isDatabricks_rewriteFunction, ← Bool.not_eq_true, isDatabricks_function] at hplain'
  rcases rewriteLeafFunction_cases (rewriteFunctionFastPaths function).1 changedArgs with
    ⟨_, _, _, hcall, -⟩ | ⟨_, _, hcall, -⟩ | ⟨_, _, hcall, -⟩ | ⟨_, _, _, hargs, -⟩ | ⟨-, -, h⟩
  · exact absurd (.inl ⟨_, _, _, hcall⟩) hplain'
  · exact absurd (.inr (.inl ⟨_, _, hcall⟩)) hplain'
  · exact absurd (.inr (.inr ⟨_, _, hcall⟩)) hplain'
  · obtain ⟨_, _, replacement, hcall, hpattern, hreplacement, hindex⟩ :=
      regexpReplaceCaptureFastPathArgs_eq_some.mp hargs
    obtain ⟨source, _, _, hcall', rfl, rfl, rfl⟩ := hcall.of_rewrite_triple
    rw [stringLiteralValue_rewrite] at hpattern hreplacement
    rw [regexpReplaceCaptureFastPathArgs_eq_some.mpr
      ⟨_, _, replacement, hcall', hpattern, hreplacement, hindex⟩] at hcapture
    cases hcapture
  · exact h

/-- A call whose arguments a second pass changes as stated. -/
theorem again_call {function : Function}
    (hfunction : (rewriteFunctionFastPaths (rewriteFunctionFastPaths function).1).2 =
      (newlyVisitedAll function).any changes)
    (hargs : ∀ name exprs, function.Calls name exprs → ∀ e ∈ exprs, Again e) :
    Again (.function function) := by
  unfold Again
  rw [rewriteExprFastPaths, newlyVisited]
  dsimp only
  rcases rewriteLeafFunction_cases (rewriteFunctionFastPaths function).1
    (rewriteFunctionFastPaths function).2 with ⟨_, _, _, hcall, h⟩ | ⟨_, _, hcall, h⟩ |
      ⟨_, _, hcall, h⟩ | ⟨_, _, _, hcapture, h⟩ | ⟨hplain, hcapture, h⟩
  all_goals rw [h]
  · obtain ⟨_, _, _, hcall', -⟩ := hcall.of_rewrite_triple
    have hif := databricksIfExpr_eq_some.mpr ⟨_, _, _, hcall', rfl⟩
    rw [newlyVisitedFunction_calls hcall', hif]
    rfl
  · obtain ⟨array, index, hcall', rfl, rfl⟩ := hcall.of_rewrite_pair
    have hget := databricksGetArrayArgs_eq_some.mpr hcall'
    rw [newlyVisitedFunction_calls hcall', databricksIfExpr_eq_none hcall' (by decide), hget,
      changes_getArrayExpr]
    exact hargs _ _ hcall' array List.mem_cons_self
  · obtain ⟨map, key, hcall', rfl, rfl⟩ := hcall.of_rewrite_pair
    have hmap := hargs _ _ hcall' map List.mem_cons_self
    have hkey := hargs _ _ hcall' key (List.mem_cons_of_mem _ List.mem_cons_self)
    rw [newlyVisitedFunction_calls hcall', databricksIfExpr_eq_none hcall' (by decide),
      databricksGetArrayArgs_eq_none hcall' (by decide), changes_elementAtMapExpr, hmap, hkey]
    simp
  · obtain ⟨_, _, _, hcall, hpattern, hreplacement, -⟩ :=
      regexpReplaceCaptureFastPathArgs_eq_some.mp hcapture
    obtain ⟨source, pattern, replacement, hcall', rfl, rfl, rfl⟩ := hcall.of_rewrite_triple
    rw [stringLiteralValue_rewrite] at hpattern hreplacement
    have hsource := hargs _ _ hcall' source List.mem_cons_self
    rw [newlyVisitedFunction_calls hcall', databricksIfExpr_eq_none hcall' (by decide),
      databricksGetArrayArgs_eq_none hcall' (by decide), changes_captureExpr, hsource]
    simp [newlyVisited_of_literal hpattern, newlyVisited_of_literal hreplacement]
  · rw [newlyVisitedFunction_eq_all (isDatabricks_rewriteFunction function ▸ hplain), ← hfunction,
      changes, rewriteExprFastPaths]
    dsimp only
    rw [rewriteLeafFunction_rewrite hplain hcapture]

theorem isDatabricksGetArrayExpr_functionExpr {name : String} {args : List Expr}
    (h : IsOther name) : isDatabricksGetArrayExpr (functionExpr name args) = false := by
  rw [← Bool.not_eq_true]
  intro hget
  obtain ⟨⟨array, index⟩, hargs⟩ := Option.isSome_iff_exists.mp hget
  exact not_calls_plain h.2.1 (databricksGetArrayArgs_eq_some.mp hargs)

/-- What a pass returns is no `get`. -/
theorem isDatabricksGetArrayExpr_rewrite (e : Expr) :
    isDatabricksGetArrayExpr (rewriteExprFastPaths e).1 = false := by
  cases e with
  | function function =>
    rw [rewriteExprFastPaths]
    dsimp only
    rcases rewriteLeafFunction_cases (rewriteFunctionFastPaths function).1
      (rewriteFunctionFastPaths function).2 with ⟨_, _, _, -, h⟩ | ⟨_, _, -, h⟩ | ⟨_, _, -, h⟩ |
        ⟨_, _, _, -, h⟩ | ⟨hplain, -, h⟩
    all_goals rw [h]
    · rfl
    · exact isDatabricksGetArrayExpr_functionExpr (by decide)
    · exact isDatabricksGetArrayExpr_functionExpr (by decide)
    · exact isDatabricksGetArrayExpr_functionExpr (by decide)
    · simp only [Node.isDatabricks, Bool.or_eq_false_iff] at hplain
      exact hplain.1.2
  | extract field =>
    cases field with
    | other => rfl
    | _ => exact isDatabricksGetArrayExpr_functionExpr (show IsOther extractMinuteUdf by decide)
  | like negated any e pattern escapeChar =>
    cases any <;> cases escapeChar <;> try rfl
    rw [rewriteExprFastPaths]
    split
    · cases negated
      · exact isDatabricksGetArrayExpr_functionExpr (by decide)
      · rfl
    · rfl
  | _ => rfl

/-- A second pass changes the access if and only if a pass changes one of the operands. -/
def AgainAccess (access : AccessExpr) : Prop :=
  (rewriteAccessExprFastPaths (rewriteAccessExprFastPaths access).1).2 =
    (newlyVisitedAccess access).any changes

theorem newlyVisitedChain_eq (accessChain : List AccessExpr) :
    newlyVisitedChain accessChain = accessChain.flatMap newlyVisitedAccess := by
  induction accessChain with
  | nil => rfl
  | cons access accessChain ih => rw [newlyVisitedChain, List.flatMap_cons, ih]

theorem again_chainAccess {rootIsDatabricksGet : Bool} {access : AccessExpr}
    (h : AgainAccess access) :
    (rewriteAccessExprFastPaths (rewriteChainAccess rootIsDatabricksGet access).1).2 =
      (newlyVisitedAccess access).any changes := by
  by_cases hdot : ∃ ident, access = .dot (.identifier ident)
  · obtain ⟨ident, rfl⟩ := hdot
    cases rootIsDatabricksGet <;> rfl
  · rw [rewriteChainAccess_of_ne _ fun ident heq => hdot ⟨ident, heq⟩]
    exact h

theorem again_chain {root : Expr} {accessChain : List AccessExpr} (hroot : Again root)
    (hchain : ∀ access ∈ accessChain, AgainAccess access) :
    Again (.compoundFieldAccess root accessChain) := by
  have hflag : changes (rewriteExprFastPaths (.compoundFieldAccess root accessChain)).1 =
      (changes (rewriteExprFastPaths root).1 ||
        (rewriteAccessChain (isDatabricksGetArrayExpr (rewriteExprFastPaths root).1)
          (rewriteAccessChain (isDatabricksGetArrayExpr root) accessChain).1).2) := rfl
  rw [Again, hflag, hroot, isDatabricksGetArrayExpr_rewrite, rewriteAccessChain_snd,
    rewriteAccessChain_fst, List.any_map, newlyVisited, newlyVisitedChain_eq, List.any_append,
    List.any_flatMap]
  exact congrArg _ (any_congr_of_mem fun access haccess =>
    again_chainAccess (hchain access haccess))

mutual

theorem again_expr : ∀ e : Expr, Again e
  | .extract .minute _ source | .extract .minutes _ source => by
    rw [Again, rewriteExprFastPaths, changes_extractMinuteExpr, newlyVisited, List.any_cons,
      List.any_nil, Bool.or_false]
  | .extract (.other _) _ _ => rfl
  | .function function =>
    have h := again_function function
    again_call h.1 h.2
  | .like negated false likeExpr pattern none => by
    rw [Again, rewriteExprFastPaths, newlyVisited]
    rcases hneedle : containsNeedleFromLikePattern pattern with _ | needle
    · dsimp only
      rw [changes, rewriteExprFastPaths, hneedle]
      rfl
    · dsimp only
      rw [changes_containsExpr, List.any_cons, List.any_nil, Bool.or_false]
  | .like _ true _ _ _ | .like _ false _ _ (some _) => rfl
  | .binaryOp left _ right | .isDistinctFrom left right | .isNotDistinctFrom left right =>
    (congrArg₂ or (again_expr left) (again_expr right)).trans List.any_append.symm
  | .unaryOp _ e | .isTest _ e | .nested e | .outerJoin e | .prior e => again_expr e
  | .compoundFieldAccess root accessChain =>
    again_chain (again_expr root) (again_accesses accessChain)
  | .identifier _ | .compoundIdentifier _ | .inList .. | .inSubquery .. | .between .. | .cast ..
  | .value _ | .case .. | .exists .. | .subquery _ | .other .. => rfl

theorem again_accesses : ∀ accessChain : List AccessExpr, ∀ access ∈ accessChain,
    AgainAccess access
  | [] => List.forall_mem_nil _
  | access :: accessChain =>
    List.forall_mem_cons.mpr ⟨again_access access, again_accesses accessChain⟩

theorem again_access : ∀ access : AccessExpr, AgainAccess access
  | .dot e | .index e => again_expr e
  | .slice lowerBound upperBound stride => by
    have hflag : (rewriteAccessExprFastPaths (rewriteAccessExprFastPaths
        (.slice lowerBound upperBound stride)).1).2 = (((rewriteOption
          (rewriteOption lowerBound).1).2 || (rewriteOption (rewriteOption upperBound).1).2) ||
          (rewriteOption (rewriteOption stride).1).2) := rfl
    rw [AgainAccess, hflag, again_option lowerBound, again_option upperBound, again_option stride,
      newlyVisitedAccess, List.any_append, List.any_append]

theorem again_option : ∀ e : Option Expr,
    (rewriteOption (rewriteOption e).1).2 = (newlyVisitedOption e).any changes
  | none => rfl
  | some e => again_expr e

theorem again_function : ∀ function : Function,
    (rewriteFunctionFastPaths (rewriteFunctionFastPaths function).1).2 =
        (newlyVisitedAll function).any changes ∧
      ∀ name exprs, function.Calls name exprs → ∀ e ∈ exprs, Again e
  | .mk _ _ _ (.list _ args _ _) _ _ _ _ _ => by
    have hargs := again_args args
    constructor
    · have hflag : (rewriteFunctionArgs (rewriteFunctionArgs args).1).2 =
          (newlyVisitedArgs args).flatten.any changes := by
        rw [rewriteFunctionArgs_snd, rewriteFunctionArgs_fst, List.any_map, newlyVisitedArgs_eq,
          List.any_flatten, List.any_map]
        exact any_congr_of_mem fun arg harg => (hargs arg harg).1
      exact hflag
    · intro name exprs hcall e he
      obtain ⟨_, heq⟩ := eq_of_plainFunctionArgs hcall
      cases heq
      exact (hargs _ (List.mem_map_of_mem he)).2 e rfl
  | .mk _ _ _ .none .. | .mk _ _ _ (.subquery _) .. => by
    refine ⟨rfl, fun name exprs hcall => ?_⟩
    obtain ⟨_, heq⟩ := eq_of_plainFunctionArgs hcall
    cases heq

theorem again_args : ∀ args : List FunctionArg, ∀ arg ∈ args,
    (rewriteFunctionArgFastPaths (rewriteFunctionArgFastPaths arg).1).2 =
        (newlyVisitedArg arg).any changes ∧
      ∀ e, functionArgExpr arg = some e → Again e
  | [] => List.forall_mem_nil _
  | arg :: args => List.forall_mem_cons.mpr ⟨again_arg arg, again_args args⟩

theorem again_arg : ∀ arg : FunctionArg,
    (rewriteFunctionArgFastPaths (rewriteFunctionArgFastPaths arg).1).2 =
        (newlyVisitedArg arg).any changes ∧
      ∀ e, functionArgExpr arg = some e → Again e
  | .named _ arg _ | .exprNamed _ arg _ => ⟨(again_argExpr arg).1, nofun⟩
  | .unnamed arg => again_argExpr arg

theorem again_argExpr : ∀ arg : FunctionArgExpr,
    (rewriteFunctionArgExpr (rewriteFunctionArgExpr arg).1).2 =
        (newlyVisitedArgExpr arg).any changes ∧
      ∀ e, functionArgExpr (.unnamed arg) = some e → Again e
  | .expr e => by
    refine ⟨again_expr e, fun e' he => ?_⟩
    obtain rfl := Option.some.inj he
    exact again_expr e
  | .qualifiedWildcard _ | .wildcard => ⟨rfl, nofun⟩

end

/-! ## A second pass over statements -/

section

variable (display : Display) (options : RewriteOptions)

theorem again_item (item : SelectItem) :
    (rewriteSelectItem display options (rewriteSelectItem display options item).1).2 =
      (newlyVisitedItem item).any changes := by
  cases item with
  | unnamedExpr e =>
    have hagain := again_expr e
    have hunaliased : (rewriteSelectItem display options
        (.unnamedExpr (rewriteExprFastPaths e).1)).2 = changes (rewriteExprFastPaths e).1 ∨
        databricksProjectionAlias display options (rewriteExprFastPaths e).1 ≠ none := by
      refine or_iff_not_imp_right.mpr fun hnone => ?_
      rw [rewriteSelectItem]
      dsimp only
      split
      · -- the second pass adds an alias only where it changes the expression
        rename_i aliasName halias
        refine (Bool.eq_true_of_not_eq_false fun hflag => ?_).symm
        rw [(tells_expr _).eq_of_false hflag] at halias
        exact hnone (by rw [halias]; exact Option.some_ne_none _)
      · rfl
    rw [rewriteSelectItem]
    dsimp only
    split
    · exact hagain
    · rename_i hnone
      exact (hunaliased.resolve_right fun h => h hnone).trans hagain
  | exprWithAlias e => exact again_expr e
  | qualifiedWildcard | wildcard => rfl

theorem again_orderByExpr : ∀ e : OrderByExpr,
    (rewriteOrderByExpr (rewriteOrderByExpr e).1).2 = (newlyVisitedOrderByExpr e).any changes
  | .mk e _ _ => again_expr e

theorem again_each {α : Type} {visit : α → List Expr} {rewrite : α → α × Bool}
    (h : ∀ a, (rewrite (rewrite a).1).2 = (visit a).any changes) (parts : List α) :
    (rewriteEach rewrite (rewriteEach rewrite parts).1).2 =
      (parts.flatMap visit).any changes := by
  change (((parts.map rewrite).map Prod.fst).map rewrite).any Prod.snd = _
  rw [List.any_map, List.any_map, List.any_map, List.any_flatMap]
  exact any_congr_of_mem fun a _ => h a

theorem again_groupBy : ∀ groupBy : GroupByExpr,
    (rewriteGroupBy (rewriteGroupBy groupBy).1).2 = (newlyVisitedGroupBy groupBy).any changes
  | .expressions expressions _ => again_each again_expr expressions
  | .all _ => rfl

theorem again_orderBy : ∀ orderBy : OrderBy,
    (rewriteOrderByFastPaths (rewriteOrderByFastPaths orderBy).1).2 =
      (newlyVisitedOrderBy orderBy).any changes
  | .expressions expressions _ => again_each again_orderByExpr expressions
  | .none | .all _ _ => rfl

theorem again_select : ∀ select : Select,
    (rewriteSelectFastPaths display options (rewriteSelectFastPaths display options select).1).2 =
      (newlyVisitedSelect select).any changes
  | .mk text operands projection into tables prewhere selection groupBy clusterBy distributeBy
      sortBy having qualify => by
    simp only [newlyVisitedSelect, List.any_append,
      ← again_each (again_item display options) projection, ← again_option selection,
      ← again_option prewhere, ← again_groupBy groupBy, ← again_each again_expr clusterBy,
      ← again_each again_expr distributeBy, ← again_each again_orderByExpr sortBy,
      ← again_option having, ← again_option qualify]
    rfl

mutual

theorem again_query : ∀ query : Query,
    (rewriteQueryFastPaths display options (rewriteQueryFastPaths display options query).1).2 =
      (newlyVisitedQuery query).any changes
  | .mk _ cteTables body orderBy _ _ => by
    simp only [newlyVisitedQuery, List.any_append, ← again_ctes cteTables, ← again_setExpr body,
      ← again_orderBy orderBy]
    rfl

theorem again_ctes : ∀ cteTables : List Cte,
    (rewriteCteTables display options (rewriteCteTables display options cteTables).1).2 =
      (newlyVisitedCtes cteTables).any changes
  | [] => rfl
  | .mk _ query :: cteTables =>
    (congrArg₂ or (again_query query) (again_ctes cteTables)).trans List.any_append.symm

theorem again_setExpr : ∀ setExpr : SetExpr,
    (rewriteSetExprFastPaths display options
      (rewriteSetExprFastPaths display options setExpr).1).2 =
      (newlyVisitedSetExpr setExpr).any changes
  | .select select => again_select display options select
  | .query query => again_query query
  | .setOperation _ left right =>
    (congrArg₂ or (again_setExpr left) (again_setExpr right)).trans List.any_append.symm
  | .values .. | .insert _ | .update _ | .delete _ | .merge _ | .table _ => rfl

end

theorem again_statement : ∀ statement : Statement,
    (rewriteStatementFastPaths display options
      (rewriteStatementFastPaths display options statement).1).2 =
      (newlyVisitedStatement statement).any changes
  | .query query => again_query display options query
  | .explain _ statement => again_statement statement
  | .other .. => rfl

/-! ## The result -/

/-- A pass leaves exactly the constructs of Databricks that stand in the parts it does not visit,
and a second pass changes nothing if and only if no pass changes the operands of
`EXTRACT(MINUTE ..)` and of `LIKE` that the first one has moved. -/
theorem rewriterComplete (statement : Statement) :
    (∀ m, (Node.statement (rewriteStatementFastPaths display options statement).1).Has m ↔
      ∃ u ∈ unvisitedStatement statement, u.Has m) ∧
    ((rewriteStatementFastPaths display options
        (rewriteStatementFastPaths display options statement).1).1 =
        (rewriteStatementFastPaths display options statement).1 ↔
      ∀ e ∈ newlyVisitedStatement statement, (rewriteExprFastPaths e).1 = e) := by
  refine ⟨fun _ => has_rewritten display options, ?_⟩
  have hunchanged : ∀ {α : Type} {a : α} {rewritten : α × Bool}, Tells a rewritten →
      (rewritten.1 = a ↔ rewritten.2 = false) := by
    intro α a rewritten h
    rw [Tells] at h
    rw [← Bool.not_eq_true, h, not_not]
  rw [hunchanged (tells_statement display options _), again_statement, List.any_eq_false]
  refine forall₂_congr fun e _ => ?_
  rw [hunchanged (tells_expr e), changes, Bool.not_eq_true]

end

end HarborSql.Sql
