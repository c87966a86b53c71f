import HarborSql.Verify.Rewrite.Pass

/-! What a pass of the rewriter leaves behind: exactly the constructs of Databricks that stand in
the parts it does not visit; and what a second pass would change. -/

namespace HarborSql.Sql

variable {U : Node → Prop}

/-! ## Constructs in a call -/

namespace Node

/-- A node of Databricks stands in another one. -/
def Has (n m : Node) : Prop := m.isDatabricks = true ∧ n.Contains m

theorem has_iff {n m : Node} (hplain : n.isDatabricks = false) :
    n.Has m ↔ ∃ c ∈ n.children, c.Has m := by
  unfold Has
  rw [contains_iff]
  constructor
  · rintro ⟨hm, rfl | ⟨c, hc, hcm⟩⟩
    · rw [hplain] at hm
      cases hm
    · exact ⟨c, hc, hm, hcm⟩
  · rintro ⟨c, hc, hm, hcm⟩
    exact ⟨hm, .inr ⟨c, hc, hcm⟩⟩

theorem Has.child {n c m : Node} (hc : c ∈ n.children) (h : c.Has m) : n.Has m :=
  ⟨h.1, .head hc h.2⟩

theorem Has.trans {n u m : Node} (hn : n.Contains u) (h : u.Has m) : n.Has m :=
  ⟨h.1, Relation.ReflTransGen.trans hn h.2⟩

end Node

open Node (has_iff)

/-- A call of a function that has no meaning of its own in Databricks. -/
def IsOther (name : String) : Prop :=
  eqIgnoreAsciiCase name "if" = false ∧ eqIgnoreAsciiCase name "get" = false ∧
    eqIgnoreAsciiCase name "element_at" = false

instance {name : String} : Decidable (IsOther name) := instDecidableAnd

theorem not_calls_plain {name called : String} {args exprs : List Expr}
    (h : eqIgnoreAsciiCase name called = false) :
    ¬ (Function.plain name args).Calls called exprs := by
  intro hcall
  have hname := functionNameEq_of_plainFunctionArgs hcall
  have heq : functionNameEq (.plain name args) called = eqIgnoreAsciiCase name called := rfl
  rw [heq, h] at hname
  cases hname

theorem isDatabricks_functionExpr {name : String} {args : List Expr} (h : IsOther name) :
    (Node.expr (functionExpr name args)).isDatabricks = false := by
  rw [← Bool.not_eq_true, functionExpr, isDatabricks_function]
  rintro (⟨_, _, _, hcall⟩ | ⟨_, _, hcall⟩ | ⟨_, _, hcall⟩)
  · exact not_calls_plain h.1 hcall
  · exact not_calls_plain h.2.1 hcall
  · exact not_calls_plain h.2.2 hcall

/-- A node with one part, that is no construct of Databricks. -/
theorem has_single {n c m : Node} (hplain : n.isDatabricks = false) (hchildren : n.children = [c]) :
    n.Has m ↔ c.Has m := by
  rw [has_iff hplain, hchildren]
  simp only [List.mem_singleton, exists_eq_left]

theorem has_pair {n c d m : Node} (hplain : n.isDatabricks = false)
    (hchildren : n.children = [c, d]) : n.Has m ↔ c.Has m ∨ d.Has m := by
  rw [has_iff hplain, hchildren]
  simp only [List.mem_cons, List.not_mem_nil, or_false, exists_eq_or_imp, exists_eq_left]

theorem not_has_leaf {n m : Node} (hplain : n.isDatabricks = false) (hchildren : n.children = []) :
    ¬ n.Has m := by
  rw [has_iff hplain, hchildren]
  rintro ⟨c, hc, -⟩
  cases hc

theorem children_bracket {n : Node} {kind : Kind} {inner : List Node}
    (h : n.shape = Node.bracket kind inner) : n.children = inner := by
  simp [Node.children, h, Mixfix.Shape.children]

theorem children_compoundFieldAccess {root : Expr} {accessChain : List AccessExpr} :
    (Node.expr (.compoundFieldAccess root accessChain)).children =
      .expr root :: accessChain.map .accessExpr := by
  simp [Node.children, Node.shape, Node.exprShape, Mixfix.Shape.children]

theorem calls_plain (name : String) (args : List Expr) :
    (Function.plain name args).Calls name args := if_pos (eqIgnoreAsciiCase_self name)

/-- The arguments of a call stand in it. -/
theorem contains_arg {function : Function} {name : String} {args : List Expr}
    (h : function.Calls name args) {e : Expr} (he : e ∈ args) :
    (Node.expr (.function function)).Contains (.expr e) := by
  obtain ⟨objectName, rfl⟩ := eq_of_plainFunctionArgs h
  have harg : (Node.arg (.unnamed (.expr e))).Contains (.expr e) :=
    .head List.mem_cons_self (.single List.mem_cons_self)
  have hargs : Node.arg (.unnamed (.expr e)) ∈ (Node.arguments
      (.list none (args.map fun e => .unnamed (.expr e)) [] [])).children := by
    rw [children_bracket rfl]
    exact List.mem_append_left _ (List.mem_map_of_mem (List.mem_map_of_mem he))
  exact .head List.mem_cons_self
    (.head (List.mem_cons_of_mem _ List.mem_cons_self) (.head hargs harg))

theorem has_functionExpr {name : String} {args : List Expr} {m : Node} (h : IsOther name) :
    (Node.expr (functionExpr name args)).Has m ↔ ∃ a ∈ args, (Node.expr a).Has m := by
  have harg : ∀ a, (Node.arg (.unnamed (.expr a))).Has m ↔ (Node.expr a).Has m := fun a =>
    (has_single rfl rfl).trans (has_single rfl rfl)
  have hnone : ¬ (Node.arguments .none).Has m := not_has_leaf rfl rfl
  rw [has_single (isDatabricks_functionExpr h) rfl, has_pair rfl rfl, or_iff_right hnone,
    has_iff rfl, children_bracket rfl]
  simp only [List.map_nil, List.append_nil, List.map_map, List.mem_map, Function.comp_apply,
    exists_exists_and_eq_and, harg]

theorem has_caseExpr {condition result elseResult : Expr} {m : Node} :
    (Node.expr (.case none [.mk condition result] (some elseResult))).Has m ↔
      (Node.expr condition).Has m ∨ (Node.expr result).Has m ∨ (Node.expr elseResult).Has m := by
  rw [has_pair rfl rfl, has_pair rfl rfl, or_assoc]

theorem not_has_numberExpr {value : String} {m : Node} : ¬ (Node.expr (numberExpr value)).Has m :=
  not_has_leaf rfl rfl

theorem not_has_stringExpr {value : String} {m : Node} :
    ¬ (Node.expr (singleQuotedStringExpr value)).Has m := not_has_leaf rfl rfl

theorem has_getArrayExpr {array index : Expr} {m : Node} :
    (Node.expr (databricksGetArrayExpr array index)).Has m ↔
      (Node.expr array).Has m ∨ (Node.expr index).Has m := by
  have hlt : (Node.expr (.binaryOp index .lt (numberExpr "0"))).Has m ↔ (Node.expr index).Has m :=
    (has_pair rfl rfl).trans (or_iff_left not_has_numberExpr)
  have hplus : (Node.expr (.binaryOp index .plus (numberExpr "1"))).Has m ↔
      (Node.expr index).Has m := (has_pair rfl rfl).trans (or_iff_left not_has_numberExpr)
  rw [databricksGetArrayExpr, arrayElementExpr, has_functionExpr (by decide)]
  simp only [List.mem_cons, List.not_mem_nil, or_false, exists_eq_or_imp, exists_eq_left,
    databricksGetArrayIndexExpr, has_caseExpr, hlt, hplus, not_has_numberExpr, false_or, or_self]

theorem has_elementAtMapExpr {map key : Expr} {m : Node} :
    (Node.expr (databricksElementAtMapExpr map key)).Has m ↔
      (Node.expr map).Has m ∨ (Node.expr key).Has m := by
  rw [databricksElementAtMapExpr, arrayElementExpr, has_functionExpr (by decide)]
  simp only [List.mem_cons, List.not_mem_nil, or_false, exists_eq_or_imp, exists_eq_left,
    mapExtractExpr, has_functionExpr (show IsOther "map_extract" by decide), not_has_numberExpr]

theorem has_captureExpr {source : Expr} {pattern : String} {captureIndex : Nat} {m : Node} :
    (Node.expr (regexpReplaceCaptureExpr source pattern captureIndex)).Has m ↔
      (Node.expr source).Has m := by
  rw [regexpReplaceCaptureExpr, has_functionExpr (by decide)]
  simp only [List.mem_cons, List.not_mem_nil, or_false, exists_eq_or_imp, exists_eq_left,
    not_has_numberExpr, not_has_stringExpr]

theorem has_extractMinuteExpr {source : Expr} {m : Node} :
    (Node.expr (extractMinuteExpr source)).Has m ↔ (Node.expr source).Has m := by
  rw [extractMinuteExpr, has_functionExpr (by decide)]
  simp only [List.mem_singleton, exists_eq_left]

theorem has_containsExpr {haystack : Expr} {needle : String} {negated : Bool} {m : Node} :
    (Node.expr (containsExpr haystack needle negated)).Has m ↔ (Node.expr haystack).Has m := by
  have hcall : (Node.expr (functionExpr "contains"
      [haystack, singleQuotedStringExpr needle])).Has m ↔ (Node.expr haystack).Has m := by
    rw [has_functionExpr (by decide)]
    simp only [List.mem_cons, List.not_mem_nil, or_false, exists_eq_or_imp, exists_eq_left,
      not_has_stringExpr]
  cases negated with
  | false => exact hcall
  | true => exact (has_single rfl rfl).trans hcall

/-! ## Nothing is left but in the parts that are not visited -/

theorem exists_mem_zip {α β : Type} {as : List α} {bs : List β} (hlen : as.length = bs.length)
    {b : β} (hb : b ∈ bs) : ∃ a, (a, b) ∈ as.zip bs := by
  induction bs generalizing as with
  | nil => cases hb
  | cons b' bs ih =>
    rcases as with _ | ⟨a', as⟩
    · cases hlen
    rcases List.mem_cons.mp hb with rfl | hb
    · exact ⟨a', List.mem_cons_self⟩
    · obtain ⟨a, ha⟩ := ih (Nat.succ.inj hlen) hb
      exact ⟨a, List.mem_cons_of_mem _ ha⟩

/-- A construct of Databricks that a pass has left stands in a part that it has kept. -/
theorem Pass.has {aliasing : Prop} {n n' m : Node} (h : Pass U aliasing n n') (hm : n'.Has m) :
    ∃ u, U u ∧ u.Has m := by
  induction h with
  | kept hu => exact ⟨_, hu, hm⟩
  | within hform _ hplain' _ ih =>
    obtain ⟨c', hc', hm⟩ := (has_iff hplain').mp hm
    obtain ⟨c, hp⟩ := exists_mem_zip hform.length_children hc'
    exact ih _ hp hm
  | extractMinute _ hu => exact ⟨_, hu, has_extractMinuteExpr.mp hm⟩
  | contains _ hu => exact ⟨_, hu, has_containsExpr.mp hm⟩
  | ifCall _ _ _ _ ihcondition ihresult ihelse =>
    rcases has_caseExpr.mp hm with hm | hm | hm
    · exact ihcondition hm
    · exact ihresult hm
    · exact ihelse hm
  | get _ _ _ iharray ihindex => exact (has_getArrayExpr.mp hm).elim iharray ihindex
  | elementAt _ _ _ ihmap ihkey => exact (has_elementAtMapExpr.mp hm).elim ihmap ihkey
  | capture _ _ ih => exact ih (has_captureExpr.mp hm)
  | getFields _ _ hlen hfields _ ihroot ihchain =>
    rw [has_iff rfl, children_compoundFieldAccess] at hm
    obtain ⟨c', hc', hm⟩ := hm
    rcases List.mem_cons.mp hc' with rfl | hc'
    · exact ihroot hm
    obtain ⟨access', haccess', rfl⟩ := List.mem_map.mp hc'
    obtain ⟨access, hp⟩ := exists_mem_zip hlen haccess'
    by_cases hdot : ∃ ident, access = .dot (.identifier ident)
    · -- the subscript that is put in the place of a field is a literal
      obtain ⟨ident, rfl⟩ := hdot
      obtain rfl := hfields _ hp ident rfl
      exact absurd ((has_single rfl rfl).mp hm) not_has_stringExpr
    · exact ihchain _ hp (fun ident heq => hdot ⟨ident, heq⟩) hm
  | aliased _ _ ih => exact ih ((has_single rfl rfl).mp hm)

/-! ## Everything in the parts that are not visited is left -/

/-- All that stands in one node stands in the other. -/
def Keeps (n u : Node) : Prop := ∀ m, u.Has m → n.Has m

theorem keeps_of_contains {n u : Node} (h : n.Contains u) : Keeps n u := fun _ hm => .trans h hm

theorem keeps_of_mem {n u : Node} (h : u ∈ n.children) : Keeps n u := fun _ hm => .child h hm

theorem Keeps.child {n c u : Node} (h : Keeps c u) (hc : c ∈ n.children) : Keeps n u :=
  fun m hm => .child hc (h m hm)

theorem keeps_of_not_has {n u : Node} (h : ∀ m, ¬ u.Has m) : Keeps n u :=
  fun m hm => absurd hm (h m)

/-- What stands in an argument stands in what the fast paths make of the call. -/
theorem keeps_call {function : Function} {u : Node} (changedArgs : Bool)
    (hfunction : Keeps (.function (rewriteFunctionFastPaths function).1) u)
    (hargs : ∀ name exprs, function.Calls name exprs → ∀ m, u.Has m →
      ∃ e ∈ exprs, (Node.expr (rewriteExprFastPaths e).1).Has m)
    (hliteral : ∀ e literal, stringLiteralValue e = some literal → ∀ m, ¬ (Node.expr e).Has m) :
    Keeps (.expr (rewriteLeafFunction (rewriteFunctionFastPaths function).1 changedArgs).1) u := by
  intro m hm
  rcases rewriteLeafFunction_cases (rewriteFunctionFastPaths function).1 changedArgs with
    ⟨_, _, _, hcall, h⟩ | ⟨_, _, hcall, h⟩ | ⟨_, _, hcall, h⟩ | ⟨_, _, _, hcapture, h⟩ |
    ⟨_, _, h⟩
  all_goals rw [h]
  · obtain ⟨condition, result, elseResult, hcall', rfl, rfl, rfl⟩ := hcall.of_rewrite_triple
    have hparts := hargs _ _ hcall' m hm
    simp only [List.mem_cons, List.not_mem_nil, or_false, exists_eq_or_imp, exists_eq_left]
      at hparts
    exact has_caseExpr.mpr hparts
  · obtain ⟨array, index, hcall', rfl, rfl⟩ := hcall.of_rewrite_pair
    have hparts := hargs _ _ hcall' m hm
    simp only [List.mem_cons, List.not_mem_nil, or_false, exists_eq_or_imp, exists_eq_left]
      at hparts
    exact has_getArrayExpr.mpr hparts
  · obtain ⟨map, key, hcall', rfl, rfl⟩ := hcall.of_rewrite_pair
    have hparts := hargs _ _ hcall' m hm
    simp only [List.mem_cons, List.not_mem_nil, or_false, exists_eq_or_imp, exists_eq_left]
      at hparts
    exact has_elementAtMapExpr.mpr hparts
  · obtain ⟨_, _, _, hcall, hpattern, hreplacement, -⟩ :=
      regexpReplaceCaptureFastPathArgs_eq_some.mp hcapture
    obtain ⟨source, _, _, hcall', rfl, rfl, rfl⟩ := hcall.of_rewrite_triple
    have hparts := hargs _ _ hcall' m hm
    simp only [List.mem_cons, List.not_mem_nil, or_false, exists_eq_or_imp, exists_eq_left]
      at hparts
    rcases hparts with hsource | hpart | hpart
    · exact has_captureExpr.mpr hsource
    · exact absurd hpart (hliteral _ _ hpattern m)
    · exact absurd hpart (hliteral _ _ hreplacement m)
  · exact .child List.mem_cons_self (hfunction m hm)

theorem not_has_of_literal {e : Expr} {literal : String} (h : stringLiteralValue e = some literal)
    (m : Node) : ¬ (Node.expr e).Has m := by
  unfold stringLiteralValue at h
  split at h
  all_goals first | exact not_has_leaf rfl rfl | cases h

mutual

theorem keeps_expr : ∀ e : Expr, ∀ u ∈ unvisited e, Keeps (.expr (rewriteExprFastPaths e).1) u
  | .extract .minute _ source, u, hu | .extract .minutes _ source, u, hu => by
    obtain rfl := List.mem_singleton.mp hu
    exact fun m hm => has_extractMinuteExpr.mpr hm
  | .extract (.other _) _ _, _, hu => keeps_of_mem hu
  | .function function, u, hu => by
    have h := keeps_function function u hu
    exact keeps_call _ h.1 h.2 fun _ _ => not_has_of_literal
  | .like negated false likeExpr pattern none, u, hu => by
    rw [rewriteExprFastPaths]
    rw [unvisited] at hu
    rcases hneedle : containsNeedleFromLikePattern pattern with _ | needle <;> rw [hneedle] at hu
    · exact keeps_of_mem hu
    · obtain rfl := List.mem_singleton.mp hu
      exact fun m hm => has_containsExpr.mpr hm
  | .like _ true _ _ _, _, hu | .like _ false _ _ (some _), _, hu => keeps_of_mem hu
  | .binaryOp left _ right, u, hu | .isDistinctFrom left right, u, hu
  | .isNotDistinctFrom left right, u, hu => (List.mem_append.mp hu).elim
    (fun hu => (keeps_expr left u hu).child List.mem_cons_self)
    fun hu => (keeps_expr right u hu).child (List.mem_cons_of_mem _ List.mem_cons_self)
  | .unaryOp _ e, u, hu | .isTest _ e, u, hu | .nested e, u, hu | .outerJoin e, u, hu
  | .prior e, u, hu => (keeps_expr e u hu).child List.mem_cons_self
  | .compoundFieldAccess root accessChain, u, hu => by
    rw [rewriteExprFastPaths]
    dsimp only
    rw [rewriteAccessChain_fst]
    rcases List.mem_append.mp hu with hu | hu
    · exact (keeps_expr root u hu).child (children_compoundFieldAccess ▸ List.mem_cons_self)
    obtain ⟨access, haccess, hu, hkeeps⟩ := keeps_chain accessChain u hu
    have hne : ∀ ident, access ≠ .dot (.identifier ident) := by
      rintro ident rfl
      cases hu
    refine hkeeps.child ?_
    rw [children_compoundFieldAccess, List.map_map]
    refine List.mem_cons_of_mem _ (List.mem_map.mpr ⟨access, haccess, ?_⟩)
    rw [Function.comp_apply, rewriteChainAccess_of_ne _ hne]
  | .identifier _, _, hu | .compoundIdentifier _, _, hu | .inList .., _, hu | .inSubquery .., _, hu
  | .between .., _, hu | .cast .., _, hu | .value _, _, hu | .case .., _, hu | .exists .., _, hu
  | .subquery _, _, hu | .other .., _, hu => keeps_of_mem hu

theorem keeps_chain : ∀ accessChain : List AccessExpr, ∀ u ∈ unvisitedChain accessChain,
    ∃ access ∈ accessChain, u ∈ unvisitedAccess access ∧
      Keeps (.accessExpr (rewriteAccessExprFastPaths access).1) u
  | access :: accessChain, u, hu => by
    rcases List.mem_append.mp hu with hu | hu
    · exact ⟨access, List.mem_cons_self, hu, keeps_access access u hu⟩
    · obtain ⟨access', haccess', h⟩ := keeps_chain accessChain u hu
      exact ⟨access', List.mem_cons_of_mem _ haccess', h⟩

theorem keeps_access : ∀ access : AccessExpr, ∀ u ∈ unvisitedAccess access,
    Keeps (.accessExpr (rewriteAccessExprFastPaths access).1) u
  | .dot e, u, hu | .index e, u, hu => (keeps_expr e u hu).child List.mem_cons_self
  | .slice lowerBound upperBound stride, u, hu => by
    rw [rewriteAccessExprFastPaths]
    have hchildren := children_bracket (n := .accessExpr (.slice (rewriteOption lowerBound).1
      (rewriteOption upperBound).1 (rewriteOption stride).1)) rfl
    rcases List.mem_append.mp hu with hu | hu
    · rcases List.mem_append.mp hu with hu | hu
      · obtain ⟨c, hc, hkeeps⟩ := keeps_option lowerBound u hu
        exact hkeeps.child (by simp [hchildren, hc])
      · obtain ⟨c, hc, hkeeps⟩ := keeps_option upperBound u hu
        exact hkeeps.child (by simp [hchildren, hc])
    · obtain ⟨c, hc, hkeeps⟩ := keeps_option stride u hu
      exact hkeeps.child (by simp [hchildren, hc])

theorem keeps_option : ∀ e : Option Expr, ∀ u ∈ unvisitedOption e,
    ∃ c ∈ Node.exprs (rewriteOption e).1.toList, Keeps c u
  | some e, u, hu => ⟨_, List.mem_cons_self, keeps_expr e u hu⟩

theorem keeps_function : ∀ function : Function, ∀ u ∈ unvisitedFunction function,
    Keeps (.function (rewriteFunctionFastPaths function).1) u ∧
      ∀ name exprs, function.Calls name exprs → ∀ m, u.Has m →
        ∃ e ∈ exprs, (Node.expr (rewriteExprFastPaths e).1).Has m
  | .mk name odbc parameters (.list duplicateTreatment args clauses operands) filter nulls over'
      windowOperands within, u, hu => by
    rw [rewriteFunctionFastPaths]
    constructor
    · have hchildren := children_bracket (n := .function (.mk name odbc parameters
        (.list duplicateTreatment (rewriteFunctionArgs args).1 clauses operands) filter nulls over'
        windowOperands within)) rfl
      have harguments := children_bracket (n := .arguments
        (.list duplicateTreatment (rewriteFunctionArgs args).1 clauses operands)) rfl
      simp only [unvisitedFunction, List.mem_cons, List.mem_append, or_assoc] at hu
      have hlist : Node.arguments
          (.list duplicateTreatment (rewriteFunctionArgs args).1 clauses operands) ∈
            (Node.function (.mk name odbc parameters (.list duplicateTreatment
              (rewriteFunctionArgs args).1 clauses operands) filter nulls over' windowOperands
              within)).children := by
        rw [hchildren]
        exact List.mem_append_left _ (List.mem_append_left _
          (List.mem_cons_of_mem _ List.mem_cons_self))
      rcases hu with rfl | hu | hu | hu | hu
      · refine keeps_of_mem ?_
        rw [hchildren]
        exact List.mem_append_left _ (List.mem_append_left _ List.mem_cons_self)
      · obtain ⟨arg, harg, hkeeps, -⟩ := keeps_args args u hu
        refine (hkeeps.child ?_).child hlist
        rw [harguments, rewriteFunctionArgs_fst, List.map_map]
        exact List.mem_append_left _ (List.mem_map_of_mem harg)
      · refine (keeps_of_mem ?_).child hlist
        rw [harguments]
        exact List.mem_append_right _ hu
      · refine keeps_of_mem ?_
        rw [hchildren]
        exact List.mem_append_left _ (List.mem_append_right _ hu)
      · refine keeps_of_mem ?_
        rw [hchildren]
        exact List.mem_append_right _ hu
    · intro called exprs hcall m hm
      obtain ⟨_, heq⟩ := eq_of_plainFunctionArgs hcall
      cases heq
      simp only [unvisitedFunction, List.mem_cons, Option.toList_none, List.append_nil,
        List.map_nil] at hu
      rcases hu with rfl | hu
      · exact absurd hm (not_has_leaf rfl rfl)
      · obtain ⟨arg, harg, -, hkeeps⟩ := keeps_args _ u hu
        obtain ⟨e, he, rfl⟩ := List.mem_map.mp harg
        exact ⟨e, he, hkeeps e rfl m hm⟩
  | .mk _ _ _ .none .., u, hu | .mk _ _ _ (.subquery _) .., u, hu => by
    refine ⟨keeps_of_mem hu, fun called exprs hcall => ?_⟩
    obtain ⟨_, heq⟩ := eq_of_plainFunctionArgs hcall
    cases heq

theorem keeps_args : ∀ args : List FunctionArg, ∀ u ∈ unvisitedArgs args, ∃ arg ∈ args,
    Keeps (.arg (rewriteFunctionArgFastPaths arg).1) u ∧
      ∀ e, functionArgExpr arg = some e → Keeps (.expr (rewriteExprFastPaths e).1) u
  | arg :: args, u, hu => by
    rcases List.mem_append.mp hu with hu | hu
    · exact ⟨arg, List.mem_cons_self, keeps_arg arg u hu⟩
    · obtain ⟨arg', harg', h⟩ := keeps_args args u hu
      exact ⟨arg', List.mem_cons_of_mem _ harg', h⟩

theorem keeps_arg : ∀ arg : FunctionArg, ∀ u ∈ unvisitedArg arg,
    Keeps (.arg (rewriteFunctionArgFastPaths arg).1) u ∧
      ∀ e, functionArgExpr arg = some e → Keeps (.expr (rewriteExprFastPaths e).1) u
  | .named _ arg _, u, hu => ⟨(keeps_argExpr arg u hu).1.child List.mem_cons_self, nofun⟩
  | .exprNamed name arg _, u, hu => by
    refine ⟨?_, nofun⟩
    rcases List.mem_cons.mp hu with rfl | hu
    · exact keeps_of_mem List.mem_cons_self
    · exact (keeps_argExpr arg u hu).1.child (List.mem_cons_of_mem _ List.mem_cons_self)
  | .unnamed arg, u, hu =>
    have h := keeps_argExpr arg u hu
    ⟨h.1.child List.mem_cons_self, h.2⟩

theorem keeps_argExpr : ∀ arg : FunctionArgExpr, ∀ u ∈ unvisitedArgExpr arg,
    Keeps (.argExpr (rewriteFunctionArgExpr arg).1) u ∧
      ∀ e, functionArgExpr (.unnamed arg) = some e → Keeps (.expr (rewriteExprFastPaths e).1) u
  | .expr e, u, hu => by
    refine ⟨(keeps_expr e u hu).child List.mem_cons_self, fun e' he => ?_⟩
    obtain rfl := Option.some.inj he
    exact keeps_expr e u hu

end

section

variable (display : Display) (options : RewriteOptions)

theorem keeps_item (item : SelectItem) (u : Node) (hu : u ∈ unvisitedItem item) :
    Keeps (.selectItem (rewriteSelectItem display options item).1) u := by
  cases item with
  | unnamedExpr e =>
    rw [rewriteSelectItem]
    dsimp only
    split
    · exact (keeps_expr e u hu).child List.mem_cons_self
    · exact (keeps_expr e u hu).child List.mem_cons_self
  | exprWithAlias e => exact (keeps_expr e u hu).child List.mem_cons_self
  | qualifiedWildcard | wildcard => exact keeps_of_mem hu

theorem keeps_orderByExpr (e : OrderByExpr) (u : Node) (hu : u ∈ unvisitedOrderByExpr e) :
    Keeps (.orderByExpr (rewriteOrderByExpr e).1) u := by
  obtain ⟨e, orderOptions, withFill⟩ := e
  rcases List.mem_append.mp hu with hu | hu
  · exact (keeps_expr e u hu).child List.mem_cons_self
  · refine keeps_of_mem ?_
    rw [rewriteOrderByExpr, children_bracket rfl]
    exact List.mem_cons_of_mem _ hu

theorem keeps_each {α : Type} (node : α → Node) {visit : α → List Node} {rewrite : α → α × Bool}
    {parts : List α} (hrewrite : ∀ a, ∀ u ∈ visit a, Keeps (node (rewrite a).1) u) {u : Node}
    (hu : u ∈ parts.flatMap visit) : ∃ c ∈ (rewriteEach rewrite parts).1.map node, Keeps c u := by
  obtain ⟨a, ha, hu⟩ := List.mem_flatMap.mp hu
  refine ⟨node (rewrite a).1, ?_, hrewrite a u hu⟩
  exact List.mem_map_of_mem (List.mem_map_of_mem (List.mem_map_of_mem ha))

theorem keeps_groupBy (groupBy : GroupByExpr) (u : Node) (hu : u ∈ unvisitedGroupBy groupBy) :
    Keeps (.groupBy (rewriteGroupBy groupBy).1) u := by
  cases groupBy with
  | all modifiers => exact keeps_of_mem hu
  | expressions expressions modifiers =>
    have hchildren := children_bracket (n := .groupBy (rewriteGroupBy
      (.expressions expressions modifiers)).1) rfl
    rw [Node.exprs, List.map_append] at hchildren
    rcases List.mem_append.mp hu with hu | hu
    · obtain ⟨c, hc, hkeeps⟩ := keeps_each Node.expr keeps_expr hu
      exact hkeeps.child (hchildren ▸ List.mem_append_left _ hc)
    · exact keeps_of_mem (hchildren ▸ List.mem_append_right _ hu)

theorem keeps_orderBy (orderBy : OrderBy) (u : Node) (hu : u ∈ unvisitedOrderBy orderBy) :
    Keeps (.orderBy (rewriteOrderByFastPaths orderBy).1) u := by
  cases orderBy with
  | none | all => exact keeps_of_mem hu
  | expressions expressions interpolate =>
    have hchildren := children_bracket (n := .orderBy (rewriteOrderByFastPaths
      (.expressions expressions interpolate)).1) rfl
    rcases List.mem_append.mp hu with hu | hu
    · obtain ⟨c, hc, hkeeps⟩ := keeps_each Node.orderByExpr keeps_orderByExpr hu
      exact hkeeps.child (hchildren ▸ List.mem_append_left _ hc)
    · exact keeps_of_mem (hchildren ▸ List.mem_append_right _ hu)

theorem keeps_select (select : Select) (u : Node) (hu : u ∈ unvisitedSelect select) :
    Keeps (.select (rewriteSelectFastPaths display options select).1) u := by
  obtain ⟨text, operands, projection, into, tables, prewhere, selection, groupBy, clusterBy,
    distributeBy, sortBy, having', qualify⟩ := select
  have hchildren := children_bracket (n := .select (rewriteSelectFastPaths display options
    (.mk text operands projection into tables prewhere selection groupBy clusterBy distributeBy
      sortBy having' qualify)).1) rfl
  simp only [Node.exprs, List.map_append] at hchildren
  simp only [unvisitedSelect, List.mem_append, or_assoc] at hu
  have hmem : ∀ c, c ∈ Node.exprs operands ∨
      c ∈ (rewriteEach (rewriteSelectItem display options) projection).1.map .selectItem ∨
      c ∈ tables.map .tableFactor ∨ c ∈ Node.exprs (rewriteOption prewhere).1.toList ∨
      c ∈ Node.exprs (rewriteOption selection).1.toList ∨
      c ∈ [Node.groupBy (rewriteGroupBy groupBy).1] ∨
      c ∈ Node.exprs (rewriteEach rewriteExprFastPaths clusterBy).1 ∨
      c ∈ Node.exprs (rewriteEach rewriteExprFastPaths distributeBy).1 ∨
      c ∈ (rewriteEach rewriteOrderByExpr sortBy).1.map .orderByExpr ∨
      c ∈ Node.exprs (rewriteOption having').1.toList ∨
      c ∈ Node.exprs (rewriteOption qualify).1.toList → Keeps c u →
      Keeps (.select (rewriteSelectFastPaths display options (.mk text operands projection into
        tables prewhere selection groupBy clusterBy distributeBy sortBy having' qualify)).1) u := by
    intro c hc hkeeps
    refine hkeeps.child ?_
    rw [hchildren]
    simp only [List.mem_append, or_assoc]
    exact hc
  have hself : Keeps u u := fun _ hm => hm
  rcases hu with hu | hu | hu | hu | hu | hu | hu | hu | hu | hu | hu
  · exact hmem u (.inl hu) hself
  · obtain ⟨c, hc, hkeeps⟩ := keeps_each Node.selectItem (keeps_item display options) hu
    exact hmem c (.inr (.inl hc)) hkeeps
  · exact hmem u (.inr (.inr (.inl hu))) hself
  · obtain ⟨c, hc, hkeeps⟩ := keeps_option prewhere u hu
    exact hmem c (.inr (.inr (.inr (.inl hc)))) hkeeps
  · obtain ⟨c, hc, hkeeps⟩ := keeps_option selection u hu
    exact hmem c (.inr (.inr (.inr (.inr (.inl hc))))) hkeeps
  · exact hmem _ (.inr (.inr (.inr (.inr (.inr (.inl List.mem_cons_self))))))
      (keeps_groupBy groupBy u hu)
  · obtain ⟨c, hc, hkeeps⟩ := keeps_each Node.expr keeps_expr hu
    exact hmem c (by simp only [hc, true_or, or_true]) hkeeps
  · obtain ⟨c, hc, hkeeps⟩ := keeps_each Node.expr keeps_expr hu
    exact hmem c (by simp only [hc, true_or, or_true]) hkeeps
  · obtain ⟨c, hc, hkeeps⟩ := keeps_each Node.orderByExpr keeps_orderByExpr hu
    exact hmem c (by simp only [hc, true_or, or_true]) hkeeps
  · obtain ⟨c, hc, hkeeps⟩ := keeps_option having' u hu
    exact hmem c (by simp only [hc, true_or, or_true]) hkeeps
  · obtain ⟨c, hc, hkeeps⟩ := keeps_option qualify u hu
    exact hmem c (by simp only [hc, or_true]) hkeeps

mutual

theorem keeps_query : ∀ query : Query, ∀ u ∈ unvisitedQuery query,
    Keeps (.query (rewriteQueryFastPaths display options query).1) u
  | .mk recursive cteTables body orderBy text operands, u, hu => by
    have hchildren := children_bracket (n := .query (rewriteQueryFastPaths display options
      (.mk recursive cteTables body orderBy text operands)).1) rfl
    simp only [unvisitedQuery, List.mem_append, or_assoc] at hu
    rcases hu with hu | hu | hu | hu
    · obtain ⟨c, hc, hkeeps⟩ := keeps_ctes cteTables u hu
      exact hkeeps.child (hchildren ▸ List.mem_append_left _ (List.mem_append_left _ hc))
    · exact (keeps_setExpr body u hu).child (hchildren ▸ List.mem_append_left _
        (List.mem_append_right _ List.mem_cons_self))
    · exact (keeps_orderBy orderBy u hu).child (hchildren ▸ List.mem_append_left _
        (List.mem_append_right _ (List.mem_cons_of_mem _ List.mem_cons_self)))
    · exact keeps_of_mem (hchildren ▸ List.mem_append_right _ hu)

theorem keeps_ctes : ∀ cteTables : List Cte, ∀ u ∈ unvisitedCtes cteTables,
    ∃ c ∈ (rewriteCteTables display options cteTables).1.map Node.cte, Keeps c u
  | .mk _ query :: cteTables, u, hu => by
    rcases List.mem_append.mp hu with hu | hu
    · exact ⟨_, List.mem_cons_self, (keeps_query query u hu).child List.mem_cons_self⟩
    · obtain ⟨c, hc, hkeeps⟩ := keeps_ctes cteTables u hu
      exact ⟨c, List.mem_cons_of_mem _ hc, hkeeps⟩

theorem keeps_setExpr : ∀ setExpr : SetExpr, ∀ u ∈ unvisitedSetExpr setExpr,
    Keeps (.setExpr (rewriteSetExprFastPaths display options setExpr).1) u
  | .select select, u, hu => (keeps_select display options select u hu).child List.mem_cons_self
  | .query query, u, hu => (keeps_query query u hu).child List.mem_cons_self
  | .setOperation _ left right, u, hu => (List.mem_append.mp hu).elim
    (fun hu => (keeps_setExpr left u hu).child List.mem_cons_self)
    fun hu => (keeps_setExpr right u hu).child (List.mem_cons_of_mem _ List.mem_cons_self)
  | .values .., _, hu | .insert _, _, hu | .update _, _, hu | .delete _, _, hu | .merge _, _, hu
  | .table _, _, hu => keeps_of_mem hu

end

theorem keeps_statement : ∀ statement : Statement, ∀ u ∈ unvisitedStatement statement,
    Keeps (.statement (rewriteStatementFastPaths display options statement).1) u
  | .query query, u, hu => (keeps_query display options query u hu).child List.mem_cons_self
  | .explain _ statement, u, hu => (keeps_statement statement u hu).child List.mem_cons_self
  | .other .., _, hu => keeps_of_mem hu

/-- The constructs of Databricks in a rewritten statement are those of the parts that the rewriter
does not visit. -/
theorem has_rewritten {statement : Statement} {m : Node} :
    (Node.statement (rewriteStatementFastPaths display options statement).1).Has m ↔
      ∃ u ∈ unvisitedStatement statement, u.Has m := by
  constructor
  · exact (pass_statement (U := (· ∈ unvisitedStatement statement)) display options statement
      fun _ hu => hu).has
  · rintro ⟨u, hu, hm⟩
    exact keeps_statement display options statement u hu m hm

end

end HarborSql.Sql
