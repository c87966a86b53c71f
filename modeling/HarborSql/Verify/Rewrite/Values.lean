import Mathlib.Data.List.GetD
import HarborSql.Verify.Rewrite.Reference

/-! A pass of the rewriter keeps the value of an expression in every row: what Databricks makes of
the expression, DataFusion makes of the rewritten one. -/

namespace HarborSql.Sql

open Mixfix (Shape)

variable {Row : Type}

/-! ## Values of the replaced constructs -/

namespace Datum

/-- The index from 1 that is written for one from 0. -/
def oneBased (overflow : Overflow) : Datum → Datum
  | int index => if index.toInt < 0 then int 0 else overflow.plus index 1
  | _ => null

theorem IsIndex.oneBased {d : Datum} (h : d.IsIndex) (overflow : Overflow) :
    (d.oneBased overflow).IsIndex := by
  cases d with
  | int index =>
    rw [Datum.oneBased]
    split
    · trivial
    · cases overflow with
      | wraps => trivial
      | null =>
        rw [Overflow.plus]
        split <;> trivial
  | _ => trivial

theorem isCondition_lessThan {d d' : Datum} (h : lessThan d (int 0) = some d') :
    d'.IsCondition := by
  unfold lessThan at h
  split at h <;> cases h <;> trivial

/-- What the written `CASE` makes of the index. -/
theorem choose_oneBased (overflow : Overflow) {d : Datum} (h : d.IsIndex) :
    choose (lessThan d (int 0)) (some (int 0)) (plus overflow d (int 1)) =
      some (d.oneBased overflow) := by
  cases d with
  | null => rfl
  | int index =>
    rw [lessThan, choose, Option.bind_some, Datum.oneBased]
    by_cases hneg : index.toInt < 0
    · rw [if_pos hneg]
      simp [hneg]
    · rw [if_neg hneg]
      simp [hneg, plus]
  | _ => cases h

end Datum

/-- A sum of one is the next number, but for the greatest one. -/
theorem toInt_add_one (index : Int64) : (index + 1).toInt = index.toInt + 1 ∨
    index.toInt = 9223372036854775807 ∧ (index + 1).toInt = -9223372036854775808 := by
  have hlo := index.le_toInt
  have hhi := index.toInt_lt
  rw [Int64.toInt_add, show (1 : Int64).toInt = 1 from rfl]
  by_cases hmax : index.toInt = 9223372036854775807
  · rw [hmax]
    exact .inr ⟨rfl, rfl⟩
  · exact .inl (Int.bmod_eq_of_le (by omega) (by omega))

theorem arrayElement_oneBased (overflow : Overflow) {a i : Datum} (ha : a.IsArray)
    (hi : i.IsIndex) :
    arrayElement a (i.oneBased overflow) = getItem a i := by
  cases i with
  | null => cases a <;> rfl
  | int index =>
    cases a with
    | null =>
      have hindex := hi.oneBased overflow
      cases hd : (Datum.int index).oneBased overflow <;> rw [hd] at hindex <;>
        first | rfl | cases hindex
    | array items =>
      rw [Datum.oneBased, getItem]
      have hlength : items.length < 9223372036854775808 := ha
      by_cases hneg : index.toInt < 0
      · rw [if_pos hneg, if_neg (by omega)]
        rfl
      rw [if_neg hneg, if_pos (by omega)]
      rcases toInt_add_one index with hsum | ⟨hmax, hsum⟩
      · have hplus : overflow.plus index 1 = .int (index + 1) := by
          cases overflow with
          | wraps => rfl
          | null => exact if_pos hsum
        rw [hplus, arrayElement, hsum, if_pos (by omega), Int.add_sub_cancel]
      · -- there is no element at the greatest index
        rw [hmax, List.getD_eq_default _ _ (by omega)]
        cases overflow with
        | wraps => rw [Overflow.plus, arrayElement, hsum, if_neg (by decide), if_neg (by omega)]
        | null =>
          rw [Overflow.plus, if_neg]
          · rfl
          · rw [hmax, hsum]
            decide
    | _ => cases ha
  | _ => cases hi

theorem isArray_singleton {d : Datum} : (Datum.array [d]).IsArray :=
  show 1 < 9223372036854775808 by decide

theorem arrayElement_extracts {m k d : Datum} (h : Extracts m k d) :
    d.IsArray ∧ arrayElement d (.int 1) = elementAt m k := by
  cases h with
  | found h =>
    rw [elementAt, h]
    exact ⟨isArray_singleton, rfl⟩
  | absent h =>
    rw [elementAt, h]
    exact ⟨Nat.two_pow_pos 63, rfl⟩
  | absentNull h =>
    rw [elementAt, h]
    exact ⟨isArray_singleton, rfl⟩
  | null => exact ⟨trivial, rfl⟩
  | nullNull => exact ⟨isArray_singleton, rfl⟩

/-- The function that the rewriter writes for `EXTRACT` is exact. -/
theorem extractMinute_eq {d : Datum} (h : d.IsTimestamp) : extractMinute d = minuteOfHour d := by
  cases d with
  | null => rfl
  | timestamp unit value =>
    have hunits : (Int64.ofInt (Minute.unitsPerSecond unit)).toInt =
        Minute.unitsPerSecond unit := by
      cases unit <;> rfl
    rw [extractMinute, Minute.timestampMinute_eq unit hunits]
    have hminute := Minute.minuteOf_mem unit value
    have hint : (Minute.minuteI32 unit value).toInt64 = .ofInt (Minute.minuteOf unit value) := by
      apply Int64.toInt.inj
      rw [Int32.toInt_toInt64, Minute.toInt_minuteI32,
        Int64.toInt_ofInt_of_le (by omega) (by omega)]
    rw [minuteOfHour, ← hint]
  | _ => cases h

/-! ## Expressions that are suited -/

section

variable (S T : Engine Row)

/-- Each field that is read by its name is there, and the other accesses mean the same in both
engines. -/
def AccessesSuited (row : Row) : List AccessExpr → Datum → Prop
  | [], _ => True
  | access :: accessChain, d =>
    (∀ ident, access = .dot (.identifier ident) → d.HasField ident.value) ∧
      ((∀ ident, access ≠ .dot (.identifier ident)) →
        T.access (S.meaning (.accessExpr access)) row d =
          S.access (S.meaning (.accessExpr access)) row d) ∧
      ∀ d' ∈ S.access (S.meaning (.accessExpr access)) row d, AccessesSuited row accessChain d'

/-- The operands of the replaced constructs have the types that these are documented for, no needle
has a backslash, the fast path for `regexp_replace` is exact, and around the same parts all other
tokens mean the same in both engines. -/
structure Suited (e : Expr) : Prop where
  common : (Node.expr e).isFastPath = false →
    T.interpret (Node.expr e).form ((Node.expr e).children.map S.meaning) =
      S.interpret (Node.expr e).form ((Node.expr e).children.map S.meaning)
  ifCall : ∀ function condition result elseResult, e = .function function →
    function.Calls "if" [condition, result, elseResult] →
    ∀ row, ∀ d ∈ S.value condition row, d.IsCondition
  get : ∀ function array index, e = .function function → function.Calls "get" [array, index] →
    ∀ row, (∀ d ∈ S.value array row, d.IsArray) ∧ ∀ d ∈ S.value index row, d.IsIndex
  elementAt : ∀ function map key, e = .function function →
    function.Calls "element_at" [map, key] → ∀ row, ∀ d ∈ S.value map row, d.IsMap
  extractMinute : ∀ field text source, e = .extract field text source →
    field = .minute ∨ field = .minutes → ∀ row, ∀ d ∈ S.value source row, d.IsTimestamp
  accesses : ∀ root accessChain, e = .compoundFieldAccess root accessChain →
    isDatabricksGetArrayExpr root = true →
    ∀ row, ∀ d ∈ S.value root row, AccessesSuited S T row accessChain d
  like : ∀ negated likeExpr pattern needle, e = .like negated false likeExpr pattern none →
    containsNeedleFromLikePattern pattern = some needle → '\\' ∉ needle.toList ∧
      ∀ row, ∀ d ∈ S.value likeExpr row, d.IsText
  capture : ∀ function source pattern captureIndex, e = .function function →
    regexpReplaceCaptureFastPathArgs function = some (source, pattern, captureIndex) →
    ∀ source', T.meaning (.expr source') = S.meaning (.expr source) →
      T.value (regexpReplaceCaptureExpr source' pattern captureIndex) = S.value e

end

variable {S T : Engine Row} {overflow : Overflow}

/-- Around the same parts, a node means the same in both engines. -/
theorem around_form {n : Node} (hplain : n.isFastPath = false)
    (hn : ∀ e, n = .expr e → Suited S T e) :
    T.around n.form (n.children.map S.meaning) = S.around n.form (n.children.map S.meaning) := by
  by_cases hexpr : isExprForm n.form = true
  · obtain ⟨e, rfl⟩ := (isExprForm_form n).mp hexpr
    rw [Engine.around, Engine.around, (hn e rfl).common hplain]
  · rw [Engine.around, Engine.around, if_neg hexpr, if_neg hexpr]

theorem isDatabricks_of_get {e : Expr} (h : isDatabricksGetArrayExpr e = true) :
    (Node.expr e).isDatabricks = true := by
  cases e with
  | function function =>
    have hget : (databricksGetArrayArgs function).isSome = true := h
    rw [Node.isDatabricks, hget, Bool.or_true, Bool.true_or]
  | _ => cases h

theorem exists_has_of_isFastPath {n : Node} (h : n.isFastPath = true) : ∃ m, n.Has m := by
  unfold Node.isFastPath at h
  split at h
  · rename_i root accessChain
    refine ⟨.expr root, isDatabricks_of_get h, .single ?_⟩
    rw [children_compoundFieldAccess]
    exact List.mem_cons_self
  · exact ⟨n, h, .refl⟩

/-- A node without constructs of Databricks means the same in both engines. -/
theorem meaning_of_not_has {n : Node} (hplain : ∀ m, ¬ n.Has m)
    (hn : ∀ e, n.Contains (.expr e) → Suited S T e) : T.meaning n = S.meaning n := by
  induction n using Node.induction with
  | h n ih =>
    have hchildren : n.children.map T.meaning = n.children.map S.meaning := by
      apply List.map_congr_left
      intro c hc
      exact ih c hc (fun m hm => hplain m (.child hc hm)) fun e he => hn e (.head hc he)
    have hfast : n.isFastPath = false := by
      rw [← Bool.not_eq_true]
      intro hfast
      obtain ⟨m, hm⟩ := exists_has_of_isFastPath hfast
      exact hplain m hm
    rw [Engine.meaning_eq, Engine.meaning_eq, hchildren]
    exact around_form hfast fun e he => hn e (he ▸ .refl)

/-! ## Each construct -/

theorem value_of_meaning {e e' : Expr} (h : T.meaning (.expr e') = S.meaning (.expr e))
    (row : Row) :
    T.value e' row = S.value e row := by
  rw [Engine.value, h, Engine.eval_meaning]

theorem meaning_of_value {e e' : Expr} (he : (Node.expr e).children ≠ [])
    (he' : (Node.expr e').children ≠ []) (h : ∀ row, T.value e' row = S.value e row) :
    T.meaning (.expr e') = S.meaning (.expr e) := by
  rw [T.meaning_expr he', S.meaning_expr he, funext h]

/-- The index from 1 that is written. -/
theorem value_indexExpr (hT : DataFusion overflow T) {index : Expr} {row : Row}
    (h : ∀ d ∈ T.value index row, d.IsIndex) :
    T.value (databricksGetArrayIndexExpr index) row =
      (T.value index row).map (Datum.oneBased overflow) := by
  have hzero : ∀ d ∈ T.value (numberExpr "0") row, d.IsIndex := by
    rw [hT.zero]
    rintro _ ⟨⟩
    trivial
  have hone : ∀ d ∈ T.value (numberExpr "1") row, d.IsIndex := by
    rw [hT.one]
    rintro _ ⟨⟩
    trivial
  have hlt : T.value (.binaryOp index .lt (numberExpr "0")) row =
      (T.value index row).bind fun d => lessThan d (.int 0) := by
    rw [T.value_binaryOp, hT.lessThan _ _ _ h hzero, T.eval_meaning, T.eval_meaning, hT.zero]
    rfl
  have hplus : T.value (.binaryOp index .plus (numberExpr "1")) row =
      (T.value index row).bind fun d => plus overflow d (.int 1) := by
    rw [T.value_binaryOp, hT.plus _ _ _ h hone, T.eval_meaning, T.eval_meaning, hT.one]
    rfl
  rw [databricksGetArrayIndexExpr, T.value_case, hT.case, T.eval_meaning, T.eval_meaning,
    T.eval_meaning, hlt, hplus, hT.zero]
  · cases hd : T.value index row with
    | none => rfl
    | some d =>
      rw [hd] at h
      exact Datum.choose_oneBased overflow (h d rfl)
  · rw [T.eval_meaning, hlt]
    intro d hd
    obtain ⟨_, -, hd⟩ := Option.bind_eq_some_iff.mp hd
    exact Datum.isCondition_lessThan hd

theorem value_get (hS : Databricks S) (hT : DataFusion overflow T) {function : Function}
    {array array' index index' : Expr}
    (hcall : function.Calls "get" [array, index])
    (harray : T.meaning (.expr array') = S.meaning (.expr array))
    (hindex : T.meaning (.expr index') = S.meaning (.expr index)) {row : Row}
    (hn : (∀ d ∈ S.value array row, d.IsArray) ∧ ∀ d ∈ S.value index row, d.IsIndex) :
    T.value (databricksGetArrayExpr array' index') row = S.value (.function function) row := by
  have hindexValue := value_of_meaning hindex row
  obtain ⟨ident, hident, hvalue⟩ : ∃ ident, _ ∧ ∀ (engine : Engine Row) row, _ :=
    Engine.value_call hcall
  have hone := value_indexExpr hT (hindexValue ▸ hn.2)
  rw [hvalue, List.map_cons, List.map_cons, List.map_nil, hS.get _ _ _ _ hident hn.1 hn.2]
  rw [databricksGetArrayExpr, arrayElementExpr, T.value_functionExpr, List.map_cons, List.map_cons,
    List.map_nil, harray, hT.arrayElement _ _ _ hn.1]
  · rw [T.eval_meaning, S.eval_meaning, S.eval_meaning, hone, hindexValue]
    cases ha : S.value array row with
    | none => rfl
    | some a =>
      cases hi : S.value index row with
      | none => rfl
      | some i => exact arrayElement_oneBased overflow (hn.1 a ha) (hn.2 i hi)
  · rw [T.eval_meaning, hone, hindexValue]
    intro d hd
    obtain ⟨i, hi, rfl⟩ := Option.map_eq_some_iff.mp hd
    exact (hn.2 i hi).oneBased overflow

theorem value_elementAt (hS : Databricks S) (hT : DataFusion overflow T) {function : Function}
    {map map' key key' : Expr}
    (hcall : function.Calls "element_at" [map, key])
    (hmap : T.meaning (.expr map') = S.meaning (.expr map))
    (hkey : T.meaning (.expr key') = S.meaning (.expr key)) {row : Row}
    (hn : ∀ d ∈ S.value map row, d.IsMap) :
    T.value (databricksElementAtMapExpr map' key') row = S.value (.function function) row := by
  have hmapValue := value_of_meaning hmap row
  have hkeyValue := value_of_meaning hkey row
  obtain ⟨ident, hident, hvalue⟩ : ∃ ident, _ ∧ ∀ (engine : Engine Row) row, _ :=
    Engine.value_call hcall
  obtain ⟨hfails, hextracts⟩ := hT.mapExtract (T.meaning (.expr map')) (T.meaning (.expr key')) row
    (hmap ▸ hn)
  have hextract : T.value (mapExtractExpr map' key') row = T.call
      ⟨[.identifier (.new "map_extract")]⟩ [T.meaning (.expr map'), T.meaning (.expr key')] row :=
    T.value_functionExpr ..
  rw [← hextract, T.eval_meaning, T.eval_meaning, hmapValue, hkeyValue] at hfails hextracts
  rw [hvalue, List.map_cons, List.map_cons, List.map_nil, hS.elementAt _ _ _ _ hident hn]
  rw [databricksElementAtMapExpr, arrayElementExpr, T.value_functionExpr, List.map_cons,
    List.map_cons, List.map_nil, hT.arrayElement]
  · rw [T.eval_meaning, T.eval_meaning, S.eval_meaning, S.eval_meaning, hT.one]
    cases hm : S.value map row with
    | none => rw [hfails.mpr (.inl hm), Option.bind_none, Option.bind_none]
    | some m =>
      cases hk : S.value key row with
      | none => rw [hfails.mpr (.inr hk), Option.bind_none, Option.bind_some, Option.bind_none]
      | some k =>
        obtain ⟨d, hd⟩ : ∃ d, T.value (mapExtractExpr map' key') row = some d := by
          rw [← Option.ne_none_iff_exists', Ne, hfails, hm, hk]
          simp
        rw [hd]
        exact (arrayElement_extracts (hextracts m hm k hk d hd)).2
  · rw [T.eval_meaning]
    intro d hd
    obtain ⟨m, hm⟩ : ∃ m, S.value map row = some m := by
      rw [← Option.ne_none_iff_exists']
      exact fun hm => Option.some_ne_none _ (hd.symm.trans (hfails.mpr (.inl hm)))
    obtain ⟨k, hk⟩ : ∃ k, S.value key row = some k := by
      rw [← Option.ne_none_iff_exists']
      exact fun hk => Option.some_ne_none _ (hd.symm.trans (hfails.mpr (.inr hk)))
    exact (arrayElement_extracts (hextracts m hm k hk d hd)).1
  · rw [T.eval_meaning, hT.one]
    rintro _ ⟨⟩
    trivial

theorem value_ifCall (hS : Databricks S) (hT : DataFusion overflow T) {function : Function}
    {condition condition' result result' elseResult elseResult' : Expr}
    (hcall : function.Calls "if" [condition, result, elseResult])
    (hcondition : T.meaning (.expr condition') = S.meaning (.expr condition))
    (hresult : T.meaning (.expr result') = S.meaning (.expr result))
    (helse : T.meaning (.expr elseResult') = S.meaning (.expr elseResult)) {row : Row}
    (hn : ∀ d ∈ S.value condition row, d.IsCondition) :
    T.value (.case none [.mk condition' result'] (some elseResult')) row =
      S.value (.function function) row := by
  obtain ⟨ident, hident, hvalue⟩ : ∃ ident, _ ∧ ∀ (engine : Engine Row) row, _ :=
    Engine.value_call hcall
  rw [hvalue, List.map_cons, List.map_cons, List.map_cons, List.map_nil,
    hS.ifCall _ _ _ _ _ hident hn, T.value_case, hT.case, hcondition, hresult, helse]
  rw [hcondition]
  exact hn

theorem value_extractMinute (hS : Databricks S) (hT : DataFusion overflow T)
    {field : DateTimeField} {text : String} {source source' : Expr}
    (hfield : field = .minute ∨ field = .minutes)
    (hsource : T.meaning (.expr source') = S.meaning (.expr source)) {row : Row}
    (hn : ∀ d ∈ S.value source row, d.IsTimestamp) :
    T.value (extractMinuteExpr source') row = S.value (.extract field text source) row := by
  rw [extractMinuteExpr, T.value_functionExpr, List.map_cons, List.map_nil, hsource,
    hT.extractMinute _ _ hn, S.eval_meaning]
  have hextract : S.value (.extract field text source) row =
      (S.value source row).bind minuteOfHour :=
    (S.value_eq _ _).trans (hS.extractMinute _ _ _ _ hfield hn)
  rw [hextract]
  cases hd : S.value source row with
  | none => rfl
  | some d => exact extractMinute_eq (hn d hd)

theorem value_not (hT : DataFusion overflow T) {operand : Expr} {row : Row}
    (h : ∀ d ∈ T.value operand row, d.IsCondition) :
    T.value (.unaryOp .not operand) row = (T.value operand row).bind negate :=
  (T.value_eq _ _).trans (hT.not _ _ h)

theorem value_contains (hT : DataFusion overflow T) {haystack : Expr} {needle : String}
    {negated : Bool} {row : Row} (h : ∀ d ∈ T.value haystack row, d.IsText) :
    T.value (containsExpr haystack needle negated) row =
      (T.value haystack row).bind fun d =>
        (containsLiteral needle d).bind fun d => if negated then negate d else some d := by
  have hcontains : T.value (functionExpr "contains" [haystack, singleQuotedStringExpr needle]) row =
      (T.value haystack row).bind (containsLiteral needle) :=
    (T.value_functionExpr _ _ _).trans (hT.contains _ _ _ h)
  cases negated with
  | false =>
    refine hcontains.trans (congrArg _ (funext fun d => ?_))
    cases containsLiteral needle d <;> rfl
  | true =>
    refine (value_not hT ?_).trans ?_
    · rw [hcontains]
      intro d hd
      obtain ⟨d', hd', hd⟩ := Option.bind_eq_some_iff.mp hd
      cases d' <;> cases hd <;> trivial
    · rw [hcontains, Option.bind_assoc]
      rfl

theorem value_like (hS : Databricks S) (hT : DataFusion overflow T) {negated : Bool}
    {likeExpr likeExpr' pattern : Expr} {needle : String}
    (hneedle : containsNeedleFromLikePattern pattern = some needle) (hescape : '\\' ∉ needle.toList)
    (hlike : T.meaning (.expr likeExpr') = S.meaning (.expr likeExpr)) {row : Row}
    (hn : ∀ d ∈ S.value likeExpr row, d.IsText) :
    T.value (containsExpr likeExpr' needle negated) row =
      S.value (.like negated false likeExpr pattern none) row := by
  obtain ⟨value, hvalue, hlist, hany, hone⟩ := containsNeedleFromLikePattern_eq_some.mp hneedle
  have hlikeValue := value_of_meaning hlike row
  have hleft : S.value (.like negated false likeExpr pattern none) row =
      (S.value likeExpr row).bind (likeLiteral negated value) :=
    (S.value_eq _ _).trans (hS.like _ _ _ _ _ hvalue hn)
  rw [hleft, value_contains hT (hlikeValue ▸ hn), hlikeValue]
  refine congrArg _ (funext fun d => ?_)
  cases d with
  | text text =>
    rw [likeLiteral, like_eq_contains hlist hany hone hescape, containsLiteral, Option.bind_some]
    cases negated with
    | false => rw [Bool.xor_false]; rfl
    | true => rw [Bool.xor_true]; rfl
  | null => cases negated <;> rfl
  | _ => rfl

/-- Each access means the same after a `get`, where a field that is read by its name is turned into
a subscript. -/
theorem accesses_eq (hS : Databricks S) (hT : DataFusion overflow T)
    {accessChain accessChain' : List AccessExpr} (hlen : accessChain.length = accessChain'.length)
    (hfields : ∀ p ∈ accessChain.zip accessChain', ∀ ident, p.1 = .dot (.identifier ident) →
      p.2 = .index (singleQuotedStringExpr ident.value))
    (hothers : ∀ p ∈ accessChain.zip accessChain', (∀ ident, p.1 ≠ .dot (.identifier ident)) →
      T.meaning (.accessExpr p.2) = S.meaning (.accessExpr p.1)) {row : Row} {d : Datum}
    (hn : AccessesSuited S T row accessChain d) :
    T.accesses (accessChain'.map fun access => T.meaning (.accessExpr access)) row d =
      S.accesses (accessChain.map fun access => S.meaning (.accessExpr access)) row d := by
  induction accessChain generalizing accessChain' d with
  | nil =>
    obtain rfl := List.length_eq_zero_iff.mp hlen.symm
    rfl
  | cons access accessChain ih =>
    rcases accessChain' with _ | ⟨access', accessChain'⟩
    · cases hlen
    obtain ⟨hfield, hother, hrest⟩ := hn
    have haccess : T.access (T.meaning (.accessExpr access')) row d =
        S.access (S.meaning (.accessExpr access)) row d := by
      by_cases hdot : ∃ ident, access = .dot (.identifier ident)
      · obtain ⟨ident, rfl⟩ := hdot
        obtain rfl := hfields _ List.mem_cons_self ident rfl
        rw [hT.subscript _ _ _ (hfield ident rfl), hS.dot _ _ _ (hfield ident rfl)]
      · have hne : ∀ ident, access ≠ .dot (.identifier ident) := fun ident heq => hdot ⟨ident, heq⟩
        rw [hothers _ List.mem_cons_self hne, hother hne]
    rw [List.map_cons, List.map_cons, Engine.accesses, Engine.accesses, List.foldlM_cons,
      List.foldlM_cons, haccess]
    cases hd : S.access (S.meaning (.accessExpr access)) row d with
    | none => rfl
    | some d' =>
      exact ih (Nat.succ.inj hlen) (fun p hp => hfields p (List.mem_cons_of_mem _ hp))
        (fun p hp => hothers p (List.mem_cons_of_mem _ hp)) (hrest d' hd)

theorem value_getFields (hS : Databricks S) (hT : DataFusion overflow T) {root root' : Expr}
    {accessChain accessChain' : List AccessExpr}
    (hroot : T.meaning (.expr root') = S.meaning (.expr root))
    (hlen : accessChain.length = accessChain'.length)
    (hfields : ∀ p ∈ accessChain.zip accessChain', ∀ ident, p.1 = .dot (.identifier ident) →
      p.2 = .index (singleQuotedStringExpr ident.value))
    (hothers : ∀ p ∈ accessChain.zip accessChain', (∀ ident, p.1 ≠ .dot (.identifier ident)) →
      T.meaning (.accessExpr p.2) = S.meaning (.accessExpr p.1)) {row : Row}
    (hn : ∀ d ∈ S.value root row, AccessesSuited S T row accessChain d) :
    T.value (.compoundFieldAccess root' accessChain') row =
      S.value (.compoundFieldAccess root accessChain) row := by
  have haccesses := hT.accesses (T.meaning (.expr root'))
    (accessChain'.map fun access => T.meaning (.accessExpr access)) row
  have haccesses' := hS.accesses (S.meaning (.expr root))
    (accessChain.map fun access => S.meaning (.accessExpr access)) row
  rw [List.map_map] at haccesses haccesses'
  rw [T.value_compoundFieldAccess, S.value_compoundFieldAccess]
  refine haccesses.trans (Eq.trans ?_ haccesses'.symm)
  rw [hroot, S.eval_meaning]
  cases hd : S.value root row with
  | none => rfl
  | some d => exact accesses_eq hS hT hlen hfields hothers (hn d hd)

/-! ## A pass -/

theorem map_meaning_eq {parts parts' : List Node} (hlen : parts.length = parts'.length)
    (h : ∀ p ∈ parts.zip parts', T.meaning p.2 = S.meaning p.1) :
    parts'.map T.meaning = parts.map S.meaning := by
  refine List.ext_getElem (by simp [hlen]) fun i hi hi' => ?_
  rw [List.length_map] at hi hi'
  rw [List.getElem_map, List.getElem_map]
  have hmem : (parts[i], parts'[i]) ∈ parts.zip parts' := by
    rw [← List.getElem_zip (h := by rw [List.length_zip]; omega)]
    exact List.getElem_mem _
  exact h _ hmem

/-- A pass over suited expressions keeps the meaning of the node. -/
theorem Pass.meaning {U : Node → Prop} (hS : Databricks S) (hT : DataFusion overflow T)
    (hU : ∀ u, U u → ∀ m, ¬ u.Has m) {n n' : Node} (h : Pass U False n n')
    (hn : ∀ e, n.Contains (.expr e) → Suited S T e) : T.meaning n' = S.meaning n := by
  induction h with
  | kept hu => exact meaning_of_not_has (hU _ hu) hn
  | @within n n' hform hplain _ _ ih =>
    have hparts : n'.children.map T.meaning = n.children.map S.meaning :=
      map_meaning_eq hform.length_children fun p hp =>
        ih p hp fun e he => hn e (.head (List.of_mem_zip hp).1 he)
    rw [Engine.meaning_eq, Engine.meaning_eq, hparts, ← hform]
    exact around_form hplain fun e he => hn e (he ▸ .refl)
  | @extractMinute field text source hfield hu =>
    have hsource : T.meaning (.expr source) = S.meaning (.expr source) :=
      meaning_of_not_has (hU _ hu) fun e he => hn e (.head List.mem_cons_self he)
    refine meaning_of_value (List.cons_ne_nil _ _) (List.cons_ne_nil _ _) fun row => ?_
    exact value_extractMinute hS hT hfield hsource
      ((hn _ .refl).extractMinute _ _ _ rfl hfield row)
  | @contains negated likeExpr pattern needle hneedle hu =>
    have hlike : T.meaning (.expr likeExpr) = S.meaning (.expr likeExpr) :=
      meaning_of_not_has (hU _ hu) fun e he => hn e (.head List.mem_cons_self he)
    refine meaning_of_value (List.cons_ne_nil _ _) (by cases negated <;> exact List.cons_ne_nil _ _)
      fun row => ?_
    obtain ⟨hescape, htext⟩ := (hn _ .refl).like _ _ _ _ rfl hneedle
    exact value_like hS hT hneedle hescape hlike (htext row)
  | @ifCall function condition _ result _ elseResult _ hif _ _ _ ihcondition ihresult ihelse =>
    obtain ⟨_, _, _, hcall, heq⟩ := databricksIfExpr_eq_some.mp hif
    cases heq
    have hargs := fun e he => contains_arg hcall (e := e) he
    have hcondition := ihcondition fun e he => hn e ((hargs condition (by simp)).trans he)
    have hresult := ihresult fun e he => hn e ((hargs result (by simp)).trans he)
    have helse := ihelse fun e he => hn e ((hargs elseResult (by simp)).trans he)
    refine meaning_of_value (List.cons_ne_nil _ _) (List.cons_ne_nil _ _) fun row => ?_
    exact value_ifCall hS hT hcall hcondition hresult helse
      ((hn _ .refl).ifCall _ _ _ _ rfl hcall row)
  | @get function array _ index _ hget _ _ iharray ihindex =>
    have hcall := databricksGetArrayArgs_eq_some.mp hget
    have hargs := fun e he => contains_arg hcall (e := e) he
    have harray := iharray fun e he => hn e ((hargs array (by simp)).trans he)
    have hindex := ihindex fun e he => hn e ((hargs index (by simp)).trans he)
    refine meaning_of_value (List.cons_ne_nil _ _) (List.cons_ne_nil _ _) fun row => ?_
    exact value_get hS hT hcall harray hindex ((hn _ .refl).get _ _ _ rfl hcall row)
  | @elementAt function map _ key _ hmap _ _ ihmap ihkey =>
    have hcall := databricksElementAtMapArgs_eq_some.mp hmap
    have hargs := fun e he => contains_arg hcall (e := e) he
    have hmap := ihmap fun e he => hn e ((hargs map (by simp)).trans he)
    have hkey := ihkey fun e he => hn e ((hargs key (by simp)).trans he)
    refine meaning_of_value (List.cons_ne_nil _ _) (List.cons_ne_nil _ _) fun row => ?_
    exact value_elementAt hS hT hcall hmap hkey ((hn _ .refl).elementAt _ _ _ rfl hcall row)
  | @capture function source _ pattern captureIndex hcapture _ ih =>
    obtain ⟨_, _, _, hcall, -⟩ := regexpReplaceCaptureFastPathArgs_eq_some.mp hcapture
    have hsource := ih fun e he => hn e ((contains_arg hcall List.mem_cons_self).trans he)
    refine meaning_of_value (List.cons_ne_nil _ _) (List.cons_ne_nil _ _) fun row => ?_
    rw [(hn _ .refl).capture _ _ _ _ rfl hcapture _ hsource]
  | @getFields root _ accessChain _ hget _ hlen hfields _ ihroot ihchain =>
    have hchild : ∀ c ∈ Node.expr root :: accessChain.map .accessExpr,
        c ∈ (Node.expr (.compoundFieldAccess root accessChain)).children := by
      intro c hc
      rw [children_compoundFieldAccess]
      exact hc
    have hroot := ihroot fun e he => hn e (.head (hchild _ List.mem_cons_self) he)
    refine meaning_of_value ?_ ?_ fun row => ?_
    · rw [children_compoundFieldAccess]
      exact List.cons_ne_nil _ _
    · rw [children_compoundFieldAccess]
      exact List.cons_ne_nil _ _
    · refine value_getFields hS hT hroot hlen hfields ?_ ((hn _ .refl).accesses _ _ rfl hget row)
      intro p hp hne
      have hmem := List.mem_map_of_mem (f := Node.accessExpr) (List.of_mem_zip hp).1
      exact ihchain p hp hne fun e he => hn e (.head (hchild _ (List.mem_cons_of_mem _ hmem)) he)
  | aliased haliasing => exact haliasing.elim

/-! ## The result -/

/-- The rewritten expression has in DataFusion the value, in every row, that the expression has in
Databricks. -/
theorem rewriterPreserves (hS : Databricks S) (hT : DataFusion overflow T) (e : Expr)
    (hunvisited : ∀ u ∈ unvisited e, ∀ m, ¬ u.Has m)
    (hsuited : ∀ e', (Node.expr e).Contains (.expr e') → Suited S T e') (row : Row) :
    T.value (rewriteExprFastPaths e).1 row = S.value e row :=
  value_of_meaning (Pass.meaning hS hT hunvisited (pass_expr e fun _ hu => hu) hsuited) row

/-! ### An expression -/

theorem contains_of_leaf {n m : Node} (hchildren : n.children = []) (h : n.Contains m) : n = m := by
  rcases Node.contains_iff.mp h with h | ⟨c, hc, -⟩
  · exact h
  · rw [hchildren] at hc
    cases hc

theorem contains_of_part {n : Node} {e : Expr} (hn : isExprForm n.form = false)
    (h : n.Contains (.expr e)) : ∃ c ∈ n.children, c.Contains (.expr e) := by
  refine (Node.contains_iff.mp h).resolve_left fun heq => ?_
  rw [(isExprForm_form n).mpr ⟨e, heq⟩] at hn
  cases hn

/-- An expression that stands in a call is the call or stands in an argument. -/
theorem contains_functionExpr {name : String} {args : List Expr} {e : Expr}
    (h : (Node.expr (functionExpr name args)).Contains (.expr e)) :
    functionExpr name args = e ∨ ∃ a ∈ args, (Node.expr a).Contains (.expr e) := by
  rcases Node.contains_iff.mp h with h | ⟨c, hc, h⟩
  · exact .inl (Node.expr.inj h)
  obtain rfl := List.mem_singleton.mp hc
  obtain ⟨c, hc, h⟩ := contains_of_part rfl h
  rcases List.mem_cons.mp hc with rfl | hc
  · cases contains_of_leaf rfl h
  obtain rfl := List.mem_singleton.mp hc
  obtain ⟨c, hc, h⟩ := contains_of_part rfl h
  rw [children_bracket rfl, Node.exprs, List.map_nil, List.append_nil, List.map_map] at hc
  obtain ⟨a, ha, rfl⟩ := List.mem_map.mp hc
  obtain ⟨c, hc, h⟩ := contains_of_part rfl h
  obtain rfl := List.mem_singleton.mp hc
  obtain ⟨c, hc, h⟩ := contains_of_part rfl h
  obtain rfl := List.mem_singleton.mp hc
  exact .inr ⟨a, ha, h⟩

theorem suited_identifier (column : String → Row → Datum) (ident : Ident) :
    Suited (reference true column) (reference false column) (.identifier ident) where
  common _ := rfl
  ifCall _ _ _ _ h := nomatch h
  get _ _ _ h := nomatch h
  elementAt _ _ _ h := nomatch h
  extractMinute _ _ _ h := nomatch h
  accesses _ _ h := nomatch h
  like _ _ _ _ h := nomatch h
  capture _ _ _ _ h := nomatch h

/-- An array of a struct and `NULL`, and an index. -/
def itemsColumn (name : String) (index : Int64) : Datum :=
  if name = "items" then .array [.struct [("name", .text "a")], .null] else .int index

def getItems : Expr := functionExpr "get" [.identifier (.new "items"), .identifier (.new "i")]

def getItemsName : Expr := .compoundFieldAccess getItems [.dot (.identifier (.new "name"))]

theorem value_identifier (databricks : Bool) (column : String → Row → Datum) (ident : Ident)
    (row : Row) :
    (reference databricks column).value (.identifier ident) row = some (column ident.value row) :=
  Engine.value_eq ..

theorem value_getItems (index : Int64) : (reference true itemsColumn).value getItems index =
    getItem (.array [.struct [("name", .text "a")], .null]) (.int index) := by
  rw [getItems, Engine.value_functionExpr, call_reference]
  change (Engine.value _ (.identifier (.new "items")) index).bind (fun d =>
    (Engine.value _ (.identifier (.new "i")) index).bind (getItem d)) = _
  rw [value_identifier, value_identifier]
  rfl

theorem suited_getItems :
    Suited (reference true itemsColumn) (reference false itemsColumn) getItems where
  common h := by
    have hget := isDatabricks_of_get (e := getItems) rfl
    cases hget.symm.trans h
  ifCall _ _ _ _ h hcall := by
    cases h
    exact absurd hcall (not_calls_plain (by decide))
  get _ array index h hcall row := by
    cases h
    rw [Function.Calls, plainFunctionArgs_plain, if_pos (eqIgnoreAsciiCase_self _)] at hcall
    simp only [List.map_cons, List.map_nil, Option.some.injEq, List.cons.injEq,
      FunctionArg.unnamed.injEq, FunctionArgExpr.expr.injEq, and_true] at hcall
    obtain ⟨rfl, rfl⟩ := hcall
    rw [value_identifier, value_identifier]
    constructor
    · rintro _ ⟨⟩
      exact show 2 < 9223372036854775808 by decide
    · rintro _ ⟨⟩
      trivial
  elementAt _ _ _ h hcall := by
    cases h
    exact absurd hcall (not_calls_plain (by decide))
  extractMinute _ _ _ h := nomatch h
  accesses _ _ h := nomatch h
  like _ _ _ _ h := nomatch h
  capture _ _ _ _ h hcapture := by
    cases h
    obtain ⟨_, _, _, hcall, -⟩ := regexpReplaceCaptureFastPathArgs_eq_some.mp hcapture
    exact absurd hcall (not_calls_plain (by decide))

theorem hasField_items (n : Nat) :
    ([.struct [("name", .text "a")], .null].getD n .null : Datum).HasField "name" := by
  rcases n with _ | _ | n
  · rfl
  · trivial
  · trivial

theorem suited_getItemsName :
    Suited (reference true itemsColumn) (reference false itemsColumn) getItemsName where
  common h := nomatch h
  ifCall _ _ _ _ h := nomatch h
  get _ _ _ h := nomatch h
  elementAt _ _ _ h := nomatch h
  extractMinute _ _ _ h := nomatch h
  accesses _ _ h _ row d hd := by
    cases h
    rw [value_getItems] at hd
    obtain rfl := Option.some.inj hd
    refine ⟨fun ident hident => ?_, fun hne => absurd rfl (hne _), fun _ _ => trivial⟩
    cases hident
    split
    · exact hasField_items _
    · trivial
  like _ _ _ _ h := nomatch h
  capture _ _ _ _ h := nomatch h

theorem value_getItemsName :
    (reference true itemsColumn).value getItemsName 0 = some (.text "a") := by
  have haccesses := (databricks_reference itemsColumn).accesses
    ((reference true itemsColumn).meaning (.expr getItems))
    [(reference true itemsColumn).meaning (.accessExpr (.dot (.identifier (.new "name"))))] 0
  refine (Engine.value_compoundFieldAccess ..).trans (haccesses.trans ?_)
  rw [Engine.eval_meaning, value_getItems]
  change Engine.accesses _ _ _ (Datum.struct [("name", .text "a")]) = _
  rw [Engine.accesses, List.foldlM_cons, (databricks_reference itemsColumn).dot (.new "name") 0
    (.struct [("name", .text "a")]) rfl]
  rfl

/-- The name of the item 0. -/
theorem rewriterPreserves_getItemsName :
    (reference false itemsColumn).value (rewriteExprFastPaths getItemsName).1 0 =
      some (.text "a") := by
  rw [← value_getItemsName]
  refine rewriterPreserves (databricks_reference _) (dataFusion_reference _) getItemsName ?_ ?_ 0
  · have hunvisited : unvisited getItemsName = [.arguments .none] := by rfl
    rw [hunvisited]
    intro u hu m hm
    obtain rfl := List.mem_singleton.mp hu
    exact not_has_leaf rfl rfl hm
  · intro e he
    rcases Node.contains_iff.mp he with he | ⟨c, hc, he⟩
    · exact Node.expr.inj he ▸ suited_getItemsName
    rw [getItemsName, children_compoundFieldAccess] at hc
    rcases List.mem_cons.mp hc with rfl | hc
    · rcases contains_functionExpr he with rfl | ⟨a, ha, he⟩
      · exact suited_getItems
      · rcases List.mem_pair.mp ha with rfl | rfl <;> cases contains_of_leaf rfl he <;>
          exact suited_identifier _ _
    · obtain rfl := List.mem_singleton.mp hc
      obtain ⟨c, hc, he⟩ := contains_of_part rfl he
      obtain rfl := List.mem_singleton.mp hc
      cases contains_of_leaf rfl he
      exact suited_identifier _ _

end HarborSql.Sql
