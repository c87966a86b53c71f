import HarborSql.Verify.Rewrite.Semantics

/-! Two engines that are as documented: one that calls the functions of Databricks, and one that
calls those of DataFusion. -/

namespace HarborSql.Sql

open Mixfix (Shape)

variable {Row : Type}

variable (databricks : Bool) (column : String → Row → Datum)

def literalDatum : Value → Option Datum
  | .number value _ => (parseU64 value.toList).map fun n => .int (.ofNat n)
  | .singleQuotedString value | .escapedStringLiteral value | .doubleQuotedString value =>
    some (.text value)
  | .boolean value => some (.boolean value)
  | .null => some .null
  | .other _ => none

def operand : Meaning Row → Meaning Row
  | .part _ [.part _ [m]] => m
  | m => m

/-- The literal that an expression is. -/
def Meaning.literal : Meaning Row → Option String
  | .value (some (.node (.value v) ..)) _ => stringLiteralValue (.value v)
  | _ => none

def referenceAccess : Meaning Row → Row → Datum → Option Datum
  | .part (.node .dot ..) [.value (some (.node (.identifier ident) ..)) _], _, d =>
    d.field ident.value
  | .part (.node .index ..) [m], _, d => m.literal.bind d.field
  | _, _, _ => none

def databricksCall (name : String) (args : List (Meaning Row)) (row : Row) : Option Datum :=
  match args with
  | [condition, result, elseResult] =>
    if eqIgnoreAsciiCase name "if" then
      choose (condition.eval row) (result.eval row) (elseResult.eval row)
    else none
  | [left, right] =>
    if eqIgnoreAsciiCase name "get" then
      (left.eval row).bind fun d => (right.eval row).bind (getItem d)
    else if eqIgnoreAsciiCase name "element_at" then
      (left.eval row).bind fun d => (right.eval row).bind (elementAt d)
    else none
  | _ => none

def mapExtract : Datum → Datum → Option Datum
  | .map entries, key => some (.array [(entries.lookup key).getD .null])
  | .null, _ => some .null
  | _, _ => none

theorem extracts_mapExtract {m : Datum} (h : m.IsMap) (k : Datum) :
    ∃ d, mapExtract m k = some d ∧ Extracts m k d := by
  cases m with
  | null => exact ⟨.null, rfl, .null⟩
  | map entries =>
    refine ⟨_, rfl, ?_⟩
    cases hlookup : entries.lookup k with
    | none => exact .absentNull hlookup
    | some d => exact .found hlookup
  | _ => cases h

def dataFusionCall (name : String) (args : List (Meaning Row)) (row : Row) : Option Datum :=
  match args with
  | [source] => if name = extractMinuteUdf then (source.eval row).bind extractMinute else none
  | [left, right] =>
    if name = "contains" then
      right.literal.bind fun needle => (left.eval row).bind (containsLiteral needle)
    else (left.eval row).bind fun d => (right.eval row).bind fun d' =>
      if name = "array_element" then arrayElement d d'
      else if name = "map_extract" then mapExtract d d'
      else none
  | _ => none

def referenceInterpret : Kind → List (Meaning Row) → Row → Option Datum
  | .identifier ident, [], row => some (column ident.value row)
  | .value value, [], _ => literalDatum value
  | .binaryOp .lt, [left, right], row =>
    (left.eval row).bind fun d => (right.eval row).bind (lessThan d)
  | .binaryOp .plus, [left, right], row =>
    (left.eval row).bind fun d => (right.eval row).bind (plus .wraps d)
  | .unaryOp .not, [m], row => (m.eval row).bind negate
  | .like negated false none, [m, pattern], row =>
    pattern.literal.bind fun pattern => (m.eval row).bind (likeLiteral negated pattern)
  | .extract .minute _, [source], row | .extract .minutes _, [source], row =>
    (source.eval row).bind minuteOfHour
  | .case false true, [.part _ [condition, result], elseResult], row =>
    choose (condition.eval row) (result.eval row) (elseResult.eval row)
  | .compoundFieldAccess, root :: accessChain, row => (root.eval row).bind fun d =>
    accessChain.foldlM (fun d access => referenceAccess access row d) d
  | .functionExpr, [.part (.node (.function ⟨[.identifier ident]⟩ ..) ..) [_, .part _ args]], row =>
    if databricks then databricksCall ident.value (args.map operand) row
    else dataFusionCall ident.value (args.map operand) row
  | _, _, _ => none

/-- An engine with the documented constructs and columns of given names, which calls the functions
of Databricks, or those of DataFusion. -/
def reference : Engine Row where
  interpret
    | .nested _, parts, row => parts.head?.bind (·.eval row)
    | .node kind .., parts, row => referenceInterpret databricks column kind parts row
  access := referenceAccess

theorem literal_meaning {engine : Engine Row} {pattern : Expr} {value : String}
    (h : stringLiteralValue pattern = some value) :
    (engine.meaning (.expr pattern)).literal = some value := by
  cases pattern with
  | value v =>
    rw [Engine.meaning_eq]
    refine Eq.trans ?_ h
    rfl
  | _ => cases h

theorem map_operand (args : List (Meaning Row)) :
    (args.map fun arg => Meaning.part (.node .unnamedArg none [()] none)
      [.part (.node .argExpr none [()] none) [arg]]).map operand = args := by
  rw [List.map_map]
  exact List.map_id'' (fun _ => rfl) args

theorem call_reference (ident : Ident) (args : List (Meaning Row)) (row : Row) :
    (reference databricks column).call ⟨[.identifier ident]⟩ args row =
      if databricks then databricksCall ident.value args row
      else dataFusionCall ident.value args row := by
  have hcall : (reference databricks column).call ⟨[.identifier ident]⟩ args row =
      if databricks then databricksCall ident.value ((args.map fun arg =>
          Meaning.part (.node .unnamedArg none [()] none)
            [.part (.node .argExpr none [()] none) [arg]]).map operand) row
      else dataFusionCall ident.value ((args.map fun arg =>
          Meaning.part (.node .unnamedArg none [()] none)
            [.part (.node .argExpr none [()] none) [arg]]).map operand) row := rfl
  rw [hcall, map_operand]

theorem not_get_of_element_at {name : String} (h : eqIgnoreAsciiCase name "element_at" = true) :
    eqIgnoreAsciiCase name "get" = false := by
  rw [eqIgnoreAsciiCase, beq_iff_eq] at h
  rw [eqIgnoreAsciiCase, h]
  decide

theorem databricks_reference : Databricks (reference true column) where
  ifCall _ _ _ _ _ hident _ := (call_reference true column _ _ _).trans (if_pos hident)
  get _ _ _ _ hident _ _ := (call_reference true column _ _ _).trans (if_pos hident)
  elementAt _ _ _ _ hident _ := by
    refine (call_reference true column _ _ _).trans ?_
    rw [if_pos rfl, databricksCall, if_neg (by rw [not_get_of_element_at hident]; decide),
      if_pos hident]
  extractMinute _ _ _ _ hfield _ := by
    rcases hfield with rfl | rfl <;> rfl
  like _ _ _ _ _ hvalue _ := by
    refine Eq.trans (congrArg (fun literal => Option.bind literal _) (literal_meaning hvalue)) ?_
    rfl
  accesses _ _ _ := rfl
  dot ident row d _ := by
    rw [Engine.meaning_of_not_expr _ rfl, children_bracket rfl, List.map_cons, Engine.meaning_eq]
    rfl

theorem dataFusion_reference : DataFusion .wraps (reference false column) where
  zero row := by
    rw [Engine.value_eq]
    have hparse : parseU64 "0".toList = some 0 := by decide
    exact congrArg (Option.map fun n => Datum.int (.ofNat n)) hparse
  one row := by
    rw [Engine.value_eq]
    have hparse : parseU64 "1".toList = some 1 := by decide
    exact congrArg (Option.map fun n => Datum.int (.ofNat n)) hparse
  lessThan _ _ _ _ _ := rfl
  plus _ _ _ _ _ := rfl
  case _ _ _ _ _ := rfl
  arrayElement _ _ _ _ _ := (call_reference false column _ _ _)
  mapExtract map key row hmap := by
    have hcall : (reference false column).call ⟨[.identifier (.new "map_extract")]⟩ [map, key] row =
        (map.eval row).bind fun m => (key.eval row).bind (mapExtract m) :=
      call_reference false column _ _ _
    rw [hcall]
    cases hm : map.eval row with
    | none => simp
    | some m =>
      have hmap := hmap m hm
      cases hk : key.eval row with
      | none => simp
      | some k =>
        obtain ⟨d, hd, hextracts⟩ := extracts_mapExtract hmap k
        simp [hd, hextracts]
  extractMinute _ _ _ := call_reference false column _ _ _
  contains haystack needle row _ := by
    refine (call_reference false column _ _ _).trans ?_
    exact congrArg (fun literal => Option.bind literal _) (literal_meaning rfl)
  not _ _ _ := rfl
  accesses _ _ _ := rfl
  subscript name row d _ := by
    rw [Engine.meaning_of_not_expr _ rfl, children_bracket rfl, List.map_cons]
    exact congrArg (fun literal => Option.bind literal _) (literal_meaning rfl)

end HarborSql.Sql
