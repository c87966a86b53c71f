import HarborSql.Error
import HarborSql.Sql.Ast

/-! What `engine.rs` does with a statement before it is planned, and with the errors of planning and
execution. -/

namespace HarborSql

/-! ## Errors that went through DataFusion -/

/-- An error behind `dyn Error`, with its `source()`. -/
inductive DynError where
  | harbor (error : HarborError) (source : Option DynError)
  | other (text : String) (source : Option DynError)

/-- A `DataFusionError`, by its text and its `source()`. -/
structure DataFusionError where
  text : String
  source : Option DynError

/-- `to_datafusion_error`. -/
def toDatafusionError (error : HarborError) : DataFusionError :=
  ⟨s!"External error: {error.toString}", some (.harbor error none)⟩

def cloneHarborError : HarborError → HarborError
  | .config message => .config message
  | .missingBearerToken => .missingBearerToken
  | .unsupportedSql message => .unsupportedSql message
  | .unity message => .unity message
  | .query message => .query message
  | .unsupportedResultType message => .unsupportedResultType message
  | .thrift message => .thrift message
  | error => .query error.toString

/-- The loop of `harbor_error_source`. -/
def harborErrorInChain : Option DynError → Option HarborError
  | none => none
  | some (.harbor error _) => some (cloneHarborError error)
  | some (.other _ source) => harborErrorInChain source

def harborErrorSource (error : DataFusionError) : Option HarborError :=
  harborErrorInChain error.source

def harborErrorFromDatafusion (error : DataFusionError) : HarborError :=
  (harborErrorSource error).getD (.dataFusion error.text)

/-! ## The read-only gate -/

namespace Sql

/-- A statement of DataFusion's parser. A query that is copied from is kept. -/
inductive DataFusionStatement where
  | statement (statement : Statement)
  | explain (options : String) (statement : DataFusionStatement)
  | createExternalTable (text : String)
  | copyTo (text : String) (query : Option Query)
  | reset (text : String)

def isReadOnlyQueryStatement : Statement → Bool
  | .query _ => true
  | .explain _ statement => isReadOnlyQueryStatement statement
  | _ => false

def isReadOnlyDatafusionStatement : DataFusionStatement → Bool
  | .statement statement => isReadOnlyQueryStatement statement
  | .explain _ statement => isReadOnlyDatafusionStatement statement
  | .createExternalTable _ | .copyTo .. | .reset _ => false

/-- `validate_read_only_statement`, after the parser. -/
def validateReadOnlyStatement (statement : Except DataFusionError DataFusionStatement) :
    Except HarborError Unit := do
  let statement ← statement.mapError harborErrorFromDatafusion
  if isReadOnlyDatafusionStatement statement then return
  else throw (.unsupportedSql "only read-only SELECT queries are supported")

end Sql

end HarborSql
