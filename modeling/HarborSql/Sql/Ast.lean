/-! The syntax trees of `sqlparser` that the rewriter walks. Parts of a node that the program neither
reads nor changes are kept as their text, and the expressions in them as operands. -/

namespace HarborSql.Sql

structure Ident where
  value : String
  quoteStyle : Option Char
deriving DecidableEq

/-- `Ident::new`. -/
def Ident.new (value : String) : Ident := ⟨value, none⟩

/-- `Ident::with_quote`. -/
def Ident.withQuote (quote : Char) (value : String) : Ident := ⟨value, some quote⟩

inductive ObjectNamePart where
  | identifier (ident : Ident)
  | function (text : String)
deriving DecidableEq

structure ObjectName where
  parts : List ObjectNamePart
deriving DecidableEq

inductive Value where
  | number (value : String) (long : Bool)
  | singleQuotedString (value : String)
  | escapedStringLiteral (value : String)
  | doubleQuotedString (value : String)
  | boolean (value : Bool)
  | null
  | other (text : String)
deriving DecidableEq

inductive BinaryOperator where
  | plus | minus | multiply | divide | modulo | stringConcat
  | gt | lt | gtEq | ltEq | spaceship | eq | notEq
  | and | or | xor | bitwiseOr | bitwiseAnd | bitwiseXor
  /-- A custom operator, or one of another dialect, with the precedence the parser gives it. -/
  | other (text : String) (precedence : Nat)
deriving DecidableEq

inductive UnaryOperator where
  | plus | minus | not
  | other (text : String) (precedence : Nat)
deriving DecidableEq

inductive DateTimeField where
  | minute | minutes
  | other (text : String)
deriving DecidableEq

/-- The variants `IsFalse` to `IsNotUnknown` of an expression. -/
inductive IsTest where
  | isFalse | isNotFalse | isTrue | isNotTrue | isNull | isNotNull | isUnknown | isNotUnknown
deriving DecidableEq

inductive DuplicateTreatment where
  | distinct | all
deriving DecidableEq

/-- What a variant that the program does not name prints around its operands, and the precedences
at which its outer operands are read. -/
structure Form where
  text : String
  left : Nat
  right : Nat
deriving DecidableEq

mutual

inductive Expr where
  | identifier (ident : Ident)
  | compoundIdentifier (idents : List Ident)
  | compoundFieldAccess (root : Expr) (accessChain : List AccessExpr)
  | isTest (test : IsTest) (expr : Expr)
  | isDistinctFrom (left right : Expr)
  | isNotDistinctFrom (left right : Expr)
  | inList (expr : Expr) (list : List Expr) (negated : Bool)
  | inSubquery (expr : Expr) (subquery : Query) (negated : Bool)
  | between (expr : Expr) (negated : Bool) (low high : Expr)
  | binaryOp (left : Expr) (op : BinaryOperator) (right : Expr)
  | like (negated any : Bool) (expr pattern : Expr) (escapeChar : Option Value)
  | unaryOp (op : UnaryOperator) (expr : Expr)
  | cast (kind : String) (expr : Expr) (dataType : String)
  | extract (field : DateTimeField) (text : String) (expr : Expr)
  | nested (expr : Expr)
  | value (value : Value)
  | function (function : Function)
  | case (operand : Option Expr) (conditions : List CaseWhen) (elseResult : Option Expr)
  | exists (subquery : Query) (negated : Bool)
  | subquery (query : Query)
  | outerJoin (expr : Expr)
  | prior (expr : Expr)
  /-- Any other variant: its first operand if no token stands before it, the operands between its
  tokens, and its last operand if no token stands after it. -/
  | other (form : Form) (left : Option Expr) (operands : List Expr) (right : Option Expr)

/-- An access and, with it, the two kinds of subscript. -/
inductive AccessExpr where
  | dot (expr : Expr)
  | index (index : Expr)
  | slice (lowerBound upperBound stride : Option Expr)

inductive CaseWhen where
  | mk (condition result : Expr)

/-- The window operands are the expressions of `OVER`. -/
inductive Function where
  | mk (name : ObjectName) (usesOdbcSyntax : Bool) (parameters args : FunctionArguments)
    (filter : Option Expr) (nullTreatment overClause : Option String) (windowOperands : List Expr)
    (withinGroup : List OrderByExpr)

/-- The operands are the expressions in the clauses. -/
inductive FunctionArguments where
  | none
  | subquery (query : Query)
  | list (duplicateTreatment : Option DuplicateTreatment) (args : List FunctionArg)
    (clauses : List String) (operands : List Expr)

inductive FunctionArg where
  | named (name : Ident) (arg : FunctionArgExpr) (operator : String)
  | exprNamed (name : Expr) (arg : FunctionArgExpr) (operator : String)
  | unnamed (arg : FunctionArgExpr)

inductive FunctionArgExpr where
  | expr (expr : Expr)
  | qualifiedWildcard (name : ObjectName)
  | wildcard

inductive OrderByExpr where
  | mk (expr : Expr) (options : String) (withFill : List Expr)

/-- The text and the operands are those of the clauses after `ORDER BY`. -/
inductive Query where
  | mk (recursive : Bool) (cteTables : List Cte) (body : SetExpr) (orderBy : OrderBy)
    (text : String) (operands : List Expr)

inductive Cte where
  | mk (aliasName : String) (query : Query)

inductive OrderBy where
  | none
  | all (options : String) (interpolate : List Expr)
  | expressions (expressions : List OrderByExpr) (interpolate : List Expr)

inductive SetExpr where
  | select (select : Select)
  | query (query : Query)
  | setOperation (op : String) (left right : SetExpr)
  | values (rowLengths : List Nat) (cells : List Expr)
  | insert (statement : Statement)
  | update (statement : Statement)
  | delete (statement : Statement)
  | merge (statement : Statement)
  | table (name : String)

/-- The text is that of `TOP`, `SELECT INTO`, the named windows and the flags; the operands are
theirs and those of `DISTINCT ON`, `LATERAL VIEW` and `CONNECT BY`. -/
inductive Select where
  | mk (text : String) (operands : List Expr) (projection : List SelectItem) (into : Option String)
    (tables : List TableFactor) (prewhere selection : Option Expr) (groupBy : GroupByExpr)
    (clusterBy distributeBy : List Expr) (sortBy : List OrderByExpr) (having qualify : Option Expr)

inductive SelectItem where
  | unnamedExpr (expr : Expr)
  | exprWithAlias (expr : Expr) (aliasName : Ident)
  | qualifiedWildcard (text : String) (operands : List Expr)
  | wildcard (text : String) (operands : List Expr)

inductive GroupByExpr where
  | all (modifiers : List Expr)
  | expressions (expressions modifiers : List Expr)

/-- The relations of `FROM`. A join has the relations joined so far at its left. -/
inductive TableFactor where
  | table (text : String) (operands : List Expr)
  | derived (lateral : Bool) (subquery : Query) (aliasName : String)
  | join (left : TableFactor) (operator : String) (right : TableFactor) (on : List Expr)
  | other (text : String) (tables : List TableFactor) (operands : List Expr)

/-- The queries of another statement are subqueries among its operands. -/
inductive Statement where
  | query (query : Query)
  | explain (options : String) (statement : Statement)
  | other (text : String) (operands : List Expr)

end

end HarborSql.Sql
