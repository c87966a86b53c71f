import HarborSql.Engine.Show
import HarborSql.Thrift.Reader

/-! The parser of the `SHOW` statements (`engine/metadata/parser.rs`). The tokenizer is a parameter,
and so are the text of a token in a message and whether arithmetic that overflows panics. -/

namespace HarborSql

inductive MetadataStatement where
  | catalogs (pattern : Option String)
  | schemas (catalog : Option ObjectName) (pattern : Option String)
  | tables (schema : Option ObjectName) (pattern : Option String)
  | views (schema : Option ObjectName) (pattern : Option String)
  | columns (table : ObjectName) (schema : Option ObjectName)
  | tableExtended (schema : Option ObjectName) (pattern : String) (partition : Option String)
  deriving DecidableEq, Repr

/-- The character that opens a quoted word. -/
inductive QuoteStyle where
  | doubleQuote
  | backtick
  | bracket
  deriving DecidableEq, Repr

structure Word where
  value : String
  quoteStyle : Option QuoteStyle
  deriving DecidableEq, Repr

inductive Whitespace where
  | space
  | newline
  | tab
  | singleLineComment (comment opening : String)
  | multiLineComment (comment : String)
  deriving DecidableEq, Repr

/-- `Token`, where one that the parser has no use for is its name. -/
inductive Token where
  | word (word : Word)
  | singleQuotedString (value : String)
  | doubleQuotedString (value : String)
  | escapedStringLiteral (value : String)
  | nationalStringLiteral (value : String)
  | number (value : String) (long : Bool)
  | mul
  | pipe
  | period
  | eq
  | comma
  | lParen
  | rParen
  | semiColon
  | whitespace (whitespace : Whitespace)
  | other (name : String)
  deriving DecidableEq, Repr

def tokenIsKeyword (token : Token) (expected : String) : Bool :=
  match token with
  | .word word => eqIgnoreAsciiCase word.value expected
  | _ => false

structure ShowParser where
  tokens : List Token
  index : Nat

/-- A function that takes `&mut ShowParser` and returns a `Result`. -/
abbrev ShowM := ExceptT Fault (StateM ShowParser)

namespace ShowParser

def new (tokens : List Token) : ShowParser :=
  ⟨(tokens.reverse.dropWhile (· = .semiColon)).reverse, 0⟩

def unsupported {α : Type} (message : String) : ShowM α :=
  throw (.error (.unsupportedSql message))

/-! ## Tokens -/

def isEnd : ShowM Bool := do
  let parser ← get
  return parser.tokens.length ≤ parser.index

def peek : ShowM (Option Token) := do
  let parser ← get
  return parser.tokens[parser.index]?

def advance : ShowM Unit := modify fun parser => { parser with index := parser.index + 1 }

def next : ShowM (Option Token) := do
  match ← peek with
  | some token =>
    advance
    return some token
  | none => return none

/-- `Option::expect`. -/
def expect {α : Type} : Option α → ShowM α
  | some x => pure x
  | none => throw .panicked

def peekKeyword (expected : String) : ShowM Bool := do
  let token ← peek
  return token.any (tokenIsKeyword · expected)

def consumeKeyword (expected : String) : ShowM Bool := do
  if ← peekKeyword expected then
    advance
    return true
  else return false

def expectKeyword (expected : String) : ShowM Unit := do
  if ← consumeKeyword expected then return
  else unsupported s!"expected `{expected}` in SHOW statement"

def consumeToken (expected : Token) : ShowM Bool := do
  if (← peek) = some expected then
    advance
    return true
  else return false

section
variable (display : Token → String)

def expectEnd : ShowM Unit := do
  if ← isEnd then return
  else
    let parser ← get
    let token ← expect parser.tokens[parser.index]?
    unsupported s!"unexpected token `{display token}` in SHOW statement"

/-! ## Names -/

def parseIdentifier : ShowM String := do
  match ← next with
  | some (.word word) => return word.value
  | some (.doubleQuotedString value) => return value
  | some token =>
    unsupported s!"expected identifier in SHOW statement, found `{display token}`"
  | none => unsupported "expected identifier in SHOW statement"

/-- The loop of `parse_object_name`. -/
def objectNameLoop : Nat → List String → ShowM (List String)
  | 0, _ => throw .diverged
  | fuel + 1, parts => do
    if ← consumeToken .period then
      let part ← parseIdentifier display
      objectNameLoop fuel (parts ++ [part])
    else return parts

def parseObjectName : ShowM ObjectName := do
  let part ← parseIdentifier display
  let parser ← get
  let parts ← objectNameLoop display (parser.tokens.length + 1) [part]
  return ⟨parts⟩

def parseRequiredInName (message : String) : ShowM ObjectName := do
  if ← consumeKeyword "FROM" <||> consumeKeyword "IN" then parseObjectName display
  else unsupported message

def parseOptionalInName : ShowM (Option ObjectName) := do
  if ← consumeKeyword "FROM" <||> consumeKeyword "IN" then
    return some (← parseObjectName display)
  else return none

/-! ## Patterns -/

def patternToken : Token → ShowM String
  | .word word => return word.value
  | .singleQuotedString value | .doubleQuotedString value | .escapedStringLiteral value
  | .nationalStringLiteral value => return value
  | .number value _ => return value
  | .mul => return "*"
  | .pipe => return "|"
  | .period => return "."
  | .eq => return "="
  | .comma => return ","
  | .lParen => return "("
  | .rParen => return ")"
  | .whitespace .space => return " "
  | token => unsupported s!"unsupported token `{display token}` in SHOW pattern"

/-- The loop of `parse_pattern_until`. -/
def patternLoop (stop : Token → Bool) : Nat → List String → ShowM (List String)
  | 0, _ => throw .diverged
  | fuel + 1, parts => do
    if ← isEnd then return parts
    else
      let token ← expect (← peek)
      if stop token then return parts
      else
        let token ← expect (← next)
        let part ← patternToken display token
        patternLoop stop fuel (parts ++ [part])

def parsePatternUntil (stop : Token → Bool) : ShowM String := do
  let parser ← get
  let parts ← patternLoop display stop (parser.tokens.length + 1) []
  if parts.isEmpty then unsupported "SHOW pattern cannot be empty"
  else return String.join parts

def parsePatternUntilEnd : ShowM String := parsePatternUntil display fun _ => false

def parsePatternUntilPartition : ShowM String :=
  parsePatternUntil display fun token => tokenIsKeyword token "PARTITION"

def parseOptionalPattern : ShowM (Option String) := do
  if ← isEnd then return none
  else if ← consumeKeyword "LIKE" then return some (← parsePatternUntilEnd display)
  else return some (← parsePatternUntilEnd display)

/-! ## The partition clause -/

variable (overflowChecks : Bool)

/-- `left + right` of two `u32`. -/
def addU32 (left right : Nat) : ShowM Nat :=
  if left + right < 2 ^ 32 then pure (left + right)
  else if overflowChecks then throw .panicked
  else pure ((left + right) % 2 ^ 32)

/-- `left - right` of two `u32`. -/
def subU32 (left right : Nat) : ShowM Nat :=
  if right ≤ left then pure (left - right)
  else if overflowChecks then throw .panicked
  else pure (2 ^ 32 + left - right)

/-- The loop of `parse_optional_partition`. -/
def partitionLoop : Nat → Nat → List String → ShowM String
  | 0, _, _ => throw .diverged
  | fuel + 1, depth, parts => do
    match ← next with
    | some .lParen =>
      let depth ← addU32 overflowChecks depth 1
      partitionLoop fuel depth (parts ++ ["("])
    | some .rParen =>
      let depth ← subU32 overflowChecks depth 1
      let parts := parts ++ [")"]
      if depth = 0 then return String.join parts
      else partitionLoop fuel depth parts
    | some token =>
      let part ← patternToken display token
      partitionLoop fuel depth (parts ++ [part])
    | none => unsupported "SHOW TABLE EXTENDED PARTITION clause is not closed"

def parseOptionalPartition : ShowM (Option String) := do
  if !(← consumeKeyword "PARTITION") then return none
  else if !(← consumeToken .lParen) then
    unsupported "SHOW TABLE EXTENDED PARTITION requires a parenthesized clause"
  else
    let parser ← get
    return some (← partitionLoop display overflowChecks (parser.tokens.length + 1) 1 ["("])

/-! ## Statements -/

/-- The clauses after `SHOW CATALOGS`. -/
def parseCatalogs : ShowM MetadataStatement := do
  if ← peekKeyword "FROM" <||> peekKeyword "IN" then
    unsupported "SHOW CATALOGS does not accept a namespace"
  else
    let pattern ← parseOptionalPattern display
    expectEnd display
    return .catalogs pattern

def parseSchemas : ShowM MetadataStatement := do
  if ← peekKeyword "HISTORY" then unsupported "SHOW SCHEMAS HISTORY is not supported"
  else
    let catalog ← parseOptionalInName display
    let pattern ← parseOptionalPattern display
    expectEnd display
    return .schemas catalog pattern

def parseTables : ShowM MetadataStatement := do
  if ← peekKeyword "EXTENDED" <||> peekKeyword "HISTORY" then
    unsupported "use SHOW TABLE EXTENDED for extended table metadata"
  else
    let schema ← parseOptionalInName display
    let pattern ← parseOptionalPattern display
    expectEnd display
    return .tables schema pattern

def parseViews : ShowM MetadataStatement := do
  let schema ← parseOptionalInName display
  let pattern ← parseOptionalPattern display
  expectEnd display
  return .views schema pattern

def parseColumns : ShowM MetadataStatement := do
  let table ← parseRequiredInName display "SHOW COLUMNS requires IN or FROM table_name"
  let schema ← parseOptionalInName display
  expectEnd display
  return .columns table schema

def parseTableExtended : ShowM MetadataStatement := do
  expectKeyword "EXTENDED"
  let schema ← parseOptionalInName display
  expectKeyword "LIKE"
  let pattern ← parsePatternUntilPartition display
  let partition ← parseOptionalPartition display overflowChecks
  expectEnd display
  return .tableExtended schema pattern partition

def parse : ShowM MetadataStatement := do
  expectKeyword "SHOW"
  if ← consumeKeyword "CATALOGS" then parseCatalogs display
  else if ← consumeKeyword "SCHEMAS" <||> consumeKeyword "DATABASES" then parseSchemas display
  else if ← consumeKeyword "TABLES" then parseTables display
  else if ← consumeKeyword "VIEWS" then parseViews display
  else if ← consumeKeyword "COLUMNS" then parseColumns display
  else if ← consumeKeyword "TABLE" then parseTableExtended display overflowChecks
  else unsupported "unsupported SHOW statement"

end

end ShowParser

/-- Whether a statement begins with `SHOW`. -/
def isShow : List Token → Bool
  | .word word :: _ => word.quoteStyle.isNone && eqIgnoreAsciiCase word.value "SHOW"
  | _ => false

def isWhitespaceToken : Token → Bool
  | .whitespace _ => true
  | _ => false

/-- `parse_show_statement` from its tokens on. -/
def parseShowTokens (display : Token → String) (overflowChecks : Bool) (tokens : List Token) :
    Except Fault (Option MetadataStatement) :=
  let tokens := tokens.filter fun token => !isWhitespaceToken token
  if !isShow tokens then .ok none
  else some <$> (ShowParser.parse display overflowChecks (.new tokens)).1

def parseShowStatement (tokenize : String → Except String (List Token)) (display : Token → String)
    (overflowChecks : Bool) (sql : String) : Except Fault (Option MetadataStatement) :=
  match tokenize sql with
  | .error err => .error (.error (.unsupportedSql s!"invalid SHOW statement: {err}"))
  | .ok tokens => parseShowTokens display overflowChecks tokens

end HarborSql
