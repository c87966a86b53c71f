import HarborSql.Sql.Node

/-! The text of a statement as the tokens of a term, and the precedences at which `sqlparser` reads
the operands of a node. -/

namespace HarborSql.Sql

open Mixfix (Grammar Shape Term)

namespace Node

/-- The node as a term, that is printed with no parentheses but those of `Expr::Nested`. -/
def term (n : Node) : Term Kind := (n.shape.attach.map fun c => term c.1).term
termination_by sizeOf n
decreasing_by exact n.sizeOf_children c.1 c.2

theorem term_eq (n : Node) : n.term = (n.shape.map term).term := by
  rw [term, Shape.attach_map_val]

theorem term_nested {n c : Node} (h : n.shape = .nested c) : n.term = .nested c.term := by
  rw [term_eq, h]
  rfl

theorem term_node {n : Node} {kind : Kind} {left right : Option Node} {inner : List Node}
    (h : n.shape = .node kind left inner right) :
    n.term = .node kind (left.map term) (inner.map term) (right.map term) := by
  rw [term_eq, h]
  rfl

end Node

/-! ## Precedences -/

def BinaryOperator.precedence : BinaryOperator → Nat
  | or => 5
  | and => 10
  | spaceship | eq | notEq | gt | lt | gtEq | ltEq => 20
  | bitwiseOr => 21
  | bitwiseXor => 22
  | bitwiseAnd => 23
  | xor => 24
  | plus | minus => 30
  | multiply | divide | modulo | stringConcat => 40
  | other _ precedence => precedence

def UnaryOperator.precedence : UnaryOperator → Nat
  | not => 15
  | plus | minus => 40
  | other _ precedence => precedence

/-- The precedence of an operand before the first token of a node. -/
def leftPrecedence : Kind → Option Nat
  | .compoundFieldAccess | .outerJoin => some 100
  | .isTest _ | .isDistinctFrom | .isNotDistinctFrom => some 17
  | .inList _ | .inSubquery _ | .between _ => some 20
  | .binaryOp op => some op.precedence
  | .like .. => some 19
  | .other form true _ => some form.left
  | _ => none

/-- The precedence of an operand after the last token of a node. -/
def rightPrecedence : Kind → Option Nat
  | .isDistinctFrom | .isNotDistinctFrom => some 0
  | .between _ => some 20
  | .binaryOp op => some op.precedence
  | .like .. => some 19
  | .unaryOp op => some op.precedence
  | .prior => some 30
  | .other form _ true => some form.right
  | _ => none

/-- The grammar of `sqlparser`. -/
def sqlGrammar : Grammar Kind where
  left := leftPrecedence
  inner
    | .between _ => 20
    | _ => 0
  right := rightPrecedence

end HarborSql.Sql
