import HarborSql.Engine.Planning
import HarborSql.Sql.Node

/-! What the read-only gate lets through. -/

namespace HarborSql.Sql

namespace Node

/-- The node is no set expression or `SELECT` that modifies data. -/
def reads : Node → Bool
  | setExpr (.insert _) | setExpr (.update _) | setExpr (.delete _) | setExpr (.merge _) => false
  | select (.mk _ _ _ into ..) => into.isNone
  | _ => true

end Node

namespace DataFusionStatement

/-- The topmost node under any nesting of `EXPLAIN`. -/
def root? : DataFusionStatement → Option Node
  | statement s => some (.statement s)
  | explain _ s => s.root?
  | copyTo _ query => query.map .query
  | createExternalTable _ | reset _ => none

/-- No node anywhere in the statement modifies data. -/
def ReadsOnly (s : DataFusionStatement) : Prop :=
  ∀ root ∈ s.root?, ∀ n, root.Contains n → n.reads = true

end DataFusionStatement

/-- The query under any nesting of `EXPLAIN`. -/
def Statement.query? : Statement → Option Query
  | query q => some q
  | explain _ s => s.query?
  | other .. => none

def DataFusionStatement.query? : DataFusionStatement → Option Query
  | statement s => s.query?
  | explain _ s => s.query?
  | createExternalTable _ | copyTo .. | reset _ => none

/-- Every set expression and every `SELECT` of the query, at any depth, reads. -/
def Query.readsOnly (q : Query) : Bool := (Node.query q).all Node.reads

theorem isReadOnlyQueryStatement_iff : ∀ s : Statement,
    isReadOnlyQueryStatement s = true ↔ s.query?.isSome = true
  | .query _ => Iff.rfl
  | .explain _ s => isReadOnlyQueryStatement_iff s
  | .other .. => Iff.rfl

theorem isReadOnlyDatafusionStatement_iff : ∀ s : DataFusionStatement,
    isReadOnlyDatafusionStatement s = true ↔ s.query?.isSome = true
  | .statement s => isReadOnlyQueryStatement_iff s
  | .explain _ s => isReadOnlyDatafusionStatement_iff s
  | .createExternalTable _ | .copyTo .. | .reset _ => Iff.rfl

theorem readsOnly_iff (q : Query) :
    q.readsOnly = true ↔ ∀ n, (Node.query q).Contains n → n.reads = true :=
  Node.all_eq_true _

/-- Only what is in the query can modify data. -/
theorem Statement.contains_reads : ∀ {s : Statement} {q : Query}, s.query? = some q →
    ((∀ n, (Node.statement s).Contains n → n.reads = true) ↔ q.readsOnly = true)
  | .query q', q, h => by
    obtain rfl := Option.some.inj h
    rw [Node.forall_contains, readsOnly_iff]
    simp [Node.reads, Node.children, Node.shape, Node.statementShape, Mixfix.Shape.children]
  | .explain options s, q, h => by
    rw [Node.forall_contains, ← contains_reads (s := s) h]
    simp [Node.reads, Node.children, Node.shape, Node.statementShape, Mixfix.Shape.children]

theorem DataFusionStatement.readsOnly_iff_query : ∀ {s : DataFusionStatement} {q : Query},
    s.query? = some q → (s.ReadsOnly ↔ q.readsOnly = true)
  | .statement s, q, h => by
    rw [← Statement.contains_reads h]
    exact ⟨fun h => h _ rfl, fun h root hroot => Option.some.inj hroot ▸ h⟩
  | .explain options s, q, h => readsOnly_iff_query (s := s) h

/-- `WITH ... INSERT ...`, as a query whose body is the insertion. -/
def insertQuery : Query :=
  .mk false [] (.insert (.other "INSERT INTO hits SELECT 1" [])) .none "" []

end HarborSql.Sql
