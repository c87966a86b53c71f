import HarborSql.Sql.Grammar
import HarborSql.Verify.Rewrite.Aliases
import HarborSql.Verify.Rewrite.Complete

/-! The text of a rewritten statement, which the planner reads: when it is read as the rewritten
statement. -/

namespace HarborSql.Sql

open Mixfix (Grammar Shape Term)

variable {G : Grammar Kind}

/-! ## Texts that are read back -/

namespace Node

/-- The text of the node is read as the node. -/
def Reads (G : Grammar Kind) (n : Node) : Prop := G.Parses n.term.print n.term

theorem reads_iff {n : Node} : n.Reads G ↔ n.term.Grouped G ∧ n.term.Above G 0 :=
  Grammar.parses_iff.trans (and_iff_right rfl)

theorem above_mono {p q : Nat} (hle : p ≤ q) {t : Term Kind} (h : t.Above G q) : t.Above G p := by
  induction t using Term.induction with
  | nested => trivial
  | node kind left inner right ih =>
    cases left with
    | none => trivial
    | some l => exact ⟨fun m hm => hle.trans_lt (h.1 m hm), ih l rfl h.2⟩

theorem groupedInner_iff {p : Nat} {ts : List (Term Kind)} :
    Term.GroupedInner G p ts ↔ ∀ t ∈ ts, t.Grouped G ∧ t.Above G p := by
  induction ts with
  | nil => simp [Term.GroupedInner]
  | cons t ts ih => rw [Term.GroupedInner, ih, List.forall_mem_cons, and_assoc]

/-- The parts of a node that is read back. -/
theorem Reads.parts {n : Node} {kind : Kind} {left right : Option Node} {inner : List Node}
    (h : n.Reads G) (hshape : n.shape = .node kind left inner right) :
    (∀ l ∈ left, l.Reads G ∧ ∃ p, G.left kind = some p ∧ l.term.Yields G p) ∧
      (∀ c ∈ inner, c.Reads G ∧ c.term.Above G (G.inner kind)) ∧
      ∀ r ∈ right, r.Reads G ∧ ∃ p, G.right kind = some p ∧ r.term.Above G p := by
  obtain ⟨hgrouped, habove⟩ := reads_iff.mp h
  rw [term_node hshape] at hgrouped habove
  obtain ⟨hleft, hinner, hright⟩ := hgrouped
  refine ⟨?_, ?_, ?_⟩
  · rintro l rfl
    cases hp : G.left kind with
    | none => rw [hp] at hleft; cases hleft
    | some p =>
      rw [hp] at hleft
      exact ⟨reads_iff.mpr ⟨hleft.1, habove.2⟩, p, rfl, hleft.2⟩
  · intro c hc
    obtain ⟨hc, hc'⟩ := groupedInner_iff.mp hinner _ (List.mem_map_of_mem hc)
    exact ⟨reads_iff.mpr ⟨hc, above_mono (Nat.zero_le _) hc'⟩, hc'⟩
  · rintro r rfl
    cases hp : G.right kind with
    | none => rw [hp] at hright; cases hright
    | some p =>
      rw [hp] at hright
      exact ⟨reads_iff.mpr ⟨hright.1, above_mono (Nat.zero_le _) hright.2⟩, p, rfl, hright.2⟩

theorem Reads.nested {n c : Node} (h : n.Reads G) (hshape : n.shape = .nested c) : c.Reads G := by
  obtain ⟨hgrouped, -⟩ := reads_iff.mp h
  rw [term_nested hshape] at hgrouped
  exact reads_iff.mpr hgrouped

theorem Reads.child {n c : Node} (h : n.Reads G) (hc : c ∈ n.children) : c.Reads G := by
  rcases hshape : n.shape with part | ⟨kind, left, inner, right⟩ <;>
    rw [children, hshape] at hc
  · obtain rfl := List.mem_singleton.mp hc
    exact h.nested hshape
  · obtain ⟨hleft, hinner, hright⟩ := h.parts hshape
    rcases List.mem_append.mp hc with hc | hc
    · rcases List.mem_append.mp hc with hc | hc
      · exact (hleft c (Option.mem_toList.mp hc)).1
      · exact (hinner c hc).1
    · exact (hright c (Option.mem_toList.mp hc)).1

theorem Reads.contains {n m : Node} (h : n.Reads G) (hm : n.Contains m) : m.Reads G := by
  induction hm with
  | refl => exact h
  | tail _ hc ih => exact ih.child hc

/-- Every operand before an operator leaves the operator to it. -/
def Fits (G : Grammar Kind) (n : Node) : Prop :=
  ∀ m, n.Contains m → ∀ kind left inner right, m.shape = .node kind (some left) inner right →
    ∀ p ∈ G.left kind, left.term.Yields G p

theorem Reads.fits {n : Node} (h : n.Reads G) : n.Fits G := by
  intro m hm kind left inner right hshape p hp
  obtain ⟨-, q, hq, hyields⟩ := ((h.contains hm).parts hshape).1 left rfl
  obtain rfl := Option.some.inj (hp.symm.trans hq)
  exact hyields

theorem Fits.contains {n m : Node} (h : n.Fits G) (hm : n.Contains m) : m.Fits G :=
  fun m' hm' => h m' (.trans hm hm')

theorem Fits.child {n c : Node} (h : n.Fits G) (hc : c ∈ n.children) : c.Fits G :=
  fun m hm => h m (.head hc hm)

end Node

/-- A node that is read back is the only one that its text is read as. -/
theorem Node.Reads.parses_iff {n : Node} (h : n.Reads G) {t : Term Kind} :
    G.Parses n.term.print t ↔ t = n.term :=
  ⟨fun ht => ht.unique h, by rintro rfl; exact h⟩

/-! ## What the rewriter writes -/

/-- The kinds of nodes that the rewriter writes, where no operand stands before the first token or
after the last one. -/
def Kind.isWritten : Kind → Bool
  | .functionExpr | .function .. | .noArguments | .arguments .. | .unnamedArg | .argExpr | .case ..
  | .caseWhen | .value _ | .index | .exprWithAlias _ => true
  | _ => false

/-- A property that holds of a written node when it holds of its parts. -/
structure Bracketed (P : Node → Prop) : Prop where
  parts {n : Node} {kind : Kind} {inner : List Node} : kind.isWritten = true →
    n.shape = Node.bracket kind inner → (P n ↔ ∀ c ∈ inner, P c)

namespace Bracketed

variable {P : Node → Prop} (hP : Bracketed P)

include hP

theorem leaf {n : Node} {kind : Kind} (hkind : kind.isWritten = true)
    (hshape : n.shape = Node.bracket kind []) : P n :=
  (hP.parts hkind hshape).mpr (List.forall_mem_nil _)

theorem single {n c : Node} {kind : Kind} (hkind : kind.isWritten = true)
    (hshape : n.shape = Node.bracket kind [c]) : P n ↔ P c := by
  rw [hP.parts hkind hshape, List.forall_mem_singleton]

theorem pair {n c d : Node} {kind : Kind} (hkind : kind.isWritten = true)
    (hshape : n.shape = Node.bracket kind [c, d]) : P n ↔ P c ∧ P d := by
  rw [hP.parts hkind hshape, List.forall_mem_cons, List.forall_mem_singleton]

theorem value (value : Value) : P (.expr (.value value)) := hP.leaf rfl rfl

theorem functionExpr {name : String} {args : List Expr} :
    P (.expr (functionExpr name args)) ↔ ∀ a ∈ args, P (.expr a) := by
  have harg : ∀ a, P (.arg (.unnamed (.expr a))) ↔ P (.expr a) := fun a =>
    (hP.single rfl rfl).trans (hP.single rfl rfl)
  have hlist : P (.arguments (.list none (args.map fun a => .unnamed (.expr a)) [] [])) ↔
      ∀ a ∈ args, P (.expr a) := by
    rw [hP.parts rfl rfl]
    simp only [List.map_nil, List.append_nil, List.map_map, List.forall_mem_map,
      Function.comp_apply, harg]
  rw [hP.single rfl rfl, hP.parts rfl rfl, List.forall_mem_append, List.forall_mem_append,
    List.forall_mem_cons, List.forall_mem_singleton, hlist, and_iff_right (hP.leaf rfl rfl)]
  exact and_iff_left (List.forall_mem_nil _) |>.trans (and_iff_left (List.forall_mem_nil _))

theorem case {condition result elseResult : Expr} :
    P (.expr (.case none [.mk condition result] (some elseResult))) ↔
      P (.expr condition) ∧ P (.expr result) ∧ P (.expr elseResult) := by
  have hwhen : P (.caseWhen (.mk condition result)) ↔ P (.expr condition) ∧ P (.expr result) :=
    hP.pair rfl rfl
  rw [← and_assoc, ← hwhen]
  exact hP.pair (show Kind.isWritten (.case false true) = true from rfl) rfl

theorem indexExpr {index : Expr} : P (.expr (databricksGetArrayIndexExpr index)) ↔
    P (.expr (.binaryOp index .lt (numberExpr "0"))) ∧
      P (.expr (.binaryOp index .plus (numberExpr "1"))) := by
  rw [databricksGetArrayIndexExpr, hP.case]
  exact and_congr_right fun _ => and_iff_right (hP.value _)

theorem arrayElementExpr {array index : Expr} :
    P (.expr (arrayElementExpr array index)) ↔ P (.expr array) ∧ P (.expr index) :=
  hP.functionExpr.trans
    (List.forall_mem_cons.trans (and_congr_right fun _ => List.forall_mem_singleton))

theorem elementAtMapExpr {map key : Expr} :
    P (.expr (databricksElementAtMapExpr map key)) ↔ P (.expr map) ∧ P (.expr key) := by
  rw [databricksElementAtMapExpr, hP.arrayElementExpr]
  exact (and_iff_left (hP.value _)).trans (hP.functionExpr.trans
    (List.forall_mem_cons.trans (and_congr_right fun _ => List.forall_mem_singleton)))

theorem captureExpr {source : Expr} {pattern : String} {captureIndex : Nat} :
    P (.expr (regexpReplaceCaptureExpr source pattern captureIndex)) ↔ P (.expr source) := by
  rw [regexpReplaceCaptureExpr, hP.functionExpr, List.forall_mem_cons, List.forall_mem_cons,
    List.forall_mem_singleton]
  exact and_iff_left ⟨hP.value _, hP.value _⟩

theorem containsCall {haystack : Expr} {needle : String} :
    P (.expr (Sql.functionExpr "contains" [haystack, singleQuotedStringExpr needle])) ↔
      P (.expr haystack) := by
  rw [hP.functionExpr, List.forall_mem_cons, List.forall_mem_singleton]
  exact and_iff_left (hP.value _)

end Bracketed

/-- An operator between two operands. -/
structure Infix (G : Grammar Kind) (kind : Kind) (left right : Nat) : Prop where
  pos : 0 < left
  left_eq : G.left kind = some left
  right_eq : G.right kind = some right

/-- The precedences of what the rewriter writes, and of the operator that it takes away. -/
structure Precedences (G : Grammar Kind) (not like lessThan plus : Nat) : Prop where
  written : ∀ kind, kind.isWritten = true →
    G.left kind = none ∧ G.inner kind = 0 ∧ G.right kind = none
  infixLessThan : Infix G (.binaryOp .lt) lessThan lessThan
  infixPlus : Infix G (.binaryOp .plus) plus plus
  not_left : G.left (.unaryOp .not) = none
  not_right : G.right (.unaryOp .not) = some not
  like_right : ∀ negated any escapeChar, G.right (.like negated any escapeChar) = some like
  like_lt : like < lessThan
  lessThan_le : lessThan ≤ plus

theorem precedences_sqlGrammar : Precedences sqlGrammar 15 19 20 30 where
  written kind h := by
    cases kind <;> first | exact ⟨rfl, rfl, rfl⟩ | cases h
  infixLessThan := ⟨by decide, rfl, rfl⟩
  infixPlus := ⟨by decide, rfl, rfl⟩
  not_left := rfl
  not_right := rfl
  like_right _ _ _ := rfl
  like_lt := by decide
  lessThan_le := by decide

variable {not like lessThan plus : Nat}

/-- A node with no outer operands is read back if its parts are. -/
theorem Node.reads_bracket {n : Node} {kind : Kind} {inner : List Node} (hleft : G.left kind = none)
    (hinner : G.inner kind = 0) (hright : G.right kind = none)
    (hshape : n.shape = Node.bracket kind inner) : n.Reads G ↔ ∀ c ∈ inner, c.Reads G := by
  constructor
  · intro h c hc
    exact ((h.parts hshape).2.1 c hc).1
  · intro h
    rw [Node.reads_iff, Node.term_node hshape]
    refine ⟨?_, trivial⟩
    rw [Term.Grouped, hleft, hinner, hright]
    refine ⟨trivial, Node.groupedInner_iff.mpr fun t ht => ?_, trivial⟩
    obtain ⟨c, hc, rfl⟩ := List.mem_map.mp ht
    exact Node.reads_iff.mp (h c hc)

theorem reads_bracketed (hG : Precedences G not like lessThan plus) : Bracketed (Node.Reads G) where
  parts hkind hshape :=
    have ⟨hleft, hinner, hright⟩ := hG.written _ hkind
    Node.reads_bracket hleft hinner hright hshape

theorem reads_binaryOp (hG : Precedences G not like lessThan plus) {op : BinaryOperator}
    {left : Expr} {value : Value} {p q : Nat} (hop : Infix G (.binaryOp op) p q)
    (hleft : (Node.expr left).Reads G) (hyields : (Node.expr left).term.Yields G p) :
    (Node.expr (.binaryOp left op (.value value))).Reads G := by
  have hshape : (Node.expr (.binaryOp left op (.value value))).shape =
      .node (.binaryOp op) (some (.expr left)) [] (some (.expr (.value value))) := rfl
  obtain ⟨hgrouped, habove⟩ := Node.reads_iff.mp hleft
  obtain ⟨hvalue, -⟩ := Node.reads_iff.mp ((reads_bracketed hG).value value)
  rw [Node.reads_iff, Node.term_node hshape]
  constructor
  · rw [Term.Grouped, hop.left_eq, hop.right_eq]
    refine ⟨⟨hgrouped, hyields⟩, trivial, hvalue, ?_⟩
    rw [Node.term_node rfl]
    trivial
  · refine ⟨fun m hm => ?_, habove⟩
    obtain rfl := Option.some.inj (hop.left_eq.symm.trans hm)
    exact hop.pos

theorem reads_not (hG : Precedences G not like lessThan plus) {name : String} {args : List Expr}
    (h : (Node.expr (functionExpr name args)).Reads G) :
    (Node.expr (.unaryOp .not (functionExpr name args))).Reads G := by
  have hshape : (Node.expr (.unaryOp .not (functionExpr name args))).shape =
      .node (.unaryOp .not) none [] (some (.expr (functionExpr name args))) := rfl
  rw [Node.reads_iff, Node.term_node hshape]
  refine ⟨?_, trivial⟩
  rw [Term.Grouped, hG.not_left, hG.not_right]
  refine ⟨trivial, trivial, (Node.reads_iff.mp h).1, ?_⟩
  rw [Node.term_node rfl]
  trivial

theorem reads_containsExpr (hG : Precedences G not like lessThan plus) {haystack : Expr}
    {needle : String} {negated : Bool} (h : (Node.expr haystack).Reads G) :
    (Node.expr (containsExpr haystack needle negated)).Reads G := by
  have hcall : (Node.expr (functionExpr "contains" [haystack, singleQuotedStringExpr needle])).Reads
      G := (reads_bracketed hG).containsCall.mpr h
  cases negated with
  | false => exact hcall
  | true => exact reads_not hG hcall

/-! ## A pass -/

/-- The parts of two nodes of one form. -/
theorem Node.SameForm.shapes {n n' : Node} (h : n.SameForm n') {R : Node → Node → Prop}
    (hparts : ∀ p ∈ n.children.zip n'.children, R p.1 p.2) :
    (∃ c c', n.shape = .nested c ∧ n'.shape = .nested c' ∧ R c c') ∨
      ∃ kind left left' inner inner' right right', n.shape = .node kind left inner right ∧
        n'.shape = .node kind left' inner' right' ∧ Option.Rel R left left' ∧
        List.Forall₂ R inner inner' ∧ Option.Rel R right right' := by
  have hrel := Shape.Rel.of_zip h hparts
  generalize n.shape = s at hrel ⊢
  generalize n'.shape = s' at hrel ⊢
  cases hrel with
  | nested h => exact .inl ⟨_, _, rfl, rfl, h⟩
  | node hleft hinner hright =>
    exact .inr ⟨_, _, _, _, _, _, _, rfl, rfl, hleft, hinner, hright⟩

/-- Nothing binds looser at the left end of what a pass returns. -/
theorem Pass.above {U : Node → Prop} {aliasing : Prop} {n n' : Node} (h : Pass U aliasing n n')
    {p : Nat} (hn : n.term.Above G p) : n'.term.Above G p := by
  induction h with
  | kept => exact hn
  | within hform _ _ _ ih =>
    rcases hform.shapes (R := fun c c' => c.term.Above G p → c'.term.Above G p)
      (fun c hc hn => ih c hc hn) with ⟨_, _, -, hs', -⟩ |
        ⟨kind, left, left', inner, inner', right, right', hs, hs', hleft, -, -⟩
    · rw [Node.term_nested hs']
      trivial
    · rw [Node.term_node hs] at hn
      rw [Node.term_node hs']
      cases hleft with
      | none => trivial
      | some hleft => exact ⟨hn.1, hleft hn.2⟩
  | extractMinute | ifCall | get | elementAt | capture | aliased =>
    rw [Node.term_node rfl]
    trivial
  | @contains negated => cases negated <;> rw [Node.term_node rfl] <;> trivial
  | @getFields root root' accessChain accessChain' _ _ _ _ _ ihroot =>
    have hshape : (Node.expr (.compoundFieldAccess root accessChain)).shape =
        .node .compoundFieldAccess (some (.expr root)) (accessChain.map .accessExpr) none := rfl
    have hshape' : (Node.expr (.compoundFieldAccess root' accessChain')).shape =
        .node .compoundFieldAccess (some (.expr root')) (accessChain'.map .accessExpr) none := rfl
    rw [Node.term_node hshape] at hn
    rw [Node.term_node hshape']
    exact ⟨hn.1, ihroot hn.2⟩

/-- What is needed of a part in the place of another one. -/
def Replaces (G : Grammar Kind) (c c' : Node) : Prop :=
  c'.Reads G ∧ ∀ p, c.term.Above G p → c'.term.Above G p

theorem groupedLeft_of {left left' : Option Node} {precedence : Option Nat}
    (hleft : Term.GroupedLeft G precedence (left.map Node.term))
    (hrel : Option.Rel (Replaces G) left left')
    (hyields : ∀ l' ∈ left', ∀ p ∈ precedence, l'.term.Yields G p) :
    Term.GroupedLeft G precedence (left'.map Node.term) := by
  cases hrel with
  | none => exact hleft
  | some h =>
    cases precedence with
    | none => exact hleft
    | some p => exact ⟨(Node.reads_iff.mp h.1).1, hyields _ rfl p rfl⟩

theorem groupedRight_of {right right' : Option Node} {precedence : Option Nat}
    (hright : Term.GroupedRight G precedence (right.map Node.term))
    (hrel : Option.Rel (Replaces G) right right') :
    Term.GroupedRight G precedence (right'.map Node.term) := by
  cases hrel with
  | none => exact hright
  | some h =>
    cases precedence with
    | none => exact hright
    | some p => exact ⟨(Node.reads_iff.mp h.1).1, h.2 p hright.2⟩

theorem groupedInner_of {inner inner' : List Node} {p : Nat}
    (hinner : Term.GroupedInner G p (inner.map Node.term))
    (hrel : List.Forall₂ (Replaces G) inner inner') :
    Term.GroupedInner G p (inner'.map Node.term) := by
  induction hrel with
  | nil => trivial
  | cons h _ ih => exact ⟨(Node.reads_iff.mp h.1).1, h.2 p hinner.2.1, ih hinner.2.2⟩

/-- A node of the same form is read back if its parts are, and its left operand leaves the operator
to it. -/
theorem reads_of_shape {n n' : Node} {kind : Kind} {left left' right right' : Option Node}
    {inner inner' : List Node} (hn : n.Reads G) (hfits : n'.Fits G)
    (hs : n.shape = .node kind left inner right) (hs' : n'.shape = .node kind left' inner' right')
    (hleft : Option.Rel (Replaces G) left left') (hinner : List.Forall₂ (Replaces G) inner inner')
    (hright : Option.Rel (Replaces G) right right') (habove : n'.term.Above G 0) :
    n'.Reads G := by
  obtain ⟨hgrouped, -⟩ := Node.reads_iff.mp hn
  rw [Node.term_node hs] at hgrouped
  refine Node.reads_iff.mpr ⟨?_, habove⟩
  rw [Node.term_node hs']
  refine ⟨groupedLeft_of hgrouped.1 hleft ?_, groupedInner_of hgrouped.2.1 hinner,
    groupedRight_of hgrouped.2.2 hright⟩
  rintro l' rfl p hp
  exact hfits n' .refl _ _ _ _ hs' p hp

theorem fits_arg {name : String} {args : List Expr}
    (h : (Node.expr (functionExpr name args)).Fits G) {a : Expr} (ha : a ∈ args) :
    (Node.expr a).Fits G :=
  h.contains (contains_arg (calls_plain name args) ha)

/-- The operands of the index that is written for a `get`. -/
theorem fits_indexExpr {index : Expr} (h : (Node.expr (databricksGetArrayIndexExpr index)).Fits G) :
    (Node.expr index).Fits G ∧
      (∀ p ∈ G.left (.binaryOp .lt), (Node.expr index).term.Yields G p) ∧
      ∀ p ∈ G.left (.binaryOp .plus), (Node.expr index).term.Yields G p := by
  have hlt : (Node.expr (.binaryOp index .lt (numberExpr "0"))).Fits G :=
    (h.child List.mem_cons_self).child List.mem_cons_self
  have hplus : (Node.expr (.binaryOp index .plus (numberExpr "1"))).Fits G :=
    h.child (List.mem_cons_of_mem _ List.mem_cons_self)
  exact ⟨hlt.child List.mem_cons_self, hlt _ .refl _ _ _ _ rfl, hplus _ .refl _ _ _ _ rfl⟩

/-- What a pass returns is read back if each operand before an operator leaves it the operator. -/
theorem Pass.reads (hG : Precedences G not like lessThan plus)
    {U : Node → Prop} {aliasing : Prop} {n n' : Node} (h : Pass U aliasing n n')
    (hn : n.Reads G) (hfits : n'.Fits G) : n'.Reads G := by
  induction h with
  | kept => exact hn
  | @within n n' hform hfast hplain hpass ih =>
    have habove : n'.term.Above G 0 :=
      (Pass.within hform hfast hplain hpass).above (Node.reads_iff.mp hn).2
    have hparts : ∀ p ∈ n.children.zip n'.children, Replaces G p.1 p.2 := fun p hp =>
      ⟨ih p hp (hn.child (List.of_mem_zip hp).1) (hfits.child (List.of_mem_zip hp).2),
        fun _ => (hpass p hp).above⟩
    rcases hform.shapes hparts with ⟨c, c', hs, hs', hc⟩ |
      ⟨kind, left, left', inner, inner', right, right', hs, hs', hleft, hinner, hright⟩
    · rw [Node.reads_iff, Node.term_nested hs']
      exact ⟨Node.reads_iff.mp hc.1, trivial⟩
    · exact reads_of_shape hn hfits hs hs' hleft hinner hright habove
  | extractMinute _ hu =>
    exact (reads_bracketed hG).functionExpr.mpr
      (List.forall_mem_singleton.mpr (hn.child List.mem_cons_self))
  | contains => exact reads_containsExpr hG (hn.child List.mem_cons_self)
  | ifCall hif _ _ _ ihcondition ihresult ihelse =>
    obtain ⟨_, _, _, hcall, heq⟩ := databricksIfExpr_eq_some.mp hif
    cases heq
    have hargs := fun e he => hn.contains (contains_arg hcall (e := e) he)
    have hwhen := hfits.child List.mem_cons_self
    exact (reads_bracketed hG).case.mpr
      ⟨ihcondition (hargs _ (by simp)) (hwhen.child List.mem_cons_self),
        ihresult (hargs _ (by simp)) (hwhen.child (List.mem_cons_of_mem _ List.mem_cons_self)),
        ihelse (hargs _ (by simp)) (hfits.child (List.mem_cons_of_mem _ List.mem_cons_self))⟩
  | get hget _ _ iharray ihindex =>
    have hargs := fun e he => hn.contains
      (contains_arg (databricksGetArrayArgs_eq_some.mp hget) (e := e) he)
    obtain ⟨hindex, hlt, hplus⟩ :=
      fits_indexExpr (fits_arg hfits (List.mem_cons_of_mem _ List.mem_cons_self))
    have hindexReads := ihindex (hargs _ (by simp)) hindex
    refine (reads_bracketed hG).arrayElementExpr.mpr
      ⟨iharray (hargs _ (by simp)) (fits_arg hfits List.mem_cons_self), ?_⟩
    exact (reads_bracketed hG).indexExpr.mpr
      ⟨reads_binaryOp hG hG.infixLessThan hindexReads (hlt _ hG.infixLessThan.left_eq),
        reads_binaryOp hG hG.infixPlus hindexReads (hplus _ hG.infixPlus.left_eq)⟩
  | elementAt hmap _ _ ihmap ihkey =>
    have hargs := fun e he => hn.contains
      (contains_arg (databricksElementAtMapArgs_eq_some.mp hmap) (e := e) he)
    have hextract := fits_arg hfits List.mem_cons_self
    exact (reads_bracketed hG).elementAtMapExpr.mpr
      ⟨ihmap (hargs _ (by simp)) (fits_arg hextract List.mem_cons_self),
        ihkey (hargs _ (by simp)) (fits_arg hextract (List.mem_cons_of_mem _ List.mem_cons_self))⟩
  | capture hcapture _ ih =>
    obtain ⟨_, _, _, hcall, -⟩ := regexpReplaceCaptureFastPathArgs_eq_some.mp hcapture
    have hsource := hn.contains (contains_arg hcall List.mem_cons_self)
    exact (reads_bracketed hG).captureExpr.mpr (ih hsource (fits_arg hfits List.mem_cons_self))
  | @getFields root root' accessChain accessChain' hget hroot hlen hfields hchain ihroot ihchain =>
    have hshape : (Node.expr (.compoundFieldAccess root accessChain)).shape =
        .node .compoundFieldAccess (some (.expr root)) (accessChain.map .accessExpr) none := rfl
    have hshape' : (Node.expr (.compoundFieldAccess root' accessChain')).shape =
        .node .compoundFieldAccess (some (.expr root')) (accessChain'.map .accessExpr) none := rfl
    have habove := (Pass.getFields hget hroot hlen hfields hchain).above (Node.reads_iff.mp hn).2
    obtain ⟨hrootReads, haccesses, -⟩ := hn.parts hshape
    refine reads_of_shape hn hfits hshape hshape' (.some ⟨?_, fun _ => hroot.above⟩) ?_ .none habove
    · exact ihroot (hrootReads _ rfl).1
        (hfits.child (by simp [Node.children, hshape', Shape.children]))
    rw [List.forall₂_map_left_iff, List.forall₂_map_right_iff, List.forall₂_iff_zip]
    refine ⟨hlen, fun {access access'} hp => ?_⟩
    have hmem := List.of_mem_zip hp
    by_cases hdot : ∃ ident, access = .dot (.identifier ident)
    · -- a subscript by a literal stands in the place of the field
      obtain ⟨ident, rfl⟩ := hdot
      obtain rfl := hfields _ hp ident rfl
      have hP := reads_bracketed hG
      refine ⟨(hP.single rfl rfl).mpr (hP.value _), fun _ _ => ?_⟩
      rw [Node.term_node rfl]
      trivial
    · have hne : ∀ ident, access ≠ .dot (.identifier ident) := fun ident heq => hdot ⟨ident, heq⟩
      refine ⟨ihchain _ hp hne (haccesses _ (List.mem_map_of_mem hmem.1)).1 (hfits.child ?_),
        fun _ => (hchain _ hp hne).above⟩
      rw [children_compoundFieldAccess]
      exact List.mem_cons_of_mem _ (List.mem_map_of_mem hmem.2)
  | aliased _ h ih =>
    exact ((reads_bracketed hG).single rfl rfl).mpr
      (ih (hn.child List.mem_cons_self) (hfits.child List.mem_cons_self))

/-! ## Which statements stay readable -/

namespace Node

theorem fits_iff {n : Node} : n.Fits G ↔
    (∀ kind left inner right, n.shape = .node kind (some left) inner right →
      ∀ p ∈ G.left kind, left.term.Yields G p) ∧ ∀ c ∈ n.children, c.Fits G :=
  forall_contains

theorem yields_mono {p q : Nat} (hle : p ≤ q) {t : Term Kind} (h : t.Yields G q) :
    t.Yields G p := by
  induction t using Term.induction with
  | nested => trivial
  | node kind left inner right _ _ ih =>
    cases right with
    | none => trivial
    | some r => exact ⟨fun m hm => hle.trans (h.1 m hm), ih r rfl h.2⟩

/-- The last tokens of the node are those of the other one. -/
def EndsWith : Node → Node → Prop := Relation.ReflTransGen fun n m =>
  ∃ kind left inner, n.shape = .node kind left inner (some m)

/-- An operand at the end of a node leaves an operator to what follows if the node does. -/
theorem EndsWith.le {n m r : Node} (h : n.EndsWith m) {p q : Nat} {kind : Kind} {left : Option Node}
    {inner : List Node} (hm : m.shape = .node kind left inner (some r)) (hq : G.right kind = some q)
    (hn : n.term.Yields G p) : p ≤ q := by
  induction h using Relation.ReflTransGen.head_induction_on with
  | refl =>
    rw [term_node hm] at hn
    exact hn.1 q hq
  | head hc _ ih =>
    obtain ⟨_, _, _, hshape⟩ := hc
    rw [term_node hshape] at hn
    exact ih hn.2

/-- The node ends in a negated `LIKE` in the place of which the rewriter writes a `NOT`. -/
def EndsInNotLike (n : Node) : Prop := ∃ e pattern needle,
  containsNeedleFromLikePattern pattern = some needle ∧
    n.EndsWith (.expr (.like true false e pattern none))

/-- No rewriting takes an operand from the operator after it: the index of every `get` leaves `+`
to it, and no operand ends in a negated `LIKE` where its operator binds tighter than `NOT`. -/
structure LeavesOperators (G : Grammar Kind) (not plus : Nat) (n : Node) : Prop where
  index : ∀ function array index, n.Contains (.expr (.function function)) →
    databricksGetArrayArgs function = some (array, index) → (Node.expr index).term.Yields G plus
  notLike : ∀ m, n.Contains m → ∀ kind left inner right,
    m.shape = .node kind (some left) inner right →
      ∀ p ∈ G.left kind, not < p → ¬ left.EndsInNotLike

theorem LeavesOperators.contains {n m : Node} (h : n.LeavesOperators G not plus)
    (hm : n.Contains m) : m.LeavesOperators G not plus :=
  ⟨fun function array index hf => h.index function array index (.trans hm hf),
    fun m' hm' => h.notLike m' (.trans hm hm')⟩

theorem LeavesOperators.child {n c : Node} (h : n.LeavesOperators G not plus)
    (hc : c ∈ n.children) : c.LeavesOperators G not plus :=
  h.contains (.single hc)

end Node

theorem fits_bracketed : Bracketed (Node.Fits G) where
  parts {n kind inner} hkind hshape := by
    have hchildren : n.children = inner := by simp [Node.children, hshape, Shape.children]
    rw [Node.fits_iff, hchildren]
    refine and_iff_right fun kind' left inner' right hshape' p hp => ?_
    cases hshape.symm.trans hshape'

/-- What a pass returns leaves an operator to what follows if the node does, except where a `NOT`
comes to its end that binds looser. -/
theorem Pass.yields (hG : Precedences G not like lessThan plus) {U : Node → Prop} {aliasing : Prop}
    {n n' : Node} (h : Pass U aliasing n n') {p : Nat} (hn : n.term.Yields G p)
    (hlike : not < p → ¬ n.EndsInNotLike) : n'.term.Yields G p := by
  induction h with
  | kept => exact hn
  | within hform _ _ _ ih =>
    rcases hform.shapes (R := fun c c' => c.term.Yields G p → (not < p → ¬ c.EndsInNotLike) →
      c'.term.Yields G p) ih with ⟨_, _, -, hs', -⟩ |
        ⟨kind, left, left', inner, inner', right, right', hs, hs', -, -, hright⟩
    · rw [Node.term_nested hs']
      trivial
    · rw [Node.term_node hs] at hn
      rw [Node.term_node hs']
      cases hright with
      | none => trivial
      | some hright =>
        refine ⟨hn.1, hright hn.2 fun hlt ⟨e, pattern, needle, hneedle, hends⟩ => ?_⟩
        exact hlike hlt ⟨e, pattern, needle, hneedle, .head ⟨_, _, _, hs⟩ hends⟩
  | extractMinute | ifCall | get | elementAt | capture | aliased | getFields =>
    rw [Node.term_node rfl]
    trivial
  | @contains negated e pattern needle hneedle =>
    cases negated with
    | false =>
      rw [Node.term_node rfl]
      trivial
    | true =>
      have hle : p ≤ not := not_lt.mp fun hlt => hlike hlt ⟨e, pattern, needle, hneedle, .refl⟩
      have hshape : (Node.expr (containsExpr e needle true)).shape = .node (.unaryOp .not) none []
        (some (.expr (functionExpr "contains" [e, singleQuotedStringExpr needle]))) := rfl
      rw [Node.term_node hshape]
      refine ⟨fun m hm => ?_, ?_⟩
      · obtain rfl := Option.some.inj (hG.not_right.symm.trans hm)
        exact hle
      · rw [Node.term_node rfl]
        trivial

/-- What leaves an operator that binds tighter than `LIKE` to it ends in no `LIKE`. -/
theorem not_endsInNotLike (hG : Precedences G not like lessThan plus) {n : Node} {p : Nat}
    (hn : n.term.Yields G p) (hlt : like < p) : ¬ n.EndsInNotLike := by
  rintro ⟨e, pattern, needle, -, hends⟩
  exact hlt.not_ge (hends.le rfl (hG.like_right true false none) hn)

theorem fits_binaryOp {op : BinaryOperator} {left : Expr} {value : Value}
    (hleft : (Node.expr left).Fits G)
    (hyields : ∀ p ∈ G.left (.binaryOp op), (Node.expr left).term.Yields G p)
    (hvalue : (Node.expr (.value value)).Fits G) :
    (Node.expr (.binaryOp left op (.value value))).Fits G := by
  rw [Node.fits_iff]
  constructor
  · intro kind left' inner right hshape
    cases hshape
    exact hyields
  · exact List.forall_mem_cons.mpr ⟨hleft, List.forall_mem_singleton.mpr hvalue⟩

theorem fits_containsExpr {haystack : Expr} {needle : String} {negated : Bool}
    (h : (Node.expr haystack).Fits G) :
    (Node.expr (containsExpr haystack needle negated)).Fits G := by
  have hcall : (Node.expr (functionExpr "contains" [haystack, singleQuotedStringExpr needle])).Fits
      G := fits_bracketed.containsCall.mpr h
  cases negated with
  | false => exact hcall
  | true =>
    refine Node.fits_iff.mpr ⟨fun kind left inner right hshape => ?_,
      List.forall_mem_singleton.mpr hcall⟩
    cases hshape

/-- A node of the same form with parts that fit. -/
theorem fits_of_shape {n n' : Node} (hform : n.SameForm n')
    (hfits : ∀ p ∈ n.children.zip n'.children, p.2.Fits G)
    (hyields : ∀ p ∈ n.children.zip n'.children, ∀ kind inner right,
      n.shape = .node kind (some p.1) inner right → ∀ q ∈ G.left kind, p.2.term.Yields G q) :
    n'.Fits G := by
  rw [Node.fits_iff]
  constructor
  · intro kind left' inner' right' hs'
    have hparts := hform.shapes (R := fun c c' => ∀ kind inner right,
      n.shape = .node kind (some c) inner right → ∀ q ∈ G.left kind, c'.term.Yields G q) hyields
    rcases hparts with ⟨_, _, -, hs'', -⟩ | ⟨_, _, _, _, _, _, _, hs, hs'', hleft, -⟩
    · cases hs'.symm.trans hs''
    · cases hs'.symm.trans hs''
      cases hleft with
      | some hleft => exact hleft _ _ _ hs
  · intro c' hc'
    obtain ⟨c, hp⟩ := exists_mem_zip hform.length_children hc'
    exact hfits _ hp

/-- What a pass returns of a node that leaves all operators as they were. -/
theorem Pass.fits (hG : Precedences G not like lessThan plus) {U : Node → Prop} {aliasing : Prop}
    {n n' : Node} (h : Pass U aliasing n n') (hfits : n.Fits G)
    (hn : n.LeavesOperators G not plus) : n'.Fits G := by
  have hP := fits_bracketed (G := G)
  induction h with
  | kept => exact hfits
  | within hform _ _ hpass ih =>
    refine fits_of_shape hform (fun p hp => ?_) fun p hp kind inner right hs q hq => ?_
    · have hc := (List.of_mem_zip hp).1
      exact ih p hp (hfits.child hc) (hn.child hc)
    · exact (hpass p hp).yields hG (hfits _ .refl _ _ _ _ hs q hq)
        (hn.notLike _ .refl _ _ _ _ hs q hq)
  | extractMinute =>
    exact hP.functionExpr.mpr (List.forall_mem_singleton.mpr (hfits.child List.mem_cons_self))
  | contains => exact fits_containsExpr (hfits.child List.mem_cons_self)
  | ifCall hif _ _ _ ihcondition ihresult ihelse =>
    obtain ⟨_, _, _, hcall, heq⟩ := databricksIfExpr_eq_some.mp hif
    cases heq
    have harg := fun e he => contains_arg hcall (e := e) he
    exact hP.case.mpr
      ⟨ihcondition (hfits.contains (harg _ (by simp))) (hn.contains (harg _ (by simp))),
        ihresult (hfits.contains (harg _ (by simp))) (hn.contains (harg _ (by simp))),
        ihelse (hfits.contains (harg _ (by simp))) (hn.contains (harg _ (by simp)))⟩
  | get hget _ hindex iharray ihindex =>
    have harg := fun e he =>
      contains_arg (databricksGetArrayArgs_eq_some.mp hget) (e := e) he
    have hplus := hn.index _ _ _ .refl hget
    have hlessThan := Node.yields_mono hG.lessThan_le hplus
    have hindexFits := ihindex (hfits.contains (harg _ (by simp))) (hn.contains (harg _ (by simp)))
    refine hP.arrayElementExpr.mpr
      ⟨iharray (hfits.contains (harg _ (by simp))) (hn.contains (harg _ (by simp))),
        hP.indexExpr.mpr ⟨fits_binaryOp hindexFits ?_ (hP.value _),
          fits_binaryOp hindexFits ?_ (hP.value _)⟩⟩
    · intro p hp
      obtain rfl := Option.some.inj (hG.infixLessThan.left_eq.symm.trans hp)
      exact hindex.yields hG hlessThan fun _ => not_endsInNotLike hG hlessThan hG.like_lt
    · intro p hp
      obtain rfl := Option.some.inj (hG.infixPlus.left_eq.symm.trans hp)
      exact hindex.yields hG hplus fun _ => not_endsInNotLike hG hlessThan hG.like_lt
  | elementAt hmap _ _ ihmap ihkey =>
    have harg := fun e he =>
      contains_arg (databricksElementAtMapArgs_eq_some.mp hmap) (e := e) he
    exact hP.elementAtMapExpr.mpr
      ⟨ihmap (hfits.contains (harg _ (by simp))) (hn.contains (harg _ (by simp))),
        ihkey (hfits.contains (harg _ (by simp))) (hn.contains (harg _ (by simp)))⟩
  | capture hcapture _ ih =>
    obtain ⟨_, _, _, hcall, -⟩ := regexpReplaceCaptureFastPathArgs_eq_some.mp hcapture
    have harg := contains_arg hcall List.mem_cons_self
    exact hP.captureExpr.mpr (ih (hfits.contains harg) (hn.contains harg))
  | @getFields root root' accessChain accessChain' hget hroot hlen hfields hchain ihroot ihchain =>
    have hshape : (Node.expr (.compoundFieldAccess root accessChain)).shape =
        .node .compoundFieldAccess (some (.expr root)) (accessChain.map .accessExpr) none := rfl
    have hchildren := children_compoundFieldAccess ▸ (fun c hc => ⟨hfits.child hc, hn.child hc⟩ :
      ∀ c ∈ (Node.expr (.compoundFieldAccess root accessChain)).children,
        c.Fits G ∧ c.LeavesOperators G not plus)
    rw [Node.fits_iff, children_compoundFieldAccess, List.forall_mem_cons]
    obtain ⟨hrootFits, hrootLeaves⟩ := hchildren _ List.mem_cons_self
    refine ⟨?_, ihroot hrootFits hrootLeaves, fun c' hc' => ?_⟩
    · intro kind left inner right hs p hp
      cases hs
      exact hroot.yields hG (hfits _ .refl _ _ _ _ hshape p hp)
        (hn.notLike _ .refl _ _ _ _ hshape p hp)
    · obtain ⟨access', haccess', rfl⟩ := List.mem_map.mp hc'
      obtain ⟨access, hp⟩ := exists_mem_zip hlen haccess'
      have hmem := List.mem_cons_of_mem (Node.expr root)
        (List.mem_map_of_mem (f := Node.accessExpr) (List.of_mem_zip hp).1)
      by_cases hdot : ∃ ident, access = .dot (.identifier ident)
      · obtain ⟨ident, rfl⟩ := hdot
        obtain rfl := hfields _ hp ident rfl
        exact (hP.single rfl rfl).mpr (hP.value _)
      · obtain ⟨haccessFits, haccessLeaves⟩ := hchildren _ hmem
        exact ihchain _ hp (fun ident heq => hdot ⟨ident, heq⟩) haccessFits haccessLeaves
  | aliased _ h ih =>
    exact (hP.single rfl rfl).mpr
      (ih (hfits.child List.mem_cons_self) (hn.child List.mem_cons_self))

/-! ## The rewritten statement -/

section

variable (display : Display) (options : RewriteOptions)

def rewritten (statement : Statement) : Node :=
  .statement (rewriteStatementFastPaths display options statement).1

theorem pass_rewritten (statement : Statement) : Pass (fun _ => True) options.Aliasing
    (.statement statement) (rewritten display options statement) :=
  pass_statement display options statement fun _ _ => trivial

end

theorem Node.leavesOperators_of {n : Node}
    (hindex : ∀ function array index, n = .expr (.function function) →
      databricksGetArrayArgs function = some (array, index) → (Node.expr index).term.Yields G plus)
    (hleft : ∀ kind left inner right, n.shape = .node kind (some left) inner right →
      ∀ p ∈ G.left kind, not < p → ¬ left.EndsInNotLike)
    (h : ∀ c ∈ n.children, c.LeavesOperators G not plus) : n.LeavesOperators G not plus := by
  constructor
  · intro function array index hf hargs
    rcases contains_iff.mp hf with heq | ⟨c, hc, hf⟩
    · exact hindex function array index heq hargs
    · exact (h c hc).index function array index hf hargs
  · intro m hm
    rcases contains_iff.mp hm with rfl | ⟨c, hc, hm⟩
    · exact hleft
    · exact (h c hc).notLike m hm

/-- `get(items, i * 2)` -/
def itemCall : Function := .plain "get" [.identifier (.new "items"),
  .binaryOp (.identifier (.new "i")) .multiply (numberExpr "2")]

def selectGetItem : Statement := .query (.mk false [] (.select (.mk "" []
  [.unnamedExpr (.function itemCall)] none [] none none (.expressions [] []) [] [] [] none none))
  .none "" [])

/-- What holds of a node when it does of its parts holds of the statement, if it does of the index
and the `get`. -/
theorem of_selectGetItem {P : Node → Prop}
    (hbracket : ∀ {n kind inner}, n.shape = Node.bracket kind inner → n.isDatabricks = false →
      sqlGrammar.left kind = none → sqlGrammar.inner kind = 0 → sqlGrammar.right kind = none →
      (∀ c ∈ inner, P c) → P n)
    (hindex : P (.expr (.identifier (.new "i"))) → P (.expr (numberExpr "2")) →
      P (.expr (.binaryOp (.identifier (.new "i")) .multiply (numberExpr "2"))))
    (hget : P (.function itemCall) → P (.expr (.function itemCall))) :
    P (.statement selectGetItem) := by
  have hleaf : ∀ {n kind}, n.shape = Node.bracket kind [] → n.isDatabricks = false →
      sqlGrammar.left kind = none → sqlGrammar.inner kind = 0 → sqlGrammar.right kind = none →
      P n := fun hs hd hl hi hr => hbracket hs hd hl hi hr (List.forall_mem_nil _)
  have hsingle : ∀ {n c kind}, n.shape = Node.bracket kind [c] → n.isDatabricks = false →
      sqlGrammar.left kind = none → sqlGrammar.inner kind = 0 → sqlGrammar.right kind = none →
      P c → P n := fun hs hd hl hi hr hc =>
    hbracket hs hd hl hi hr (List.forall_mem_singleton.mpr hc)
  have hpair : ∀ {n c d kind}, n.shape = Node.bracket kind [c, d] → n.isDatabricks = false →
      sqlGrammar.left kind = none → sqlGrammar.inner kind = 0 → sqlGrammar.right kind = none →
      P c → P d → P n := fun hs hd hl hi hr hc hd' =>
    hbracket hs hd hl hi hr (List.forall_mem_cons.mpr ⟨hc, List.forall_mem_singleton.mpr hd'⟩)
  have harg : ∀ {e}, P (.expr e) → P (.arg (.unnamed (.expr e))) := fun he =>
    hsingle rfl rfl rfl rfl rfl (hsingle rfl rfl rfl rfl rfl he)
  have hargs : P (.arguments (.list none [.unnamed (.expr (.identifier (.new "items"))),
      .unnamed (.expr (.binaryOp (.identifier (.new "i")) .multiply (numberExpr "2")))] [] [])) :=
    hpair rfl rfl rfl rfl rfl (harg (hleaf rfl rfl rfl rfl rfl))
      (harg (hindex (hleaf rfl rfl rfl rfl rfl) (hleaf rfl rfl rfl rfl rfl)))
  have hfunction : P (.function itemCall) :=
    hpair rfl rfl rfl rfl rfl (hleaf rfl rfl rfl rfl rfl) hargs
  have hselect := hpair (n := .select (.mk "" [] [.unnamedExpr (.function itemCall)] none [] none
    none (.expressions [] []) [] [] [] none none)) rfl rfl rfl rfl rfl
    (hsingle rfl rfl rfl rfl rfl (hget hfunction)) (hleaf rfl rfl rfl rfl rfl)
  exact hsingle rfl rfl rfl rfl rfl (hpair rfl rfl rfl rfl rfl
    (hsingle rfl rfl rfl rfl rfl hselect) (hleaf rfl rfl rfl rfl rfl))

theorem reads_selectGetItem : (Node.statement selectGetItem).Reads sqlGrammar := by
  apply of_selectGetItem
  · intro n kind inner hshape _ hleft hinner hright h
    exact (Node.reads_bracket hleft hinner hright hshape).mpr h
  · intro hi _
    refine reads_binaryOp (p := 40) (q := 40) precedences_sqlGrammar ⟨by decide, rfl, rfl⟩ hi ?_
    rw [Node.term_node rfl]
    trivial
  · intro h
    exact (Node.reads_bracket rfl rfl rfl rfl).mpr (List.forall_mem_singleton.mpr h)

theorem leavesOperators_selectGetItem :
    (Node.statement selectGetItem).LeavesOperators sqlGrammar 15 30 := by
  apply of_selectGetItem
  · intro n kind inner hshape hget _ _ _ h
    have hchildren : n.children = inner := by simp [Node.children, hshape, Shape.children]
    refine Node.leavesOperators_of (fun function array index hf hargs => ?_)
      (fun kind' left inner' right hs => ?_) (hchildren ▸ h)
    · subst hf
      simp [Node.isDatabricks, hargs] at hget
    · cases hshape.symm.trans hs
  · intro hi htwo
    refine Node.leavesOperators_of (fun _ _ _ hf => by cases hf)
      (fun kind left inner right hs p _ _ => ?_)
      (List.forall_mem_cons.mpr ⟨hi, List.forall_mem_singleton.mpr htwo⟩)
    cases hs
    refine not_endsInNotLike (p := 20) precedences_sqlGrammar ?_ (by decide)
    rw [Node.term_node rfl]
    trivial
  · intro h
    refine Node.leavesOperators_of (fun function array index hf hargs => ?_) ?_
      (List.forall_mem_singleton.mpr h)
    · cases hf
      cases hargs
      rw [Node.term_node rfl]
      refine ⟨fun m hm => ?_, ?_⟩
      · cases hm
        decide
      · rw [Node.term_node rfl]
        trivial
    · intro kind left inner right hs
      cases hs

end HarborSql.Sql
