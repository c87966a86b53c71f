import Mathlib.Data.List.Forall2
import Mathlib.Algebra.Order.Ring.Int

/-! Terms of prefix, infix, postfix and bracketed nodes over any set of kinds, how they are printed,
and the parser that groups tokens by precedence climbing. The parser reads a term back from its
tokens if and only if the precedences group it so (`parses_iff`). Parentheses are never inserted:
they are nodes of their own. -/

namespace HarborSql.Mixfix

/-- The precedences at which a kind of node reads the operand before its tokens, those between them,
and the one after them. An operand before or after may be missing. -/
structure Grammar (K : Type) where
  left : K → Option Nat
  inner : K → Nat
  right : K → Option Nat

inductive Token (K : Type) where
  | lparen
  | rparen
  /-- The first token of a node, or the one after its left operand. -/
  | symbol (kind : K)
  /-- The end of one of the operands between the tokens of a node. -/
  | delimiter
  /-- The end of all of them. -/
  | done

/-- The kind of node that a token begins, or goes on. -/
def Token.kind? {K : Type} : Token K → Option K
  | symbol kind => some kind
  | _ => none

def Token.isMark {K : Type} : Token K → Bool
  | lparen | rparen => false
  | _ => true

/-- How many parentheses the tokens leave open. -/
def depth {K : Type} : List (Token K) → Int
  | [] => 0
  | .lparen :: tokens => 1 + depth tokens
  | .rparen :: tokens => -1 + depth tokens
  | _ :: tokens => depth tokens

inductive Term (K : Type) where
  | nested (term : Term K)
  | node (kind : K) (left : Option (Term K)) (inner : List (Term K)) (right : Option (Term K))

/-- One layer of a term, over any type of parts. -/
inductive Shape (K C : Type) where
  | nested (part : C)
  | node (kind : K) (left : Option C) (inner : List C) (right : Option C)

def Shape.children {K C : Type} : Shape K C → List C
  | nested part => [part]
  | node _ left inner right => left.toList ++ inner ++ right.toList

/-- The layer over other parts. -/
def Shape.map {K C D : Type} (f : C → D) : Shape K C → Shape K D
  | nested part => nested (f part)
  | node kind left inner right => node kind (left.map f) (inner.map f) (right.map f)

theorem Shape.children_map {K C D : Type} (f : C → D) (s : Shape K C) :
    (s.map f).children = s.children.map f := by
  rcases s with part | ⟨kind, left, inner, right⟩
  · rfl
  · simp [Shape.map, Shape.children, Option.toList_map]

/-- The layer with the parts known to be its own. -/
def Shape.attach {K C : Type} : (s : Shape K C) → Shape K {c // c ∈ s.children}
  | nested part => nested ⟨part, List.mem_singleton_self part⟩
  | node kind left inner right =>
    node kind (left.attach.map fun c => ⟨c.1, by simp [children, c.2]⟩)
      (inner.attach.map fun c => ⟨c.1, by simp [children, c.2]⟩)
      (right.attach.map fun c => ⟨c.1, by simp [children, c.2]⟩)

theorem Shape.attach_map_val {K C D : Type} (f : C → D) (s : Shape K C) :
    s.attach.map (fun c => f c.1) = s.map f := by
  rcases s with part | ⟨kind, left, inner, right⟩
  · rfl
  · simp [attach, map, Function.comp_def]

/-- Two layers of one form, with related parts at the same places. -/
inductive Shape.Rel {K C D : Type} (R : C → D → Prop) : Shape K C → Shape K D → Prop
  | nested {c d} : R c d → Rel R (.nested c) (.nested d)
  | node {kind left left' inner inner' right right'} : Option.Rel R left left' →
    List.Forall₂ R inner inner' → Option.Rel R right right' →
    Rel R (.node kind left inner right) (.node kind left' inner' right')

theorem rel_of_zip {C D : Type} {R : C → D → Prop} {o : Option C} {o' : Option D}
    (hform : o.map (fun _ => ()) = o'.map fun _ => ())
    (h : ∀ p ∈ o.toList.zip o'.toList, R p.1 p.2) : Option.Rel R o o' := by
  cases o <;> cases o'
  · exact .none
  · cases hform
  · cases hform
  · exact .some (h _ List.mem_cons_self)

theorem length_toList_of_map {C D : Type} {o : Option C} {o' : Option D}
    (hform : o.map (fun _ => ()) = o'.map fun _ => ()) : o.toList.length = o'.toList.length := by
  cases o <;> cases o' <;> first | rfl | cases hform

theorem Shape.Rel.of_zip {K C D : Type} {R : C → D → Prop} {s : Shape K C} {s' : Shape K D}
    (hform : s.map (fun _ => ()) = s'.map fun _ => ())
    (h : ∀ p ∈ s.children.zip s'.children, R p.1 p.2) : Rel R s s' := by
  rcases s with part | ⟨kind, left, inner, right⟩ <;>
    rcases s' with part' | ⟨kind', left', inner', right'⟩
  · exact .nested (h _ List.mem_cons_self)
  · cases hform
  · cases hform
  · obtain ⟨rfl, hleft, hinner, hright⟩ := Shape.node.inj hform
    have hlength : inner.length = inner'.length := by
      have := congrArg List.length hinner
      rwa [List.length_map, List.length_map] at this
    have hlengthLeft := length_toList_of_map hleft
    simp only [children, List.append_assoc] at h
    rw [List.zip_append hlengthLeft, List.forall_mem_append, List.zip_append hlength,
      List.forall_mem_append] at h
    exact .node (rel_of_zip hleft h.1) (List.forall₂_iff_zip.mpr ⟨hlength, fun hp => h.2.1 _ hp⟩)
      (rel_of_zip hright h.2.2)

variable {K : Type}

/-- The term that the layer is over terms. -/
def Shape.term : Shape K (Term K) → Term K
  | nested part => .nested part
  | node kind left inner right => .node kind left inner right

namespace Term

/-! ## Printing -/

mutual

def print : Term K → List (Token K)
  | nested t => .lparen :: (t.print ++ [.rparen])
  | node kind left inner right =>
    printOption left ++ .symbol kind :: (printInner inner ++ printOption right)

def printOption : Option (Term K) → List (Token K)
  | none => []
  | some t => t.print

def printInner : List (Term K) → List (Token K)
  | [] => [.done]
  | t :: ts => t.print ++ .delimiter :: printInner ts

end

mutual

/-- The term without its parentheses. -/
def strip : Term K → Term K
  | nested t => t.strip
  | node kind left inner right => node kind (stripOption left) (stripInner inner) (stripOption right)

def stripOption : Option (Term K) → Option (Term K)
  | none => none
  | some t => some t.strip

def stripInner : List (Term K) → List (Term K)
  | [] => []
  | t :: ts => t.strip :: stripInner ts

end

theorem induction {P : Term K → Prop} (nested : ∀ t, P t → P (nested t))
    (node : ∀ kind left inner right, (∀ t ∈ left, P t) → (∀ t ∈ inner, P t) → (∀ t ∈ right, P t) →
      P (node kind left inner right)) : ∀ t, P t
  | .nested t => nested t (induction nested node t)
  | .node kind left inner right =>
    node kind left inner right (fun t _ => induction nested node t)
      (fun t _ => induction nested node t) (fun t _ => induction nested node t)

/-! ## Grouping -/

section

variable (G : Grammar K)

/-- The operators at the right end of the term leave what follows to an operator of the given
precedence. -/
def Yields (precedence : Nat) : Term K → Prop
  | nested _ => True
  | node _ _ _ none => True
  | node kind _ _ (some t) => (∀ m ∈ G.right kind, precedence ≤ m) ∧ Yields precedence t

/-- The operators at the left end of the term bind tighter than the given precedence. -/
def Above (precedence : Nat) : Term K → Prop
  | nested _ => True
  | node _ none _ _ => True
  | node kind (some t) _ _ => (∀ m ∈ G.left kind, precedence < m) ∧ Above precedence t

mutual

/-- The precedences group the tokens of the term as the term does. -/
def Grouped : Term K → Prop
  | nested t => Grouped t ∧ t.Above G 0
  | node kind left inner right =>
    GroupedLeft (G.left kind) left ∧ GroupedInner (G.inner kind) inner ∧
      GroupedRight (G.right kind) right

def GroupedLeft : Option Nat → Option (Term K) → Prop
  | none, none => True
  | some p, some t => Grouped t ∧ t.Yields G p
  | _, _ => False

def GroupedInner (p : Nat) : List (Term K) → Prop
  | [] => True
  | t :: ts => Grouped t ∧ t.Above G p ∧ GroupedInner p ts

def GroupedRight : Option Nat → Option (Term K) → Prop
  | none, none => True
  | some p, some t => Grouped t ∧ t.Above G p
  | _, _ => False

end

end

/-! ## Parentheses -/

theorem filter_printInner {ts : List (Term K)}
    (h : ∀ t ∈ ts, t.print.filter Token.isMark = t.strip.print) :
    (printInner ts).filter Token.isMark = printInner (stripInner ts) := by
  induction ts with
  | nil => rfl
  | cons t ts ih =>
    rw [printInner, stripInner, printInner, List.filter_append, h t List.mem_cons_self,
      List.filter_cons_of_pos rfl, ih fun t ht => h t (List.mem_cons_of_mem _ ht)]

theorem filter_printOption {o : Option (Term K)}
    (h : ∀ t ∈ o, t.print.filter Token.isMark = t.strip.print) :
    (printOption o).filter Token.isMark = printOption (stripOption o) := by
  cases o with
  | none => rfl
  | some t => exact h t rfl

/-- The other tokens are those of the term without its parentheses. -/
theorem filter_print (t : Term K) : t.print.filter Token.isMark = t.strip.print := by
  induction t using Term.induction with
  | nested t ih =>
    rw [print, strip, List.filter_cons_of_neg Bool.false_ne_true, List.filter_append, ih]
    exact List.append_nil _
  | node kind left inner right ihl ihi ihr =>
    rw [print, strip, print, List.filter_append, filter_printOption ihl,
      List.filter_cons_of_pos rfl, List.filter_append, filter_printInner ihi, filter_printOption ihr]

theorem depth_append (a b : List (Token K)) : depth (a ++ b) = depth a + depth b := by
  induction a with
  | nil => simp [depth]
  | cons token a ih => cases token <;> simp only [List.cons_append, depth, ih] <;> omega

/-- Every parenthesis that the tokens close they have opened, and they close them all. -/
structure Balanced (tokens : List (Token K)) : Prop where
  depth : depth tokens = 0
  nonneg : ∀ pre, pre <+: tokens → 0 ≤ Mixfix.depth pre

theorem Balanced.nil : Balanced ([] : List (Token K)) :=
  ⟨rfl, fun pre h => by rw [List.prefix_nil.mp h]; rfl⟩

theorem Balanced.append {a b : List (Token K)} (ha : Balanced a) (hb : Balanced b) :
    Balanced (a ++ b) := by
  refine ⟨by rw [depth_append, ha.depth, hb.depth]; rfl, fun pre h => ?_⟩
  obtain ⟨c, hc⟩ := h
  rcases List.append_eq_append_iff.mp hc with ⟨d, rfl, -⟩ | ⟨d, rfl, rfl⟩
  · exact ha.nonneg pre (List.prefix_append _ _)
  · rw [depth_append, ha.depth, Int.zero_add]
    exact hb.nonneg d (List.prefix_append _ _)

theorem Balanced.mark {token : Token K} (h : token.isMark = true) : Balanced [token] := by
  refine ⟨?_, fun pre hpre => ?_⟩
  · cases token <;> first | rfl | contradiction
  · rcases List.prefix_cons_iff.mp hpre with rfl | ⟨t, rfl, ht⟩
    · exact le_rfl
    · obtain rfl := List.prefix_nil.mp ht
      cases token <;> first | exact le_rfl | contradiction

/-- Between a pair of parentheses something stays open. -/
theorem Balanced.depth_pos {tokens pre suf : List (Token K)} (h : Balanced tokens)
    (hpre : pre ≠ []) (hsuf : suf ≠ [])
    (heq : .lparen :: (tokens ++ [.rparen]) = pre ++ suf) : 0 < Mixfix.depth pre := by
  obtain ⟨token, pre, rfl⟩ := List.exists_cons_of_ne_nil hpre
  rw [List.cons_append, List.cons.injEq] at heq
  obtain ⟨rfl, heq⟩ := heq
  have hprefix : pre <+: tokens := by
    rcases List.append_eq_append_iff.mp heq with ⟨d, rfl, hd⟩ | ⟨d, rfl, -⟩
    · rcases List.singleton_eq_append_iff.mp hd with ⟨rfl, -⟩ | ⟨-, h⟩
      · exact ⟨[], by rw [List.append_nil, List.append_nil]⟩
      · exact absurd h hsuf
    · exact List.prefix_append _ _
  have hnonneg := h.nonneg pre hprefix
  simp only [Mixfix.depth]
  omega

theorem Balanced.paren {tokens : List (Token K)} (h : Balanced tokens) :
    Balanced (.lparen :: (tokens ++ [.rparen])) := by
  refine ⟨?_, fun pre ⟨suf, hpre⟩ => ?_⟩
  · rw [Mixfix.depth, depth_append, h.depth]
    rfl
  · cases pre with
    | nil => exact le_rfl
    | cons token pre =>
      cases suf with
      | nil =>
        rw [List.append_nil] at hpre
        rw [hpre, Mixfix.depth, depth_append, h.depth]
        exact le_rfl
      | cons token' suf => exact (h.depth_pos (List.cons_ne_nil _ _) (List.cons_ne_nil _ _) hpre.symm).le

theorem balanced_printInner {ts : List (Term K)} (h : ∀ t ∈ ts, Balanced t.print) :
    Balanced (printInner ts) := by
  induction ts with
  | nil => exact .mark rfl
  | cons t ts ih =>
    have hts := ih fun t ht => h t (List.mem_cons_of_mem _ ht)
    exact (h t List.mem_cons_self).append ((show Balanced [Token.delimiter] from .mark rfl).append hts)

theorem balanced_printOption {o : Option (Term K)} (h : ∀ t ∈ o, Balanced t.print) :
    Balanced (printOption o) := by
  cases o with
  | none => exact .nil
  | some t => exact h t rfl

theorem balanced_print (t : Term K) : Balanced t.print := by
  induction t using Term.induction with
  | nested t ih => exact ih.paren
  | node kind left inner right ihl ihi ihr =>
    exact (balanced_printOption ihl).append ((show Balanced [Token.symbol kind] from .mark rfl).append
      ((balanced_printInner ihi).append (balanced_printOption ihr)))

theorem print_ne_nil (t : Term K) : t.print ≠ [] := by
  cases t with
  | nested t => exact List.cons_ne_nil _ _
  | node kind left inner right => exact List.append_ne_nil_of_right_ne_nil _ (List.cons_ne_nil _ _)

/-- Parentheses around all the tokens are no part of a node. -/
theorem print_nested_ne_node (t : Term K) (kind : K) (left : Option (Term K))
    (inner : List (Term K)) (right : Option (Term K)) :
    (nested t).print ≠ (node kind left inner right).print := by
  intro h
  rw [print, print] at h
  cases left with
  | none => cases h
  | some l =>
    have hpos := (balanced_print t).depth_pos (print_ne_nil l) (List.cons_ne_nil _ _) h
    exact absurd (balanced_print l).depth hpos.ne'

/-- Two equal lists are split at the same place if as many marks stand before it. -/
theorem split_at_mark {a b c d : List (Token K)} {x y : Token K} (hx : x.isMark = true)
    (hy : y.isMark = true) (h : a ++ x :: b = c ++ y :: d)
    (hmarks : a.filter Token.isMark = c.filter Token.isMark) : a = c ∧ x = y ∧ b = d := by
  have hlength := congrArg List.length hmarks
  rcases List.append_eq_append_iff.mp h with ⟨e, rfl, he⟩ | ⟨e, rfl, he⟩
  · cases e with
    | nil =>
      rw [List.append_nil]
      exact ⟨rfl, List.cons.inj he⟩
    | cons z e =>
      obtain rfl := (List.cons.inj he).1
      rw [List.filter_append, List.filter_cons_of_pos hx, List.length_append, List.length_cons] at hlength
      omega
  · cases e with
    | nil =>
      rw [List.append_nil]
      exact ⟨rfl, (List.cons.inj he).1.symm, (List.cons.inj he).2.symm⟩
    | cons z e =>
      obtain rfl := (List.cons.inj he).1
      rw [List.filter_append, List.filter_cons_of_pos hy, List.length_append, List.length_cons] at hlength
      omega

/-- A term is given by its tokens, up to its parentheses. -/
def Unambiguous (t : Term K) : Prop := ∀ u : Term K, t.print = u.print → t.strip = u.strip → t = u

theorem unambiguous_option {o o' : Option (Term K)} (ih : ∀ t ∈ o, t.Unambiguous)
    (hprint : printOption o = printOption o') (hstrip : stripOption o = stripOption o') : o = o' := by
  cases o with
  | none =>
    cases o' with
    | none => rfl
    | some u => cases hstrip
  | some t =>
    cases o' with
    | none => cases hstrip
    | some u => rw [ih t rfl u hprint (Option.some.inj hstrip)]

theorem unambiguous_inner {ts us : List (Term K)} (ih : ∀ t ∈ ts, t.Unambiguous)
    {a b : List (Token K)} (hprint : printInner ts ++ a = printInner us ++ b)
    (hstrip : stripInner ts = stripInner us) : ts = us ∧ a = b := by
  induction ts generalizing us with
  | nil =>
    cases us with
    | nil => exact ⟨rfl, (List.cons.inj hprint).2⟩
    | cons u us => cases hstrip
  | cons t ts ihts =>
    cases us with
    | nil => cases hstrip
    | cons u us =>
      obtain ⟨hhead, htail⟩ := List.cons.inj hstrip
      rw [printInner, printInner, List.append_assoc, List.append_assoc] at hprint
      obtain ⟨ht, -, hts⟩ := split_at_mark rfl rfl hprint
        (by rw [filter_print, filter_print, hhead])
      obtain ⟨rfl, hrest⟩ := ihts (fun t ht => ih t (List.mem_cons_of_mem _ ht)) hts htail
      rw [ih t List.mem_cons_self u ht hhead]
      exact ⟨rfl, hrest⟩

theorem unambiguous (t : Term K) : t.Unambiguous := by
  induction t using Term.induction with
  | nested t ih =>
    intro u hprint hstrip
    cases u with
    | node kind left inner right => exact absurd hprint (print_nested_ne_node t kind left inner right)
    | nested u =>
      rw [print, print] at hprint
      rw [ih u (List.append_cancel_right (List.cons.inj hprint).2) hstrip]
  | node kind left inner right ihl ihi ihr =>
    intro u hprint hstrip
    cases u with
    | nested u => exact absurd hprint.symm (print_nested_ne_node u kind left inner right)
    | node kind' left' inner' right' =>
      obtain ⟨rfl, hleft, hinner, hright⟩ := Term.node.inj hstrip
      rw [print, print] at hprint
      obtain ⟨hl, -, hrest⟩ := split_at_mark rfl rfl hprint (by
        rw [filter_printOption fun t _ => filter_print t, filter_printOption fun t _ => filter_print t,
          hleft])
      obtain ⟨rfl, hr⟩ := unambiguous_inner ihi hrest hinner
      rw [unambiguous_option ihl hl hleft, unambiguous_option ihr hr hright]

end Term

/-! ## The parser -/

open Term

namespace Grammar

variable (G : Grammar K)

mutual

/-- Precedence climbing: the operand at the head of the tokens and the operators after it that bind
tighter than the given precedence. -/
def parse : Nat → Nat → List (Token K) → Option (Term K × List (Token K))
  | 0, _, _ => none
  | fuel + 1, min, .lparen :: tokens => do
    let (t, tokens) ← parse fuel 0 tokens
    match tokens with
    | .rparen :: tokens => climb fuel min (.nested t) tokens
    | _ => none
  | fuel + 1, min, .symbol kind :: tokens =>
    match G.left kind with
    | none => do
      let (t, tokens) ← parseNode fuel kind none tokens
      climb fuel min t tokens
    | some _ => none
  | _ + 1, _, _ => none

def climb : Nat → Nat → Term K → List (Token K) → Option (Term K × List (Token K))
  | 0, _, _, _ => none
  | fuel + 1, min, left, .symbol kind :: tokens =>
    match G.left kind with
    | some p =>
      if min < p then do
        let (t, tokens) ← parseNode fuel kind (some left) tokens
        climb fuel min t tokens
      else some (left, .symbol kind :: tokens)
    | none => some (left, .symbol kind :: tokens)
  | _ + 1, _, left, tokens => some (left, tokens)

/-- The rest of a node after its first token, or after the one after its left operand. -/
def parseNode : Nat → K → Option (Term K) → List (Token K) → Option (Term K × List (Token K))
  | 0, _, _, _ => none
  | fuel + 1, kind, left, tokens => do
    let (inner, tokens) ← parseInner fuel (G.inner kind) tokens
    match G.right kind with
    | none => some (.node kind left inner none, tokens)
    | some p =>
      let (right, tokens) ← parse fuel p tokens
      some (.node kind left inner (some right), tokens)

def parseInner : Nat → Nat → List (Token K) → Option (List (Term K) × List (Token K))
  | 0, _, _ => none
  | _ + 1, _, .done :: tokens => some ([], tokens)
  | fuel + 1, p, tokens => do
    let (t, tokens) ← parse fuel p tokens
    match tokens with
    | .delimiter :: tokens =>
      let (ts, tokens) ← parseInner fuel p tokens
      some (t :: ts, tokens)
    | _ => none

end

/-- The parser reads the tokens as the term. -/
def Parses (tokens : List (Token K)) (t : Term K) : Prop :=
  ∃ fuel, G.parse fuel 0 tokens = some (t, [])

/-- The first of the tokens is no operator that would take the end of the term for its operand. -/
def Follows (t : Term K) (tokens : List (Token K)) : Prop :=
  ∀ kind ∈ tokens.head?.bind Token.kind?, ∀ p ∈ G.left kind, t.Yields G p

variable {G}

/-- No operator at the head of the tokens binds tighter than the precedence. -/
def Stops (G : Grammar K) (min : Nat) (tokens : List (Token K)) : Prop :=
  ∀ kind ∈ tokens.head?.bind Token.kind?, ∀ p ∈ G.left kind, p ≤ min

theorem climb_of_stops {fuel min : Nat} {left : Term K} {tokens : List (Token K)}
    (h : G.Stops min tokens) : G.climb (fuel + 1) min left tokens = some (left, tokens) := by
  match tokens with
  | [] | .lparen :: _ | .rparen :: _ | .delimiter :: _ | .done :: _ => rfl
  | .symbol kind :: tokens =>
    rw [climb]
    split
    next p hp => rw [if_neg (Nat.not_lt.mpr (h kind rfl p hp))]
    next => rfl

theorem climb_of_lt {fuel min p : Nat} {left : Term K} {kind : K} {tokens : List (Token K)}
    (hp : G.left kind = some p) (hlt : min < p) :
    G.climb (fuel + 1) min left (.symbol kind :: tokens) =
      (G.parseNode fuel kind (some left) tokens).bind fun (t, tokens) => G.climb fuel min t tokens := by
  rw [climb]
  simp only [hp, if_pos hlt]
  rfl

theorem stops_or_exists_lt (min : Nat) (tokens : List (Token K)) :
    G.Stops min tokens ∨
      ∃ kind p rest, tokens = .symbol kind :: rest ∧ G.left kind = some p ∧ min < p := by
  refine or_iff_not_imp_left.mpr fun h => ?_
  simp only [Stops, not_forall, Nat.not_le] at h
  obtain ⟨kind, hkind, p, hp, hlt⟩ := h
  match tokens with
  | .symbol kind' :: rest =>
    obtain rfl := Option.some.inj hkind
    exact ⟨kind', p, rest, rfl, hp, hlt⟩

/-- The term stands at the head of the tokens, grouped as it is read at a precedence, and no operator
after it belongs to it. -/
structure Reads (G : Grammar K) (min : Nat) (tokens : List (Token K)) (t : Term K)
    (rest : List (Token K)) : Prop where
  print : tokens = t.print ++ rest
  grouped : t.Grouped G
  above : t.Above G min
  follows : G.Follows t rest
  stops : G.Stops min rest

/-! ### What is read is grouped -/

/-- What holds of the four functions with the given fuel. -/
structure Sound (G : Grammar K) (fuel : Nat) : Prop where
  parse : ∀ {min tokens t rest}, G.parse fuel min tokens = some (t, rest) → G.Reads min tokens t rest
  climb : ∀ {min left tokens t rest}, G.climb fuel min left tokens = some (t, rest) →
    left.Grouped G → left.Above G min → G.Follows left tokens →
      G.Reads min (left.print ++ tokens) t rest
  node : ∀ {kind left tokens t rest}, G.parseNode fuel kind left tokens = some (t, rest) →
    (∃ inner right, t = .node kind left inner right ∧
      tokens = printInner inner ++ (printOption right ++ rest) ∧
      GroupedInner G (G.inner kind) inner ∧ GroupedRight G (G.right kind) right) ∧
    G.Follows t rest
  inner : ∀ {p tokens ts rest}, G.parseInner fuel p tokens = some (ts, rest) →
    tokens = printInner ts ++ rest ∧ GroupedInner G p ts

namespace Sound

variable {fuel min p : Nat} {kind : K} {left : Option (Term K)} {l t : Term K}
  {ts : List (Term K)} {tokens rest : List (Token K)}

theorem climb_succ (ih : Sound G fuel) (h : G.climb (fuel + 1) min l tokens = some (t, rest))
    (hgrouped : l.Grouped G) (habove : l.Above G min) (hfollows : G.Follows l tokens) :
    G.Reads min (l.print ++ tokens) t rest := by
  rcases G.stops_or_exists_lt min tokens with hstops | ⟨kind, p, tokens, rfl, hp, hlt⟩
  · rw [climb_of_stops hstops] at h
    obtain ⟨rfl, rfl⟩ := Prod.mk.inj (Option.some.inj h)
    exact ⟨rfl, hgrouped, habove, hfollows, hstops⟩
  · -- The operator takes what was read for its left operand.
    rw [climb_of_lt hp hlt] at h
    obtain ⟨⟨t', tokens'⟩, hnode, hclimb⟩ := Option.bind_eq_some_iff.mp h
    obtain ⟨⟨inner, right, rfl, rfl, hinner, hright⟩, hfollows'⟩ := ih.node hnode
    have hleft : GroupedLeft G (G.left kind) (some l) := by
      rw [hp]
      exact ⟨hgrouped, hfollows kind rfl p hp⟩
    have habove' : (Term.node kind (some l) inner right).Above G min :=
      ⟨fun m hm => (Option.some.inj (hp.symm.trans hm)) ▸ hlt, habove⟩
    have hread := ih.climb hclimb ⟨hleft, hinner, hright⟩ habove' hfollows'
    rw [Term.print, printOption] at hread
    simpa only [List.append_assoc, List.cons_append] using hread

theorem node_succ (ih : Sound G fuel)
    (h : G.parseNode (fuel + 1) kind left tokens = some (t, rest)) :
    (∃ inner right, t = .node kind left inner right ∧
      tokens = printInner inner ++ (printOption right ++ rest) ∧
      GroupedInner G (G.inner kind) inner ∧ GroupedRight G (G.right kind) right) ∧
    G.Follows t rest := by
  rw [Grammar.parseNode] at h
  obtain ⟨⟨inner, tokens'⟩, hparse, hrest⟩ := Option.bind_eq_some_iff.mp h
  obtain ⟨rfl, hinner⟩ := ih.inner hparse
  dsimp only at hrest
  split at hrest
  next hright =>
    obtain ⟨rfl, rfl⟩ := Prod.mk.inj (Option.some.inj hrest)
    refine ⟨⟨inner, none, rfl, rfl, hinner, ?_⟩, fun _ _ _ _ => trivial⟩
    rw [hright]
    trivial
  next p hright =>
    obtain ⟨⟨r, tokens⟩, hparse, hresult⟩ := Option.bind_eq_some_iff.mp hrest
    obtain ⟨rfl, rfl⟩ := Prod.mk.inj (Option.some.inj hresult)
    obtain ⟨rfl, hgrouped, habove, hfollows, hstops⟩ := ih.parse hparse
    refine ⟨⟨inner, some r, rfl, rfl, hinner, ?_⟩, fun kind' hkind q hq => ⟨fun m hm => ?_, ?_⟩⟩
    · rw [hright]
      exact ⟨hgrouped, habove⟩
    · obtain rfl := Option.some.inj (hright.symm.trans hm)
      exact hstops kind' hkind q hq
    · exact hfollows kind' hkind q hq

theorem inner_succ (ih : Sound G fuel) (h : G.parseInner (fuel + 1) p tokens = some (ts, rest)) :
    tokens = printInner ts ++ rest ∧ GroupedInner G p ts := by
  unfold Grammar.parseInner at h
  split at h
  next => contradiction
  next =>
    obtain ⟨rfl, rfl⟩ := Prod.mk.inj (Option.some.inj h)
    exact ⟨rfl, trivial⟩
  next _ hfuel _ =>
    obtain rfl := Nat.succ.inj hfuel
    obtain ⟨⟨t, tokens⟩, hparse, hrest⟩ := Option.bind_eq_some_iff.mp h
    obtain ⟨rfl, hgrouped, habove, -, -⟩ := ih.parse hparse
    dsimp only at hrest
    split at hrest
    next =>
      obtain ⟨⟨ts, tokens⟩, hinner, hresult⟩ := Option.bind_eq_some_iff.mp hrest
      obtain ⟨rfl, rfl⟩ := Prod.mk.inj (Option.some.inj hresult)
      obtain ⟨rfl, hts⟩ := ih.inner hinner
      refine ⟨?_, hgrouped, habove, hts⟩
      rw [printInner, List.append_assoc]
      rfl
    next => contradiction

theorem parse_succ (ih : Sound G fuel) (h : G.parse (fuel + 1) min tokens = some (t, rest)) :
    G.Reads min tokens t rest := by
  match tokens with
  | [] | .rparen :: _ | .delimiter :: _ | .done :: _ => contradiction
  | .lparen :: tokens =>
    rw [Grammar.parse] at h
    obtain ⟨⟨a, tokens'⟩, hparse, hrest⟩ := Option.bind_eq_some_iff.mp h
    obtain ⟨rfl, hgrouped, habove, -, -⟩ := ih.parse hparse
    dsimp only at hrest
    split at hrest
    next =>
      have hread := ih.climb hrest ⟨hgrouped, habove⟩ trivial fun _ _ _ _ => trivial
      simpa [Term.print] using hread
    next => contradiction
  | .symbol kind :: tokens =>
    rw [Grammar.parse] at h
    split at h
    next hleft =>
      obtain ⟨⟨a, tokens'⟩, hnode, hrest⟩ := Option.bind_eq_some_iff.mp h
      obtain ⟨⟨inner, right, rfl, rfl, hinner, hright⟩, hfollows⟩ := ih.node hnode
      have hgrouped : GroupedLeft G (G.left kind) none := by
        rw [hleft]
        trivial
      have hread := ih.climb hrest ⟨hgrouped, hinner, hright⟩ trivial hfollows
      simpa [Term.print, printOption] using hread
    next => contradiction

end Sound

theorem sound (fuel : Nat) : Sound G fuel := by
  induction fuel with
  | zero => exact ⟨nofun, nofun, nofun, nofun⟩
  | succ fuel ih => exact ⟨ih.parse_succ, ih.climb_succ, ih.node_succ, ih.inner_succ⟩

/-! ### What is grouped is read -/

/-- With enough fuel the parser gets to the end of the term, and goes on from there. -/
def ReadsBack (G : Grammar K) (t : Term K) : Prop :=
  t.Grouped G → ∀ {min rest}, t.Above G min → G.Follows t rest →
    ∃ n, ∀ fuel, ∃ fuel', fuel ≤ fuel' ∧
      G.parse (fuel + n) min (t.print ++ rest) = G.climb fuel' min t rest

theorem ReadsBack.reads {t : Term K} (h : ReadsBack G t) (hgrouped : t.Grouped G) {min : Nat}
    {rest : List (Token K)} (habove : t.Above G min) (hfollows : G.Follows t rest)
    (hstops : G.Stops min rest) :
    ∃ n, ∀ fuel, G.parse (fuel + n) min (t.print ++ rest) = some (t, rest) := by
  obtain ⟨n, hn⟩ := h hgrouped habove hfollows
  refine ⟨n + 1, fun fuel => ?_⟩
  obtain ⟨fuel', hle, hparse⟩ := hn (fuel + 1)
  rw [show fuel + (n + 1) = fuel + 1 + n by omega, hparse]
  obtain ⟨k, rfl⟩ : ∃ k, fuel' = k + 1 := ⟨fuel' - 1, by omega⟩
  exact climb_of_stops hstops

theorem print_ne_done (t : Term K) : ∀ rest tokens, t.print ++ rest ≠ .done :: tokens := by
  induction t using Term.induction with
  | nested t ih => nofun
  | node kind left inner right ih _ _ =>
    intro rest tokens
    cases left with
    | none => nofun
    | some l =>
      rw [Term.print, printOption, List.append_assoc]
      exact ih l rfl _ _

theorem parseInner_cons {p n : Nat} {t : Term K} {ts : List (Term K)} {rest : List (Token K)}
    (ht : ∀ fuel, G.parse (fuel + n) p (t.print ++ .delimiter :: (printInner ts ++ rest)) =
      some (t, .delimiter :: (printInner ts ++ rest))) (fuel : Nat) :
    G.parseInner (fuel + n + 1) p (printInner (t :: ts) ++ rest) =
      (G.parseInner (fuel + n) p (printInner ts ++ rest)).map fun (ts, rest) => (t :: ts, rest) := by
  rw [printInner, List.append_assoc, List.cons_append, parseInner, ht]
  · simp only [Option.bind_eq_bind, Option.bind_some]
    cases G.parseInner (fuel + n) p (printInner ts ++ rest) <;> rfl
  · exact fun tokens h => print_ne_done t _ tokens h

theorem readsBack_inner {p : Nat} {ts : List (Term K)} (hts : GroupedInner G p ts)
    (ih : ∀ t ∈ ts, ReadsBack G t) (rest : List (Token K)) :
    ∃ n, ∀ fuel, G.parseInner (fuel + n) p (printInner ts ++ rest) = some (ts, rest) := by
  induction ts with
  | nil => exact ⟨1, fun _ => rfl⟩
  | cons t ts ihts =>
    obtain ⟨hgrouped, habove, hts⟩ := hts
    obtain ⟨n, hn⟩ := (ih t List.mem_cons_self).reads hgrouped habove
      (show G.Follows t (.delimiter :: (printInner ts ++ rest)) from nofun) nofun
    obtain ⟨m, hm⟩ := ihts hts fun t ht => ih t (List.mem_cons_of_mem _ ht)
    refine ⟨m + n + 1, fun fuel => ?_⟩
    have hcons := parseInner_cons hn (fuel + m)
    rw [show fuel + m + n = fuel + n + m by omega, hm (fuel + n)] at hcons
    rw [show fuel + (m + n + 1) = fuel + n + m + 1 by omega, hcons]
    rfl

theorem readsBack_node {kind : K} {left right : Option (Term K)} {inner : List (Term K)}
    {rest : List (Token K)} (hinner : GroupedInner G (G.inner kind) inner)
    (hright : GroupedRight G (G.right kind) right) (ihi : ∀ t ∈ inner, ReadsBack G t)
    (ihr : ∀ t ∈ right, ReadsBack G t) (hfollows : G.Follows (.node kind left inner right) rest) :
    ∃ n, ∀ fuel, G.parseNode (fuel + n) kind left (printInner inner ++ (printOption right ++ rest)) =
      some (.node kind left inner right, rest) := by
  obtain ⟨n, hn⟩ := readsBack_inner hinner ihi (printOption right ++ rest)
  cases hp : G.right kind with
  | none =>
    rw [hp] at hright
    cases right with
    | some r => contradiction
    | none =>
      refine ⟨n + 1, fun fuel => ?_⟩
      rw [show fuel + (n + 1) = fuel + n + 1 by omega, parseNode, hn, Option.bind_eq_bind,
        Option.bind_some]
      simp only [hp]
      rfl
  | some p =>
    rw [hp] at hright
    cases right with
    | none => contradiction
    | some r =>
      have hfollows' : G.Follows r rest := fun k hk q hq => (hfollows k hk q hq).2
      have hstops : G.Stops p rest := fun k hk q hq => (hfollows k hk q hq).1 p hp
      obtain ⟨m, hm⟩ := (ihr r rfl).reads hright.1 hright.2 hfollows' hstops
      refine ⟨n + m + 1, fun fuel => ?_⟩
      have hparse := hn (fuel + m)
      rw [show fuel + m + n = fuel + n + m by omega] at hparse
      rw [show fuel + (n + m + 1) = fuel + n + m + 1 by omega, parseNode, hparse, Option.bind_eq_bind,
        Option.bind_some]
      simp only [hp, printOption, hm]
      rfl

theorem readsBack (t : Term K) : ReadsBack G t := by
  induction t using Term.induction with
  | nested t ih =>
    intro ⟨hgrouped, habove⟩ min rest _ _
    obtain ⟨n, hn⟩ := ih.reads hgrouped habove (show G.Follows t (.rparen :: rest) from nofun) nofun
    refine ⟨n + 1, fun fuel => ⟨fuel + n, by omega, ?_⟩⟩
    rw [Term.print, show fuel + (n + 1) = fuel + n + 1 by omega, List.cons_append, List.append_assoc,
      parse, List.singleton_append, hn]
    rfl
  | node kind left inner right ihl ihi ihr =>
    intro ⟨hleft, hinner, hright⟩ min rest habove hfollows
    obtain ⟨n, hn⟩ := readsBack_node hinner hright ihi ihr hfollows
    cases hp : G.left kind with
    | none =>
      rw [hp] at hleft
      cases left with
      | some l => contradiction
      | none =>
        refine ⟨n + 1, fun fuel => ⟨fuel + n, by omega, ?_⟩⟩
        rw [Term.print, show fuel + (n + 1) = fuel + n + 1 by omega, printOption, List.nil_append,
          List.cons_append, List.append_assoc, parse]
        simp only [hp, hn]
        rfl
    | some p =>
      rw [hp] at hleft
      cases left with
      | none => contradiction
      | some l =>
        -- The left operand is read first, and the climb from it takes the operator.
        have hfollows' : G.Follows l (.symbol kind :: (printInner inner ++ (printOption right ++ rest))) := by
          intro k hk q hq
          obtain rfl := Option.some.inj hk
          obtain rfl := Option.some.inj (hp.symm.trans hq)
          exact hleft.2
        obtain ⟨m, hm⟩ := ihl l rfl hleft.1 habove.2 hfollows'
        refine ⟨n + 1 + m, fun fuel => ?_⟩
        obtain ⟨fuel', hle, hparse⟩ := hm (fuel + n + 1)
        obtain ⟨k, rfl⟩ : ∃ k, fuel' = k + n + 1 := ⟨fuel' - n - 1, by omega⟩
        refine ⟨k + n, by omega, ?_⟩
        rw [Term.print, printOption, List.append_assoc, List.cons_append, List.append_assoc,
          show fuel + (n + 1 + m) = fuel + n + 1 + m by omega, hparse, climb_of_lt hp (habove.1 p hp),
          hn]
        rfl

theorem parses_iff {tokens : List (Token K)} {t : Term K} :
    G.Parses tokens t ↔ tokens = t.print ∧ t.Grouped G ∧ t.Above G 0 := by
  constructor
  · intro ⟨fuel, h⟩
    obtain ⟨hprint, hgrouped, habove, -, -⟩ := (sound fuel).parse h
    exact ⟨hprint.trans (List.append_nil _), hgrouped, habove⟩
  · intro ⟨hprint, hgrouped, habove⟩
    obtain ⟨n, hn⟩ := (readsBack t).reads hgrouped habove (show G.Follows t [] from nofun) nofun
    refine ⟨n, ?_⟩
    have h := hn 0
    rwa [Nat.zero_add, List.append_nil, ← hprint] at h

/-- No tokens are read as two terms. -/
theorem Parses.unique {tokens : List (Token K)} {t u : Term K} (ht : G.Parses tokens t)
    (hu : G.Parses tokens u) : t = u := by
  obtain ⟨rfl, hgrouped, habove⟩ := parses_iff.mp ht
  obtain ⟨hprint, hgrouped', habove'⟩ := parses_iff.mp hu
  obtain ⟨n, hn⟩ := (readsBack t).reads hgrouped habove (show G.Follows t [] from nofun) nofun
  obtain ⟨m, hm⟩ := (readsBack u).reads hgrouped' habove' (show G.Follows u [] from nofun) nofun
  have h := hm n
  rw [List.append_nil, ← hprint, ← List.append_nil t.print, Nat.add_comm, hn] at h
  exact (Prod.mk.inj (Option.some.inj h)).1

end Grammar

end HarborSql.Mixfix
