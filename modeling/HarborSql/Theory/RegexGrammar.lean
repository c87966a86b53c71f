import Mathlib.Data.List.Infix

/-! Regular expressions as text: groups, alternation, inline flags and comments, on a lexer that
reads everything else. -/

namespace HarborSql.RegexGrammar

/-! ## Expressions -/

inductive Regex (P : Type) where
  | empty
  | prim (p : P)
  | rep (lo : Nat) (hi : Option Nat) (r : Regex P)
  | seq (r s : Regex P)
  | alt (r s : Regex P)
  | group (r : Regex P)

/-- The expression spans the characters of the name from one position to another, where `S` says
what a primitive spans. -/
inductive Spans {P : Type} (S : P → List Char → Nat → Nat → Prop) (name : List Char) :
    Regex P → Nat → Nat → Prop
  | empty : Spans S name .empty i i
  | prim : S p name i j → Spans S name (.prim p) i j
  | repNil : Spans S name (.rep 0 hi r) i i
  | repCons : hi ≠ some 0 → Spans S name r i j →
      Spans S name (.rep (lo - 1) (hi.map (· - 1)) r) j k → Spans S name (.rep lo hi r) i k
  | seq : Spans S name r i j → Spans S name s j k → Spans S name (.seq r s) i k
  | altLeft : Spans S name r i j → Spans S name (.alt r s) i j
  | altRight : Spans S name s i j → Spans S name (.alt r s) i j
  | group : Spans S name r i j → Spans S name (.group r) i j

/-- The alternatives of an expression, outside its groups. -/
def Regex.alternatives {P : Type} : Regex P → List (Regex P)
  | .alt r s => r.alternatives ++ s.alternatives
  | r => [r]

section

variable {P : Type} {S : P → List Char → Nat → Nat → Prop} {name : List Char} {r s : Regex P}
  {i j k : Nat}

theorem spans_empty : Spans S name .empty i j ↔ i = j := by
  refine ⟨?_, ?_⟩
  · intro h
    cases h
    rfl
  · rintro rfl
    exact .empty

theorem spans_prim {p : P} : Spans S name (.prim p) i j ↔ S p name i j := by
  refine ⟨?_, .prim⟩
  intro h
  cases h with
  | prim h => exact h

theorem spans_seq :
    Spans S name (.seq r s) i k ↔ ∃ j, Spans S name r i j ∧ Spans S name s j k := by
  refine ⟨?_, ?_⟩
  · intro h
    cases h with
    | seq hr hs => exact ⟨_, hr, hs⟩
  · rintro ⟨j, hr, hs⟩
    exact .seq hr hs

theorem spans_alt : Spans S name (.alt r s) i j ↔ Spans S name r i j ∨ Spans S name s i j := by
  refine ⟨?_, ?_⟩
  · intro h
    cases h with
    | altLeft h => exact .inl h
    | altRight h => exact .inr h
  · rintro (h | h)
    · exact .altLeft h
    · exact .altRight h

theorem spans_group : Spans S name (.group r) i j ↔ Spans S name r i j := by
  refine ⟨?_, .group⟩
  intro h
  cases h with
  | group h => exact h

theorem spans_alternatives (r : Regex P) :
    Spans S name r i j ↔ ∃ a ∈ r.alternatives, Spans S name a i j := by
  induction r with
  | alt r s hr hs =>
    rw [spans_alt, hr, hs, Regex.alternatives]
    simp only [List.mem_append, or_and_right, exists_or]
  | _ => simp [Regex.alternatives]

end

/-! ## Blanks -/

/-- What is left after blanks and comments, which count in verbose mode only, and whether the text
ends inside of a comment. The flag says whether it starts inside of one. -/
def skipBlanks (isSpace : Char → Bool) (verbose : Bool) : Bool → List Char → List Char × Bool
  | comment, [] => ([], comment)
  | true, c :: text => skipBlanks isSpace verbose (c ≠ '\n') text
  | false, c :: text =>
    if verbose && isSpace c then skipBlanks isSpace verbose false text
    else if verbose && c == '#' then skipBlanks isSpace verbose true text
    else (c :: text, false)

section

variable {isSpace : Char → Bool} {verbose comment comment' : Bool} {c : Char}
  {text rest more : List Char}

theorem skipBlanks_append_nil (h : skipBlanks isSpace verbose comment text = ([], comment')) :
    skipBlanks isSpace verbose comment (text ++ more) =
      skipBlanks isSpace verbose comment' more := by
  fun_induction skipBlanks isSpace verbose comment text with
  | case1 => cases h; rfl
  | case2 c text ih => exact ih h
  | case3 c text hspace ih => simpa [skipBlanks, hspace] using ih h
  | case4 c text hspace hhash ih => simpa [skipBlanks, hspace, hhash] using ih h
  | case5 => cases h

theorem skipBlanks_append_cons
    (h : skipBlanks isSpace verbose comment text = (c :: rest, comment')) :
    skipBlanks isSpace verbose comment (text ++ more) = (c :: rest ++ more, comment') := by
  fun_induction skipBlanks isSpace verbose comment text with
  | case1 => cases h
  | case2 d text ih => exact ih h
  | case3 d text hspace ih => simpa [skipBlanks, hspace] using ih h
  | case4 d text hspace hhash ih => simpa [skipBlanks, hspace, hhash] using ih h
  | case5 d text hspace hhash =>
    cases h
    simp [skipBlanks, hspace, hhash]

theorem skipBlanks_cons (h : skipBlanks isSpace verbose comment text = (c :: rest, comment')) :
    comment' = false := by
  fun_induction skipBlanks isSpace verbose comment text with
  | case1 => cases h
  | case2 d text ih => exact ih h
  | case3 d text hspace ih => exact ih h
  | case4 d text hspace hhash ih => exact ih h
  | case5 => cases h; rfl

theorem skipBlanks_suffix (h : skipBlanks isSpace verbose comment text = (rest, comment')) :
    rest <:+ text := by
  fun_induction skipBlanks isSpace verbose comment text with
  | case1 => cases h; exact List.suffix_refl []
  | case2 c text ih => exact (ih h).trans (List.suffix_cons c text)
  | case3 c text hspace ih => exact (ih h).trans (List.suffix_cons c text)
  | case4 c text hspace hhash ih => exact (ih h).trans (List.suffix_cons c text)
  | case5 => cases h; exact List.suffix_refl _

/-- Without a hash there are no comments. -/
theorem skipBlanks_comment (h : skipBlanks isSpace verbose false text = (rest, comment'))
    (hhash : '#' ∉ text) : comment' = false := by
  induction text with
  | nil => cases h; rfl
  | cons c text ih =>
    have hc : c ≠ '#' := fun h => hhash (h ▸ List.mem_cons_self)
    rw [skipBlanks] at h
    split at h
    · exact ih h fun h => hhash (List.mem_cons_of_mem c h)
    · rw [if_neg (by simp [hc])] at h
      cases h
      rfl

end

/-! ## The lexer -/

inductive Lexeme (P : Type) where
  | prim (p : P)
  | repetition (lo : Nat) (hi : Option Nat)

/-- What follows an opening parenthesis: flags for the rest of the group around it, or the start of
a group with its own flags. -/
inductive Header (Φ : Type) where
  | flags (φ : Φ)
  | group (name : Option (List Char)) (φ : Φ)

/-- A reader of all that is not a group, an alternation or a comment: it only looks at a closing
parenthesis to read on past it. -/
structure Lexer (Φ P : Type) where
  verbose : Φ → Bool
  isSpace : Char → Bool
  lexeme : Φ → List Char → Option (Lexeme P × List Char)
  header : Φ → List Char → Option (Header Φ × List Char)
  isSpace_paren : isSpace ')' = false
  lexeme_suffix : lexeme φ text = some (l, rest) → rest <:+ text ∧ rest ≠ text
  lexeme_append : lexeme φ text = some (l, rest) →
    (skipBlanks isSpace (verbose φ) false rest).2 = false →
    lexeme φ (text ++ ')' :: more) = some (l, rest ++ ')' :: more)
  lexeme_of_append : lexeme φ (text ++ ')' :: more) = some (l, rest ++ ')' :: more) →
    lexeme φ text = some (l, rest)
  header_suffix : header φ text = some (h, rest) → rest <:+ text
  header_flags : header φ text = some (.flags φ', rest) → rest ≠ text
  header_append : header φ (text ++ ')' :: more) = some (h, rest ++ ')' :: more) ↔
    header φ text = some (h, rest)

/-! ## The reader -/

inductive Item (P : Type) where
  | node (r : Regex P)
  | flags

def Item.regex {P : Type} : Item P → Regex P
  | .node r => r
  | .flags => .empty

/-- The alternatives that are done and the items of the one that is being read, newest first. -/
structure Context (P : Type) where
  branches : List (Regex P)
  items : List (Item P)

namespace Context

variable {P : Type} (context : Context P)

def push (item : Item P) : Context P := { context with items := item :: context.items }

def branch : Regex P := context.items.foldr (fun item r => .seq r item.regex) .empty

def alternate : Context P := ⟨context.branch :: context.branches, []⟩

def regex : Regex P := context.branches.foldl (fun r b => .alt b r) context.branch

end Context

/-- A frame of the stack keeps what was read before a group, and the flags to go back to. -/
structure State (Φ P : Type) where
  stack : List (Context P × Φ)
  names : List (List Char)
  flags : Φ
  opening : Bool
  context : Context P

namespace State

variable {Φ P : Type} (s : State Φ P)

def start (φ : Φ) : State Φ P := ⟨[], [], φ, false, ⟨[], []⟩⟩

def push (item : Item P) : State Φ P := { s with context := s.context.push item }

def enter (name : Option (List Char)) (φ : Φ) : State Φ P :=
  { stack := (s.context, s.flags) :: s.stack
    names := name.toList ++ s.names
    flags := φ
    opening := false
    context := ⟨[], []⟩ }

/-- The group that is being read ends, inside of the given frames. -/
def leave (frame : Context P × Φ) (stack : List (Context P × Φ)) : State Φ P :=
  { stack
    names := s.names
    flags := frame.2
    opening := false
    context := frame.1.push (.node (.group s.context.regex)) }

def under (frames : List (Context P × Φ)) : State Φ P := { s with stack := s.stack ++ frames }

def Closed : Prop := s.stack = [] ∧ s.opening = false

end State

section

variable {Φ P : Type} (L : Lexer Φ P)

/-- One step of the reader, at a character that is not a blank. -/
inductive Reacts (s : State Φ P) : List Char → State Φ P → List Char → Prop
  | flags : s.opening = true → L.header s.flags text = some (.flags φ, rest) →
      Reacts s text { s.push .flags with opening := false, flags := φ } rest
  | group : s.opening = true → L.header s.flags text = some (.group name φ, rest) →
      (∀ n ∈ name, n ∉ s.names) → Reacts s text (s.enter name φ) rest
  | paren : s.opening = false → Reacts s ('(' :: text) { s with opening := true } text
  | close : s.opening = false → s.stack = frame :: stack →
      Reacts s (')' :: text) (s.leave frame stack) text
  | alternate : s.opening = false →
      Reacts s ('|' :: text) { s with context := s.context.alternate } text
  | prim : s.opening = false → c ∉ ['(', ')', '|'] →
      L.lexeme s.flags (c :: text) = some (.prim p, rest) →
      Reacts s (c :: text) (s.push (.node (.prim p))) rest
  | repetition : s.opening = false → c ∉ ['(', ')', '|'] →
      L.lexeme s.flags (c :: text) = some (.repetition lo hi, rest) →
      s.context.items = .node r :: items →
      Reacts s (c :: text)
        { s with context := ⟨s.context.branches, .node (.rep lo hi r) :: items⟩ } rest

def Lexer.skip (φ : Φ) (text : List Char) : List Char × Bool :=
  skipBlanks L.isSpace (L.verbose φ) false text

/-- The reader reaches the end of the text, inside of a comment or not. -/
inductive Halts : State Φ P → List Char → State Φ P → Bool → Prop
  | done : L.skip s.flags text = ([], comment) → Halts s text s comment
  | step : L.skip s.flags text = (c :: rest, comment) → Reacts L s (c :: rest) s' text' →
      Halts s' text' t comment' → Halts s text t comment'

/-- The text is an expression on its own. -/
def Parses (φ : Φ) (text : List Char) (r : Regex P) : Prop :=
  ∃ t comment, Halts L (.start φ) text t comment ∧ t.Closed ∧ t.context.regex = r

end

/-! ## Steps -/

section

variable {Φ P : Type} {L : Lexer Φ P} {s s' t t' : State Φ P} {φ : Φ} {c : Char}
  {text text' rest rest' more q r : List Char} {comment comment' : Bool}
  {frame : Context P × Φ} {frames : List (Context P × Φ)}

theorem skip_of_append (h : L.skip φ (text ++ more) = (c :: rest ++ more, comment)) :
    L.skip φ text = (c :: rest, comment) := by
  cases hskip : L.skip φ text with
  | mk left comment' =>
    cases left with
    | nil =>
      rw [Lexer.skip, skipBlanks_append_nil hskip] at h
      -- all that is left lies in `more`, and is too short
      have hlen := (skipBlanks_suffix h).length_le
      simp only [List.length_append, List.length_cons] at hlen
      omega
    | cons d left =>
      rw [Lexer.skip, skipBlanks_append_cons hskip] at h
      obtain ⟨heq, rfl⟩ := Prod.mk.inj h
      rw [List.append_cancel_right heq]

theorem skip_of_append_paren (h : L.skip φ (text ++ ')' :: more) = (')' :: more, comment)) :
    L.skip φ text = ([], false) := by
  cases hskip : L.skip φ text with
  | mk left comment' =>
    cases left with
    | nil =>
      cases comment' with
      | false => rfl
      | true =>
        rw [Lexer.skip, skipBlanks_append_nil hskip] at h
        have hsuffix : ')' :: more <:+ more := skipBlanks_suffix h
        have hlen := hsuffix.length_le
        simp only [List.length_cons] at hlen
        omega
    | cons d left =>
      rw [Lexer.skip, skipBlanks_append_cons hskip] at h
      have hlen := congrArg (fun x => x.1.length) h
      simp only [List.length_append, List.length_cons] at hlen
      omega

theorem skip_paren : L.skip φ (')' :: more) = (')' :: more, false) := by
  simp [Lexer.skip, skipBlanks, L.isSpace_paren]

theorem Reacts.unique (h : Reacts L s text t rest) (h' : Reacts L s text t' rest') :
    t = t' ∧ rest = rest' := by
  cases h <;> cases h' <;> simp_all

theorem Reacts.under (h : Reacts L s text t rest) :
    Reacts L (s.under frames) text (t.under frames) rest := by
  cases h with
  | flags ho hheader => exact .flags ho hheader
  | group ho hheader hnames => exact .group ho hheader hnames
  | paren ho => exact .paren ho
  | close ho hstack => exact .close ho (congrArg (· ++ frames) hstack)
  | alternate ho => exact .alternate ho
  | prim ho hc hlexeme => exact .prim ho hc hlexeme
  | repetition ho hc hlexeme hitems => exact .repetition ho hc hlexeme hitems

/-- Under a frame, a step is one without it or ends the group of the frame. -/
theorem Reacts.of_under (h : Reacts L (s.under [frame]) text t rest) :
    (∃ s', t = s'.under [frame] ∧ Reacts L s text s' rest) ∨
      s.Closed ∧ text = ')' :: rest ∧ t = s.leave frame [] := by
  cases h with
  | flags ho hheader => exact .inl ⟨_, rfl, .flags ho hheader⟩
  | group ho hheader hnames => exact .inl ⟨_, rfl, .group ho hheader hnames⟩
  | paren ho => exact .inl ⟨_, rfl, .paren ho⟩
  | @close outer stack _ ho hstack =>
    cases hs : s.stack with
    | nil =>
      obtain ⟨rfl, rfl⟩ : frame = outer ∧ [] = stack := by
        simpa [State.under, hs] using hstack
      exact .inr ⟨⟨hs, ho⟩, rfl, rfl⟩
    | cons inner below =>
      obtain ⟨rfl, rfl⟩ : inner = outer ∧ below ++ [frame] = stack := by
        simpa [State.under, hs] using hstack
      exact .inl ⟨s.leave inner below, rfl, .close ho hs⟩
  | alternate ho => exact .inl ⟨_, rfl, .alternate ho⟩
  | prim ho hc hlexeme => exact .inl ⟨_, rfl, .prim ho hc hlexeme⟩
  | repetition ho hc hlexeme hitems => exact .inl ⟨_, rfl, .repetition ho hc hlexeme hitems⟩

theorem Reacts.suffix (h : Reacts L s text t rest) : rest <:+ text := by
  cases h with
  | flags _ hheader => exact L.header_suffix hheader
  | group _ hheader => exact L.header_suffix hheader
  | paren => exact List.suffix_cons _ _
  | close => exact List.suffix_cons _ _
  | alternate => exact List.suffix_cons _ _
  | prim _ _ hlexeme => exact (L.lexeme_suffix hlexeme).1
  | repetition _ _ hlexeme => exact (L.lexeme_suffix hlexeme).1

/-- A step that reads nothing starts a group. -/
theorem Reacts.not_closed (h : Reacts L s text t rest) (hrest : rest = text) : ¬ t.Closed := by
  intro ht
  cases h with
  | flags _ hheader => exact L.header_flags hheader hrest
  | group => exact List.cons_ne_nil _ _ ht.1
  | paren => exact List.cons_ne_self _ _ hrest.symm
  | close => exact List.cons_ne_self _ _ hrest.symm
  | alternate => exact List.cons_ne_self _ _ hrest.symm
  | prim _ _ hlexeme => exact (L.lexeme_suffix hlexeme).2 hrest
  | repetition _ _ hlexeme => exact (L.lexeme_suffix hlexeme).2 hrest

theorem Reacts.append (h : Reacts L s text t rest) (hcomment : (L.skip t.flags rest).2 = false) :
    Reacts L s (text ++ ')' :: more) t (rest ++ ')' :: more) := by
  cases h with
  | flags ho hheader => exact .flags ho (L.header_append.mpr hheader)
  | group ho hheader hnames => exact .group ho (L.header_append.mpr hheader) hnames
  | paren ho => exact .paren ho
  | close ho hstack => exact .close ho hstack
  | alternate ho => exact .alternate ho
  | prim ho hc hlexeme => exact .prim ho hc (L.lexeme_append hlexeme hcomment)
  | repetition ho hc hlexeme hitems =>
    exact .repetition ho hc (L.lexeme_append hlexeme hcomment) hitems

theorem of_append_cons (h : text ++ ')' :: more = c :: rest) (hc : c ∉ ['(', ')', '|']) :
    ∃ tail, text = c :: tail ∧ rest = tail ++ ')' :: more := by
  cases text with
  | nil =>
    obtain ⟨rfl, -⟩ := List.cons.inj h
    exact absurd (by decide) hc
  | cons d tail =>
    obtain ⟨rfl, rfl⟩ := List.cons.inj h
    exact ⟨tail, rfl, rfl⟩

/-- A step that leaves the parenthesis does not depend on it. -/
theorem Reacts.of_append (h : Reacts L s (text ++ ')' :: more) t (rest ++ ')' :: more)) :
    Reacts L s text t rest := by
  generalize hall : text ++ ')' :: more = all at h
  generalize hleft : rest ++ ')' :: more = left at h
  cases h with
  | flags ho hheader =>
    subst hall hleft
    exact .flags ho (L.header_append.mp hheader)
  | group ho hheader hnames =>
    subst hall hleft
    exact .group ho (L.header_append.mp hheader) hnames
  | paren ho =>
    obtain rfl : text = '(' :: rest := by
      rw [← hleft, ← List.cons_append] at hall
      exact List.append_cancel_right hall
    exact .paren ho
  | close ho hstack =>
    obtain rfl : text = ')' :: rest := by
      rw [← hleft, ← List.cons_append] at hall
      exact List.append_cancel_right hall
    exact .close ho hstack
  | alternate ho =>
    obtain rfl : text = '|' :: rest := by
      rw [← hleft, ← List.cons_append] at hall
      exact List.append_cancel_right hall
    exact .alternate ho
  | prim ho hc hlexeme =>
    obtain ⟨tail, rfl, rfl⟩ := of_append_cons hall hc
    subst hleft
    exact .prim ho hc (L.lexeme_of_append hlexeme)
  | repetition ho hc hlexeme hitems =>
    obtain ⟨tail, rfl, rfl⟩ := of_append_cons hall hc
    subst hleft
    exact .repetition ho hc (L.lexeme_of_append hlexeme) hitems

/-! ## Runs -/

theorem Halts.comment_false (h : Halts L s text t false) : (L.skip s.flags text).2 = false := by
  cases h with
  | done hskip => rw [hskip]
  | step hskip =>
    rw [hskip]
    exact skipBlanks_cons hskip

theorem halts_iff_done (hskip : L.skip s.flags text = ([], comment)) :
    Halts L s text t comment' ↔ t = s ∧ comment' = comment := by
  refine ⟨?_, ?_⟩
  · intro h
    cases h with
    | done h =>
      rw [hskip] at h
      obtain ⟨-, rfl⟩ := Prod.mk.inj h
      exact ⟨rfl, rfl⟩
    | step h =>
      rw [hskip] at h
      cases h
  · rintro ⟨rfl, rfl⟩
    exact .done hskip

theorem halts_iff_step (hskip : L.skip s.flags text = (c :: rest, comment))
    (hstep : Reacts L s (c :: rest) s' text') :
    Halts L s text t comment' ↔ Halts L s' text' t comment' := by
  refine ⟨?_, .step hskip hstep⟩
  intro h
  cases h with
  | done h =>
    rw [hskip] at h
    cases h
  | step h hstep' hrun =>
    rw [hskip] at h
    cases h
    obtain ⟨rfl, rfl⟩ := hstep.unique hstep'
    exact hrun

theorem Halts.unique (h : Halts L s text t comment) (h' : Halts L s text t' comment') :
    t' = t ∧ comment' = comment := by
  induction h with
  | done hskip => exact (halts_iff_done hskip).mp h'
  | step hskip hstep _ ih => exact ih ((halts_iff_step hskip hstep).mp h')

theorem Parses.unique {e e' : Regex P} (h : Parses L φ text e) (h' : Parses L φ text e') :
    e = e' := by
  obtain ⟨t, _, hrun, -, rfl⟩ := h
  obtain ⟨t', _, hrun', -, rfl⟩ := h'
  rw [(hrun.unique hrun').1]

/-- Without a hash no run ends in a comment. -/
theorem Halts.not_comment (h : Halts L s text t comment) (hhash : '#' ∉ text) : comment = false := by
  induction h with
  | done hskip => exact skipBlanks_comment hskip hhash
  | step hskip hstep _ ih =>
    have hsuffix := hstep.suffix.trans (skipBlanks_suffix hskip)
    exact ih fun h => hhash (hsuffix.subset h)

theorem halts_congr (h : L.skip s.flags text = L.skip s.flags text') :
    Halts L s text t comment → Halts L s text' t comment := by
  intro hrun
  cases hrun with
  | done hskip => exact .done (h ▸ hskip)
  | step hskip hstep hrun => exact .step (h ▸ hskip) hstep hrun

/-- A text that ends outside of a comment is read in the same way in front of a parenthesis, also
under other frames. -/
theorem Halts.append_iff (h : Halts L s q s' false) :
    Halts L (s.under frames) (q ++ ')' :: more) t comment ↔
      Halts L (s'.under frames) (')' :: more) t comment := by
  generalize hend : false = ended at h
  induction h with
  | @done text ended s hskip =>
    subst hend
    have heq : L.skip s.flags (text ++ ')' :: more) = L.skip s.flags (')' :: more) :=
      skipBlanks_append_nil hskip
    exact ⟨halts_congr heq, halts_congr heq.symm⟩
  | @step text c rest _ s s₁ text₁ s' ended hskip hstep hrun ih =>
    subst hend
    have hskip' : L.skip (s.under frames).flags (text ++ ')' :: more) =
        (c :: rest ++ ')' :: more, _) := skipBlanks_append_cons hskip
    have hstep' : Reacts L (s.under frames) (c :: rest ++ ')' :: more) (s₁.under frames)
        (text₁ ++ ')' :: more) := (hstep.append hrun.comment_false).under
    exact (halts_iff_step hskip' hstep').trans (ih rfl)

theorem halts_close_iff (h : s.Closed) :
    Halts L (s.under [frame]) (')' :: more) t comment ↔
      Halts L (s.leave frame []) more t comment := by
  have hstack : (s.under [frame]).stack = [frame] := by
    rw [State.under, h.1, List.nil_append]
  exact halts_iff_step skip_paren (.close h.2 hstack)

/-- No closed state goes on at a parenthesis. -/
theorem not_halts_paren (h : s.Closed) : ¬ Halts L s (')' :: more) t comment := by
  intro hrun
  cases hrun with
  | done hskip =>
    rw [skip_paren] at hskip
    cases hskip
  | step hskip hstep =>
    rw [skip_paren] at hskip
    cases hskip
    cases hstep with
    | flags ho => rw [h.2] at ho; cases ho
    | group ho => rw [h.2] at ho; cases ho
    | close _ hstack => rw [h.1] at hstack; cases hstack
    | prim _ hc => exact hc (by decide)
    | repetition _ hc => exact hc (by decide)

/-- A text that can end in front of a parenthesis is no expression together with it. -/
theorem Halts.not_append (h : Halts L s q s' false) (hs' : s'.Closed) :
    ¬ Halts L s (q ++ ')' :: more) t comment := by
  intro hrun
  have hunder : ∀ s : State Φ P, s.under [] = s := fun s => by
    rw [State.under, List.append_nil]
  rw [← hunder s, h.append_iff, hunder s'] at hrun
  exact not_halts_paren hs' hrun

/-- A run under one frame leaves it at a parenthesis up to which the text is read as on its own. -/
theorem Halts.closes (h : Halts L (s.under [frame]) text t comment) (ht : t.Closed) :
    ∃ q r s', text = q ++ ')' :: r ∧ Halts L s q s' false ∧ s'.Closed ∧
      Halts L (s'.leave frame []) r t comment := by
  generalize hunder : s.under [frame] = top at h
  induction h generalizing s with
  | done =>
    subst hunder
    exact absurd ht.1 (List.append_ne_nil_of_right_ne_nil _ (List.cons_ne_nil _ _))
  | @step text c rest _ top s₁ text₁ t comment hskip hstep hrun ih =>
    subst hunder
    obtain ⟨u, rfl⟩ := skipBlanks_suffix hskip
    obtain ⟨s', rfl, hstay⟩ | ⟨hs, hrest, rfl⟩ := hstep.of_under
    · obtain ⟨q, r, s'', rfl, hq, hs'', hend⟩ := ih ht rfl
      obtain ⟨v, hv⟩ := hstay.suffix
      rw [← List.append_assoc] at hv
      rw [← hv, ← List.append_assoc] at hskip
      rw [← hv] at hstay
      refine ⟨u ++ (v ++ q), r, s'', by rw [← hv, ← List.append_assoc], ?_, hs'', hend⟩
      cases hvq : v ++ q with
      | nil =>
        -- the step would read nothing and leave no group
        obtain ⟨rfl, rfl⟩ := List.append_eq_nil_iff.mp hvq
        obtain ⟨rfl, -⟩ := (halts_iff_done rfl).mp hq
        exact absurd hs'' (hstay.not_closed rfl)
      | cons d w =>
        rw [hvq] at hskip hstay
        exact .step (skip_of_append hskip) hstay.of_append hq
    · rw [hrest] at hskip
      exact ⟨u, text₁, s, by rw [hrest], .done (skip_of_append_paren hskip), hs, hrun⟩

end

end HarborSql.RegexGrammar
