import HarborSql.Engine.Show
import HarborSql.Theory.RegexGrammar

/-! `ShowPattern` wraps the expression of its pattern between `^(?:` and `)$`. -/

namespace HarborSql

open RegexGrammar

/-! ## The text of the expression -/

/-- The text with each star replaced. -/
def starsReplaced (text : List Char) : List Char :=
  text.flatMap fun c => if c = '*' then ".*".toList else [c]

/-- The expression that a pattern stands for. -/
def showExpression (pattern : String) : List Char := starsReplaced (trim pattern.toList)

def wrapped (text : List Char) : List Char := '^' :: '(' :: '?' :: ':' :: (text ++ [')', '$'])

theorem databricksShowRegex_eq (text : List Char) :
    databricksShowRegex (.ofList text) = .ofList (wrapped (starsReplaced text)) := by
  have hloop : ∀ regex : String, (text.foldl
      (fun regex ch => if ch = '*' then regex ++ ".*" else regex.push ch) regex).toList =
        regex.toList ++ starsReplaced text := by
    induction text with
    | nil => simp [starsReplaced]
    | cons c text ih =>
      intro regex
      have hcons : starsReplaced (c :: text) =
          (if c = '*' then ".*".toList else [c]) ++ starsReplaced text := rfl
      rw [List.foldl_cons, ih, hcons, ← List.append_assoc]
      split
      · rw [String.toList_append]
      · rw [String.toList_push]
  rw [← String.toList_inj, databricksShowRegex, String.toList_append, String.toList_ofList, hloop,
    String.toList_ofList]
  simp [wrapped]

theorem starsReplaced_ne_nil {text : List Char} (h : starsReplaced text ≠ []) : text ≠ [] := by
  rintro rfl
  exact h rfl

theorem showPattern_new {build : RegexBuild} {pattern : String} {compiled : ShowPattern} :
    ShowPattern.new build (some pattern) = .ok compiled ↔
      trim pattern.toList ≠ [] ∧ ∃ regex, compiled = ⟨some regex⟩ ∧
        build (.ofList (wrapped (showExpression pattern))) = .ok regex := by
  have hempty : String.ofList (trim pattern.toList) = "" ↔ trim pattern.toList = [] := by
    rw [← String.toList_inj, String.toList_ofList]
    rfl
  simp only [ShowPattern.new, databricksShowRegex_eq, hempty, showExpression]
  split
  · rename_i h
    simp [h]
  · rename_i h
    split
    · rename_i regex hbuild
      rw [hbuild]
      simp [h, eq_comm]
    · rename_i err hbuild
      rw [hbuild]
      simp

/-! ## The wrapped expression -/

section

variable {Φ P : Type}

/-- The crate of regular expressions, without its limits on sizes: `flags` are those that
`case_insensitive(true)` starts from, `S` says what a primitive spans, `same` relates the
characters that are the same whatever their case. -/
structure DocumentedGrammar (L : Lexer Φ P) (flags : Φ) (caret dollar : P)
    (S : P → List Char → Nat → Nat → Prop) (same : Char → Char → Prop) (build : RegexBuild) :
    Prop where
  verbose : L.verbose flags = false
  readsCaret : ∀ text, L.lexeme flags ('^' :: text) = some (.prim caret, text)
  readsDollar : ∀ text, L.lexeme flags ('$' :: text) = some (.prim dollar, text)
  readsNonCapturing : ∀ text, L.header flags ('?' :: ':' :: text) = some (.group none flags, text)
  spansCaret : ∀ name i j, S caret name i j ↔ i = 0 ∧ j = 0
  spansDollar : ∀ name i j, S dollar name i j ↔ i = name.length ∧ j = name.length
  ignoresCase : ∀ text p rest name name' i j, L.lexeme flags text = some (.prim p, rest) →
    List.Forall₂ same name name' → (S p name i j ↔ S p name' i j)
  builds : ∀ text, (∃ regex, build (.ofList text) = .ok regex) ↔ ∃ r, Parses L flags text r
  isMatch : ∀ text regex r name, build (.ofList text) = .ok regex → Parses L flags text r →
    (regex name = true ↔ ∃ i j, Spans S name.toList r i j)

/-- A pattern compiles exactly if its own expression is one, and then covers the names that one of
the alternatives spans as a whole. -/
structure KeepsWrapping (L : Lexer Φ P) (flags : Φ) (S : P → List Char → Nat → Nat → Prop)
    (build : RegexBuild) (pattern : String) : Prop where
  compiles : (∃ compiled, ShowPattern.new build (some pattern) = .ok compiled) ↔
    trim pattern.toList ≠ [] ∧ ∃ r, Parses L flags (showExpression pattern) r
  covers : ∀ compiled r name, ShowPattern.new build (some pattern) = .ok compiled →
    Parses L flags (showExpression pattern) r →
    (compiled.isMatch name = true ↔
      ∃ a ∈ r.alternatives, Spans S name.toList a 0 name.toList.length)

section

variable (L : Lexer Φ P) (flags : Φ)

/-- The text is an expression, and its end lies in a comment. -/
def EndsInComment (text : List Char) : Prop := ∃ t, Halts L (.start flags) text t true ∧ t.Closed

/-- The frame of the group that the code puts around the expression. -/
def wrapper (caret : P) : Context P × Φ := (⟨[], [.node (.prim caret)]⟩, flags)

/-- A parenthesis of the text ends the group that the code puts around it: what comes before is an
expression, and what comes after goes on to the end with `)$` behind it. -/
def ClosesEarly (caret : P) (text : List Char) : Prop :=
  ∃ q r s t comment, text = q ++ ')' :: r ∧ Halts L (.start flags) q s false ∧ s.Closed ∧
    Halts L (s.leave (wrapper flags caret) []) (r ++ [')', '$']) t comment ∧ t.Closed

end

variable {L : Lexer Φ P} {flags : Φ} {caret dollar : P} {S : P → List Char → Nat → Nat → Prop}
  {same : Char → Char → Prop} {build : RegexBuild} {text : List Char} {s t : State Φ P}
  {comment : Bool} (G : DocumentedGrammar L flags caret dollar S same build)

include G

theorem DocumentedGrammar.skip (c : Char) (text : List Char) :
    L.skip flags (c :: text) = (c :: text, false) := by
  simp [Lexer.skip, skipBlanks, G.verbose]

theorem halts_wrapped_iff : Halts L (.start flags) (wrapped text) t comment ↔
    Halts L ((State.start flags).under [wrapper flags caret]) (text ++ [')', '$']) t comment := by
  let anchored : State Φ P := (State.start flags).push (.node (.prim caret))
  have hcaret : Reacts L (.start flags) (wrapped text) anchored _ :=
    .prim rfl (by decide) (G.readsCaret _)
  have hparen : Reacts L anchored _ { anchored with opening := true }
    ('?' :: ':' :: (text ++ [')', '$'])) := .paren rfl
  have hgroup : Reacts L { anchored with opening := true } _ _ (text ++ [')', '$']) :=
    .group rfl (G.readsNonCapturing _) nofun
  have hskip : ∀ (c : Char) (text : List Char), L.skip flags (c :: text) = (c :: text, false) := by
    intro c text
    simp [Lexer.skip, skipBlanks, G.verbose]
  exact (halts_iff_step (hskip _ _) hcaret).trans <|
    (halts_iff_step (hskip _ _) hparen).trans (halts_iff_step (hskip _ _) hgroup)

/-- What is left once the group around the text has ended. -/
theorem halts_dollar_iff : Halts L (s.leave (wrapper flags caret) []) ['$'] t comment ↔
    t = (s.leave (wrapper flags caret) []).push (.node (.prim dollar)) ∧ comment = false := by
  have hdollar : Reacts L (s.leave (wrapper flags caret) []) ['$'] _ [] :=
    .prim rfl (by decide) (G.readsDollar [])
  have hskip : L.skip flags ['$'] = (['$'], false) := by
    simp [Lexer.skip, skipBlanks, G.verbose]
  exact (halts_iff_step hskip hdollar).trans (halts_iff_done rfl)

theorem halts_wrapped_of (h : Halts L (.start flags) text s false) (hs : s.Closed) :
    Halts L (.start flags) (wrapped text)
      ((s.leave (wrapper flags caret) []).push (.node (.prim dollar))) false := by
  rw [halts_wrapped_iff G, h.append_iff, halts_close_iff hs, halts_dollar_iff G]
  exact ⟨rfl, rfl⟩

theorem parses_wrapped_iff : (∃ r, Parses L flags (wrapped text) r) ↔
    (∃ s, Halts L (.start flags) text s false ∧ s.Closed) ∨ ClosesEarly L flags caret text := by
  refine ⟨?_, ?_⟩
  · rintro ⟨-, t, comment, h, ht, -⟩
    rw [halts_wrapped_iff G] at h
    obtain ⟨q, r, s, htext, hq, hs, hend⟩ := h.closes ht
    obtain ⟨u, rfl, hu⟩ | ⟨u, rfl, hu⟩ := List.append_eq_append_iff.mp htext
    · cases u with
      | nil =>
        rw [List.append_nil] at hq
        exact .inl ⟨s, hq, hs⟩
      | cons d u =>
        -- no parenthesis follows the one of the code
        have hmem : ')' ∈ ['$'] := by
          rw [(List.cons.inj hu).2]
          exact List.mem_append_right u List.mem_cons_self
        exact absurd hmem (by decide)
    · cases u with
      | nil =>
        rw [List.append_nil]
        exact .inl ⟨s, hq, hs⟩
      | cons d u =>
        obtain ⟨rfl, rfl⟩ := List.cons.inj hu
        exact .inr ⟨q, u, s, t, comment, rfl, hq, hs, hend, ht⟩
  · rintro (⟨s, h, hs⟩ | ⟨q, r, s, t, comment, rfl, hq, hs, hend, ht⟩)
    · exact ⟨_, _, _, halts_wrapped_of G h hs, ⟨rfl, rfl⟩, rfl⟩
    · refine ⟨_, t, comment, ?_, ht, rfl⟩
      rw [halts_wrapped_iff G, List.append_assoc, List.cons_append, hq.append_iff,
        halts_close_iff hs]
      exact hend

/-- The anchors stand around the group. -/
theorem spans_wrapped_iff {name : List Char} {r : Regex P} :
    (∃ i j, Spans S name
      (.seq (.seq (.seq .empty (.prim caret)) (.group r)) (.prim dollar)) i j) ↔
      Spans S name r 0 name.length := by
  simp only [spans_seq, spans_empty, spans_prim, spans_group, G.spansCaret, G.spansDollar]
  refine ⟨?_, ?_⟩
  · rintro ⟨_, _, _, ⟨_, ⟨_, rfl, rfl, rfl⟩, h⟩, rfl, rfl⟩
    exact h
  · intro h
    exact ⟨0, name.length, name.length, ⟨0, ⟨0, rfl, rfl, rfl⟩, h⟩, rfl, rfl⟩

theorem compiles_iff : (∃ compiled, ShowPattern.new build (some pattern) = .ok compiled) ↔
    trim pattern.toList ≠ [] ∧ ∃ r, Parses L flags (wrapped (showExpression pattern)) r := by
  rw [← G.builds]
  refine ⟨?_, ?_⟩
  · rintro ⟨compiled, hnew⟩
    obtain ⟨htrim, regex, -, hbuild⟩ := showPattern_new.mp hnew
    exact ⟨htrim, regex, hbuild⟩
  · rintro ⟨htrim, regex, hbuild⟩
    exact ⟨⟨some regex⟩, showPattern_new.mpr ⟨htrim, regex, rfl, hbuild⟩⟩

omit G in
theorem EndsInComment.ne_nil (h : EndsInComment L flags text) : text ≠ [] := by
  rintro rfl
  obtain ⟨t, hrun, -⟩ := h
  obtain ⟨-, hcomment⟩ := (halts_iff_done rfl).mp hrun
  exact Bool.noConfusion hcomment

omit G in
theorem ClosesEarly.ne_nil (h : ClosesEarly L flags caret text) : text ≠ [] := by
  obtain ⟨q, r, -, -, -, rfl, -⟩ := h
  exact List.append_ne_nil_of_right_ne_nil q (List.cons_ne_nil _ r)

omit G in
/-- A parenthesis that ends no group of the text is no part of an expression. -/
theorem ClosesEarly.not_parses (h : ClosesEarly L flags caret text) :
    ¬ ∃ r, Parses L flags text r := by
  obtain ⟨q, r, s, -, -, rfl, hq, hs, -⟩ := h
  rintro ⟨-, t, comment, hrun, -⟩
  exact hq.not_append hs hrun

theorem keepsWrapping_covers (hcomment : ¬ EndsInComment L flags (showExpression pattern))
    (hnew : ShowPattern.new build (some pattern) = .ok compiled)
    (hparses : Parses L flags (showExpression pattern) r) (name : String) :
    compiled.isMatch name = true ↔
      ∃ a ∈ r.alternatives, Spans S name.toList a 0 name.toList.length := by
  obtain ⟨-, regex, rfl, hbuild⟩ := showPattern_new.mp hnew
  obtain ⟨s, comment, h, hs, rfl⟩ := hparses
  cases comment with
  | true => exact absurd ⟨s, h, hs⟩ hcomment
  | false =>
    have hwhole := G.isMatch _ regex _ name hbuild ⟨_, _, halts_wrapped_of G h hs, ⟨rfl, rfl⟩, rfl⟩
    rw [← spans_alternatives]
    exact hwhole.trans (spans_wrapped_iff G)

end

inductive PlainPrim where
  | any
  | caret
  | dollar
  | lit (c : Char)

def plainCharacter (c : Char) : Option (Lexeme PlainPrim) :=
  if c = '.' then some (.prim .any)
  else if c = '^' then some (.prim .caret)
  else if c = '$' then some (.prim .dollar)
  else if c = '*' then some (.repetition 0 none)
  else if c.isAlphanum then some (.prim (.lit c))
  else none

def plainLexeme : List Char → Option (Lexeme PlainPrim × List Char)
  | [] => none
  | c :: text => (plainCharacter c).map (·, text)

def plainHeader : List Char → Option (Header Unit × List Char)
  | '?' :: ':' :: text => some (.group none (), text)
  | '?' :: _ => none
  | text => some (.group none (), text)

theorem plainLexeme_eq_some {text rest : List Char} {l : Lexeme PlainPrim} :
    plainLexeme text = some (l, rest) ↔ ∃ c, text = c :: rest ∧ plainCharacter c = some l := by
  cases text with
  | nil => simp [plainLexeme]
  | cons c text =>
    simp only [plainLexeme, Option.map_eq_some_iff, Prod.mk.injEq, List.cons.injEq]
    refine ⟨?_, ?_⟩
    · rintro ⟨l, hl, rfl, rfl⟩
      exact ⟨c, ⟨rfl, rfl⟩, hl⟩
    · rintro ⟨_, ⟨rfl, rfl⟩, hl⟩
      exact ⟨l, hl, rfl, rfl⟩

theorem plainHeader_eq_some {text rest : List Char} {h : Header Unit} :
    plainHeader text = some (h, rest) ↔ h = .group none () ∧
      (text = '?' :: ':' :: rest ∨ text = rest ∧ text.head? ≠ some '?') := by
  cases text with
  | nil => simp [plainHeader, eq_comm]
  | cons c text =>
    by_cases hc : c = '?'
    · subst hc
      unfold plainHeader
      split <;> simp_all [eq_comm]
    · have hplain : plainHeader (c :: text) = some (.group none (), c :: text) := by
        unfold plainHeader
        split <;> simp_all
      simp [hplain, hc, eq_comm]

theorem plainHeader_append {text rest more : List Char} {h : Header Unit} :
    plainHeader (text ++ ')' :: more) = some (h, rest ++ ')' :: more) ↔
      plainHeader text = some (h, rest) := by
  have hhead : (text ++ ')' :: more).head? = some '?' ↔ text.head? = some '?' := by
    cases text <;> simp
  rw [plainHeader_eq_some, plainHeader_eq_some, ← List.cons_append, ← List.cons_append,
    List.append_left_inj, List.append_left_inj, Ne, Ne, hhead]

/-- Letters, digits, stars, dots, anchors and groups without flags. -/
def plainLexer : Lexer Unit PlainPrim where
  verbose _ := false
  isSpace := Char.isWhitespace
  lexeme _ := plainLexeme
  header _ := plainHeader
  isSpace_paren := rfl
  lexeme_suffix h := by
    obtain ⟨c, rfl, -⟩ := plainLexeme_eq_some.mp h
    exact ⟨List.suffix_cons c _, (List.cons_ne_self c _).symm⟩
  lexeme_append h _ := by
    obtain ⟨c, rfl, hc⟩ := plainLexeme_eq_some.mp h
    exact plainLexeme_eq_some.mpr ⟨c, rfl, hc⟩
  lexeme_of_append h := by
    obtain ⟨c, htext, hc⟩ := plainLexeme_eq_some.mp h
    rw [← List.cons_append] at htext
    exact plainLexeme_eq_some.mpr ⟨c, List.append_cancel_right htext, hc⟩
  header_suffix h := by
    obtain ⟨-, rfl | ⟨rfl, -⟩⟩ := plainHeader_eq_some.mp h
    · exact ⟨['?', ':'], rfl⟩
    · exact List.suffix_refl _
  header_flags h := by
    cases (plainHeader_eq_some.mp h).1
  header_append := plainHeader_append

def plainSpans (p : PlainPrim) (name : List Char) (i j : Nat) : Prop :=
  match p with
  | .any => j = i + 1 ∧ ∃ c, (name.map Char.toLower)[i]? = some c ∧ c ≠ '\n'
  | .caret => i = 0 ∧ j = 0
  | .dollar => i = name.length ∧ j = name.length
  | .lit c => j = i + 1 ∧ (name.map Char.toLower)[i]? = some c.toLower

open scoped Classical in
noncomputable def plainBuild : RegexBuild := fun text =>
  if ∃ r, Parses plainLexer () text.toList r then
    .ok fun name => decide (∃ r, Parses plainLexer () text.toList r ∧
      ∃ i j, Spans plainSpans name.toList r i j)
  else .error "regex parse error"

theorem documentedGrammar_plain : DocumentedGrammar plainLexer () .caret .dollar plainSpans
    (fun a b => a.toLower = b.toLower) plainBuild where
  verbose := rfl
  readsCaret _ := rfl
  readsDollar _ := rfl
  readsNonCapturing _ := rfl
  spansCaret _ _ _ := Iff.rfl
  spansDollar _ _ _ := Iff.rfl
  ignoresCase text p rest name name' i j _ h := by
    have hmap : name.map Char.toLower = name'.map Char.toLower := by
      rwa [← List.forall₂_eq_eq_eq, List.forall₂_map_left_iff, List.forall₂_map_right_iff]
    cases p with
    | any => rw [plainSpans, plainSpans, hmap]
    | caret => exact Iff.rfl
    | dollar => rw [plainSpans, plainSpans, h.length_eq]
    | lit c => rw [plainSpans, plainSpans, hmap]
  builds text := by
    simp only [plainBuild, String.toList_ofList]
    split <;> simp_all
  isMatch text regex r name hbuild hparses := by
    classical
    rw [plainBuild, String.toList_ofList, if_pos ⟨r, hparses⟩] at hbuild
    cases hbuild
    rw [decide_eq_true_iff]
    refine ⟨?_, fun h => ⟨r, hparses, h⟩⟩
    rintro ⟨r', hparses', h⟩
    rwa [hparses.unique hparses']

/-- The parenthesis of this text ends the group around it, and it opens another one. -/
theorem closesEarly_reopened : ClosesEarly plainLexer () .caret "a)|(?:b".toList := by
  let s : State Unit PlainPrim := (State.start ()).push (.node (.prim (.lit 'a')))
  have hbefore : Halts plainLexer (.start ()) ['a'] s false :=
    .step rfl (.prim rfl (by decide) rfl) (.done rfl)
  have hafter : Halts plainLexer (s.leave (wrapper () .caret) [])
      ['|', '(', '?', ':', 'b', ')', '$'] _ false :=
    .step rfl (.alternate rfl) <|
    .step rfl (.paren rfl) <|
    .step rfl (.group rfl rfl nofun) <|
    .step rfl (.prim rfl (by decide) rfl) <|
    .step rfl (.close rfl rfl) <|
    .step rfl (.prim rfl (by decide) rfl) <|
    .done rfl
  exact ⟨['a'], ['|', '(', '?', ':', 'b'], s, _, false, rfl, hbefore, ⟨rfl, rfl⟩, hafter, rfl, rfl⟩

end HarborSql
