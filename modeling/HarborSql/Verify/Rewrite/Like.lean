import HarborSql.Engine.Rewrite
import HarborSql.Theory.Wildcard

/-! The meaning of `LIKE` and of the `contains` it is rewritten to. -/

namespace HarborSql.Sql

/-- The parts of a pattern of `LIKE`. A backslash makes the next character literal, and is itself at
the end. -/
def likePattern : List Char → List (Wildcard Char)
  | [] => []
  | '%' :: pattern => .any :: likePattern pattern
  | '_' :: pattern => .one :: likePattern pattern
  | '\\' :: c :: pattern => .lit c :: likePattern pattern
  | c :: pattern => .lit c :: likePattern pattern

def like (text pattern : String) : Bool := Wildcard.covers (likePattern pattern.toList) text.toList

def contains (text needle : String) : Bool := needle.toList <:+: text.toList

/-- The value of `LIKE` and of `contains` with a literal at their right, and of the negation of one,
where `row` gives the value of their left operand. `none` is `NULL`. -/
def evalPredicate (row : Expr → Option String) : Expr → Option Bool
  | .like negated false expr pattern none => do
    let text ← row expr
    let pattern ← stringLiteralValue pattern
    return like text pattern ^^ negated
  | .unaryOp .not expr => (evalPredicate row expr).map not
  | .function function =>
    match plainFunctionArgs function "contains" with
    | some [.unnamed (.expr text), .unnamed (.expr needle)] => do
      let text ← row text
      let needle ← stringLiteralValue needle
      return contains text needle
    | _ => none
  | _ => none

theorem plainFunctionArgs_plain (name expected : String) (args : List Expr) :
    plainFunctionArgs (.plain name args) expected =
      if eqIgnoreAsciiCase name expected then some (args.map fun arg => .unnamed (.expr arg))
      else none := rfl

theorem evalPredicate_containsExpr (row : Expr → Option String) (haystack : Expr) (needle : String)
    (negated : Bool) : evalPredicate row (containsExpr haystack needle negated) =
      (row haystack).map fun text => contains text needle ^^ negated := by
  have hcontains : evalPredicate row (functionExpr "contains" [haystack, singleQuotedStringExpr needle]) =
      (row haystack).map fun text => contains text needle := by
    simp only [functionExpr, evalPredicate, plainFunctionArgs_plain, eqIgnoreAsciiCase_self, if_true,
      List.map_cons, List.map_nil]
    cases row haystack <;> rfl
  cases negated with
  | false => simp [containsExpr, hcontains]
  | true => simp [containsExpr, evalPredicate, hcontains, Function.comp_def]

/-! ## The patterns of the fast path -/

theorem stripPrefix_eq_some {c : Char} {text rest : List Char} :
    stripPrefix c text = some rest ↔ text = c :: rest := by
  cases text with
  | nil => simp [stripPrefix]
  | cons d text => simp [stripPrefix]

theorem stripSuffix_eq_some {c : Char} {text rest : List Char} :
    stripSuffix c text = some rest ↔ text = rest ++ [c] := by
  unfold stripSuffix
  constructor
  · intro h
    split at h
    next hlast =>
      obtain rfl := Option.some.inj h
      exact (List.dropLast_append_getLast? c hlast).symm
    next => contradiction
  · rintro rfl
    rw [if_pos List.getLast?_concat, List.dropLast_concat]

theorem containsNeedleFromLikePattern_eq_some {pattern : Expr} {needle : String} :
    containsNeedleFromLikePattern pattern = some needle ↔ ∃ value,
      stringLiteralValue pattern = some value ∧ value.toList = '%' :: (needle.toList ++ ['%']) ∧
        '%' ∉ needle.toList ∧ '_' ∉ needle.toList := by
  simp only [containsNeedleFromLikePattern, Option.bind_eq_bind, Option.bind_eq_some_iff,
    stripPrefix_eq_some, stripSuffix_eq_some]
  refine exists_congr fun value => and_congr_right fun _ => ?_
  constructor
  · intro ⟨inner, hvalue, rest, hinner, h⟩
    split at h
    next => contradiction
    next hplain =>
      obtain rfl := Option.some.inj h
      rw [hvalue, hinner, String.toList_ofList]
      exact ⟨rfl, not_or.mp hplain⟩
  · intro ⟨hvalue, hplain⟩
    refine ⟨_, hvalue, _, rfl, ?_⟩
    rw [if_neg (not_or.mpr hplain), String.ofList_toList]

/-- A single `%` is no needle between two. -/
example : containsNeedleFromLikePattern (singleQuotedStringExpr "%") = none := by decide +kernel

theorem likePattern_cons {c : Char} {pattern : List Char} (hany : '%' ≠ c) (hone : '_' ≠ c)
    (hescape : '\\' ≠ c) : likePattern (c :: pattern) = .lit c :: likePattern pattern := by
  rw [likePattern]
  · exact hany.symm
  · exact hone.symm
  · exact fun _ _ h => absurd h.symm hescape

theorem likePattern_append {needle : List Char} (rest : List Char) (hany : '%' ∉ needle)
    (hone : '_' ∉ needle) (hescape : '\\' ∉ needle) :
    likePattern (needle ++ rest) = needle.map .lit ++ likePattern rest := by
  induction needle with
  | nil => rfl
  | cons c needle ih =>
    rw [List.mem_cons, not_or] at hany hone hescape
    rw [List.cons_append, likePattern_cons hany.1 hone.1 hescape.1, ih hany.2 hone.2 hescape.2]
    rfl

/-- A needle and the `%` after it cover some text literally. It is shorter than the needle if there
is an escape in the needle, or as long but with the `%`, where that is what is escaped. -/
theorem exists_likePattern {needle : List Char} (hany : '%' ∉ needle) (hone : '_' ∉ needle) :
    ∃ literals : List Char, literals.length ≤ needle.length ∧
      (likePattern (needle ++ ['%']) = literals.map .lit ++ [.any] ∧
          ('\\' ∈ needle → literals.length < needle.length) ∨
        likePattern (needle ++ ['%']) = literals.map .lit ∧ '%' ∈ literals) := by
  induction needle using likePattern.induct with
  | case1 => exact ⟨[], le_rfl, .inl ⟨rfl, fun h => absurd h List.not_mem_nil⟩⟩
  | case2 needle => exact absurd List.mem_cons_self hany
  | case3 needle => exact absurd List.mem_cons_self hone
  | case4 c needle ih =>
    have hany' := mt (List.mem_cons_of_mem _ ∘ List.mem_cons_of_mem _) hany
    have hone' := mt (List.mem_cons_of_mem _ ∘ List.mem_cons_of_mem _) hone
    obtain ⟨literals, hle, h⟩ := ih hany' hone'
    refine ⟨c :: literals, by simp only [List.length_cons]; omega, ?_⟩
    rcases h with ⟨h, -⟩ | ⟨h, hmem⟩
    · refine .inl ⟨by simp [likePattern, h], fun _ => ?_⟩
      simp only [List.length_cons]
      omega
    · exact .inr ⟨by simp [likePattern, h], List.mem_cons_of_mem _ hmem⟩
  | case5 c needle hc hc' hescape ih =>
    obtain ⟨literals, hle, h⟩ := ih (mt (List.mem_cons_of_mem _) hany) (mt (List.mem_cons_of_mem _) hone)
    by_cases hslash : c = '\\'
    · -- A last backslash escapes the `%`.
      subst hslash
      cases needle with
      | nil => exact ⟨['%'], le_rfl, .inr ⟨rfl, List.mem_singleton_self _⟩⟩
      | cons d needle => exact (hescape d needle rfl rfl).elim
    · refine ⟨c :: literals, Nat.succ_le_succ hle, ?_⟩
      rw [List.cons_append, likePattern_cons (Ne.symm hc) (Ne.symm hc') (Ne.symm hslash)]
      rcases h with ⟨h, hlt⟩ | ⟨h, hmem⟩
      · refine .inl ⟨by rw [h]; rfl, fun hmem => Nat.succ_lt_succ (hlt ?_)⟩
        exact (List.mem_cons.mp hmem).resolve_left (Ne.symm hslash)
      · exact .inr ⟨by rw [h]; rfl, List.mem_cons_of_mem _ hmem⟩

theorem like_any (value : String) (rest : List Char) (h : value.toList = '%' :: rest) (text : String) :
    like text value = Wildcard.covers (.any :: likePattern rest) text.toList := by
  rw [like, h]
  rfl

/-- Without a backslash in the needle `LIKE` looks for it. -/
theorem like_eq_contains {value needle : String} (hvalue : value.toList = '%' :: (needle.toList ++ ['%']))
    (hany : '%' ∉ needle.toList) (hone : '_' ∉ needle.toList) (hescape : '\\' ∉ needle.toList)
    (text : String) : like text value = contains text needle := by
  rw [like_any value _ hvalue, likePattern_append _ hany hone hescape, contains, Bool.eq_iff_iff,
    decide_eq_true_iff]
  exact Wildcard.covers_infix

/-- With one, it finds a text that the needle is not in. -/
theorem exists_like_ne_contains {value needle : String}
    (hvalue : value.toList = '%' :: (needle.toList ++ ['%'])) (hany : '%' ∉ needle.toList)
    (hone : '_' ∉ needle.toList) (hescape : '\\' ∈ needle.toList) :
    ∃ text, like text value = true ∧ contains text needle = false := by
  obtain ⟨literals, hle, h⟩ := exists_likePattern hany hone
  refine ⟨.ofList literals, ?_, ?_⟩
  · rw [like_any value _ hvalue, String.toList_ofList]
    rcases h with ⟨h, -⟩ | ⟨h, -⟩
    · rw [h]
      exact Wildcard.covers_infix.mpr (List.infix_refl _)
    · rw [h]
      exact Wildcard.covers_suffix.mpr List.suffix_rfl
  · rw [contains, String.toList_ofList, decide_eq_false_iff_not]
    intro hinfix
    have heq := hinfix.eq_of_length_le hle
    rcases h with ⟨-, hlt⟩ | ⟨-, hmem⟩
    · exact absurd (congrArg List.length heq) (hlt hescape).ne'
    · exact hany (heq ▸ hmem)

/-- **The fast path of `LIKE`**: what it puts in place of a predicate has the value of the
predicate, for every text, `NULL` and negation included, if and only if there is no backslash
between the two `%`. -/
theorem likeFastPath (likeExpr pattern : Expr) (needle : String)
    (h : containsNeedleFromLikePattern pattern = some needle) :
    (∀ (row : Expr → Option String) (negated : Bool),
      evalPredicate row (rewriteExprFastPaths (.like negated false likeExpr pattern none)).1 =
        evalPredicate row (.like negated false likeExpr pattern none)) ↔
      '\\' ∉ needle.toList := by
  obtain ⟨value, hvalue, hlist, hany, hone⟩ := containsNeedleFromLikePattern_eq_some.mp h
  have hrewrite (negated : Bool) : (rewriteExprFastPaths (.like negated false likeExpr pattern none)).1 =
      containsExpr likeExpr needle negated := by
    rw [rewriteExprFastPaths, h]
  have hlike (row : Expr → Option String) (negated : Bool) :
      evalPredicate row (.like negated false likeExpr pattern none) =
        (row likeExpr).map fun text => like text value ^^ negated := by
    rw [evalPredicate, hvalue]
    cases row likeExpr <;> rfl
  simp only [hrewrite, hlike, evalPredicate_containsExpr]
  constructor
  · intro hall hescape
    obtain ⟨text, hlike, hcontains⟩ := exists_like_ne_contains hlist hany hone hescape
    have heq := hall (fun _ => some text) false
    rw [Option.map_some, Option.map_some, hlike, hcontains] at heq
    contradiction
  · intro hescape row negated
    simp only [like_eq_contains hlist hany hone hescape]

/-- `URL LIKE '%a\b%'` holds of `ab`, where `contains(URL, 'a\b')` does not. -/
theorem not_likeFastPath :
    ¬ ∀ (row : Expr → Option String) (negated : Bool),
      evalPredicate row (rewriteExprFastPaths (.like negated false (.identifier (.new "URL"))
        (singleQuotedStringExpr "%a\\b%") none)).1 =
        evalPredicate row (.like negated false (.identifier (.new "URL"))
          (singleQuotedStringExpr "%a\\b%") none) := by
  intro h
  exact absurd (h (fun _ => some "ab") false) (by decide +kernel)

theorem likeFastPath_google :
    (∀ (row : Expr → Option String) (negated : Bool),
      evalPredicate row (rewriteExprFastPaths (.like negated false (.identifier (.new "URL"))
        (singleQuotedStringExpr "%google%") none)).1 =
        evalPredicate row (.like negated false (.identifier (.new "URL"))
          (singleQuotedStringExpr "%google%") none)) ↔
      '\\' ∉ "google".toList :=
  likeFastPath _ _ _ (by decide +kernel)

end HarborSql.Sql
