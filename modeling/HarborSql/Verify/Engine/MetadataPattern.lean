import HarborSql.Verify.Engine.Columns

/-! `MetadataPattern` covers the names that its pattern describes, and its three scanners read an
escape in the same way. -/

namespace HarborSql

open Wildcard

/-! ## The scanners with their flag -/

/-- A character before which neither branch of an escape applies. -/
theorem ne_backslash {c : Char} {text : List Char} (hlast : c = '\\' → text = [] → False)
    (hescape : ∀ d rest, c = '\\' → text = d :: rest → False) : c ≠ '\\' := by
  intro hc
  cases text with
  | nil => exact hlast hc rfl
  | cons d rest => exact hescape d rest hc rfl

/-- The loop of `contains_metadata_wildcard`, with `escaped`. -/
def containsWildcardFrom : Bool → List Char → Bool
  | _, [] => false
  | true, _ :: text => containsWildcardFrom false text
  | false, c :: text =>
    if c = '\\' then containsWildcardFrom true text
    else if c = '%' ∨ c = '_' ∨ c = '*' then true
    else containsWildcardFrom false text

theorem containsWildcardFrom_eq (text : List Char) :
    containsWildcardFrom false text = containsWildcard text := by
  fun_induction containsWildcard text with
  | case1 => rfl
  | case2 => rfl
  | case3 c text ih => exact ih
  | case4 c text hlast hescape ih =>
    rw [containsWildcardFrom, if_neg (ne_backslash hlast hescape), ih]
    split
    · rename_i hwild
      obtain rfl | rfl | rfl := hwild <;> rfl
    · rename_i hplain
      obtain ⟨hpercent, hunderscore, hstar⟩ := not_or.mp hplain |>.imp_right not_or.mp
      simp [hpercent, hunderscore, hstar]

/-- The loop of `metadata_pattern_regex`, with `regex` and `escaped`. -/
def patternRegexFrom (regex : List Char) : Bool → List Char → List Char
  | escaped, [] => if escaped then regex ++ regexEscape '\\' else regex
  | true, c :: text => patternRegexFrom (regex ++ regexEscape c) false text
  | false, c :: text =>
    if c = '\\' then patternRegexFrom regex true text
    else if c = '%' ∨ c = '*' then patternRegexFrom (regex ++ ".*".toList) false text
    else if c = '_' then patternRegexFrom (regex ++ ['.']) false text
    else patternRegexFrom (regex ++ regexEscape c) false text

theorem patternRegexFrom_eq (regex text : List Char) :
    patternRegexFrom regex false text = regex ++ patternRegex text := by
  fun_induction patternRegex text generalizing regex with
  | case1 => exact (List.append_nil regex).symm
  | case2 => rfl
  | case3 c text ih =>
    rw [← List.append_assoc]
    exact ih (regex ++ regexEscape c)
  | case4 c text hlast hescape hany ih =>
    rw [patternRegexFrom, if_neg (ne_backslash hlast hescape), if_pos hany, ih, List.append_assoc]
  | case5 text hlast hescape _ ih =>
    rw [List.append_cons]
    exact ih (regex ++ ['.'])
  | case6 c text hlast hescape hany hone ih =>
    rw [patternRegexFrom, if_neg (ne_backslash hlast hescape), if_neg hany, if_neg hone, ih,
      List.append_assoc]

/-! ## What a pattern covers -/

variable {same : Char → Char → Prop} {pattern name : String}

/-- A name without a line feed is covered by the expression if and only if by the pattern. -/
theorem regexMatches_iff (hname : '\n' ∉ name.toList) :
    RegexMatches same pattern name ↔ PatternMatches same pattern name := by
  refine ⟨regexMatches_imp, fun h => h.mono_mem fun c hc _ => ?_⟩
  intro heq
  exact hname (heq ▸ hc)

/-- Two texts that are the same character by character. -/
def SameText (same : Char → Char → Prop) (a b : String) : Prop :=
  List.Forall₂ same a.toList b.toList

theorem regexMatches_iff_sameText (hwild : containsMetadataWildcard pattern = false) :
    RegexMatches same pattern name ↔ SameText same (stripMetadataEscapes pattern) name := by
  rw [RegexMatches, metadataParts_literal hwild, CoversBy.literals_iff, SameText,
    stripMetadataEscapes, String.toList_ofList]

/-- A pattern compiles, and covers the names that it describes: all of them where it is empty or
missing, and where it has no wildcard just the literal name. -/
theorem metadataPatternReference (same : Char → Char → Prop) (build : RegexBuild)
    (R : DocumentedRegex same build) (pattern : Option String) :
    ∃ compiled, MetadataPattern.new build pattern = .ok compiled ∧
      (∀ name : String, '\n' ∉ name.toList →
        (compiled.isMatch name = true ↔ NameOf (PatternMatches same) pattern name)) ∧
      ∀ literal name, pattern = some literal → literal ≠ "" →
        containsMetadataWildcard literal = false →
        (compiled.isMatch name = true ↔ SameText same (stripMetadataEscapes literal) name) := by
  obtain ⟨compiled, hnew, hmatch⟩ := metadataPattern_new R pattern
  refine ⟨compiled, hnew, fun name hname => ?_, ?_⟩
  · rw [hmatch, NameOf, NameOf]
    split
    · exact Iff.rfl
    · exact regexMatches_iff hname
  · rintro literal name rfl hne hwild
    rw [hmatch, NameOf]
    simp [Option.filter, hne, regexMatches_iff_sameText hwild]

theorem metadataPatternReference_escape :
    ∃ compiled, MetadataPattern.new buildPattern (some "a\\_b") = .ok compiled ∧
      (compiled.isMatch "A_b" = true ↔ PatternMatches sameAscii "a\\_b" "A_b") ∧
      (compiled.isMatch "A_b" = true ↔ SameText sameAscii "a_b" "A_b") := by
  obtain ⟨compiled, hnew, hmatch, hliteral⟩ := metadataPatternReference sameAscii buildPattern
    documentedRegex_buildPattern (some "a\\_b")
  exact ⟨compiled, hnew, hmatch "A_b" (by decide),
    hliteral "a\\_b" "A_b" rfl (by decide) (by decide)⟩

/-- The empty pattern has no wildcard and covers a name that is not the literal one. -/
theorem not_emptyPatternLiteral :
    DocumentedRegex sameAscii buildPattern ∧ containsMetadataWildcard "" = false ∧
      (∃ compiled, MetadataPattern.new buildPattern (some "") = .ok compiled ∧
        compiled.isMatch "x" = true) ∧
      ¬ SameText sameAscii (stripMetadataEscapes "") "x" := by
  refine ⟨documentedRegex_buildPattern, rfl, ⟨⟨none⟩, rfl, rfl⟩, ?_⟩
  intro h
  cases h

end HarborSql
