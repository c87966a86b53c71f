import HarborSql.Udf
import HarborSql.Verify.Rewrite.Like

/-! The fast path of `regexp_replace` against DataFusion's own function. -/

namespace HarborSql

open Replacement
open Sql (captureReplacementIndex parseU64 stripPrefix stripSuffix stripPrefix_eq_some
  stripSuffix_eq_some)

/-! ## DataFusion's `regexp_replace` -/

/-- A digit for DataFusion's `\d`, of which those beyond ASCII are a parameter. -/
def isDecimal (unicodeDigit : Char → Bool) (c : Char) : Bool :=
  c.isDigit || (128 ≤ c.toNat && unicodeDigit c)

/-- `regex_replace_posix_groups`: a backslash and the digits after it become the digits in
`$\x7b..\x7d`. -/
def posixGroups (unicodeDigit : Char → Bool) : List Char → List Char
  | [] => []
  | '\\' :: text =>
    '$' :: '{' :: text.takeWhile (isDecimal unicodeDigit) ++
      '}' :: posixGroups unicodeDigit (text.dropWhile (isDecimal unicodeDigit))
  | c :: text => c :: posixGroups unicodeDigit text
termination_by text => text.length
decreasing_by
  · have := (List.dropWhile_suffix (l := text) (isDecimal unicodeDigit)).length_le
    simp only [List.length_cons]; omega
  · simp

/-- `regexp_replace` of three arguments, the last two of them constants. -/
def regexpReplace (unicodeDigit : Char → Bool) (regex : Regex) (value : Option String)
    (replacement : String) : Option String :=
  value.map fun value =>
    .ofList (regex.replaceFirst value.toList (posixGroups unicodeDigit replacement.toList))

variable {unicodeDigit : Char → Bool} {text digits : List Char}

theorem posixGroups_literal (h : '\\' ∉ text) : posixGroups unicodeDigit text = text := by
  induction text with
  | nil => rw [posixGroups]
  | cons c text ih =>
    have hc : c ≠ '\\' := fun heq => h (heq ▸ List.mem_cons_self)
    rw [posixGroups, ih fun hmem => h (List.mem_cons_of_mem c hmem)]
    exact hc

theorem posixGroups_backslash (h : digits.all Char.isDigit)
    (hrest : ∀ c, text.head? = some c → isDecimal unicodeDigit c = false) :
    posixGroups unicodeDigit ('\\' :: (digits ++ text)) =
      '$' :: '{' :: digits ++ '}' :: posixGroups unicodeDigit text := by
  have hall : ∀ c ∈ digits, isDecimal unicodeDigit c = true := by
    intro c hc
    rw [isDecimal, List.all_eq_true.mp h c hc, Bool.true_or]
  have htext : text.takeWhile (isDecimal unicodeDigit) = [] ∧
      text.dropWhile (isDecimal unicodeDigit) = text := by
    cases text with
    | nil => exact ⟨rfl, rfl⟩
    | cons c text =>
      have := hrest c rfl
      exact ⟨List.takeWhile_cons_of_neg (by simp [this]),
        List.dropWhile_cons_of_neg (by simp [this])⟩
  rw [posixGroups, List.takeWhile_append_of_pos hall, List.dropWhile_append_of_pos hall,
    htext.1, htext.2, List.append_nil]

/-! ## Replacements that are one group -/

/-- A replacement on which the fast path fires: a `$` or a backslash, and digits that may stand in
braces. -/
inductive OneGroup : List Char → Nat → Prop where
  | bare {sigil digits n} (hsigil : sigil = '$' ∨ sigil = '\\') (hne : digits ≠ [])
    (hdigits : digits.all Char.isDigit) (hn : parseU64 digits = some n) :
    OneGroup (sigil :: digits) n
  | braced {sigil digits n} (hsigil : sigil = '$' ∨ sigil = '\\') (hne : digits ≠ [])
    (hdigits : digits.all Char.isDigit) (hn : parseU64 digits = some n) :
    OneGroup (sigil :: '{' :: (digits ++ ['}'])) n

theorem oneGroup {replacement : String} {n : Nat}
    (h : captureReplacementIndex replacement = some n) : OneGroup replacement.toList n := by
  rw [captureReplacementIndex] at h
  obtain ⟨digits, hdigits, h⟩ := Option.bind_eq_some_iff.mp h
  have hsigil : ∃ sigil, (sigil = '$' ∨ sigil = '\\') ∧ replacement.toList = sigil :: digits := by
    rw [Option.orElse_eq_orElse, Option.orElse_eq_or, Option.or_eq_some_iff] at hdigits
    rcases hdigits with hd | ⟨-, hd⟩
    · exact ⟨'$', .inl rfl, stripPrefix_eq_some.mp hd⟩
    · exact ⟨'\\', .inr rfl, stripPrefix_eq_some.mp hd⟩
  obtain ⟨sigil, hsigil, htext⟩ := hsigil
  rw [htext]
  cases hbraces : (stripPrefix '{' digits).bind (stripSuffix '}') with
  | none =>
    rw [hbraces, Option.getD_none] at h
    dsimp only at h
    split at h
    · cases h
    · rename_i hcond
      simp only [Bool.or_eq_true, Bool.not_eq_true', not_or, Bool.not_eq_false,
        List.isEmpty_iff] at hcond
      exact .bare hsigil hcond.1 hcond.2 h
  | some inner =>
    rw [hbraces, Option.getD_some] at h
    dsimp only at h
    obtain ⟨rest, hrest, hinner⟩ := Option.bind_eq_some_iff.mp hbraces
    rw [stripPrefix_eq_some.mp hrest, stripSuffix_eq_some.mp hinner]
    split at h
    · cases h
    · rename_i hcond
      simp only [Bool.or_eq_true, Bool.not_eq_true', not_or, Bool.not_eq_false,
        List.isEmpty_iff] at hcond
      exact .braced hsigil hcond.1 hcond.2 h

/-- A number in a template names the group of the fast path. -/
theorem parseUsize_of_parseU64 {n : Nat} (hne : digits ≠ []) (h : digits.all Char.isDigit)
    (hn : parseU64 digits = some n) : parseUsize digits = some n := by
  cases digits with
  | nil => exact absurd rfl hne
  | cons c digits =>
    have hc : c ≠ '+' := by
      intro heq
      subst heq
      simp at h
    rw [parseUsize]
    · rw [if_neg (by simp [h])]
      exact hn
    · intro digits' heq
      exact hc (List.cons.inj heq).1

/-! ## The two functions -/

variable {regex : Regex} {n : Nat}

theorem replaceCapture_eq {value : String} :
    replaceCapture value regex n = match regex.captures value.toList with
      | none => value
      | some captures => .ofList (value.toList.take captures.full.start ++
          captures.group value.toList n ++ value.toList.drop captures.full.stop) := by
  rw [replaceCapture]
  cases regex.captures value.toList <;> rfl

/-- The strings of a column, each replaced by a function of it. -/
def ColumnarValue.mapStrings (f : Option String → Option String) :
    ColumnarValue → Option ColumnarValue
  | .scalar (.utf8 value) => some (.scalar (.utf8 (f value)))
  | .scalar (.largeUtf8 value) => some (.scalar (.largeUtf8 (f value)))
  | .scalar (.utf8View value) => some (.scalar (.utf8View (f value)))
  | .array (.utf8 values) => some (.array (.utf8 (values.map f)))
  | .array (.largeUtf8 values) => some (.array (.largeUtf8 (values.map f)))
  | .array (.utf8View values) => some (.array (.utf8View (values.map f)))
  | _ => none

/-- The function replaces each string of a column, and keeps the nulls. -/
theorem invokeWithArgs_eq {crates : UdfCrates} {pattern : String} {source result : ColumnarValue}
    (hregex : crates.regexNew pattern = .ok regex)
    (hresult : source.mapStrings (·.map fun value => replaceCapture value regex n) =
      some result) :
    invokeWithArgs crates [source, .scalar (.utf8 (some pattern)), .scalar (.int64 (some n))] =
      .ok result := by
  have hindex : ¬(n : Int) < 0 := by omega
  cases source with
  | scalar value =>
    cases value <;> cases hresult <;>
      simp [invokeWithArgs, scalarStringArg, scalarI64Arg, hregex, hindex, Except.mapError,
        bind, Except.bind, replaceScalar]
  | array values =>
    cases values <;> cases hresult <;>
      simp [invokeWithArgs, scalarStringArg, scalarI64Arg, hregex, hindex, Except.mapError,
        bind, Except.bind, replaceArray]

/-- Where the template expands to the group, the two functions agree. -/
theorem replaceFirst_eq {value template : List Char}
    (h : ∀ captures, expand (regex.ref captures value) template = captures.group value n) :
    regex.replaceFirst value template = match regex.captures value with
      | none => value
      | some captures => value.take captures.full.start ++ captures.group value n ++
          value.drop captures.full.stop := by
  rw [Regex.replaceFirst]
  cases regex.captures value with
  | none => rfl
  | some captures => simp only [h captures]

theorem ref_number {captures : Captures} (hne : digits ≠ []) (h : digits.all Char.isDigit)
    (hn : parseU64 digits = some n) : regex.ref captures text digits = captures.group text n := by
  rw [Regex.ref, parseUsize_of_parseU64 hne h hn]

theorem not_mem_digits {c : Char} (hc : c.isDigit = false) (h : digits.all Char.isDigit) :
    c ∉ digits := by
  intro hmem
  have := List.all_eq_true.mp h c hmem
  rw [hc] at this
  cases this

/-- `$n` and `$\x7bn\x7d` expand to the group. -/
theorem expand_bare {captures : Captures} (hne : digits ≠ []) (h : digits.all Char.isDigit)
    (hn : parseU64 digits = some n) :
    expand (regex.ref captures text) ('$' :: digits) = captures.group text n := by
  have hletters : digits.all isCapLetter := by
    refine List.all_eq_true.mpr fun c hc => ?_
    simp [isCapLetter, Char.isAlphanum, List.all_eq_true.mp h c hc]
  have hhead : digits.head? ≠ some '$' := by
    intro heq
    exact not_mem_digits (by decide) h (List.mem_of_mem_head? heq)
  rw [expand_ref hhead (capRef_letters hletters hne), ref_number hne h hn, expand,
    List.append_nil]

theorem expand_braced {captures : Captures} (hne : digits ≠ []) (h : digits.all Char.isDigit)
    (hn : parseU64 digits = some n) :
    expand (regex.ref captures text) ('$' :: '{' :: (digits ++ ['}'])) =
      captures.group text n := by
  rw [expand_ref (by simp) (capRef_braced (not_mem_digits (by decide) h)),
    ref_number hne h hn, expand, List.append_nil]

/-- A backslash before a brace names no group, and the braces and the digits stay. -/
theorem expand_backslash_braced {captures : Captures} (h : digits.all Char.isDigit) :
    expand (regex.ref captures text)
      (posixGroups unicodeDigit ('\\' :: '{' :: (digits ++ ['}']))) = '{' :: (digits ++ ['}']) := by
  have hplain : ∀ c, c.isDigit = false → c ≠ '{' → c ≠ '}' → c ∉ '{' :: (digits ++ ['}']) := by
    intro c hc hopen hclose hmem
    simp [hopen, hclose, not_mem_digits hc h] at hmem
  have hposix : posixGroups unicodeDigit ('\\' :: ([] ++ '{' :: (digits ++ ['}']))) =
      '$' :: '{' :: ([] ++ '}' :: '{' :: (digits ++ ['}'])) := by
    rw [posixGroups_backslash rfl, posixGroups_literal (hplain _ (by decide) (by decide) (by decide))]
    · rfl
    · intro c hc
      obtain rfl := Option.some.inj hc
      rfl
  rw [List.nil_append] at hposix
  rw [hposix, expand_ref (by simp) (capRef_braced (by simp)),
    expand_literal (hplain _ (by decide) (by decide) (by decide))]
  have : regex.ref captures text [] = [] := by
    rw [Regex.ref]
    simp [parseUsize, regex.groupNamed_nil]
  rw [this, List.nil_append]

/-- The expression `(?s)(.*)`: it matches a text as a whole, which is also its first group. -/
def wholeText : Regex where
  captures text := some ⟨⟨0, text.length⟩, [some ⟨0, text.length⟩]⟩
  groupNamed _ := none
  groupNamed_nil := rfl

end HarborSql
