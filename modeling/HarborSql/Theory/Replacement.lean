import Mathlib.Algebra.Group.Nat.Defs
import Mathlib.Data.List.TakeWhile

/-! Replacements by regular expressions: the first match of an expression in a text, and the
templates that name the groups of a match (`$1`, `${1}`, `$name`, `${name}` and `$$`). -/

namespace HarborSql

namespace Replacement

/-- A part of a text, from one position to another. -/
structure Span where
  start : Nat
  stop : Nat

def Span.slice (span : Span) (text : List Char) : List Char :=
  (text.take span.stop).drop span.start

/-- A match: where it is, and its groups from the first on, of which some may take no part. -/
structure Captures where
  full : Span
  groups : List (Option Span)

/-- The group with an index. The whole match is group 0. -/
def Captures.get (captures : Captures) : Nat → Option Span
  | 0 => some captures.full
  | n + 1 => captures.groups[n]?.join

/-- A missing group, or one that takes no part in the match, is empty. -/
def Captures.group (captures : Captures) (text : List Char) (n : Nat) : List Char :=
  ((captures.get n).map (·.slice text)).getD []

/-- A compiled expression: its first match in a text, and its named groups, whose names are not
empty. -/
structure Regex where
  captures : List Char → Option Captures
  groupNamed : List Char → Option Nat
  groupNamed_nil : groupNamed [] = none

/-! ## Templates -/

/-- A letter of a name without braces. -/
def isCapLetter (c : Char) : Bool := c.isAlphanum || c = '_'

/-- The name at the front of what follows a `$`, and what follows the name. -/
def capRef : List Char → Option (List Char × List Char)
  | '{' :: text =>
    match text.dropWhile (· ≠ '}') with
    | [] => none
    | _ :: rest => some (text.takeWhile (· ≠ '}'), rest)
  | text =>
    if text.takeWhile isCapLetter = [] then none
    else some (text.takeWhile isCapLetter, text.dropWhile isCapLetter)

theorem capRef_length {text name rest : List Char} (h : capRef text = some (name, rest)) :
    rest.length ≤ text.length := by
  unfold capRef at h
  split at h
  · rename_i text
    split at h
    · cases h
    · rename_i c rest' heq
      cases h
      have := (List.dropWhile_suffix (l := text) (· ≠ '}')).length_le
      rw [heq] at this
      simp only [List.length_cons] at this ⊢
      omega
  · split at h
    · cases h
    · cases h
      exact (List.dropWhile_suffix _).length_le

/-- A template with its names replaced by what `ref` says of them. -/
def expand (ref : List Char → List Char) : List Char → List Char
  | [] => []
  | '$' :: '$' :: text => '$' :: expand ref text
  | '$' :: text =>
    match _h : capRef text with
    | some (name, rest) => ref name ++ expand ref rest
    | none => '$' :: expand ref text
  | c :: text => c :: expand ref text
termination_by text => text.length
decreasing_by
  · simp only [List.length_cons]; omega
  · have := capRef_length _h
    simp only [List.length_cons]; omega
  · simp
  · simp

/-- `parse::<usize>`. -/
def parseUsize (text : List Char) : Option Nat :=
  let digits := match text with
    | '+' :: digits => digits
    | _ => text
  if digits = [] ∨ ¬digits.all Char.isDigit then none
  else
    let n := digits.foldl (fun n c => 10 * n + (c.toNat - '0'.toNat)) 0
    if n < 2 ^ 64 then some n else none

/-- What a name in a template stands for: the group with that number, or else with that name. -/
def Regex.ref (regex : Regex) (captures : Captures) (text : List Char) (name : List Char) :
    List Char :=
  match parseUsize name with
  | some n => captures.group text n
  | none =>
    match regex.groupNamed name with
    | some n => captures.group text n
    | none => []

/-- The first match is replaced by the expanded template. -/
def Regex.replaceFirst (regex : Regex) (text template : List Char) : List Char :=
  match regex.captures text with
  | none => text
  | some captures =>
    text.take captures.full.start ++ expand (regex.ref captures text) template ++
      text.drop captures.full.stop

/-! ## Rules -/

variable {ref : List Char → List Char} {name text rest : List Char}

theorem capRef_braced (h : '}' ∉ name) :
    capRef ('{' :: (name ++ '}' :: rest)) = some (name, rest) := by
  have hall : ∀ c ∈ name, decide (c ≠ '}') = true := by
    intro c hc
    exact decide_eq_true fun heq => h (heq ▸ hc)
  simp only [capRef]
  rw [List.dropWhile_append_of_pos hall, List.takeWhile_append_of_pos hall]
  simp

theorem capRef_letters (h : name.all isCapLetter) (hne : name ≠ []) :
    capRef name = some (name, []) := by
  have hall : ∀ c ∈ name, isCapLetter c = true := List.all_eq_true.mp h
  cases name with
  | nil => exact absurd rfl hne
  | cons c name =>
    have hc : c ≠ '{' := by
      intro heq
      have := hall c (List.mem_cons_self)
      rw [heq] at this
      exact absurd this (by decide)
    have htake : (c :: name).takeWhile isCapLetter = c :: name := List.takeWhile_eq_self_iff.mpr hall
    have hdrop : (c :: name).dropWhile isCapLetter = [] := List.dropWhile_eq_nil_iff.mpr hall
    rw [capRef]
    · rw [if_neg (by rw [htake]; exact List.cons_ne_nil c name), htake, hdrop]
    · intro text heq
      exact hc (List.cons.inj heq).1

theorem expand_ref (hne : text.head? ≠ some '$') (h : capRef text = some (name, rest)) :
    expand ref ('$' :: text) = ref name ++ expand ref rest := by
  rw [expand]
  · split
    · rename_i name' rest' heq
      rw [h] at heq
      cases heq
      rfl
    · rename_i heq
      rw [h] at heq
      cases heq
  · intro text' heq
    exact hne (by rw [heq]; rfl)

/-- A text without `$` stands for itself. -/
theorem expand_literal (h : '$' ∉ text) : expand ref text = text := by
  induction text with
  | nil => rw [expand]
  | cons c text ih =>
    have hc : c ≠ '$' := fun heq => h (heq ▸ List.mem_cons_self)
    rw [expand, ih fun hmem => h (List.mem_cons_of_mem c hmem)]
    · intro text' heq
      exact absurd heq hc
    · intro heq
      exact hc heq

end Replacement

end HarborSql
