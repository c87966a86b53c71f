import Mathlib.Data.List.Infix

/-! Patterns of literals and wildcards, and the texts that they cover as a whole. -/

namespace HarborSql

/-- A part of a pattern: any sequence, any one item, or the given one. -/
inductive Wildcard (α : Type) where
  | any
  | one
  | lit (a : α)

namespace Wildcard

variable {α : Type} [DecidableEq α]

def covers : List (Wildcard α) → List α → Bool
  | [], text => text.isEmpty
  | any :: pattern, text => text.tails.any (covers pattern)
  | one :: pattern, text => match text with
    | [] => false
    | _ :: text => covers pattern text
  | lit a :: pattern, text => match text with
    | [] => false
    | b :: text => a = b && covers pattern text

variable {pattern : List (Wildcard α)} {text : List α}

@[simp] theorem covers_nil : covers [] text = true ↔ text = [] := List.isEmpty_iff

theorem covers_any : covers (any :: pattern) text = true ↔
    ∃ rest, rest <:+ text ∧ covers pattern rest = true := by
  simp only [covers, List.any_eq_true, List.mem_tails]

theorem covers_lit {a : α} : covers (lit a :: pattern) text = true ↔
    ∃ rest, text = a :: rest ∧ covers pattern rest = true := by
  cases text with
  | nil => simp [covers]
  | cons b text =>
    simp only [covers, Bool.and_eq_true, decide_eq_true_eq, List.cons.injEq]
    constructor
    · intro ⟨hab, h⟩
      exact ⟨text, ⟨hab.symm, rfl⟩, h⟩
    · intro ⟨_, ⟨hab, rfl⟩, h⟩
      exact ⟨hab.symm, h⟩

/-- A pattern that begins with literals covers what begins with them and goes on as the rest of the
pattern says. -/
theorem covers_lits {literals : List α} : covers (literals.map lit ++ pattern) text = true ↔
    ∃ rest, text = literals ++ rest ∧ covers pattern rest = true := by
  induction literals generalizing text with
  | nil => simp
  | cons a literals ih =>
    simp only [List.map_cons, List.cons_append, covers_lit, ih]
    constructor
    · intro ⟨_, htext, rest, hrest, h⟩
      exact ⟨rest, by rw [htext, hrest], h⟩
    · intro ⟨rest, htext, h⟩
      exact ⟨_, htext, rest, rfl, h⟩

theorem covers_any_nil : covers [any] text = true := by
  rw [covers_any]
  exact ⟨[], List.nil_suffix, rfl⟩

theorem covers_suffix {literals : List α} :
    covers (any :: literals.map lit) text = true ↔ literals <:+ text := by
  rw [covers_any]
  constructor
  · intro ⟨rest, hrest, hcovers⟩
    rw [← List.append_nil (literals.map lit), covers_lits] at hcovers
    obtain ⟨_, rfl, hnil⟩ := hcovers
    rwa [covers_nil.mp hnil, List.append_nil] at hrest
  · intro hsuffix
    refine ⟨literals, hsuffix, ?_⟩
    rw [← List.append_nil (literals.map lit), covers_lits]
    exact ⟨[], (List.append_nil _).symm, rfl⟩

theorem covers_infix {literals : List α} :
    covers (any :: (literals.map lit ++ [any])) text = true ↔ literals <:+: text := by
  rw [covers_any, List.infix_iff_prefix_suffix]
  refine exists_congr fun rest => ?_
  rw [and_comm, covers_lits]
  refine and_congr_left' ⟨fun ⟨_, hrest, _⟩ => ⟨_, hrest.symm⟩, fun ⟨tail, hrest⟩ => ?_⟩
  exact ⟨tail, hrest.symm, covers_any_nil⟩

end Wildcard

/-! ## Patterns of a matcher

A matcher compares literals by a relation, and its wildcards stand for some items only. -/

namespace Wildcard

/-- What a pattern covers, with literals up to `same` and wildcards for the items that are
`free`. -/
inductive CoversBy {α : Type} (same : α → α → Prop) (free : α → Prop) :
    List (Wildcard α) → List α → Prop where
  | nil : CoversBy same free [] []
  | skip {pattern text} : CoversBy same free pattern text →
    CoversBy same free (any :: pattern) text
  | more {pattern text a} : free a → CoversBy same free (any :: pattern) text →
    CoversBy same free (any :: pattern) (a :: text)
  | one {pattern text a} : free a → CoversBy same free pattern text →
    CoversBy same free (one :: pattern) (a :: text)
  | lit {pattern text a b} : same a b → CoversBy same free pattern text →
    CoversBy same free (lit a :: pattern) (b :: text)

namespace CoversBy

variable {α : Type} {same : α → α → Prop} {free free' : α → Prop} {pattern : List (Wildcard α)}
  {text : List α}

theorem mono (hfree : ∀ a, free a → free' a) (h : CoversBy same free pattern text) :
    CoversBy same free' pattern text := by
  induction h with
  | nil => exact nil
  | skip _ ih => exact skip ih
  | more ha _ ih => exact more (hfree _ ha) ih
  | one ha _ ih => exact one (hfree _ ha) ih
  | lit hab _ ih => exact lit hab ih

/-- Literals cover what is the same item by item. -/
theorem of_forall₂ {literals : List α} (h : List.Forall₂ same literals text) :
    CoversBy same free (literals.map Wildcard.lit) text := by
  induction h with
  | nil => exact nil
  | cons hab _ ih => exact lit hab ih

theorem literals_iff {literals : List α} :
    CoversBy same free (literals.map Wildcard.lit) text ↔ List.Forall₂ same literals text := by
  refine ⟨fun h => ?_, of_forall₂⟩
  induction literals generalizing text with
  | nil =>
    cases h
    exact .nil
  | cons a literals ih =>
    cases h with
    | lit hab h => exact .cons hab (ih h)

/-- Only the items of the text need to be free. -/
theorem mono_mem (h : CoversBy same free pattern text) (hfree : ∀ a ∈ text, free a → free' a) :
    CoversBy same free' pattern text := by
  induction h with
  | nil => exact nil
  | skip _ ih => exact skip (ih hfree)
  | more ha _ ih =>
    exact more (hfree _ List.mem_cons_self ha) (ih fun a h => hfree a (List.mem_cons_of_mem _ h))
  | one ha _ ih =>
    exact one (hfree _ List.mem_cons_self ha) (ih fun a h => hfree a (List.mem_cons_of_mem _ h))
  | lit hab _ ih => exact lit hab (ih fun a h => hfree a (List.mem_cons_of_mem _ h))

end CoversBy

end Wildcard

end HarborSql
