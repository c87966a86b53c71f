import Mathlib.Data.List.Basic

/-! The text format of Prometheus: a reader of the samples in a text, line by line, and the text
of a sample, whose label values are escaped. -/

namespace HarborSql.Exposition

structure Sample where
  metric : String
  labels : List (String × String)
  value : String
  deriving DecidableEq, Repr

/-! ## Reading -/

def isNameChar (c : Char) : Bool := c.isAlphanum || c = '_' || c = ':'

/-- The character that an escape stands for. -/
def unescapeChar (c : Char) : Option Char :=
  if c = '\\' then some '\\' else if c = '"' then some '"' else if c = 'n' then some '\n' else none

/-- A label value up to its closing quote, and what follows the quote. -/
def readLabelValue : List Char → Option (List Char × List Char)
  | [] | ['\\'] => none
  | '"' :: rest => some ([], rest)
  | '\\' :: e :: rest => do
    let unescaped ← unescapeChar e
    let (value, rest) ← readLabelValue rest
    return (unescaped :: value, rest)
  | c :: rest => do
    let (value, rest) ← readLabelValue rest
    return (c :: value, rest)

/-- The labels up to the closing brace, and what follows the brace. -/
def readLabels : Nat → List Char → Option (List (String × String) × List Char)
  | 0, _ => none
  | fuel + 1, cs =>
    match cs.dropWhile (· ≠ '=') with
    | '=' :: '"' :: rest => do
      let (value, rest) ← readLabelValue rest
      let label := (String.ofList (cs.takeWhile (· ≠ '=')), String.ofList value)
      match rest with
      | ',' :: rest => do
        let (labels, rest) ← readLabels fuel rest
        return (label :: labels, rest)
      | '\x7d' :: rest => some ([label], rest)
      | _ => none
    | _ => none

/-- The sample of a line; comments and empty lines have none. -/
def readSample (line : List Char) : Option Sample :=
  let metric := String.ofList (line.takeWhile isNameChar)
  match line.dropWhile isNameChar with
  | '\x7b' :: rest => do
    let (labels, rest) ← readLabels rest.length rest
    match rest with
    | ' ' :: value => some ⟨metric, labels, .ofList value⟩
    | _ => none
  | ' ' :: value => if metric = "" then none else some ⟨metric, [], .ofList value⟩
  | _ => none

def samples (text : List Char) : List Sample := (text.splitOn '\n').filterMap readSample

/-! ## Label values -/

def escapeChar (c : Char) : List Char :=
  if c = '\\' then ['\\', '\\'] else if c = '"' then ['\\', '"'] else if c = '\n' then ['\\', 'n']
  else [c]

def escape (value : List Char) : List Char := value.flatMap escapeChar

theorem newline_not_mem_escape (value : List Char) : '\n' ∉ escape value := by
  intro hmem
  obtain ⟨c, -, hc⟩ := List.mem_flatMap.mp hmem
  unfold escapeChar at hc
  split at hc
  · simp at hc
  · split at hc
    · simp at hc
    · split at hc
      · simp at hc
      · exact absurd (List.mem_singleton.mp hc).symm ‹c ≠ '\n'›

theorem readLabelValue_escape (value rest : List Char) :
    readLabelValue (escape value ++ '"' :: rest) = some (value, rest) := by
  induction value with
  | nil => simp [escape, readLabelValue]
  | cons c value ih =>
    rw [escape, List.flatMap_cons, List.append_assoc, ← escape]
    by_cases hslash : c = '\\'
    · subst hslash
      simp [escapeChar, readLabelValue, unescapeChar, ih]
    by_cases hquote : c = '"'
    · subst hquote
      simp [escapeChar, readLabelValue, unescapeChar, ih]
    by_cases hline : c = '\n'
    · subst hline
      simp [escapeChar, readLabelValue, unescapeChar, ih]
    simp [escapeChar, hslash, hquote, hline, readLabelValue, ih]

/-! ## Samples -/

def labelText (label : String × String) : List Char :=
  label.1.toList ++ '=' :: '"' :: (escape label.2.toList ++ ['"'])

def labelsText : List (String × String) → List Char
  | [] => []
  | [label] => labelText label
  | label :: labels => labelText label ++ ',' :: labelsText labels

/-- The line of a sample, without its end. -/
def sampleText (sample : Sample) : List Char :=
  sample.metric.toList ++
    '\x7b' :: (labelsText sample.labels ++ '\x7d' :: ' ' :: sample.value.toList)

/-- What a sample needs for its line to be read back. -/
structure Sample.WF (sample : Sample) : Prop where
  metric : ∀ c ∈ sample.metric.toList, isNameChar c
  labels : sample.labels ≠ []
  names : ∀ label ∈ sample.labels, ∀ c ∈ label.1.toList, isNameChar c
  value : '\n' ∉ sample.value.toList

theorem takeWhile_append_cons {p : Char → Bool} {name : List Char} {c : Char} {rest : List Char}
    (hname : ∀ d ∈ name, p d) (hc : p c = false) :
    (name ++ c :: rest).takeWhile p = name ∧ (name ++ c :: rest).dropWhile p = c :: rest := by
  induction name with
  | nil => simp [hc]
  | cons d name ih =>
    obtain ⟨htake, hdrop⟩ := ih fun e he => hname e (.tail _ he)
    have hd : p d := hname d List.mem_cons_self
    simp [hd, htake, hdrop]

theorem ne_of_isNameChar {c : Char} (h : isNameChar c) (d : Char) (hd : isNameChar d = false) :
    c ≠ d := by
  rintro rfl
  exact absurd h (by simp [hd])

theorem readLabels_label {label : String × String} (h : ∀ c ∈ label.1.toList, isNameChar c)
    (fuel : Nat) (rest : List Char) :
    readLabels (fuel + 1) (labelText label ++ rest) =
      match rest with
      | ',' :: rest => do
        let (labels, rest) ← readLabels fuel rest
        return (label :: labels, rest)
      | '\x7d' :: rest => some ([label], rest)
      | _ => none := by
  obtain ⟨htake, hdrop⟩ := @takeWhile_append_cons (· ≠ '=') label.1.toList '='
    ('"' :: (escape label.2.toList ++ '"' :: rest))
    (fun c hc => by simpa using ne_of_isNameChar (h c hc) '=' (by decide)) (by simp)
  have htext : labelText label ++ rest =
      label.1.toList ++ '=' :: '"' :: (escape label.2.toList ++ '"' :: rest) := by
    simp [labelText]
  rw [htext, readLabels, hdrop, htake]
  simp only [readLabelValue_escape, Option.bind_eq_bind, Option.bind_some, String.ofList_toList]

theorem readLabels_text {labels : List (String × String)} (hne : labels ≠ [])
    (h : ∀ label ∈ labels, ∀ c ∈ label.1.toList, isNameChar c) {fuel : Nat}
    (hfuel : labels.length ≤ fuel) (rest : List Char) :
    readLabels fuel (labelsText labels ++ '\x7d' :: rest) = some (labels, rest) := by
  induction labels generalizing fuel with
  | nil => exact absurd rfl hne
  | cons label labels ih =>
    obtain ⟨fuel, rfl⟩ := Nat.exists_eq_succ_of_ne_zero (Nat.pos_iff_ne_zero.mp
      (Nat.lt_of_lt_of_le (Nat.succ_pos _) hfuel))
    have hlabel := h label List.mem_cons_self
    cases labels with
    | nil =>
      rw [labelsText, readLabels_label hlabel]
      rfl
    | cons next labels =>
      have htail := ih (List.cons_ne_nil _ _) (fun l hl => h l (.tail _ hl))
        (Nat.le_of_succ_le_succ hfuel)
      rw [labelsText, List.append_assoc, readLabels_label hlabel]
      · simp [htail]
      · simp

theorem length_le_labelsText (labels : List (String × String)) :
    labels.length ≤ (labelsText labels).length := by
  induction labels with
  | nil => exact Nat.le_refl _
  | cons label labels ih =>
    cases labels with
    | nil =>
      simp only [labelsText, labelText, List.length_append, List.length_cons]
      omega
    | cons next labels =>
      simp only [labelsText, List.length_append, List.length_cons] at ih ⊢
      omega

/-- A sample is read from its line. -/
theorem readSample_text {sample : Sample} (h : sample.WF) :
    readSample (sampleText sample) = some sample := by
  obtain ⟨htake, hdrop⟩ := @takeWhile_append_cons isNameChar sample.metric.toList '\x7b'
    (labelsText sample.labels ++ '\x7d' :: ' ' :: sample.value.toList) h.metric (by decide)
  have hlabels : readLabels
      (labelsText sample.labels ++ '\x7d' :: ' ' :: sample.value.toList).length
      (labelsText sample.labels ++ '\x7d' :: ' ' :: sample.value.toList) =
        some (sample.labels, ' ' :: sample.value.toList) := by
    apply readLabels_text h.labels h.names
    have := length_le_labelsText sample.labels
    simp only [List.length_append]
    omega
  rw [readSample, sampleText, hdrop, htake]
  simp only [hlabels, Option.bind_eq_bind, Option.bind_some, String.ofList_toList]

/-- A line without labels. -/
theorem readSample_plain {name : String} (hne : name ≠ "") (h : ∀ c ∈ name.toList, isNameChar c)
    (value : String) :
    readSample (name.toList ++ ' ' :: value.toList) = some ⟨name, [], value⟩ := by
  obtain ⟨htake, hdrop⟩ := @takeWhile_append_cons isNameChar name.toList ' ' value.toList h
    (by decide)
  rw [readSample, hdrop, htake]
  simp [hne]

theorem readSample_comment (text : List Char) : readSample ('#' :: text) = none := by
  simp [readSample, isNameChar]

theorem newline_not_mem_of_isNameChar {name : String} (h : ∀ c ∈ name.toList, isNameChar c) :
    '\n' ∉ name.toList :=
  fun hmem => absurd (h _ hmem) (by decide)

theorem newline_not_mem_labelsText {labels : List (String × String)}
    (h : ∀ label ∈ labels, ∀ c ∈ label.1.toList, isNameChar c) : '\n' ∉ labelsText labels := by
  have hlabel : ∀ label ∈ labels, '\n' ∉ labelText label := by
    intro label hmem
    simp [labelText, newline_not_mem_of_isNameChar (h label hmem), newline_not_mem_escape]
  clear h
  induction labels with
  | nil => simp [labelsText]
  | cons label labels ih =>
    have hhead := hlabel label List.mem_cons_self
    have htail := ih fun l hl => hlabel l (.tail _ hl)
    cases labels with
    | nil => simpa [labelsText] using hhead
    | cons next labels => simp [labelsText, hhead] at htail ⊢; exact htail

theorem newline_not_mem_sampleText {sample : Sample} (h : sample.WF) :
    '\n' ∉ sampleText sample := by
  simp [sampleText, newline_not_mem_of_isNameChar h.metric, newline_not_mem_labelsText h.names,
    h.value]

/-! ## Texts -/

/-- Lines, each with its end. -/
def linesText (lines : List (List Char)) : List Char := lines.flatMap (· ++ ['\n'])

@[simp] theorem linesText_append (lines lines' : List (List Char)) :
    linesText (lines ++ lines') = linesText lines ++ linesText lines' := List.flatMap_append

theorem splitOn_linesText {lines : List (List Char)} (h : ∀ line ∈ lines, '\n' ∉ line) :
    (linesText lines).splitOn '\n' = lines ++ [[]] := by
  induction lines with
  | nil => rfl
  | cons line lines ih =>
    have hline : '\n' ∉ line := h line List.mem_cons_self
    have htext : linesText (line :: lines) = line ++ '\n' :: linesText lines := by
      simp [linesText]
    rw [htext, List.splitOn_append_cons_self, List.splitOn_eq_singleton hline,
      ih fun l hl => h l (.tail _ hl)]
    rfl

/-- The samples of a text are those of its lines. -/
theorem samples_linesText {lines : List (List Char)} (h : ∀ line ∈ lines, '\n' ∉ line) :
    samples (linesText lines) = lines.filterMap readSample := by
  have hempty : readSample [] = none := rfl
  rw [samples, splitOn_linesText h, List.filterMap_append]
  simp [hempty]

/-- A text of `n` lines with these samples. -/
inductive Renders : String → Nat → List Sample → Prop
  | nil : Renders "" 0 []
  | comment (text : String) : '\n' ∉ text.toList → Renders ("#" ++ text ++ "\n") 1 []
  | plain {name value : String} : name ≠ "" → (∀ c ∈ name.toList, isNameChar c) →
    '\n' ∉ value.toList → Renders (name ++ " " ++ value ++ "\n") 1 [⟨name, [], value⟩]
  | sample {sample : Sample} : sample.WF →
    Renders (.ofList (sampleText sample) ++ "\n") 1 [sample]
  | append {text text' : String} {n n' : Nat} {samples samples' : List Sample} :
    Renders text n samples → Renders text' n' samples' →
    Renders (text ++ text') (n + n') (samples ++ samples')

namespace Renders

variable {text : String} {n : Nat} {list : List Sample}

theorem join {α : Type} {items : List α} {f : α → String} {n : Nat} {g : α → List Sample}
    (h : ∀ item ∈ items, Renders (f item) n (g item)) :
    Renders (.join (items.map f)) (n * items.length) (items.flatMap g) := by
  induction items with
  | nil => exact .nil
  | cons item items ih =>
    have hrest := ih fun i hi => h i (.tail _ hi)
    have := (h item List.mem_cons_self).append hrest
    rw [List.map_cons, String.join_cons, List.length_cons, List.flatMap_cons, Nat.mul_succ,
      Nat.add_comm]
    exact this

theorem exists_lines (h : Renders text n list) : ∃ lines : List (List Char),
    text.toList = linesText lines ∧ lines.length = n ∧ (∀ line ∈ lines, '\n' ∉ line) ∧
      lines.filterMap readSample = list := by
  induction h with
  | nil => exact ⟨[], rfl, rfl, nofun, rfl⟩
  | comment text hline =>
    refine ⟨['#' :: text.toList], by simp [linesText], rfl, by simp [hline], ?_⟩
    simp [readSample_comment]
  | @plain name value hne hname hvalue =>
    refine ⟨[name.toList ++ ' ' :: value.toList], by simp [linesText], rfl, ?_, ?_⟩
    · simp [newline_not_mem_of_isNameChar hname, hvalue]
    · simp [readSample_plain hne hname]
  | @sample s hs =>
    refine ⟨[sampleText s], by simp [linesText], rfl, ?_, ?_⟩
    · simp [newline_not_mem_sampleText hs]
    · simp [readSample_text hs]
  | append _ _ ih ih' =>
    obtain ⟨lines, htext, rfl, hlines, rfl⟩ := ih
    obtain ⟨lines', htext', rfl, hlines', rfl⟩ := ih'
    refine ⟨lines ++ lines', ?_, List.length_append, ?_, List.filterMap_append⟩
    · rw [String.toList_append, htext, htext', linesText_append]
    · intro line hmem
      exact (List.mem_append.mp hmem).elim (hlines line) (hlines' line)

theorem samples_eq (h : Renders text n list) : samples text.toList = list := by
  obtain ⟨lines, htext, -, hlines, rfl⟩ := h.exists_lines
  rw [htext, samples_linesText hlines]

/-- The last line end is followed by an empty text. -/
theorem length_splitOn (h : Renders text n list) : (text.toList.splitOn '\n').length = n + 1 := by
  obtain ⟨lines, htext, rfl, hlines, -⟩ := h.exists_lines
  rw [htext, splitOn_linesText hlines, List.length_append, List.length_singleton]

end Renders

end HarborSql.Exposition
