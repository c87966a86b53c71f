import Mathlib.Data.List.Basic

/-! JSON texts (RFC 8259): a reader of any text, and a printer without whitespace that is
parametric in how characters are escaped. A number is its mantissa and its exponent of ten. -/

namespace HarborSql.JsonText

inductive Doc where
  | null
  | bool (b : Bool)
  | number (mantissa exponent : Int)
  | string (s : String)
  | array (items : List Doc)
  | object (members : List (String × Doc))

/-! ## Reading -/

def isWs (c : Char) : Bool := c = ' ' || c = '\t' || c = '\n' || c = '\r'

def skipWs (cs : List Char) : List Char := cs.dropWhile isWs

/-- One or more digits. -/
def readDigits (cs : List Char) : Option (List Char × List Char) :=
  if (cs.takeWhile Char.isDigit).isEmpty then none
  else some (cs.takeWhile Char.isDigit, cs.dropWhile Char.isDigit)

def readFraction : List Char → Option (List Char × List Char)
  | '.' :: cs => readDigits cs
  | cs => some ([], cs)

def readSign (cs : List Char) : Bool × List Char :=
  if cs.head? = some '-' then (true, cs.tail)
  else if cs.head? = some '+' then (false, cs.tail)
  else (false, cs)

def signed (negative : Bool) (n : Nat) : Int := if negative then -n else n

def readExponent (cs : List Char) : Option (Int × List Char) :=
  if cs.head? = some 'e' ∨ cs.head? = some 'E' then do
    let (negative, cs) := readSign cs.tail
    let (digits, cs) ← readDigits cs
    return (signed negative (Nat.ofDigitChars 10 digits 0), cs)
  else some (0, cs)

/-- A number without its sign; zeros do not lead. -/
def readMagnitude (negative : Bool) (cs : List Char) : Option (Doc × List Char) := do
  let (whole, cs) ← readDigits cs
  if whole.head? = some '0' ∧ whole.length ≠ 1 then none
  let (fraction, cs) ← readFraction cs
  let (exponent, cs) ← readExponent cs
  let mantissa := Nat.ofDigitChars 10 (whole ++ fraction) 0
  return (.number (signed negative mantissa) (exponent - fraction.length), cs)

def readNumber (cs : List Char) : Option (Doc × List Char) :=
  if cs.head? = some '-' then readMagnitude true cs.tail else readMagnitude false cs

def hexValue (c : Char) : Option Nat :=
  if c.isDigit then some (c.toNat - '0'.toNat)
  else if 'a' ≤ c ∧ c ≤ 'f' then some (c.toNat - 'a'.toNat + 10)
  else if 'A' ≤ c ∧ c ≤ 'F' then some (c.toNat - 'A'.toNat + 10)
  else none

def readHex : List Char → Option (Nat × List Char)
  | a :: b :: c :: d :: cs => do
    return ((((← hexValue a) * 16 + (← hexValue b)) * 16 + (← hexValue c)) * 16 + (← hexValue d), cs)
  | _ => none

/-- What follows a backslash. Two surrogates make one character, and none stands alone. -/
def readEscape : List Char → Option (Char × List Char)
  | '"' :: cs => some ('"', cs)
  | '\\' :: cs => some ('\\', cs)
  | '/' :: cs => some ('/', cs)
  | 'b' :: cs => some ('\x08', cs)
  | 'f' :: cs => some ('\x0c', cs)
  | 'n' :: cs => some ('\n', cs)
  | 'r' :: cs => some ('\r', cs)
  | 't' :: cs => some ('\t', cs)
  | 'u' :: cs => do
    let (high, cs) ← readHex cs
    if high.isValidChar then return (.ofNat high, cs)
    match cs with
    | '\\' :: 'u' :: cs =>
      let (low, cs) ← readHex cs
      if high < 0xdc00 ∧ 0xdc00 ≤ low ∧ low < 0xe000 then
        return (.ofNat (0x10000 + (high - 0xd800) * 0x400 + (low - 0xdc00)), cs)
      else none
    | _ => none
  | _ => none

/-- One character of a string. -/
def readChar : List Char → Option (Char × List Char)
  | [] => none
  | c :: cs =>
    if c = '\\' then readEscape cs
    else if c = '"' ∨ c.toNat < 0x20 then none
    else some (c, cs)

/-- What follows the first quote of a string. -/
def readString : Nat → List Char → Option (String × List Char)
  | 0, _ => none
  | n + 1, cs =>
    if cs.head? = some '"' then some ("", cs.tail)
    else do
      let (c, cs) ← readChar cs
      let (s, cs) ← readString n cs
      return (.ofList (c :: s.toList), cs)

def readWord : List Char → Option (Doc × List Char)
  | 'n' :: 'u' :: 'l' :: 'l' :: cs => some (.null, cs)
  | 't' :: 'r' :: 'u' :: 'e' :: cs => some (.bool true, cs)
  | 'f' :: 'a' :: 'l' :: 's' :: 'e' :: cs => some (.bool false, cs)
  | _ => none

mutual

def readValue : Nat → List Char → Option (Doc × List Char)
  | 0, _ => none
  | n + 1, cs =>
    match skipWs cs with
    | [] => none
    | c :: cs =>
      if c = '"' then (readString (cs.length + 1) cs).map fun (s, cs) => (.string s, cs)
      else if c = '[' then
        if (skipWs cs).head? = some ']' then some (.array [], (skipWs cs).tail)
        else (readItems n cs).map fun (items, cs) => (.array items, cs)
      else if c = '\x7b' then
        if (skipWs cs).head? = some '\x7d' then some (.object [], (skipWs cs).tail)
        else (readMembers n cs).map fun (members, cs) => (.object members, cs)
      else if c = '-' ∨ c.isDigit then readNumber (c :: cs)
      else readWord (c :: cs)

/-- The items of an array that is not empty, and its end. -/
def readItems : Nat → List Char → Option (List Doc × List Char)
  | 0, _ => none
  | n + 1, cs => do
    let (item, cs) ← readValue n cs
    match skipWs cs with
    | ',' :: cs =>
      let (items, cs) ← readItems n cs
      return (item :: items, cs)
    | ']' :: cs => return ([item], cs)
    | _ => none

/-- The members of an object that is not empty, and its end. -/
def readMembers : Nat → List Char → Option (List (String × Doc) × List Char)
  | 0, _ => none
  | n + 1, cs =>
    match skipWs cs with
    | '"' :: cs => do
      let (key, cs) ← readString (cs.length + 1) cs
      match skipWs cs with
      | ':' :: cs =>
        let (value, cs) ← readValue n cs
        match skipWs cs with
        | ',' :: cs =>
          let (members, cs) ← readMembers n cs
          return ((key, value) :: members, cs)
        | '\x7d' :: cs => return ([(key, value)], cs)
        | _ => none
      | _ => none
    | _ => none

end

/-- The document that a text is, if it is one. -/
def parse (text : String) : Option Doc := do
  let (doc, cs) ← readValue (text.toList.length + 1) text.toList
  if (skipWs cs).isEmpty then return doc
  else none

/-! ## Printing -/

section
variable (escape : Char → List Char)

def quoted (s : String) : List Char := '"' :: (s.toList.flatMap escape ++ ['"'])

def intText (n : Int) : List Char := (toString n).toList

mutual

def text : Doc → List Char
  | .null => "null".toList
  | .bool true => "true".toList
  | .bool false => "false".toList
  | .number mantissa exponent =>
    intText mantissa ++ if exponent = 0 then [] else 'e' :: intText exponent
  | .string s => quoted escape s
  | .array items => '[' :: itemsText items
  | .object members => '\x7b' :: membersText members

/-- The items of an array and its end. -/
def itemsText : List Doc → List Char
  | [] => [']']
  | item :: items => text item ++ moreItemsText items

def moreItemsText : List Doc → List Char
  | [] => [']']
  | item :: items => ',' :: (text item ++ moreItemsText items)

/-- The members of an object and its end. -/
def membersText : List (String × Doc) → List Char
  | [] => ['\x7d']
  | (key, value) :: members => quoted escape key ++ ':' :: (text value ++ moreMembersText members)

def moreMembersText : List (String × Doc) → List Char
  | [] => ['\x7d']
  | (key, value) :: members =>
    ',' :: (quoted escape key ++ ':' :: (text value ++ moreMembersText members))

end

theorem intercalate_cons (sep : Char) (t : List Char) (ts : List (List Char)) :
    [sep].intercalate (t :: ts) = t ++ ts.flatMap (sep :: ·) := by
  induction ts generalizing t with
  | nil => simp
  | cons u ts ih =>
    rw [List.intercalate_cons_cons, ih, List.flatMap_cons]
    simp

theorem moreItemsText_eq (items : List Doc) : moreItemsText escape items =
    (items.map (text escape)).flatMap (',' :: ·) ++ [']'] := by
  induction items with
  | nil => rfl
  | cons item items ih => simp [moreItemsText, ih]

theorem itemsText_eq (items : List Doc) :
    itemsText escape items = [','].intercalate (items.map (text escape)) ++ [']'] := by
  cases items with
  | nil => rfl
  | cons item items =>
    rw [itemsText, moreItemsText_eq, List.map_cons, intercalate_cons, List.append_assoc]

def memberText (member : String × Doc) : List Char :=
  quoted escape member.1 ++ ':' :: text escape member.2

theorem moreMembersText_eq (members : List (String × Doc)) : moreMembersText escape members =
    (members.map (memberText escape)).flatMap (',' :: ·) ++ ['\x7d'] := by
  induction members with
  | nil => rfl
  | cons member members ih => simp [moreMembersText, memberText, ih]

theorem membersText_eq (members : List (String × Doc)) :
    membersText escape members = [','].intercalate (members.map (memberText escape)) ++ ['\x7d'] := by
  cases members with
  | nil => rfl
  | cons member members =>
    rw [membersText, moreMembersText_eq, List.map_cons, intercalate_cons, memberText]
    simp

end

/-! ## Numbers are read back -/

section Numbers
variable {cs ds : List Char} {n : Nat}

/-- Nothing that would go on with a number. -/
def EndsNumber (cs : List Char) : Prop :=
  ∀ c ∈ cs.head?, c ≠ '.' ∧ c ≠ 'e' ∧ c ≠ 'E' ∧ c.isDigit = false

theorem readDigits_append (hne : ds ≠ []) (hds : ∀ c ∈ ds, c.isDigit)
    (hcs : ∀ c ∈ cs.head?, c.isDigit = false) : readDigits (ds ++ cs) = some (ds, cs) := by
  have htake : (ds ++ cs).takeWhile Char.isDigit = ds := by
    rw [List.takeWhile_append_of_pos hds]
    cases cs with
    | nil => exact List.append_nil ds
    | cons c cs =>
      rw [List.takeWhile_cons_of_neg (by simp [hcs c rfl]), List.append_nil]
  have hdrop : (ds ++ cs).dropWhile Char.isDigit = cs := by
    rw [List.dropWhile_append_of_pos hds]
    cases cs with
    | nil => rfl
    | cons c cs => rw [List.dropWhile_cons_of_neg (by simp [hcs c rfl])]
  rw [readDigits, htake, hdrop, if_neg (by simpa using hne)]

theorem isDigit_of_mem_digits {c : Char} (h : c ∈ Nat.toDigits 10 n) : c.isDigit :=
  Nat.isDigit_of_mem_toDigits (by decide) (by decide) h

theorem readDigits_digits (hcs : ∀ c ∈ cs.head?, c.isDigit = false) :
    readDigits (Nat.toDigits 10 n ++ cs) = some (Nat.toDigits 10 n, cs) :=
  readDigits_append Nat.toDigits_ne_nil (fun _ hc => isDigit_of_mem_digits hc) hcs

theorem digitChar_ne_zero : ∀ n < 10, 0 < n → n.digitChar ≠ '0' := by decide

/-- Only the digits of zero begin with one. -/
theorem head_digits (h : 0 < n) : (Nat.toDigits 10 n).head? ≠ some '0' := by
  induction n using Nat.strongRecOn with
  | _ n ih =>
    by_cases hlt : n < 10
    · rw [Nat.toDigits_of_lt_base hlt]
      intro heq
      exact digitChar_ne_zero n hlt h (Option.some.inj heq)
    · have hle : 10 ≤ n := Nat.not_lt.mp hlt
      rw [Nat.toDigits_of_base_le (by decide) hle, List.head?_append_of_ne_nil _ Nat.toDigits_ne_nil]
      exact ih (n / 10) (by omega) (by omega)

theorem length_digits (h : (Nat.toDigits 10 n).head? = some '0') :
    (Nat.toDigits 10 n).length = 1 := by
  have hn : n = 0 := Nat.eq_zero_of_not_pos fun hpos => head_digits hpos h
  rw [hn, Nat.toDigits_zero, List.length_singleton]

theorem intText_ofNat : intText (Int.ofNat n) = Nat.toDigits 10 n := Nat.toList_repr

theorem intText_negSucc : intText (Int.negSucc n) = '-' :: Nat.toDigits 10 (n + 1) := by
  have h : toString (Int.negSucc n) = "-" ++ (n + 1).repr := rfl
  rw [intText, h, String.toList_append, Nat.toList_repr]
  rfl

theorem head_digits_append {c : Char} (h : (Nat.toDigits 10 n ++ cs).head? = some c) : c.isDigit := by
  rw [List.head?_append_of_ne_nil _ Nat.toDigits_ne_nil] at h
  exact isDigit_of_mem_digits (List.mem_of_head? h)

/-- How a number begins. -/
theorem intText_eq_cons (m : Int) : ∃ c t, intText m = c :: t ∧ (c = '-' ∨ c.isDigit) := by
  cases m with
  | ofNat n =>
    obtain ⟨c, t, h⟩ := List.exists_cons_of_ne_nil (Nat.toDigits_ne_nil (b := 10) (n := n))
    have hc : c ∈ Nat.toDigits 10 n := h ▸ List.mem_cons_self
    exact ⟨c, t, intText_ofNat.trans h, .inr (isDigit_of_mem_digits hc)⟩
  | negSucc n => exact ⟨'-', _, intText_negSucc, .inl rfl⟩

theorem readSign_intText (m : Int) (cs : List Char) : ∃ negative n, readSign (intText m ++ cs) =
    (negative, Nat.toDigits 10 n ++ cs) ∧ signed negative n = m := by
  cases m with
  | ofNat n =>
    refine ⟨false, n, ?_, rfl⟩
    rw [intText_ofNat, readSign, if_neg, if_neg]
    · intro h
      exact absurd (head_digits_append h) (by decide)
    · intro h
      exact absurd (head_digits_append h) (by decide)
  | negSucc n =>
    refine ⟨true, n + 1, ?_, rfl⟩
    rw [intText_negSucc, readSign]
    rfl

theorem readExponent_text (exponent : Int) (hcs : EndsNumber cs) :
    readExponent ((if exponent = 0 then [] else 'e' :: intText exponent) ++ cs) =
      some (exponent, cs) := by
  split
  case isTrue h =>
    rw [List.nil_append, readExponent, if_neg, h]
    rintro (he | he)
    · exact (hcs _ he).2.1 rfl
    · exact (hcs _ he).2.2.1 rfl
  case isFalse h =>
    obtain ⟨negative, n, hsign, hvalue⟩ := readSign_intText exponent cs
    have hdigits : readDigits (Nat.toDigits 10 n ++ cs) = some (Nat.toDigits 10 n, cs) :=
      readDigits_digits fun c hc => (hcs c hc).2.2.2
    rw [List.cons_append, readExponent, if_pos (.inl rfl), List.tail_cons, hsign]
    simp [hdigits, Nat.ofDigitChars_ten_toDigits, hvalue]

theorem readFraction_of_ends (hcs : EndsNumber cs) (exponent : Int) :
    readFraction ((if exponent = 0 then [] else 'e' :: intText exponent) ++ cs) =
      some ([], (if exponent = 0 then [] else 'e' :: intText exponent) ++ cs) := by
  rw [readFraction]
  intro t h
  split at h
  · rw [List.nil_append] at h
    exact (hcs '.' (by rw [h]; rfl)).1 rfl
  · rw [List.cons_append, List.cons.injEq] at h
    exact absurd h.1 (by decide)

theorem readMagnitude_digits (negative : Bool) (exponent : Int) (hcs : EndsNumber cs) :
    readMagnitude negative (Nat.toDigits 10 n ++
      ((if exponent = 0 then [] else 'e' :: intText exponent) ++ cs)) =
        some (.number (signed negative n) exponent, cs) := by
  have hnext : ∀ c ∈ ((if exponent = 0 then [] else 'e' :: intText exponent) ++ cs).head?,
      c.isDigit = false := by
    intro c hc
    split at hc
    · exact (hcs c hc).2.2.2
    · obtain rfl := Option.some.inj hc
      rfl
  have hzero : ¬((Nat.toDigits 10 n).head? = some '0' ∧ (Nat.toDigits 10 n).length ≠ 1) :=
    fun h => h.2 (length_digits h.1)
  rw [readMagnitude, readDigits_digits hnext]
  simp [hzero, readFraction_of_ends hcs, readExponent_text exponent hcs,
    Nat.ofDigitChars_ten_toDigits]

theorem readNumber_text (mantissa exponent : Int) (hcs : EndsNumber cs) :
    readNumber (intText mantissa ++ ((if exponent = 0 then [] else 'e' :: intText exponent) ++ cs)) =
      some (.number mantissa exponent, cs) := by
  cases mantissa with
  | ofNat n =>
    rw [intText_ofNat, readNumber, if_neg, readMagnitude_digits false exponent hcs]
    · rfl
    · intro h
      exact absurd (head_digits_append h) (by decide)
  | negSucc n =>
    rw [intText_negSucc, readNumber, List.cons_append, if_pos (by rfl), List.tail_cons,
      readMagnitude_digits true exponent hcs]
    rfl

end Numbers

/-! ## Strings are read back -/

section
variable {escape : Char → List Char}

/-- How a character is escaped is undone, whatever follows. -/
def Unescapes (escape : Char → List Char) : Prop :=
  ∀ c cs, readChar (escape c ++ cs) = some (c, cs)

theorem Unescapes.ne_nil (H : Unescapes escape) (c : Char) : escape c ≠ [] := by
  intro hnil
  have h := H c []
  rw [hnil] at h
  cases h

theorem Unescapes.head (H : Unescapes escape) (c : Char) : (escape c).head? ≠ some '"' := by
  intro hhead
  obtain ⟨t, ht⟩ := List.head?_eq_some_iff.mp hhead
  have h := H c []
  rw [ht] at h
  cases h

theorem readString_quoted (H : Unescapes escape) {n : Nat} {s cs : List Char} (hn : s.length < n) :
    readString n (s.flatMap escape ++ '"' :: cs) = some (.ofList s, cs) := by
  induction s generalizing n with
  | nil =>
    obtain ⟨n, rfl⟩ := Nat.exists_eq_succ_of_ne_zero (Nat.ne_zero_of_lt hn)
    rfl
  | cons c s ih =>
    obtain ⟨n, rfl⟩ := Nat.exists_eq_succ_of_ne_zero (Nat.ne_zero_of_lt hn)
    have hhead : (escape c ++ (s.flatMap escape ++ '"' :: cs)).head? ≠ some '"' := by
      rw [List.head?_append_of_ne_nil _ (H.ne_nil c)]
      exact H.head c
    have hrest := ih (Nat.lt_of_succ_lt_succ hn)
    rw [List.flatMap_cons, List.append_assoc, readString, if_neg hhead, H]
    simp [hrest]

/-! ## Documents are read back -/

theorem skipWs_cons {c : Char} {cs : List Char} (h : isWs c = false) :
    skipWs (c :: cs) = c :: cs := List.dropWhile_cons_of_neg (by rw [h]; nofun)

theorem not_isWs_of_isDigit {c : Char} (h : c.isDigit) : isWs c = false := by
  rw [Bool.eq_false_iff]
  intro hws
  simp only [isWs, Bool.or_eq_true, decide_eq_true_eq] at hws
  rcases hws with ((rfl | rfl) | rfl) | rfl <;> cases h

/-- How the text of a document begins. -/
theorem text_eq_cons (d : Doc) :
    ∃ c t, text escape d = c :: t ∧ isWs c = false ∧ c ≠ ']' := by
  cases d with
  | null => exact ⟨_, _, rfl, by decide, by decide⟩
  | bool b => cases b <;> exact ⟨_, _, rfl, by decide, by decide⟩
  | number m e =>
    obtain ⟨c, t, h, hc⟩ := intText_eq_cons m
    refine ⟨c, _, by rw [text, h]; rfl, ?_⟩
    rcases hc with rfl | hc
    · exact ⟨by decide, by decide⟩
    · exact ⟨not_isWs_of_isDigit hc, fun heq => by rw [heq] at hc; cases hc⟩
  | string s => exact ⟨_, _, rfl, by decide, by decide⟩
  | array items => exact ⟨_, _, rfl, by decide, by decide⟩
  | object members => exact ⟨_, _, rfl, by decide, by decide⟩

theorem endsNumber_moreItems {items : List Doc} {cs : List Char} :
    EndsNumber (moreItemsText escape items ++ cs) := by
  intro c hc
  cases items with
  | nil | cons =>
    obtain rfl := Option.some.inj hc
    decide

theorem endsNumber_moreMembers {members : List (String × Doc)} {cs : List Char} :
    EndsNumber (moreMembersText escape members ++ cs) := by
  intro c hc
  cases members with
  | nil | cons =>
    obtain rfl := Option.some.inj hc
    decide

theorem readValue_number {n : Nat} {cs : List Char} (m e : Int) (hcs : EndsNumber cs) :
    readValue (n + 1) (text escape (.number m e) ++ cs) = some (.number m e, cs) := by
  have hread := readNumber_text m e hcs
  obtain ⟨c, t, h, hc⟩ := intText_eq_cons m
  rw [text, List.append_assoc]
  rw [h, List.cons_append] at hread ⊢
  have hws : isWs c = false := by
    rcases hc with rfl | hc
    · decide
    · exact not_isWs_of_isDigit hc
  have hne : c ≠ '"' ∧ c ≠ '[' ∧ c ≠ '\x7b' := by
    rcases hc with rfl | hc
    · decide
    · refine ⟨?_, ?_, ?_⟩ <;> intro heq <;> rw [heq] at hc <;> cases hc
  simp only [readValue, skipWs_cons hws, if_neg hne.1, if_neg hne.2.1, if_neg hne.2.2, if_pos hc]
  exact hread

theorem length_le_flatMap (H : Unescapes escape) (s : List Char) :
    s.length ≤ (s.flatMap escape).length := by
  induction s with
  | nil => exact Nat.le_refl _
  | cons c s ih =>
    have hpos : 0 < (escape c).length := List.length_pos_of_ne_nil (H.ne_nil c)
    rw [List.length_cons, List.flatMap_cons, List.length_append]
    omega

/-- The rest of a string, with the fuel that its reader takes. -/
theorem readString_rest (H : Unescapes escape) (s : String) (cs : List Char) :
    readString ((s.toList.flatMap escape ++ ['"'] ++ cs).length + 1)
      (s.toList.flatMap escape ++ ['"'] ++ cs) = some (s, cs) := by
  have hlen := length_le_flatMap H s.toList
  rw [List.append_assoc, List.singleton_append, readString_quoted H, String.ofList_toList]
  rw [List.length_append]
  omega

mutual

theorem readValue_text (H : Unescapes escape) (d : Doc) {n : Nat} {cs : List Char}
    (hn : (text escape d).length < n) (hcs : EndsNumber cs) :
    readValue n (text escape d ++ cs) = some (d, cs) := by
  obtain ⟨n, rfl⟩ := Nat.exists_eq_succ_of_ne_zero (Nat.ne_zero_of_lt hn)
  cases d with
  | null => rfl
  | bool b => cases b <;> rfl
  | number m e => exact readValue_number m e hcs
  | string s =>
    have h : text escape (.string s) ++ cs = '"' :: (s.toList.flatMap escape ++ ['"'] ++ cs) := rfl
    rw [h, readValue, skipWs_cons rfl]
    simp only [if_pos, readString_rest H s cs]
    rfl
  | array items =>
    have h : text escape (.array items) ++ cs = '[' :: (itemsText escape items ++ cs) := rfl
    have hlen : (itemsText escape items).length < n := Nat.lt_of_succ_lt_succ hn
    rw [h, readValue, skipWs_cons rfl]
    cases items with
    | nil => rfl
    | cons item items =>
      obtain ⟨c, t, htext, hws, hc⟩ := @text_eq_cons escape item
      have hhead : (skipWs (itemsText escape (item :: items) ++ cs)).head? ≠ some ']' := by
        rw [itemsText, htext, List.append_assoc, List.cons_append, skipWs_cons hws]
        exact fun heq => hc (Option.some.inj heq)
      have hitems := readItems_text H item items hlen cs
      simp only [if_neg hhead, hitems]
      rfl
  | object members =>
    have h : text escape (.object members) ++ cs = '\x7b' :: (membersText escape members ++ cs) := rfl
    have hlen : (membersText escape members).length < n := Nat.lt_of_succ_lt_succ hn
    rw [h, readValue, skipWs_cons rfl]
    cases members with
    | nil => rfl
    | cons member members =>
      have hmembers := readMembers_text H member members hlen cs
      have hhead : (skipWs (membersText escape (member :: members) ++ cs)).head? ≠ some '\x7d' := by
        intro heq
        cases heq
      simp only [if_neg hhead, hmembers]
      rfl
termination_by n

theorem readItems_text (H : Unescapes escape) (item : Doc) (items : List Doc) {n : Nat}
    (hn : (itemsText escape (item :: items)).length < n) (cs : List Char) :
    readItems n (itemsText escape (item :: items) ++ cs) = some (item :: items, cs) := by
  obtain ⟨n, rfl⟩ := Nat.exists_eq_succ_of_ne_zero (Nat.ne_zero_of_lt hn)
  rw [itemsText, List.length_append] at hn
  have hmore : 0 < (moreItemsText escape items).length := by cases items <;> exact Nat.succ_pos _
  have hends : EndsNumber (moreItemsText escape items ++ cs) := endsNumber_moreItems
  have hitem := readValue_text H item (n := n) (by omega) hends
  rw [itemsText, List.append_assoc, readItems, hitem, Option.bind_eq_bind, Option.bind_some]
  cases items with
  | nil => rfl
  | cons next items =>
    have hnext := readItems_text H next items (n := n) (by
      have h : (moreItemsText escape (next :: items)).length =
        (itemsText escape (next :: items)).length + 1 := rfl
      omega) cs
    have h : skipWs (moreItemsText escape (next :: items) ++ cs) =
      ',' :: (itemsText escape (next :: items) ++ cs) := rfl
    simp only [h, hnext]
    rfl
termination_by n

theorem readMembers_text (H : Unescapes escape) (member : String × Doc)
    (members : List (String × Doc)) {n : Nat}
    (hn : (membersText escape (member :: members)).length < n) (cs : List Char) :
    readMembers n (membersText escape (member :: members) ++ cs) = some (member :: members, cs) := by
  obtain ⟨n, rfl⟩ := Nat.exists_eq_succ_of_ne_zero (Nat.ne_zero_of_lt hn)
  obtain ⟨key, value⟩ := member
  rw [membersText, List.length_append, List.length_cons, List.length_append] at hn
  have hmore : 0 < (moreMembersText escape members).length := by
    cases members <;> exact Nat.succ_pos _
  have hends : EndsNumber (moreMembersText escape members ++ cs) := endsNumber_moreMembers
  have hvalue := readValue_text H value (n := n) (by omega) hends
  have hkey := readString_rest H key
    (':' :: (text escape value ++ (moreMembersText escape members ++ cs)))
  have hstart : skipWs (membersText escape ((key, value) :: members) ++ cs) =
      '"' :: (key.toList.flatMap escape ++ ['"'] ++
        ':' :: (text escape value ++ (moreMembersText escape members ++ cs))) := by
    rw [membersText, List.append_assoc, List.cons_append, List.append_assoc]
    rfl
  have hcolon : skipWs (':' :: (text escape value ++ (moreMembersText escape members ++ cs))) =
      ':' :: (text escape value ++ (moreMembersText escape members ++ cs)) := rfl
  rw [readMembers, hstart]
  simp only [hkey, Option.bind_eq_bind, Option.bind_some, hcolon, hvalue]
  cases members with
  | nil => rfl
  | cons next members =>
    have hnext := readMembers_text H next members (n := n) (by
      have h : (moreMembersText escape (next :: members)).length =
        (membersText escape (next :: members)).length + 1 := rfl
      omega) cs
    have h : skipWs (moreMembersText escape (next :: members) ++ cs) =
      ',' :: (membersText escape (next :: members) ++ cs) := rfl
    simp only [h, hnext]
    rfl
termination_by n

end

/-- A printed document is a text, and is parsed as that document. -/
theorem parse_text (H : Unescapes escape) (d : Doc) :
    parse (.ofList (text escape d)) = some d := by
  have hends : EndsNumber [] := fun c hc => by cases hc
  have h := readValue_text H d (Nat.lt_succ_self _) hends
  rw [List.append_nil] at h
  rw [parse, String.toList_ofList, h]
  rfl

/-- The text of a document tells it from all others. -/
theorem text_injective (H : Unescapes escape) : Function.Injective (text escape) := by
  intro d d' h
  have hparse := parse_text H d
  rw [h, parse_text H d'] at hparse
  exact (Option.some.inj hparse).symm

end
end HarborSql.JsonText
