import Mathlib.Data.List.Infix
import Mathlib.Data.List.TakeWhile
import HarborSql.Text

/-! Texts of URLs with an authority whose scheme is not special: what a parser trims, removes,
encodes and resolves, and when it keeps a text as it is. -/

namespace HarborSql

namespace UrlText

/-! ## Characters -/

def isC0OrSpace (c : Char) : Bool := c.toNat ≤ 0x20

def isTabOrNewline (c : Char) : Bool := c = '\t' || c = '\n' || c = '\r'

/-- The text that is parsed: without C0 controls and spaces around it, and without tabs and
newlines. -/
def cleaned (text : List Char) : List Char :=
  (trimMatches isC0OrSpace text).filter fun c => !isTabOrNewline c

def hexDigit (n : Nat) : Char := Char.ofNat (if n < 10 then 0x30 + n else 0x37 + n)

/-- The UTF-8 bytes of a character, each as `%` and two digits. -/
def percentEncode (c : Char) : List Char :=
  (String.utf8EncodeChar c).flatMap fun b => ['%', hexDigit (b.toNat / 16), hexDigit (b.toNat % 16)]

/-- The text with the characters of a set encoded. -/
def encode (set : Char → Bool) (text : List Char) : List Char :=
  text.flatMap fun c => if set c then percentEncode c else [c]

/-- The C0 controls and what is beyond `~`. -/
def isControl (c : Char) : Bool := c.toNat < 0x20 || 0x7f ≤ c.toNat

/-- A segment that a path is resolved at. -/
def isDotSegment (segment : List Char) : Prop :=
  segment ∈ [".", "%2e", "%2E", "..", ".%2e", ".%2E", "%2e.", "%2E.", "%2e%2e", "%2e%2E", "%2E%2e",
    "%2E%2E"].map String.toList

/-! ## Syntax -/

/-- What differs between parsers: the characters that a path encodes, among which are the C0
controls and the space, and how an IPv6 address in brackets is printed. -/
structure Syntax where
  pathSet : Char → Bool
  pathSet_c0 : ∀ c, isC0OrSpace c → pathSet c
  ipv6 : List Char → List Char
  ipv6_chars : ∀ text, ∀ c ∈ ipv6 text, c.isAlphanum ∨ c = ':' ∨ c = '.' ∨ c = '[' ∨ c = ']'
  ipv6_last : ∀ text, (ipv6 text).getLast? = some ']'

/-- How a host is printed. -/
def Syntax.hostText (S : Syntax) (host : List Char) : List Char :=
  if host.head? = some '[' then S.ipv6 host else encode isControl host

/-- The parts of a text: the user information with its `@`, the port with its `:`, the path with
its first `/`, and the query and the fragment. -/
structure Parts where
  scheme : List Char
  userinfo : List Char
  host : List Char
  port : List Char
  path : List Char
  rest : List Char

def Parts.authority (parts : Parts) : List Char := parts.userinfo ++ parts.host ++ parts.port

def Parts.text (parts : Parts) : List Char :=
  parts.scheme ++ ':' :: '/' :: '/' :: (parts.authority ++ parts.path ++ parts.rest)

/-- The parts are such as a parser cuts a text into. -/
structure Parts.WellFormed (parts : Parts) : Prop where
  userinfo : parts.userinfo = [] ∨ ∃ user, parts.userinfo = user ++ ['@']
  authority : '/' ∉ parts.authority
  port : parts.port = [] ∨ ∃ digits, parts.port = ':' :: digits ∧ digits.all Char.isDigit
  /-- A host in brackets ends with one, and any other is without `:`, `@` and spaces. -/
  bracketed : parts.host.head? = some '[' → parts.host.getLast? = some ']'
  plain : parts.host.head? ≠ some '[' → ':' ∉ parts.host ∧ '@' ∉ parts.host ∧ ' ' ∉ parts.host
  path : parts.path = [] ∨ ∃ segments, parts.path = '/' :: segments

/-! ## Encoding -/

variable {set : Char → Bool} {text : List Char} {c : Char}

theorem hexDigit_isAlphanum : ∀ n < 16, (hexDigit n).isAlphanum := by decide

theorem mem_percentEncode {d : Char} (h : d ∈ percentEncode c) : d = '%' ∨ d.isAlphanum := by
  obtain ⟨b, -, hd⟩ := List.mem_flatMap.mp h
  have hb : b.toNat < 256 := UInt8.toNat_lt b
  simp only [List.mem_cons, List.not_mem_nil, or_false] at hd
  rcases hd with rfl | rfl | rfl
  · exact .inl rfl
  · exact .inr (hexDigit_isAlphanum _ (by omega))
  · exact .inr (hexDigit_isAlphanum _ (by omega))

theorem percent_mem_percentEncode : '%' ∈ percentEncode c := by
  have hne : String.utf8EncodeChar c ≠ [] := String.utf8EncodeChar_ne_nil
  obtain ⟨b, bs, h⟩ := List.exists_cons_of_ne_nil hne
  rw [percentEncode, h]
  simp

theorem mem_encode (h : c ∈ encode set text) :
    (c ∈ text ∧ set c = false) ∨ c = '%' ∨ c.isAlphanum := by
  obtain ⟨d, hd, hc⟩ := List.mem_flatMap.mp h
  cases hset : set d with
  | true =>
    rw [hset, if_pos rfl] at hc
    exact .inr (mem_percentEncode hc)
  | false =>
    rw [hset] at hc
    obtain rfl := List.mem_singleton.mp hc
    exact .inl ⟨hd, hset⟩

/-- A text of which nothing was encoded is as it was. -/
theorem encode_of_not_mem (h : '%' ∉ encode set text) : encode set text = text := by
  have hkept : ∀ c ∈ text, set c = false := by
    intro c hc
    cases hset : set c with
    | false => rfl
    | true =>
      refine absurd (List.mem_flatMap.mpr ⟨c, hc, ?_⟩) h
      rw [hset, if_pos rfl]
      exact percent_mem_percentEncode
  rw [encode]
  induction text with
  | nil => rfl
  | cons c text ih =>
    rw [List.flatMap_cons, hkept c List.mem_cons_self]
    have := ih (fun hmem => h ?_) fun c hc => hkept c (List.mem_cons_of_mem _ hc)
    · simpa using this
    · rw [encode, List.flatMap_cons]
      exact List.mem_append_right _ hmem

theorem not_isC0OrSpace_of_isAlphanum (h : c.isAlphanum) : ¬isC0OrSpace c := by
  delta Char.isAlphanum Char.isAlpha Char.isUpper Char.isLower Char.isDigit at h
  simp only [Bool.or_eq_true, Bool.and_eq_true, decide_eq_true_eq, UInt32.le_iff_toNat_le, ge_iff_le] at h
  have hval : c.toNat = c.val.toNat := rfl
  have hA : 'A'.val.toNat = 65 := rfl
  have ha : 'a'.val.toNat = 97 := rfl
  have h0 : '0'.val.toNat = 48 := rfl
  rw [isC0OrSpace, decide_eq_true_eq]
  omega

theorem ne_of_isAlphanum {d : Char} (h : c.isAlphanum) (hd : d.isAlphanum = false) : c ≠ d := by
  intro heq
  rw [heq, hd] at h
  cases h

/-- What a host is printed with. -/
theorem Parts.WellFormed.mem_hostText {S : Syntax} {parts : Parts} (W : parts.WellFormed)
    (h : c ∈ S.hostText parts.host) :
    ¬isC0OrSpace c ∧ c ≠ '/' ∧ c ≠ '@' ∧ (parts.host.head? ≠ some '[' → c ≠ ':') := by
  have halnum : c.isAlphanum → ¬isC0OrSpace c ∧ c ≠ '/' ∧ c ≠ '@' ∧
      (parts.host.head? ≠ some '[' → c ≠ ':') := fun h =>
    ⟨not_isC0OrSpace_of_isAlphanum h, ne_of_isAlphanum h (by decide),
      ne_of_isAlphanum h (by decide), fun _ => ne_of_isAlphanum h (by decide)⟩
  rw [Syntax.hostText] at h
  split at h
  · rename_i hbracket
    rcases S.ipv6_chars _ c h with hc | rfl | rfl | rfl | rfl
    · exact halnum hc
    all_goals exact ⟨by decide, by decide, by decide, fun hne => absurd hbracket hne⟩
  · rename_i hplain
    obtain ⟨hcolon, hat, hspace⟩ := W.plain hplain
    rcases mem_encode h with ⟨hmem, hcontrol⟩ | rfl | hc
    · refine ⟨?_, ?_, fun heq => hat (heq ▸ hmem), fun _ heq => hcolon (heq ▸ hmem)⟩
      · intro hc
        simp only [isControl, Bool.or_eq_false_iff, decide_eq_false_iff_not] at hcontrol
        simp only [isC0OrSpace, decide_eq_true_eq] at hc
        have : c = ' ' := Char.ext (UInt32.toNat_inj.mp (by
          change c.toNat = 0x20
          omega))
        exact hspace (this ▸ hmem)
      · intro heq
        subst heq
        exact W.authority (by simp [Parts.authority, hmem])
    · exact ⟨by decide, by decide, by decide, fun _ => by decide⟩
    · exact halnum hc

/-! ## Up to trailing slashes -/

/-- The texts are the same up to slashes at their ends. -/
def SameTrimmed (x y : List Char) : Prop :=
  trimEndMatches (· = '/') x = trimEndMatches (· = '/') y

theorem trimEndMatches_append (p : Char → Bool) (x : List Char) :
    ∃ tail, x = trimEndMatches p x ++ tail ∧ ∀ c ∈ tail, p c := by
  refine ⟨(x.reverse.takeWhile p).reverse, ?_, ?_⟩
  · rw [trimEndMatches, ← List.reverse_append, List.takeWhile_append_dropWhile, List.reverse_reverse]
  · intro c hc
    exact List.mem_takeWhile_imp (List.mem_reverse.mp hc)

theorem trimEndMatches_of_last {p : Char → Bool} (h : ∀ c, text.getLast? = some c → ¬p c) :
    trimEndMatches p text = text := by
  rw [trimEndMatches]
  cases hrev : text.reverse with
  | nil => rw [List.reverse_eq_nil_iff.mp hrev]; rfl
  | cons c rest =>
    have hlast : text.getLast? = some c := by
      rw [← List.head?_reverse, hrev]; rfl
    rw [List.dropWhile_cons_of_neg (h c hlast), ← hrev, List.reverse_reverse]

/-- A text that begins and ends with neither a C0 control nor a space and is without tabs is parsed
as it is, but for what stands before it. -/
theorem cleaned_eq {body : List Char} (h : text.dropWhile isC0OrSpace = body)
    (hlast : ∀ c, body.getLast? = some c → ¬isC0OrSpace c)
    (htabs : ∀ c ∈ body, ¬isTabOrNewline c) : cleaned text = body := by
  rw [cleaned, trimMatches, h, trimEndMatches_of_last hlast, List.filter_eq_self]
  intro c hc
  simp [htabs c hc]

theorem takeWhile_append_slashes {x tail : List Char} (h : ∀ c ∈ tail, c = '/') :
    (x ++ tail).takeWhile (· ≠ '/') = x.takeWhile (· ≠ '/') := by
  rw [List.takeWhile_append]
  split
  · rename_i hlength
    rw [(List.takeWhile_prefix _).eq_of_length hlength]
    cases tail with
    | nil => rw [List.takeWhile_nil, List.append_nil]
    | cons c tail =>
      rw [List.takeWhile_cons_of_neg (by simp [h c List.mem_cons_self]), List.append_nil]
  · rfl

theorem mem_dropWhile_append_slashes {x tail : List Char} (h : ∀ c ∈ tail, c = '/')
    (hc : c ≠ '/') :
    c ∈ (x ++ tail).dropWhile (· ≠ '/') ↔ c ∈ x.dropWhile (· ≠ '/') := by
  have htail : c ∉ tail := fun hmem => hc (h c hmem)
  rw [List.dropWhile_append]
  split
  · rename_i hempty
    rw [List.isEmpty_iff] at hempty
    have : c ∉ tail.dropWhile (· ≠ '/') := fun hmem =>
      htail ((List.dropWhile_suffix _).mem hmem)
    rw [hempty]
    exact iff_of_false this List.not_mem_nil
  · simp [htail]

namespace SameTrimmed

variable {x y : List Char}

theorem split (h : SameTrimmed x y) :
    ∃ common xs ys, x = common ++ xs ∧ y = common ++ ys ∧ (∀ c ∈ xs, c = '/') ∧
      ∀ c ∈ ys, c = '/' := by
  obtain ⟨xs, hx, hxs⟩ := trimEndMatches_append (· = '/') x
  obtain ⟨ys, hy, hys⟩ := trimEndMatches_append (· = '/') y
  rw [← h] at hy
  exact ⟨_, xs, ys, hx, hy, fun c hc => of_decide_eq_true (hxs c hc),
    fun c hc => of_decide_eq_true (hys c hc)⟩

theorem mem (h : SameTrimmed x y) (hc : c ∈ y) : c = '/' ∨ c ∈ x := by
  obtain ⟨common, xs, ys, rfl, rfl, -, hys⟩ := h.split
  rcases List.mem_append.mp hc with hc | hc
  · exact .inr (List.mem_append_left _ hc)
  · exact .inl (hys c hc)

theorem takeWhile (h : SameTrimmed x y) :
    x.takeWhile (· ≠ '/') = y.takeWhile (· ≠ '/') := by
  obtain ⟨common, xs, ys, rfl, rfl, hxs, hys⟩ := h.split
  rw [takeWhile_append_slashes hxs, takeWhile_append_slashes hys]

theorem mem_dropWhile (h : SameTrimmed x y) (hc : c ≠ '/')
    (hmem : c ∈ y.dropWhile (· ≠ '/')) : c ∈ x.dropWhile (· ≠ '/') := by
  obtain ⟨common, xs, ys, rfl, rfl, hxs, hys⟩ := h.split
  rw [mem_dropWhile_append_slashes hys hc] at hmem
  rwa [mem_dropWhile_append_slashes hxs hc]

end SameTrimmed

/-! ## Texts that are kept -/

/-- A text after `://` that a parser keeps: it has no tabs and no space at its end, its authority
is a host as it is printed, and its path has no `%`. -/
structure Kept (S : Syntax) (text : List Char) : Prop where
  noTabs : ∀ c ∈ text, ¬isTabOrNewline c
  last : ∀ c, text.getLast? = some c → ¬isC0OrSpace c
  noUser : '@' ∉ text.takeWhile (· ≠ '/')
  bracketed : (text.takeWhile (· ≠ '/')).head? = some '[' →
    (text.takeWhile (· ≠ '/')).getLast? = some ']'
  plain : (text.takeWhile (· ≠ '/')).head? ≠ some '[' → ':' ∉ text.takeWhile (· ≠ '/')
  host : S.hostText (text.takeWhile (· ≠ '/')) = text.takeWhile (· ≠ '/')
  noPercent : '%' ∉ text.dropWhile (· ≠ '/')

theorem not_isTabOrNewline (h : ¬isC0OrSpace c) : ¬isTabOrNewline c := by
  intro htab
  simp only [isTabOrNewline, Bool.or_eq_true, decide_eq_true_eq] at htab
  rcases htab with (rfl | rfl) | rfl <;> exact h (by decide)

namespace Parts.WellFormed

variable {S : Syntax} {parts : Parts} (W : parts.WellFormed)
include W

theorem takeWhile_eq : (parts.authority ++ parts.path).takeWhile (· ≠ '/') = parts.authority := by
  have hall : ∀ c ∈ parts.authority, decide (c ≠ '/') = true := fun c hc =>
    decide_eq_true fun heq => W.authority (heq ▸ hc)
  rw [List.takeWhile_append_of_pos hall]
  rcases W.path with h | ⟨segments, h⟩
  · rw [h, List.takeWhile_nil, List.append_nil]
  · rw [h, List.takeWhile_cons_of_neg (by simp), List.append_nil]

theorem dropWhile_eq : (parts.authority ++ parts.path).dropWhile (· ≠ '/') = parts.path := by
  have hall : ∀ c ∈ parts.authority, decide (c ≠ '/') = true := fun c hc =>
    decide_eq_true fun heq => W.authority (heq ▸ hc)
  rw [List.dropWhile_append_of_pos hall]
  rcases W.path with h | ⟨segments, h⟩
  · rw [h, List.dropWhile_nil]
  · rw [h, List.dropWhile_cons_of_neg (by simp)]

theorem userinfo_eq_nil (h : '@' ∉ parts.authority) : parts.userinfo = [] := by
  rcases W.userinfo with huser | ⟨user, huser⟩
  · exact huser
  · exact absurd (by simp [Parts.authority, huser]) h

/-- A port would stand at the end of the authority, behind its `:`. -/
theorem port_eq_nil (h : parts.authority.getLast? = some ']' ∨ ':' ∉ parts.authority) :
    parts.port = [] := by
  rcases W.port with hport | ⟨digits, hport, hdigits⟩
  · exact hport
  · rcases h with hlast | hcolon
    · have hmem : ']' ∈ ':' :: digits := by
        rw [Parts.authority, hport, List.getLast?_append_of_ne_nil _ (List.cons_ne_nil _ _)] at hlast
        exact List.mem_of_getLast? hlast
      rcases List.mem_cons.mp hmem with heq | hmem
      · exact absurd heq (by decide)
      · exact absurd (List.all_eq_true.mp hdigits _ hmem) (by decide)
    · exact absurd (by simp [Parts.authority, hport]) hcolon

/-- What a parser prints is the text again, up to slashes at the end, only if the text is kept. -/
theorem kept {path : List Char} (hpath : ∃ segments, path = '/' :: segments)
    (hpercent : '%' ∉ path) (hchars : ∀ c ∈ parts.authority ++ parts.path, ¬isC0OrSpace c)
    (h : SameTrimmed (S.hostText parts.host ++ path) (parts.authority ++ parts.path)) :
    Kept S (parts.authority ++ parts.path) := by
  have hhost : ∀ c ∈ S.hostText parts.host, decide (c ≠ '/') = true := fun c hc =>
    decide_eq_true (W.mem_hostText hc).2.1
  obtain ⟨segments, rfl⟩ := hpath
  have hauthority : S.hostText parts.host = parts.authority := by
    have := h.takeWhile
    rwa [List.takeWhile_append_of_pos hhost, List.takeWhile_cons_of_neg (by simp),
      List.append_nil, W.takeWhile_eq] at this
  have hat : '@' ∉ parts.authority := by
    rw [← hauthority]
    exact fun hmem => (W.mem_hostText hmem).2.2.1 rfl
  have hport : parts.port = [] := by
    refine W.port_eq_nil ?_
    rw [← hauthority]
    by_cases hbracket : parts.host.head? = some '['
    · rw [Syntax.hostText, if_pos hbracket]
      exact .inl (S.ipv6_last _)
    · exact .inr fun hmem => (W.mem_hostText hmem).2.2.2 hbracket rfl
  have heq : parts.authority = parts.host := by
    rw [Parts.authority, W.userinfo_eq_nil hat, hport, List.nil_append, List.append_nil]
  constructor
  · exact fun c hc => not_isTabOrNewline (hchars c hc)
  · exact fun c hc => hchars c (List.mem_of_getLast? hc)
  · rwa [W.takeWhile_eq]
  · rw [W.takeWhile_eq, heq]
    exact W.bracketed
  · rw [W.takeWhile_eq, heq]
    exact fun hplain => (W.plain hplain).1
  · rw [W.takeWhile_eq]
    rw [heq] at hauthority ⊢
    exact hauthority
  · intro hmem
    have := h.mem_dropWhile (by decide) hmem
    rw [List.dropWhile_append_of_pos hhost, List.dropWhile_cons_of_neg (by simp)] at this
    exact hpercent this

/-- The authority of a text that is kept is its host as it is printed. -/
theorem authority_of_kept (K : Kept S (parts.authority ++ parts.path)) :
    S.hostText parts.host = parts.authority := by
  have hat := K.noUser
  have hbracketed := K.bracketed
  have hplain := K.plain
  have hhost := K.host
  rw [W.takeWhile_eq] at hat hbracketed hplain hhost
  have hport : parts.port = [] := by
    refine W.port_eq_nil ?_
    by_cases hbracket : parts.authority.head? = some '['
    · exact .inl (hbracketed hbracket)
    · exact .inr (hplain hbracket)
  have heq : parts.authority = parts.host := by
    rw [Parts.authority, W.userinfo_eq_nil hat, hport, List.nil_append, List.append_nil]
  rw [heq] at hhost ⊢
  exact hhost

end Parts.WellFormed

end UrlText

end HarborSql
