/-! Functions of Rust's `char` and `str`. -/

namespace HarborSql

/-- `str::eq_ignore_ascii_case`. -/
def eqIgnoreAsciiCase (a b : String) : Bool := a.toList.map Char.toLower == b.toList.map Char.toLower

@[simp] theorem eqIgnoreAsciiCase_self (a : String) : eqIgnoreAsciiCase a a = true :=
  beq_self_eq_true _

/-- `char::is_whitespace`. -/
def isWhitespace (c : Char) : Bool :=
  (0x9 ≤ c.toNat && c.toNat ≤ 0xd) || c.toNat = 0x20 || c.toNat = 0x85 || c.toNat = 0xa0 ||
    c.toNat = 0x1680 || (0x2000 ≤ c.toNat && c.toNat ≤ 0x200a) || c.toNat = 0x2028 ||
    c.toNat = 0x2029 || c.toNat = 0x202f || c.toNat = 0x205f || c.toNat = 0x3000

/-- `trim_end_matches`. -/
def trimEndMatches (p : Char → Bool) (text : List Char) : List Char :=
  (text.reverse.dropWhile p).reverse

/-- `trim_matches`. -/
def trimMatches (p : Char → Bool) (text : List Char) : List Char :=
  trimEndMatches p (text.dropWhile p)

def trim (text : List Char) : List Char := trimMatches isWhitespace text

/-- `strip_prefix`. -/
theorem isPrefixOf?_eq_some {α : Type} [BEq α] [LawfulBEq α] {l m rest : List α} :
    l.isPrefixOf? m = some rest ↔ m = l ++ rest := by
  induction l generalizing m with
  | nil =>
    show some m = some rest ↔ m = rest
    exact Option.some_inj
  | cons x l ih =>
    cases m with
    | nil =>
      show none = some rest ↔ [] = x :: (l ++ rest)
      simp
    | cons y m =>
      show (if x == y then l.isPrefixOf? m else none) = some rest ↔ y :: m = x :: (l ++ rest)
      by_cases h : x = y
      · simp [h, ih]
      · simp [h, Ne.symm h]

end HarborSql
