import HarborSql.Theory.Url

/-! Components of URLs: how they are encoded and decoded, and what a server reads of a path and of
a query. -/

namespace HarborSql.UrlText

/-! ## Components -/

/-- The characters that stand for themselves in every component. -/
def isUnreserved (c : Char) : Bool := c.isAlphanum || c = '-' || c = '.' || c = '_' || c = '~'

def encodeComponent (text : List Char) : List Char := encode (fun c => !isUnreserved c) text

def hexValue (c : Char) : Option Nat :=
  if c.isDigit then some (c.toNat - 0x30)
  else if 'A' ≤ c ∧ c ≤ 'F' then some (c.toNat - 0x37)
  else if 'a' ≤ c ∧ c ≤ 'f' then some (c.toNat - 0x57)
  else none

/-- The UTF-8 bytes of a text, and those that are escaped in it. -/
def decodeBytes : List Char → List UInt8
  | [] => []
  | '%' :: a :: b :: text =>
    match hexValue a, hexValue b with
    | some x, some y => .ofNat (16 * x + y) :: decodeBytes text
    | _, _ => String.utf8EncodeChar '%' ++ decodeBytes (a :: b :: text)
  | c :: text => String.utf8EncodeChar c ++ decodeBytes text

def decodeComponent (text : List Char) : Option String :=
  String.fromUTF8? ⟨(decodeBytes text).toArray⟩

variable {text rest : List Char} {c : Char}

theorem hexValue_hexDigit : ∀ n < 16, hexValue (hexDigit n) = some n := by decide

theorem decodeBytes_cons (h : c ≠ '%') :
    decodeBytes (c :: text) = String.utf8EncodeChar c ++ decodeBytes text := by
  rw [decodeBytes]
  rintro _ _ _ rfl
  exact absurd rfl h

theorem decodeBytes_escape (b : UInt8) :
    decodeBytes ('%' :: hexDigit (b.toNat / 16) :: hexDigit (b.toNat % 16) :: text) =
      b :: decodeBytes text := by
  have hb : b.toNat < 256 := UInt8.toNat_lt b
  rw [decodeBytes, hexValue_hexDigit _ (by omega), hexValue_hexDigit _ (by omega)]
  have hvalue : 16 * (b.toNat / 16) + b.toNat % 16 = b.toNat := Nat.div_add_mod _ _
  simp only [hvalue, UInt8.ofNat_toNat]

theorem decodeBytes_percentEncode :
    decodeBytes (percentEncode c ++ text) = String.utf8EncodeChar c ++ decodeBytes text := by
  rw [percentEncode]
  induction String.utf8EncodeChar c with
  | nil => rfl
  | cons b bs ih =>
    rw [List.flatMap_cons, List.append_assoc]
    refine (decodeBytes_escape b).trans ?_
    exact congrArg (b :: ·) ih

/-- What is encoded with at least `%` among the escaped characters is read back. -/
theorem decodeBytes_encode {set : Char → Bool} (hset : set '%' = true) :
    decodeBytes (encode set text ++ rest) =
      text.flatMap String.utf8EncodeChar ++ decodeBytes rest := by
  induction text with
  | nil => rfl
  | cons c text ih =>
    rw [encode, List.flatMap_cons, List.flatMap_cons, List.append_assoc, List.append_assoc, ← ih]
    cases hc : set c with
    | true => exact decodeBytes_percentEncode
    | false =>
      refine decodeBytes_cons ?_
      rintro rfl
      cases hset.symm.trans hc

theorem decodeBytes_encodeComponent :
    decodeBytes (encodeComponent text) = text.flatMap String.utf8EncodeChar := by
  have h : decodeBytes (encode (fun c => !isUnreserved c) text ++ []) = _ := decodeBytes_encode rfl
  rwa [List.append_nil, decodeBytes, List.append_nil] at h

/-- Nothing but unreserved characters and escapes stands in an encoded component. -/
theorem mem_encodeComponent (h : c ∈ encodeComponent text) : isUnreserved c = true ∨ c = '%' := by
  rcases mem_encode h with ⟨-, h⟩ | h | h
  · exact .inl (by simpa using h)
  · exact .inr h
  · exact .inl (by simp [isUnreserved, h])

/-- What needs no escapes is as it was. -/
theorem encodeComponent_of_all (h : text.all isUnreserved = true) : encodeComponent text = text := by
  rw [encodeComponent, encode]
  induction text with
  | nil => rfl
  | cons c text ih =>
    obtain ⟨hc, h⟩ := Bool.and_eq_true_iff.mp h
    rw [List.flatMap_cons, ih h, hc]
    rfl

/-- A component is read back. -/
theorem decodeComponent_encodeComponent (s : String) :
    decodeComponent (encodeComponent s.toList) = some s := by
  have hbytes : s.toUTF8 = (s.toList.flatMap String.utf8EncodeChar).toByteArray :=
    String.utf8Encode_toList.symm
  rw [decodeComponent, decodeBytes_encodeComponent, ← List.data_toByteArray, ← hbytes]
  exact dif_pos s.isValidUTF8

theorem encodeComponent_injective : Function.Injective fun s : String => encodeComponent s.toList := by
  intro s t h
  have hs := decodeComponent_encodeComponent s
  rw [show encodeComponent s.toList = encodeComponent t.toList from h,
    decodeComponent_encodeComponent] at hs
  exact (Option.some.inj hs).symm

theorem ne_of_mem_encodeComponent {d : Char} (h : c ∈ encodeComponent text)
    (hd : isUnreserved d = false) (hpercent : d ≠ '%') : c ≠ d := by
  rintro rfl
  rcases mem_encodeComponent h with h | h
  · cases hd.symm.trans h
  · exact hpercent h

/-! ## Paths -/

def singleDots : List (List Char) := [".", "%2e", "%2E"].map String.toList

def doubleDots : List (List Char) :=
  ["..", ".%2e", ".%2E", "%2e.", "%2E.", "%2e%2e", "%2e%2E", "%2E%2e", "%2E%2E"].map String.toList

/-- What is written of each element is read back. -/
theorem mapM_map_eq_some {α β : Type} {read : β → Option α} {write : α → β}
    (h : ∀ a, read (write a) = some a) (l : List α) : (l.map write).mapM read = some l := by
  induction l with
  | nil => rfl
  | cons a l ih =>
    rw [List.map_cons, List.mapM_cons, h, ih]
    rfl

/-- The segments of a path after those that say where it goes on. -/
def resolve (resolved : List (List Char)) : List (List Char) → List (List Char)
  | [] => resolved
  | segment :: segments =>
    if segment ∈ doubleDots then
      resolve (resolved.dropLast ++ if segments = [] then [[]] else []) segments
    else if segment ∈ singleDots then
      resolve (resolved ++ if segments = [] then [[]] else []) segments
    else resolve (resolved ++ [segment]) segments

theorem resolve_of_forall {resolved segments : List (List Char)}
    (h : ∀ segment ∈ segments, segment ∉ doubleDots ∧ segment ∉ singleDots) :
    resolve resolved segments = resolved ++ segments := by
  induction segments generalizing resolved with
  | nil => exact (List.append_nil _).symm
  | cons segment segments ih =>
    obtain ⟨⟨hdouble, hsingle⟩, h⟩ := List.forall_mem_cons.mp h
    rw [resolve, if_neg hdouble, if_neg hsingle, ih h, List.append_assoc, List.singleton_append]

theorem decodeComponent_doubleDots : ∀ segment ∈ doubleDots, decodeComponent segment = some ".." := by
  decide

theorem decodeComponent_singleDots : ∀ segment ∈ singleDots, decodeComponent segment = some "." := by
  decide

/-- Only `.` and `..` are encoded as segments of dots. -/
theorem encodeComponent_not_dots {s : String} (hsingle : s ≠ ".") (hdouble : s ≠ "..") :
    encodeComponent s.toList ∉ doubleDots ∧ encodeComponent s.toList ∉ singleDots := by
  constructor
  · intro h
    have hdecode := decodeComponent_doubleDots _ h
    rw [decodeComponent_encodeComponent] at hdecode
    exact hdouble (Option.some.inj hdecode)
  · intro h
    have hdecode := decodeComponent_singleDots _ h
    rw [decodeComponent_encodeComponent] at hdecode
    exact hsingle (Option.some.inj hdecode)

/-! ## Queries -/

def queryText (params : List (String × String)) : List Char :=
  ['&'].intercalate
    (params.map fun p => encodeComponent p.1.toList ++ '=' :: encodeComponent p.2.toList)

def readPair (pair : List Char) : Option (String × String) := do
  let key ← decodeComponent (pair.takeWhile (· ≠ '='))
  let value ← decodeComponent ((pair.dropWhile (· ≠ '=')).drop 1)
  return (key, value)

def readQuery (query : List Char) : Option (List (String × String)) :=
  ((query.splitOn '&').filter (· ≠ [])).mapM readPair

theorem readPair_text (p : String × String) :
    readPair (encodeComponent p.1.toList ++ '=' :: encodeComponent p.2.toList) = some p := by
  have hkey : ∀ c ∈ encodeComponent p.1.toList, decide (c ≠ '=') = true := fun c hc =>
    decide_eq_true (ne_of_mem_encodeComponent hc rfl (by decide))
  rw [readPair, List.takeWhile_append_of_pos hkey, List.dropWhile_append_of_pos hkey,
    List.takeWhile_cons_of_neg (by decide), List.append_nil, List.dropWhile_cons_of_neg (by decide),
    List.drop_one, List.tail_cons, decodeComponent_encodeComponent, decodeComponent_encodeComponent]
  rfl

theorem not_mem_pairText {d : Char} (hd : isUnreserved d = false) (hpercent : d ≠ '%')
    (hequals : d ≠ '=') (p : String × String) :
    d ∉ encodeComponent p.1.toList ++ '=' :: encodeComponent p.2.toList := by
  intro h
  rcases List.mem_append.mp h with h | h
  · exact ne_of_mem_encodeComponent h hd hpercent rfl
  · rcases List.mem_cons.mp h with h | h
    · exact hequals h
    · exact ne_of_mem_encodeComponent h hd hpercent rfl

theorem readQuery_queryText (params : List (String × String)) :
    readQuery (queryText params) = some params := by
  cases params with
  | nil => rfl
  | cons p params =>
    have hamp : ∀ pair ∈ (p :: params).map fun p =>
        encodeComponent p.1.toList ++ '=' :: encodeComponent p.2.toList, '&' ∉ pair :=
      List.forall_mem_map.mpr fun p _ => not_mem_pairText rfl (by decide) (by decide) p
    have hne : ∀ pair ∈ (p :: params).map fun p =>
        encodeComponent p.1.toList ++ '=' :: encodeComponent p.2.toList,
        decide (pair ≠ []) = true :=
      List.forall_mem_map.mpr fun p _ => decide_eq_true (List.append_ne_nil_of_right_ne_nil _
        (List.cons_ne_nil _ _))
    rw [readQuery, queryText, List.splitOn_intercalate _ hamp (List.cons_ne_nil _ _),
      List.filter_eq_self.mpr hne]
    exact mapM_map_eq_some readPair_text _

theorem queryText_concat {params : List (String × String)} (hne : params ≠ [])
    (param : String × String) :
    queryText (params ++ [param]) = queryText params ++
      '&' :: (encodeComponent param.1.toList ++ '=' :: encodeComponent param.2.toList) := by
  induction params with
  | nil => exact absurd rfl hne
  | cons p params ih =>
    cases params with
    | nil => simp [queryText]
    | cons q params =>
      have ih := ih (List.cons_ne_nil _ _)
      simp only [queryText, List.cons_append, List.map_cons] at ih ⊢
      rw [List.intercalate_cons_cons, List.intercalate_cons_cons, ih]
      simp only [List.append_assoc]

/-! ## Targets -/

/-- What a server reads of a URL of its own. -/
structure Target where
  path : List String
  query : List (String × String)
  deriving DecidableEq

def readPath (path : List Char) : Option (List String) :=
  (resolve [] (path.splitOn '/')).mapM decodeComponent

def readRest (rest : List Char) : Option Target := do
  let path ← readPath (rest.takeWhile (· ≠ '?'))
  let query ← readQuery ((rest.dropWhile (· ≠ '?')).drop 1)
  return ⟨path, query⟩

/-- What the server at an origin reads. A fragment is not sent. -/
def readTarget (origin url : List Char) : Option Target :=
  ((origin ++ ['/']).isPrefixOf? url).bind fun rest => readRest (rest.takeWhile (· ≠ '#'))

def pathText (path : List String) : List Char :=
  ['/'].intercalate (path.map fun segment => encodeComponent segment.toList)

def targetText (target : Target) : List Char :=
  pathText target.path ++ '?' :: queryText target.query

theorem readPath_pathText {path : List String} (hne : path ≠ [])
    (hdots : ∀ segment ∈ path, segment ≠ "." ∧ segment ≠ "..") :
    readPath (pathText path) = some path := by
  have hslash : ∀ segment ∈ path.map fun segment => encodeComponent segment.toList,
      '/' ∉ segment :=
    List.forall_mem_map.mpr fun segment _ h => ne_of_mem_encodeComponent h rfl (by decide) rfl
  have hresolve : ∀ segment ∈ path.map fun segment => encodeComponent segment.toList,
      segment ∉ doubleDots ∧ segment ∉ singleDots :=
    List.forall_mem_map.mpr fun segment h =>
      encodeComponent_not_dots (hdots segment h).1 (hdots segment h).2
  rw [readPath, pathText, List.splitOn_intercalate _ hslash (by simpa using hne),
    resolve_of_forall hresolve, List.nil_append]
  exact mapM_map_eq_some decodeComponent_encodeComponent _

/-- What is joined is without a character that neither the parts nor the separator have. -/
theorem not_mem_intercalate {d sep : Char} {parts : List (List Char)} (hsep : d ≠ sep)
    (h : ∀ part ∈ parts, d ∉ part) : d ∉ [sep].intercalate parts := by
  induction parts with
  | nil => exact List.not_mem_nil
  | cons part parts ih =>
    obtain ⟨hpart, h⟩ := List.forall_mem_cons.mp h
    cases parts with
    | nil => simpa using hpart
    | cons next parts =>
      rw [List.intercalate_cons_cons, List.mem_append, List.mem_append, List.mem_singleton]
      rintro ((h' | h') | h')
      · exact hpart h'
      · exact hsep h'
      · exact ih h h'

theorem not_mem_pathText {d : Char} (hd : isUnreserved d = false) (hpercent : d ≠ '%')
    (hslash : d ≠ '/') (path : List String) : d ∉ pathText path :=
  not_mem_intercalate hslash <| List.forall_mem_map.mpr fun _ _ h =>
    ne_of_mem_encodeComponent h hd hpercent rfl

theorem not_mem_queryText {d : Char} (hd : isUnreserved d = false) (hpercent : d ≠ '%')
    (hamp : d ≠ '&') (hequals : d ≠ '=') (params : List (String × String)) :
    d ∉ queryText params :=
  not_mem_intercalate hamp <| List.forall_mem_map.mpr fun p _ =>
    not_mem_pairText hd hpercent hequals p

theorem not_mem_targetText {d : Char} (hd : isUnreserved d = false) (hpercent : d ≠ '%')
    (hslash : d ≠ '/') (hmark : d ≠ '?') (hamp : d ≠ '&') (hequals : d ≠ '=') (target : Target) :
    d ∉ targetText target := by
  rw [targetText, List.mem_append, List.mem_cons]
  rintro (h | h | h)
  · exact not_mem_pathText hd hpercent hslash _ h
  · exact hmark h
  · exact not_mem_queryText hd hpercent hamp hequals _ h

/-- What a server reads of a URL whose path may end up elsewhere. -/
theorem readTarget_targetText (origin : List Char) (target : Target) :
    readTarget origin (origin ++ '/' :: targetText target) =
      (readPath (pathText target.path)).map fun path => ⟨path, target.query⟩ := by
  have hpath : ∀ c ∈ pathText target.path, decide (c ≠ '?') = true := by
    intro c hc
    refine decide_eq_true ?_
    rintro rfl
    exact not_mem_pathText rfl (by decide) (by decide) _ hc
  have htarget : ∀ c ∈ targetText target, decide (c ≠ '#') = true := by
    intro c hc
    refine decide_eq_true ?_
    rintro rfl
    exact not_mem_targetText rfl (by decide) (by decide) (by decide) (by decide) (by decide) _ hc
  have hpre : (origin ++ ['/']).isPrefixOf? (origin ++ '/' :: targetText target) =
      some (targetText target) :=
    List.isPrefixOf?_eq_some_iff_append_eq.mpr (List.append_cons ..).symm
  rw [readTarget, hpre, Option.bind_some, List.takeWhile_eq_self_iff.mpr htarget, readRest,
    targetText, List.takeWhile_append_of_pos hpath, List.dropWhile_append_of_pos hpath,
    List.takeWhile_cons_of_neg (by decide), List.append_nil, List.dropWhile_cons_of_neg (by decide),
    List.drop_one, List.tail_cons, readQuery_queryText]
  cases readPath (pathText target.path) <;> rfl

/-- What a server reads of a URL whose path has no segments of dots. -/
theorem readTarget_eq_some {target : Target} (origin : List Char) (hne : target.path ≠ [])
    (hdots : ∀ segment ∈ target.path, segment ≠ "." ∧ segment ≠ "..") :
    readTarget origin (origin ++ '/' :: targetText target) = some target := by
  rw [readTarget_targetText, readPath_pathText hne hdots]
  rfl

end HarborSql.UrlText
