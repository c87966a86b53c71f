import HarborSql.Theory.Url
import HarborSql.Verify.Engine.Write

/-! The location of a CTAS: which accepted locations mean one place, to Unity, which is given the
text, and to the writer, which is given the parsed URL. -/

namespace HarborSql

open UrlText

/-- What the parts of a location become in its URL. -/
structure PartsOf (S : Syntax) (parts : Parts) (location : String) (url : Url) (host : String) :
    Prop where
  wellFormed : parts.WellFormed
  text : cleaned location.toList = parts.text
  scheme : parts.scheme.map Char.toLower = url.scheme.toList
  host : host.toList = S.hostText parts.host
  rest : url.query = none → url.fragment = none → parts.rest = []
  /-- A path without dot segments is encoded, .. -/
  path : (∀ segment ∈ parts.path.splitOn '/', ¬isDotSegment segment) →
    url.path.toList = encode S.pathSet parts.path
  /-- .. and any other one has nothing left to be encoded either. -/
  pathChars : ∀ c ∈ url.path.toList, ¬S.pathSet c
  pathHead : url.path.toList = [] ∨ ∃ segments, url.path.toList = '/' :: segments

/-- The parser of URLs does as it documents, for a scheme that is not special. -/
def DocumentedUrl (S : Syntax) (parseUrl : String → Except String Url) : Prop :=
  ∀ location url host, parseUrl location = .ok url → url.scheme = "s3" → url.hostStr = some host →
    ∃ parts, PartsOf S parts location url host

/-- `ObjectPath::from_url_path` of a path without encoded characters and empty segments. -/
def DocumentedPath (objectPath : String → Except String String) : Prop :=
  ∀ path segments, '%' ∉ path.toList → ¬['/', '/'] <:+: path.toList →
    objectPath path = .ok segments → segments.toList = trimMatches (· = '/') path.toList

/-- The text between `s3://` and the end. -/
def afterScheme (location : String) : Option (List Char) :=
  "s3://".toList.isPrefixOf? (location.toList.dropWhile isC0OrSpace)

/-- The bucket and the path of the URL are the text of the location, up to trailing slashes. -/
def OnePlace (location : String) (url : Url) : Prop :=
  ∃ text host, afterScheme location = some text ∧ url.hostStr = some host ∧
    SameTrimmed (host.toList ++ url.path.toList) text

/-- The location is read as it is written. -/
def Verbatim (S : Syntax) (location : String) : Prop :=
  ∃ text, afterScheme location = some text ∧ Kept S text

/-! ## Accepted locations -/

/-- What `validate_location` has checked. -/
structure Accepted (location : String) (url : Url) : Prop where
  scheme : url.scheme = "s3"
  host : ∃ host, url.hostStr = some host
  path : trimMatches (· = '/') url.path.toList ≠ []
  query : url.query = none
  fragment : url.fragment = none
  username : url.username = ""
  password : url.password = none
  percent : '%' ∉ url.path.toList
  slashes : ¬['/', '/'] <:+: url.path.toList
  dots : ∀ part ∈ location.toList.splitOn '/', part ≠ ['.'] ∧ part ≠ ['.', '.']

theorem validateLocation_ok {crates : WriteCrates} {location : String} {url : Url} :
    validateLocation crates location = .ok url ↔
      crates.parseUrl location = .ok url ∧ Accepted location url := by
  rw [validateLocation]
  cases hparse : crates.parseUrl location with
  | error e => simp [Except.mapError, bind, Except.bind]
  | ok parsed =>
    simp only [Except.mapError, bind, Except.bind, Except.ok.injEq]
    constructor
    · intro h
      split at h
      · cases h
      · rename_i hcond
        obtain rfl := Except.ok.inj h
        simp only [not_or, not_not] at hcond
        obtain ⟨hscheme, hhost, hpath, hquery, hfragment, husername, hpassword, hpercent, hslashes,
          hdots⟩ := hcond
        refine ⟨rfl, hscheme, ?_, hpath, by simpa using hquery, by simpa using hfragment, husername,
          by simpa using hpassword, hpercent, hslashes, ?_⟩
        · exact Option.ne_none_iff_exists'.mp (by simpa using hhost)
        · intro part hpart
          rw [List.any_eq_true] at hdots
          have := fun hdot => hdots ⟨part, hpart, decide_eq_true hdot⟩
          exact ⟨fun heq => this (.inl heq), fun heq => this (.inr heq)⟩
    · intro ⟨heq, A⟩
      subst heq
      obtain ⟨host, hhost⟩ := A.host
      rw [if_neg]
      · rfl
      · simp only [not_or, not_not, List.any_eq_true, not_exists, not_and, decide_eq_true_eq]
        exact ⟨A.scheme, by simp [hhost], A.path, by simp [A.query], by simp [A.fragment],
          A.username, by simp [A.password], A.percent, A.slashes, A.dots⟩

theorem afterScheme_eq_some {location : String} {text : List Char} :
    afterScheme location = some text ↔
      location.toList.dropWhile isC0OrSpace = "s3://".toList ++ text := isPrefixOf?_eq_some

variable {S : Syntax} {parts : Parts} {location : String} {url : Url} {host : String}
  {text : List Char}

/-- The text after the scheme is the authority and the path. -/
theorem PartsOf.text_eq (P : PartsOf S parts location url host) (A : Accepted location url)
    (hafter : afterScheme location = some text) (hchars : ∀ c ∈ text, ¬isTabOrNewline c)
    (hlast : ∀ c, text.getLast? = some c → ¬isC0OrSpace c) :
    text = parts.authority ++ parts.path := by
  have hbody : cleaned location.toList = "s3://".toList ++ text := by
    refine cleaned_eq (afterScheme_eq_some.mp hafter) ?_ ?_
    · intro c hc
      rw [List.getLast?_append] at hc
      cases htext : text.getLast? with
      | none =>
        rw [htext] at hc
        obtain rfl : '/' = c := Option.some.inj hc
        decide
      | some d =>
        rw [htext] at hc
        obtain rfl := Option.some.inj hc
        exact hlast d htext
    · intro c hc
      rcases List.mem_append.mp hc with hc | hc
      · have hscheme : ∀ c ∈ "s3://".toList, ¬isTabOrNewline c := by simp [isTabOrNewline]
        exact hscheme c hc
      · exact hchars c hc
  have hlength : parts.scheme.length = "s3".toList.length := by
    have := congrArg List.length P.scheme
    rwa [List.length_map, A.scheme] at this
  have hsplit : "s3".toList ++ (':' :: '/' :: '/' :: text) =
      parts.scheme ++ (':' :: '/' :: '/' :: (parts.authority ++ parts.path ++ parts.rest)) := by
    rw [← Parts.text, ← P.text, hbody]
    rfl
  obtain ⟨-, htail⟩ := List.append_inj hsplit hlength.symm
  rw [P.rest A.query A.fragment, List.append_nil] at htail
  simpa using htail

/-- The path of an accepted location begins with its slash. -/
theorem PartsOf.path_cons (P : PartsOf S parts location url host) (A : Accepted location url) :
    ∃ segments, url.path.toList = '/' :: segments := by
  rcases P.pathHead with hnil | hcons
  · exact absurd (by rw [hnil]; rfl) A.path
  · exact hcons

theorem verbatim_of_onePlace (hurl : ∃ parts, PartsOf S parts location url host)
    (A : Accepted location url) (hhost : url.hostStr = some host) (h : OnePlace location url) :
    Verbatim S location := by
  obtain ⟨parts, P⟩ := hurl
  obtain ⟨text, host', hafter, hhost', hsame⟩ := h
  obtain rfl := Option.some.inj (hhost'.symm.trans hhost)
  have hchars : ∀ c ∈ text, ¬isC0OrSpace c := by
    intro c hc
    rcases hsame.mem hc with rfl | hmem
    · decide
    · rcases List.mem_append.mp hmem with hmem | hmem
      · rw [P.host] at hmem
        exact (P.wellFormed.mem_hostText hmem).1
      · exact fun hc0 => P.pathChars c hmem (S.pathSet_c0 c hc0)
  have htext := P.text_eq A hafter (fun c hc => not_isTabOrNewline (hchars c hc))
    fun c hc => hchars c (List.mem_of_getLast? hc)
  subst htext
  rw [P.host] at hsame
  exact ⟨_, hafter, P.wellFormed.kept (P.path_cons A) A.percent hchars hsame⟩

theorem mem_of_mem_splitOn {c sep : Char} {segment text : List Char}
    (hsegment : segment ∈ text.splitOn sep) (hc : c ∈ segment) : c ∈ text := by
  have key : ∀ segments : List (List Char), segment ∈ segments →
      c ∈ [sep].intercalate segments := by
    intro segments
    induction segments with
    | nil => exact fun h => absurd h List.not_mem_nil
    | cons head tail ih =>
      intro h
      cases tail with
      | nil =>
        obtain rfl := List.mem_singleton.mp h
        rwa [List.intercalate_singleton]
      | cons next tail =>
        rw [List.intercalate_cons_cons]
        rcases List.mem_cons.mp h with rfl | h
        · simp [hc]
        · exact List.mem_append_right _ (ih h)
  have hjoin : [sep].intercalate (text.splitOn sep) = text := List.intercalate_splitOn sep
  exact hjoin ▸ key _ hsegment

/-- Without `%`, the only dot segments are those that were checked for. -/
theorem no_dotSegment {before : List Char} (hlocation : location.toList = before ++ parts.path)
    (A : Accepted location url) (W : parts.WellFormed) (hpercent : '%' ∉ parts.path) :
    ∀ segment ∈ parts.path.splitOn '/', ¬isDotSegment segment := by
  intro segment hsegment hdot
  have hkept : '%' ∉ segment := fun hmem => hpercent (mem_of_mem_splitOn hsegment hmem)
  have hparts : segment ≠ ['.'] ∧ segment ≠ ['.', '.'] := by
    rcases W.path with hpath | ⟨segments, hpath⟩
    · rw [hpath, List.splitOn_nil, List.mem_singleton] at hsegment
      rw [hsegment]
      exact ⟨by simp, by simp⟩
    · have hsplit : parts.path.splitOn '/' = [] :: segments.splitOn '/' := by
        rw [hpath, ← List.nil_append ('/' :: segments), List.splitOn_append_cons_self,
          List.splitOn_nil]
        rfl
      rw [hsplit] at hsegment
      rcases List.mem_cons.mp hsegment with rfl | hmem
      · exact ⟨by simp, by simp⟩
      · refine A.dots segment ?_
        rw [hlocation, hpath, List.splitOn_append_cons_self]
        exact List.mem_append_right _ hmem
  simp only [isDotSegment, List.map_cons, List.map_nil, List.mem_cons, List.not_mem_nil,
    or_false] at hdot
  rcases hdot with rfl | rfl | rfl | rfl | rfl | rfl | rfl | rfl | rfl | rfl | rfl | rfl
  · exact hparts.1 rfl
  · exact hkept (by decide)
  · exact hkept (by decide)
  · exact hparts.2 rfl
  all_goals exact hkept (by decide)

theorem onePlace_of_verbatim (hurl : ∃ parts, PartsOf S parts location url host)
    (A : Accepted location url) (hhost : url.hostStr = some host) (h : Verbatim S location) :
    OnePlace location url := by
  obtain ⟨parts, P⟩ := hurl
  obtain ⟨text, hafter, K⟩ := h
  have htext := P.text_eq A hafter K.noTabs K.last
  subst htext
  have hpercent := K.noPercent
  rw [P.wellFormed.dropWhile_eq] at hpercent
  have hlocation : location.toList =
      (location.toList.takeWhile isC0OrSpace ++ "s3://".toList ++ parts.authority) ++
        parts.path := by
    rw [List.append_assoc, List.append_assoc, ← afterScheme_eq_some.mp hafter,
      List.takeWhile_append_dropWhile]
  have hpath := P.path (no_dotSegment hlocation A P.wellFormed hpercent)
  have hkept : url.path.toList = parts.path := by
    rw [hpath]
    exact encode_of_not_mem (hpath ▸ A.percent)
  refine ⟨_, host, hafter, hhost, ?_⟩
  rw [P.host, P.wellFormed.authority_of_kept K, hkept]
  rfl

/-- The path of the route is that of the URL. -/
theorem tableObjectStoreRoute_ok {crates : WriteCrates} {storeUrl : Url} {objectPrefix : String}
    (hpath : DocumentedPath crates.objectPath) (hparse : crates.parseUrl location = .ok url)
    (A : Accepted location url)
    (h : tableObjectStoreRoute crates location = .ok (storeUrl, objectPrefix)) :
    storeUrl.hostStr = url.hostStr ∧
      objectPrefix.toList = trimMatches (· = '/') url.path.toList := by
  obtain ⟨host, hhost⟩ := A.host
  rw [tableObjectStoreRoute] at h
  cases hsegments : crates.objectPath url.path with
  | error e => simp [hparse, hhost, hsegments, Except.mapError, bind, Except.bind] at h
  | ok segments =>
    simp only [hparse, hhost, hsegments, Except.mapError, bind, Except.bind, Option.isNone_some,
      Bool.false_eq_true, if_false, pure, Except.pure, Except.ok.injEq, Prod.mk.injEq] at h
    obtain ⟨rfl, rfl⟩ := h
    exact ⟨hhost.symm ▸ rfl, hpath url.path segments A.percent A.slashes hsegments⟩

/-- An accepted location means one place exactly where the parser reads it as it is written. The
route of its credentials has the path of the parsed URL. -/
theorem ctasLocation (crates : WriteCrates) (S : Syntax) (location : String) (url : Url)
    (hurl : DocumentedUrl S crates.parseUrl) (hpath : DocumentedPath crates.objectPath)
    (h : validateLocation crates location = .ok url) :
    (OnePlace location url ↔ Verbatim S location) ∧
    ∀ storeUrl objectPrefix, tableObjectStoreRoute crates location = .ok (storeUrl, objectPrefix) →
      storeUrl.hostStr = url.hostStr ∧
        objectPrefix.toList = trimMatches (· = '/') url.path.toList := by
  obtain ⟨hparse, A⟩ := validateLocation_ok.mp h
  obtain ⟨host, hhost⟩ := A.host
  have hparts := hurl location url host hparse A.scheme hhost
  refine ⟨⟨?_, ?_⟩, ?_⟩
  · exact verbatim_of_onePlace hparts A hhost
  · exact onePlace_of_verbatim hparts A hhost
  · intro storeUrl objectPrefix hroute
    exact tableObjectStoreRoute_ok hpath hparse A hroute

/-! ## Two locations -/

def bucketUrl (path : String) : Url := ⟨"s3", "", none, some "bucket", path, none, none⟩

/-- Crates that read one location. -/
def cratesReading (location : String) (url : Url) : WriteCrates :=
  { testCrates with
    parseUrl := fun text => if text = location then .ok url else .error "invalid"
    objectPath := fun path => .ok (.ofList (trimMatches (· = '/') path.toList)) }

def testSyntax : Syntax where
  pathSet c := isC0OrSpace c || 0x7f ≤ c.toNat || c ∈ "\"#<>?".toList
  pathSet_c0 _ hc := by rw [hc]; rfl
  ipv6 _ := "[::1]".toList
  ipv6_chars _ := by simp
  ipv6_last _ := by decide

theorem documentedUrl_cratesReading {path : String}
    (h : PartsOf testSyntax parts location (bucketUrl path) "bucket") :
    DocumentedUrl testSyntax (cratesReading location (bucketUrl path)).parseUrl := by
  intro text url host hparse hscheme hhost
  rw [cratesReading] at hparse
  dsimp only at hparse
  split at hparse
  · rename_i heq
    subst heq
    obtain rfl := Except.ok.inj hparse
    obtain rfl : "bucket" = host := Option.some.inj hhost
    exact ⟨parts, h⟩
  · cases hparse

theorem documentedPath_cratesReading : DocumentedPath (cratesReading location url).objectPath := by
  intro path segments _ _ h
  obtain rfl := Except.ok.inj h
  exact String.toList_ofList

def bucketParts (path : String) : Parts := ⟨"s3".toList, [], "bucket".toList, [], path.toList, []⟩

theorem wellFormed_bucketParts {path : String} {segments : List Char}
    (h : path.toList = '/' :: segments) : (bucketParts path).WellFormed where
  userinfo := .inl rfl
  authority := by
    change '/' ∉ "bucket".toList
    decide
  port := .inl rfl
  bracketed := by
    change "bucket".toList.head? = _ → "bucket".toList.getLast? = _
    decide
  plain _ := by
    change ':' ∉ "bucket".toList ∧ '@' ∉ "bucket".toList ∧ ' ' ∉ "bucket".toList
    decide
  path := .inr ⟨segments, h⟩

theorem ctasLocation_test :
    (OnePlace "s3://bucket/t" (bucketUrl "/t") ↔ Verbatim testSyntax "s3://bucket/t") ∧
    ∀ storeUrl objectPrefix,
      tableObjectStoreRoute (cratesReading "s3://bucket/t" (bucketUrl "/t")) "s3://bucket/t" =
        .ok (storeUrl, objectPrefix) →
      storeUrl.hostStr = some "bucket" ∧ objectPrefix.toList = ['t'] := by
  have hparts : PartsOf testSyntax (bucketParts "/t") "s3://bucket/t" (bucketUrl "/t") "bucket" :=
    ⟨wellFormed_bucketParts rfl, by decide, by decide, by decide, fun _ _ => rfl,
      fun _ => by decide, by simp [bucketUrl, testSyntax, isC0OrSpace], .inr ⟨['t'], rfl⟩⟩
  exact ctasLocation (cratesReading "s3://bucket/t" (bucketUrl "/t")) testSyntax "s3://bucket/t"
    (bucketUrl "/t") (documentedUrl_cratesReading hparts) documentedPath_cratesReading
    (validateLocation_ok.mpr ⟨rfl, rfl, ⟨_, rfl⟩, by decide, rfl, rfl, rfl, rfl, by decide,
      by decide, by decide⟩)

/-- Encoded dot segments are resolved before the check of `%`: Unity is given one path and the
writer another. -/
theorem not_ctasLocation :
    ∃ crates S, DocumentedUrl S crates.parseUrl ∧ DocumentedPath crates.objectPath ∧
      validateLocation crates "s3://bucket/a/%2e%2e/b" = .ok (bucketUrl "/b") ∧
      ¬OnePlace "s3://bucket/a/%2e%2e/b" (bucketUrl "/b") := by
  have hparts : PartsOf testSyntax (bucketParts "/a/%2e%2e/b") "s3://bucket/a/%2e%2e/b"
      (bucketUrl "/b") "bucket" := by
    refine ⟨wellFormed_bucketParts rfl, by decide, by decide, by decide, fun _ _ => rfl,
      fun hdots => ?_, by simp [bucketUrl, testSyntax, isC0OrSpace], .inr ⟨['b'], rfl⟩⟩
    exact absurd (by simp [isDotSegment]) (hdots "%2e%2e".toList (by decide))
  refine ⟨cratesReading "s3://bucket/a/%2e%2e/b" (bucketUrl "/b"), testSyntax,
    documentedUrl_cratesReading hparts, documentedPath_cratesReading, ?_, ?_⟩
  · exact validateLocation_ok.mpr ⟨rfl, rfl, ⟨_, rfl⟩, by decide, rfl, rfl, rfl, rfl, by decide,
      by decide, by decide⟩
  · rintro ⟨text, host, hafter, hhost, hsame⟩
    have htext : text = "bucket/a/%2e%2e/b".toList := by
      have : afterScheme "s3://bucket/a/%2e%2e/b" = some "bucket/a/%2e%2e/b".toList := by decide
      exact Option.some.inj (hafter.symm.trans this)
    obtain rfl : "bucket" = host := Option.some.inj hhost
    subst htext
    exact absurd hsame (by unfold SameTrimmed; decide)

end HarborSql
