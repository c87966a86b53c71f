import HarborSql.Unity.Client

/-! The listings of the Unity Catalog client, in terms of what the host reads of their requests. -/

namespace HarborSql

open UrlText (Target readTarget targetText queryText pathText encodeComponent)

namespace UnityCatalogClient

variable {client : UnityCatalogClient} {network : Network} {α : Type} {bearer : String}

/-! ## Requests -/

/-- What the host reads of a request. -/
def reads (client : UnityCatalogClient) (request : HttpRequest) : Option Target :=
  readTarget client.host.toList request.url.toList

/-- A target, for the page with a token. -/
def pageTarget (target : Target) (pageToken : Option String) : Target :=
  { target with query := target.query ++ pageToken.toList.map fun t => ("page_token", t) }

/-- A request for a page of a listing. -/
structure Asks (client : UnityCatalogClient) (bearer : String) (target : Target)
    (pageToken : Option String) (request : HttpRequest) : Prop where
  method : request.method = .get
  bearer : request.bearer = bearer
  body : request.body = none
  reads : client.reads request = some (pageTarget target pageToken)

/-- A target that is read from its text, to which parameters can be appended. -/
structure Listed (target : Target) : Prop where
  path : target.path ≠ []
  dots : ∀ segment ∈ target.path, segment ≠ "." ∧ segment ≠ ".."
  query : target.query ≠ []

theorem appendPageToken_text {crates : UnityCrates} {target : Target} {url : String}
    {origin : List Char} (hurl : url.toList = origin ++ '/' :: targetText target)
    (hquery : target.query ≠ []) (pageToken : Option String) :
    (appendPageToken crates url pageToken).toList =
      origin ++ '/' :: targetText (pageTarget target pageToken) := by
  cases pageToken with
  | none =>
    rw [appendPageToken, pageTarget, Option.toList_none, List.map_nil, List.append_nil, hurl]
  | some pageToken =>
    have hname : encodeComponent "page_token".toList = "page_token".toList := by decide
    simp only [appendPageToken, pageTarget, Option.toList_some, List.map_cons, List.map_nil,
      targetText, String.toList_append, hurl, crates.encode_eq, UrlText.queryText_concat hquery, hname]
    simp

/-- The requests that the loop of a listing sends. -/
theorem asks_get (bearer : String) {target : Target} {url : String} (H : Listed target)
    (hurl : url.toList = client.host.toList ++ '/' :: targetText target)
    (pageToken : Option String) :
    Asks client bearer target pageToken
      { method := .get, url := appendPageToken client.crates url pageToken, bearer, body := none } where
  method := rfl
  bearer := rfl
  body := rfl
  reads := by
    rw [reads, appendPageToken_text hurl H.query]
    exact UrlText.readTarget_eq_some _ H.path H.dots

/-! ## Exchanges -/

/-- What the client makes of the answer to a request. -/
def answer (client : UnityCatalogClient) (network : Network) (read : Json → Option α)
    (sent : List HttpRequest) (request : HttpRequest) : Except HarborError α :=
  ((network sent request).mapError .http).bind (decodeResponse client.crates read)

/-- The requests of a listing from a page on, each for the page that the answer to the one before
names, and what the listing comes to. The exchange is not over if it comes to nothing. -/
inductive Exchange (client : UnityCatalogClient) (network : Network) (bearer : String)
    (target : Target) (read : Json → Option (Page α)) :
    List HttpRequest → Option String → List HttpRequest →
      Except HarborError (Option (List α)) → Prop
  | unfinished {sent pageToken} :
    Exchange client network bearer target read sent pageToken [] (.ok none)
  | failed {sent pageToken request err} :
    Asks client bearer target pageToken request →
    answer client network read sent request = .error err →
    Exchange client network bearer target read sent pageToken [request] (.error err)
  | last {sent pageToken request page} :
    Asks client bearer target pageToken request →
    answer client network read sent request = .ok page →
    (page.nextPageToken = none ∨ page.nextPageToken = some "") →
    Exchange client network bearer target read sent pageToken [request] (.ok (some page.items))
  | more {sent pageToken request page next requests result} :
    Asks client bearer target pageToken request →
    answer client network read sent request = .ok page →
    page.nextPageToken = some next → next ≠ "" →
    Exchange client network bearer target read (sent ++ [request]) (some next) requests result →
    Exchange client network bearer target read sent pageToken (request :: requests)
      (result.map (Option.map (page.items ++ ·)))

/-- A listing, whatever the network answers: no request but those of an exchange, of which there
are as many as may be sent if it is not over. -/
def Lists (client : UnityCatalogClient) (network : Network) (bearer : String) (target : Target)
    (read : Json → Option (Page α))
    (call : Nat → List HttpRequest → Sent (Option (List α))) : Prop :=
  ∀ n sent, ∃ requests, (call n sent).2 = sent ++ requests ∧ requests.length ≤ n ∧
    ((call n sent).1 = .ok none → requests.length = n) ∧
    Exchange client network bearer target read sent none requests (call n sent).1

variable {target : Target} {read : Json → Option (Page α)} {url : String}

theorem not_last_of_next {page : Page α} {next : String} (hnext : page.nextPageToken = some next)
    (hne : next ≠ "") : ¬(page.nextPageToken = none ∨ page.nextPageToken = some "") := by
  rw [hnext]
  rintro (h | h)
  · cases h
  · exact hne (Option.some.inj h)

section
variable (result : Except HarborError (Option (List α))) (items items' : List α)

theorem prepend_nil : result.map (Option.map ([] ++ ·)) = result := by
  rcases result with _ | _ | items <;> rfl

theorem prepend_append : result.map (Option.map (items ++ items' ++ ·)) =
    (result.map (Option.map (items' ++ ·))).map (Option.map (items ++ ·)) := by
  rcases result with _ | _ | items''
  · rfl
  · rfl
  · simp only [Except.map, Option.map, List.append_assoc]

variable {result items}

theorem prepend_eq_none (h : result.map (Option.map (items ++ ·)) = .ok none) :
    result = .ok none := by
  rcases result with _ | _ | items'
  · cases h
  · rfl
  · cases h

end

/-- The loop, with what it has collected. -/
theorem list_exchange (read : Json → Option (Page α)) (H : Listed target)
    (hurl : url.toList = client.host.toList ++ '/' :: targetText target) (n : Nat)
    (collected : List α) (pageToken : Option String) (sent : List HttpRequest) :
    ∃ requests result, client.list network read bearer url n collected pageToken sent =
        (result.map (Option.map (collected ++ ·)), sent ++ requests) ∧
      requests.length ≤ n ∧ (result = .ok none → requests.length = n) ∧
      Exchange client network bearer target read sent pageToken requests result := by
  induction n generalizing collected pageToken sent with
  | zero =>
    refine ⟨[], .ok none, ?_, Nat.le_refl _, fun _ => rfl, .unfinished⟩
    rw [list, List.append_nil]
    rfl
  | succ n ih =>
    have hasks := asks_get bearer H hurl pageToken
    rw [list]
    simp only [get, send]
    generalize hrequest : HttpRequest.mk _ _ _ _ = request at hasks ⊢
    cases hanswer : answer client network read sent request with
    | error err =>
      rw [answer] at hanswer
      simp only [hanswer]
      exact ⟨[request], .error err, rfl, Nat.le_add_left 1 n, nofun, .failed hasks hanswer⟩
    | ok page =>
      rw [answer] at hanswer
      simp only [hanswer]
      by_cases hlast : page.nextPageToken = none ∨ page.nextPageToken = some ""
      · have hfilter : page.nextPageToken.filter (· ≠ "") = none := by
          rcases hlast with h | h <;> rw [h] <;> rfl
        simp only [hfilter]
        exact ⟨[request], .ok (some page.items), rfl, Nat.le_add_left 1 n, nofun,
          .last hasks hanswer hlast⟩
      · obtain ⟨next, hnext⟩ : ∃ next, page.nextPageToken = some next :=
          Option.ne_none_iff_exists'.mp fun h => hlast (.inl h)
        have hne : next ≠ "" := fun h => hlast (.inr (h ▸ hnext))
        have hfilter : page.nextPageToken.filter (· ≠ "") = some next := by
          rw [hnext]
          exact Option.filter_some_pos (decide_eq_true hne)
        simp only [hfilter]
        obtain ⟨requests, result, hlist, hlength, hfull, hexchange⟩ :=
          ih (collected ++ page.items) (some next) (sent ++ [request])
        refine ⟨request :: requests, _, ?_, Nat.succ_le_succ hlength, ?_,
          .more hasks hanswer hnext hne hexchange⟩
        · rw [hlist, prepend_append, List.append_assoc, List.singleton_append]
        · intro h
          exact congrArg (· + 1) (hfull (prepend_eq_none h))

theorem lists_list (H : Listed target)
    (hurl : url.toList = client.host.toList ++ '/' :: targetText target) :
    Lists client network bearer target read
      fun n => client.list network read bearer url n [] none := by
  intro n sent
  obtain ⟨requests, result, hlist, hlength, hfull, hexchange⟩ :=
    list_exchange read H hurl n [] none sent
  rw [prepend_nil] at hlist
  obtain rfl := congrArg Prod.fst hlist
  exact ⟨requests, congrArg Prod.snd hlist, hlength, hfull, hexchange⟩

/-! ## Listings -/

def catalogsTarget : Target :=
  ⟨["api", "2.1", "unity-catalog", "catalogs"], [("max_results", "0")]⟩

def schemasTarget (catalogName : String) : Target :=
  ⟨["api", "2.1", "unity-catalog", "schemas"], [("catalog_name", catalogName), ("max_results", "0")]⟩

def tablesTarget (catalogName schemaName : String) : Target :=
  ⟨["api", "2.1", "unity-catalog", "tables"],
    [("catalog_name", catalogName), ("schema_name", schemaName), ("max_results", "0"),
      ("omit_columns", "true"), ("omit_properties", "true"), ("omit_username", "false")]⟩

theorem text_eq {host path : String} {target : Target}
    (h : path.toList = '/' :: targetText target) :
    (host ++ path).toList = host.toList ++ '/' :: targetText target := by
  rw [String.toList_append, h]

theorem lists_catalogs : Lists client network bearer catalogsTarget listCatalogsResponse
    (client.catalogs network bearer) := by
  refine lists_list ⟨List.cons_ne_nil _ _, by decide, List.cons_ne_nil _ _⟩ ?_
  exact text_eq (by decide)

theorem lists_schemas (catalogName : String) :
    Lists client network bearer (schemasTarget catalogName) listSchemasResponse
      (client.schemas network bearer catalogName) := by
  refine lists_list ⟨List.cons_ne_nil _ _, by simp [schemasTarget], List.cons_ne_nil _ _⟩ ?_
  simp (disch := decide) only [schemasTarget, targetText, pathText, queryText, List.map_cons,
    List.map_nil, UrlText.encodeComponent_of_all, List.intercalate_cons_cons,
    List.intercalate_singleton]
  simp [ToString.toString, client.crates.encode_eq]

theorem lists_tables (catalogName schemaName : String) :
    Lists client network bearer (tablesTarget catalogName schemaName) listTablesResponse
      (client.tables network bearer catalogName schemaName) := by
  refine lists_list ⟨List.cons_ne_nil _ _, by simp [tablesTarget], List.cons_ne_nil _ _⟩ ?_
  simp (disch := decide) only [tablesTarget, targetText, pathText, queryText, List.map_cons,
    List.map_nil, UrlText.encodeComponent_of_all, List.intercalate_cons_cons,
    List.intercalate_singleton]
  simp [ToString.toString, client.crates.encode_eq]

/-- The pages of a collection from one on, each of which answers any request for it. -/
def Serves (client : UnityCatalogClient) (network : Network) (bearer : String) (target : Target)
    (read : Json → Option (Page α)) : Option String → List (Page α) → Prop
  | _, [] => False
  | pageToken, [page] =>
    (∀ sent request, Asks client bearer target pageToken request →
      answer client network read sent request = .ok page) ∧
    (page.nextPageToken = none ∨ page.nextPageToken = some "")
  | pageToken, page :: page' :: pages =>
    (∀ sent request, Asks client bearer target pageToken request →
      answer client network read sent request = .ok page) ∧
    ∃ next, page.nextPageToken = some next ∧ next ≠ "" ∧
      Serves client network bearer target read (some next) (page' :: pages)

variable {sent requests : List HttpRequest} {pageToken : Option String} {pages : List (Page α)}
  {result : Except HarborError (Option (List α))}

theorem Serves.answer (H : Serves client network bearer target read pageToken pages) :
    ∃ page rest, pages = page :: rest ∧ ∀ sent request, Asks client bearer target pageToken request →
      client.answer network read sent request = .ok page := by
  match pages, H with
  | [page], H => exact ⟨page, [], rfl, H.1⟩
  | page :: page' :: rest, H => exact ⟨page, page' :: rest, rfl, H.1⟩

/-- An exchange with what serves a collection goes through its pages. -/
theorem Exchange.of_serves
    (E : Exchange client network bearer target read sent pageToken requests result)
    (H : Serves client network bearer target read pageToken pages) :
    (result = .ok (some (pages.flatMap Page.items)) ∧ requests.length = pages.length) ∨
      (result = .ok none ∧ requests.length < pages.length) := by
  induction E generalizing pages with
  | unfinished =>
    obtain ⟨page, rest, rfl, -⟩ := H.answer
    exact .inr ⟨rfl, Nat.zero_lt_succ _⟩
  | failed hasks herr =>
    obtain ⟨page, rest, rfl, hserved⟩ := H.answer
    rw [hserved _ _ hasks] at herr
    cases herr
  | last hasks hpage hlast =>
    match pages, H with
    | [page], H =>
      rw [H.1 _ _ hasks] at hpage
      cases hpage
      exact .inl ⟨by rw [List.flatMap_singleton], rfl⟩
    | page :: page' :: rest, H =>
      obtain ⟨hserved, next, hnext, hne, -⟩ := H
      rw [hserved _ _ hasks] at hpage
      cases hpage
      exact absurd hlast (not_last_of_next hnext hne)
  | more hasks hpage hnext hne _ ih =>
    match pages, H with
    | [page], H =>
      rw [H.1 _ _ hasks] at hpage
      cases hpage
      exact absurd H.2 (not_last_of_next hnext hne)
    | page :: page' :: rest, H =>
      obtain ⟨hserved, next, hnext', -, H⟩ := H
      rw [hserved _ _ hasks] at hpage
      cases hpage
      cases hnext.symm.trans hnext'
      rcases ih H with ⟨rfl, hlength⟩ | ⟨rfl, hlength⟩
      · exact .inl ⟨by rw [List.flatMap_cons]; rfl, congrArg (· + 1) hlength⟩
      · exact .inr ⟨rfl, Nat.succ_lt_succ hlength⟩

/-- A call that returns a collection, with one request for each of its pages. -/
def Returns (call : Nat → List HttpRequest → Sent (Option (List α))) (pages : List (Page α)) : Prop :=
  ∀ n sent, pages.length ≤ n → ∃ requests,
    call n sent = (.ok (some (pages.flatMap Page.items)), sent ++ requests) ∧
      requests.length = pages.length

theorem Lists.returns {call : Nat → List HttpRequest → Sent (Option (List α))}
    (L : Lists client network bearer target read call)
    (H : Serves client network bearer target read none pages) : Returns call pages := by
  intro n sent hn
  obtain ⟨requests, hsent, -, hfull, hexchange⟩ := L n sent
  rcases hexchange.of_serves H with ⟨hresult, hlength⟩ | ⟨hresult, hlength⟩
  · exact ⟨requests, Prod.ext hresult hsent, hlength⟩
  · have := hfull hresult
    omega

/-- **Collections.** What a host serves in pages is listed whole and in order, whatever characters
the names and the tokens of the pages have. -/
theorem listsCollection (client : UnityCatalogClient) (network : Network) (bearer : String) :
    (∀ pages, Serves client network bearer catalogsTarget listCatalogsResponse none pages →
        Returns (client.catalogs network bearer) pages) ∧
      (∀ catalogName pages, Serves client network bearer (schemasTarget catalogName)
          listSchemasResponse none pages →
        Returns (client.schemas network bearer catalogName) pages) ∧
      ∀ catalogName schemaName pages, Serves client network bearer
          (tablesTarget catalogName schemaName) listTablesResponse none pages →
        Returns (client.tables network bearer catalogName schemaName) pages :=
  ⟨fun _ => lists_catalogs.returns, fun c _ => (lists_schemas c).returns,
    fun c s _ => (lists_tables c s).returns⟩

/-- Two pages of the schemas of `a b/ü`, the first with a token that has to be encoded. -/
def schemaPages : List (Page SchemaInfo × String × Json) :=
  [({ items := [⟨"sales", none⟩], nextPageToken := some "next token&x" },
      "\x7b\"schemas\":[\x7b\"name\":\"sales\"\x7d],\"next_page_token\":\"next token&x\"\x7d",
      .object [("schemas", .array [.object [("name", .string "sales")]]),
        ("next_page_token", .string "next token&x")]),
    ({ items := [⟨"ops", some "a b/ü.ops"⟩], nextPageToken := none },
      "\x7b\"schemas\":[\x7b\"name\":\"ops\",\"full_name\":\"a b/ü.ops\"\x7d]\x7d",
      .object [("schemas", .array [.object [("name", .string "ops"),
        ("full_name", .string "a b/ü.ops")]])])]

def schemaCrates : UnityCrates where
  encode s := String.ofList (encodeComponent s.toList)
  encode_eq _ := String.toList_ofList
  parse bytes :=
    (schemaPages.find? fun p => p.2.1.toList.flatMap String.utf8EncodeChar = bytes).map (·.2.2)
  decodeError := "error decoding response body"
  lossy _ := ""
  statusText _ := "404 Not Found"
  redactSensitive := id

def schemaClient : UnityCatalogClient := ⟨schemaCrates, "https://workspace.example.com"⟩

def schemaNetwork : Network := fun _ request =>
  let pages := [none, some "next token&x"].zip schemaPages
  match pages.find? fun p =>
    schemaClient.reads request = some (pageTarget (schemasTarget "a b/ü") p.1) with
  | some p => .ok ⟨200, .ok (p.2.2.1.toList.flatMap String.utf8EncodeChar)⟩
  | none => .ok ⟨404, .ok []⟩

theorem schemaNetwork_serves (bearer : String) :
    Serves schemaClient schemaNetwork bearer (schemasTarget "a b/ü") listSchemasResponse none
      (schemaPages.map Prod.fst) := by
  refine ⟨fun sent request hasks => ?_, "next token&x", rfl, by decide, fun sent request hasks => ?_,
    .inl rfl⟩
  · rw [UnityCatalogClient.answer, schemaNetwork, hasks.reads]
    rfl
  · rw [UnityCatalogClient.answer, schemaNetwork, hasks.reads]
    rfl

theorem listsCollection_schemas :
    Returns (schemaClient.schemas schemaNetwork "token" "a b/ü") (schemaPages.map Prod.fst) :=
  (listsCollection schemaClient schemaNetwork "token").2.1 _ _ (schemaNetwork_serves "token")

end UnityCatalogClient
end HarborSql
