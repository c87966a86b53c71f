import Mathlib.Data.List.Pairwise
import Mathlib.Data.List.Perm.Basic
import HarborSql.Theory.Except
import HarborSql.Theory.Wildcard
import HarborSql.Engine.Metadata

/-! `GetColumns` against the columns of a catalog whose names match the patterns. -/

namespace HarborSql

open Wildcard

/-! ## Unity -/

/-- A table, as it is listed and as it is looked up. Names have no `.`. -/
structure StoredTable where
  name : String
  listed : TableInfo
  detailed : TableInfo
  listed_name : tableName listed = name
  plain : '.' ∉ name.toList

structure StoredSchema where
  name : String
  listed : SchemaInfo
  tables : List StoredTable
  listed_name : schemaName listed = name
  plain : '.' ∉ name.toList
  distinct : tables.Pairwise fun t u => ¬eqIgnoreAsciiCase t.name u.name

structure StoredCatalog where
  info : CatalogInfo
  schemas : List StoredSchema
  plain : '.' ∉ info.name.toList
  distinct : schemas.Pairwise fun s u => ¬eqIgnoreAsciiCase s.name u.name

/-- What Unity stores. The names at one place differ by more than their case. -/
structure UnityContent where
  catalogs : List StoredCatalog
  distinct : catalogs.Pairwise fun c d => ¬eqIgnoreAsciiCase c.info.name d.info.name

/-- The item that Unity finds under a name. -/
def findNamed {α : Type} (items : List α) (name : α → String) (wanted : String) : Option α :=
  items.find? fun a => eqIgnoreAsciiCase wanted (name a)

namespace UnityContent

variable (content : UnityContent)

def findCatalog (catalog : String) : Option StoredCatalog :=
  findNamed content.catalogs (·.info.name) catalog

def findSchema (catalog schema : String) : Option StoredSchema := do
  findNamed (← content.findCatalog catalog).schemas (·.name) schema

def findTable (catalog schema table : String) : Option StoredTable := do
  findNamed (← content.findSchema catalog schema).tables (·.name) table

end UnityContent

/-- An answer about what was found, or an error. -/
def Answers {α β : Type} (found : Option α) (view : α → β) (answer : Except HarborError β) : Prop :=
  match found with
  | some a => answer = .ok (view a)
  | none => ∃ e, answer = .error e

theorem Answers.ok {α β : Type} {found : Option α} {view : α → β} {answer : Except HarborError β}
    {a : α} (h : Answers found view answer) (hfound : found = some a) : answer = .ok (view a) := by
  subst hfound
  exact h

theorem Answers.error {α β : Type} {found : Option α} {view : α → β}
    {answer : Except HarborError β} (h : Answers found view answer) (hfound : found = none) :
    ∃ e, answer = .error e := by
  subst hfound
  exact h

/-- Unity answers from its content. The full name of a table has three parts. -/
structure Serves (content : UnityContent) (source : MetadataSource) : Prop where
  catalogs : source.listCatalogs = .ok (content.catalogs.map (·.info))
  schemas : ∀ catalog, Answers (content.findCatalog catalog) (·.schemas.map (·.listed))
    (source.listSchemas catalog)
  tables : ∀ catalog schema, Answers (content.findSchema catalog schema)
    (·.tables.map (·.listed)) (source.listTables catalog schema)
  table : ∀ fullName : String, Answers
    (match fullName.toList.splitOn '.' with
      | [catalog, schema, table] =>
        content.findTable (.ofList catalog) (.ofList schema) (.ofList table)
      | _ => none)
    (·.detailed) (source.table fullName)

/-! ## Patterns -/

/-- The parts of a pattern. -/
def metadataParts : List Char → List (Wildcard Char)
  | [] => []
  | '\\' :: [] => [lit '\\']
  | '\\' :: c :: text => lit c :: metadataParts text
  | c :: text =>
    if c = '%' ∨ c = '*' then any :: metadataParts text
    else if c = '_' then one :: metadataParts text
    else lit c :: metadataParts text

def partRegex : Wildcard Char → List Char
  | any => ".*".toList
  | one => ['.']
  | lit c => regexEscape c

/-- The crate of regular expressions reads the expressions of patterns: `same` relates the
characters that it takes for one whatever their case, and `.` is any character but a line feed. -/
structure DocumentedRegex (same : Char → Char → Prop) (build : RegexBuild) : Prop where
  ascii : ∀ a b, a.toLower = b.toLower → same a b
  reads : ∀ parts : List (Wildcard Char), ∃ regex,
    build (.ofList ('^' :: parts.flatMap partRegex ++ ['$'])) = .ok regex ∧
    ∀ name, regex name = true ↔ CoversBy same (· ≠ '\n') parts name.toList

theorem patternRegex_eq (text : List Char) :
    patternRegex text = (metadataParts text).flatMap partRegex := by
  fun_induction patternRegex text <;> simp_all [metadataParts, partRegex]

section

variable (same : Char → Char → Prop)

/-- The pattern covers the name, whatever the case. -/
def PatternMatches (pattern name : String) : Prop :=
  CoversBy same (fun _ => True) (metadataParts pattern.toList) name.toList

/-- The expression of the pattern covers the name: its wildcards stop at a line feed. -/
def RegexMatches (pattern name : String) : Prop :=
  CoversBy same (· ≠ '\n') (metadataParts pattern.toList) name.toList

/-- How the code finds the names of a pattern: with its expression, or by asking for the literal
name. -/
def Finds (pattern name : String) : Prop :=
  if containsMetadataWildcard pattern then RegexMatches same pattern name
  else eqIgnoreAsciiCase (stripMetadataEscapes pattern) name

/-! ## Columns -/

/-- A column of a table of the content, with its position in the record of the table. -/
structure ColumnEntry where
  catalog : StoredCatalog
  schema : StoredSchema
  table : StoredTable
  column : ColumnInfo
  index : Nat

def ColumnEntry.row (entry : ColumnEntry) : ColumnMetadataRow :=
  columnMetadataRow entry.table.detailed entry.catalog.info.name entry.schema.name
    entry.table.name entry.column entry.index

def tableEntries (catalog : StoredCatalog) (schema : StoredSchema) (table : StoredTable) :
    List ColumnEntry :=
  table.detailed.columns.zipIdx.map fun (column, index) =>
    { catalog, schema, table, column, index }

/-- All columns of the content. -/
def UnityContent.entries (content : UnityContent) : List ColumnEntry :=
  content.catalogs.flatMap fun catalog => catalog.schemas.flatMap fun schema =>
    schema.tables.flatMap fun table => tableEntries catalog schema table

variable (request : GetColumnsRequest) (defaultCatalog : String)

/-- The catalogs of a request, for what its patterns match: an absent or empty one is the
default. -/
def CatalogOf (M : String → String → Prop) (name : String) : Prop :=
  match request.catalog.filter (· ≠ "") with
  | none => eqIgnoreAsciiCase defaultCatalog name
  | some pattern => M pattern name

/-- An empty schema has no match. -/
def SchemaOf (M : String → String → Prop) (name : String) : Prop :=
  match request.schema with
  | none => True
  | some pattern => pattern ≠ "" ∧ M pattern name

/-- An absent or empty pattern matches all names. -/
def NameOf (M : String → String → Prop) (pattern : Option String) (name : String) : Prop :=
  match pattern.filter (· ≠ "") with
  | none => True
  | some pattern => M pattern name

/-- The four names of a column match, the name of the column by a relation of its own. -/
structure Picks (M N : String → String → Prop) (entry : ColumnEntry) : Prop where
  catalog : CatalogOf request defaultCatalog M entry.catalog.info.name
  schema : SchemaOf request M entry.schema.name
  table : NameOf M request.table entry.table.name
  column : NameOf N request.column entry.column.name

open scoped Classical in
/-- The reference: the columns whose names match the patterns. -/
noncomputable def UnityContent.matchingColumns (content : UnityContent) : List ColumnEntry :=
  content.entries.filter fun entry =>
    Picks request defaultCatalog (PatternMatches same) (PatternMatches same) entry

/-- The literal name of a pattern, which the code looks up. -/
def literalOf (pattern : Option String) : Option String :=
  (pattern.filter (· ≠ "")).bind fun pattern =>
    if containsMetadataWildcard pattern then none else some (stripMetadataEscapes pattern)

def catalogLiteral : Option String :=
  match request.catalog.filter (· ≠ "") with
  | none => some defaultCatalog
  | some _ => literalOf request.catalog

/-- Every literal name exists where it is looked up. -/
def LiteralsExist (content : UnityContent) : Prop :=
  request.schema = some "" ∨
    (∀ wanted, catalogLiteral request defaultCatalog = some wanted →
      ∃ catalog ∈ content.catalogs, eqIgnoreAsciiCase wanted catalog.info.name) ∧
    ∀ catalog ∈ content.catalogs,
      CatalogOf request defaultCatalog (Finds same) catalog.info.name →
      (∀ wanted, literalOf request.schema = some wanted →
        ∃ schema ∈ catalog.schemas, eqIgnoreAsciiCase wanted schema.name) ∧
      ∀ schema ∈ catalog.schemas, SchemaOf request (Finds same) schema.name →
        ∀ wanted, literalOf request.table = some wanted →
          ∃ table ∈ schema.tables, eqIgnoreAsciiCase wanted table.name

/-- No matching column is passed over: where a wildcard covers a name it covers no line feed in it,
and where a name is a literal one it is so up to ASCII case. -/
def NonePassedOver (content : UnityContent) : Prop :=
  ∀ entry ∈ content.entries,
    Picks request defaultCatalog (PatternMatches same) (PatternMatches same) entry →
    Picks request defaultCatalog (Finds same) (RegexMatches same) entry

end

/-- A row up to the case of the names of its table, which are those of the request where the record
of the table has none. -/
def ColumnMetadataRow.folded (row : ColumnMetadataRow) : ColumnMetadataRow :=
  { row with
    catalog := toAsciiLowercase row.catalog
    schema := toAsciiLowercase row.schema
    table := toAsciiLowercase row.table }

/-- The rows are the same up to their order and the case of the names of their tables. -/
def RowsAgree (rows rows' : List ColumnMetadataRow) : Prop :=
  (rows.map ColumnMetadataRow.folded).Perm (rows'.map ColumnMetadataRow.folded)

/-! ## Names -/

theorem eqIgnoreAsciiCase_iff {a b : String} :
    eqIgnoreAsciiCase a b ↔ a.toList.map Char.toLower = b.toList.map Char.toLower := beq_iff_eq

theorem toAsciiLowercase_eq {a b : String} (h : eqIgnoreAsciiCase a b) :
    toAsciiLowercase a = toAsciiLowercase b := by
  rw [toAsciiLowercase, toAsciiLowercase, ← String.toList_inj, String.toList_map, String.toList_map]
  exact eqIgnoreAsciiCase_iff.mp h

theorem not_mem_of_eqIgnoreAsciiCase {a b : String} (h : eqIgnoreAsciiCase a b)
    (hb : '.' ∉ b.toList) : '.' ∉ a.toList := by
  intro ha
  have hmem : '.' ∈ b.toList.map Char.toLower := by
    rw [← eqIgnoreAsciiCase_iff.mp h]
    exact List.mem_map.mpr ⟨'.', ha, rfl⟩
  obtain ⟨c, hc, hlower⟩ := List.mem_map.mp hmem
  have : c = '.' := by
    delta Char.toLower at hlower
    split at hlower
    · rename_i hupper
      have hval : c.val.toNat + 32 = 46 := by
        have := congrArg (fun d : Char => d.val.toNat) hlower
        have hle := UInt32.le_iff_toNat_le.mp hupper.2
        have hadd : (c.val + 32).toNat = c.val.toNat + 32 := by
          rw [UInt32.toNat_add]
          have : 'Z'.val.toNat = 90 := rfl
          have : (32 : UInt32).toNat = 32 := rfl
          omega
        rw [← hadd]
        exact this
      have hge := UInt32.le_iff_toNat_le.mp hupper.1
      have : 'A'.val.toNat = 65 := rfl
      omega
    · exact hlower
  exact hb (this ▸ hc)

section

variable {α : Type} {items : List α} {name : α → String} {wanted : String} {a : α}
  (distinct : items.Pairwise fun x y => ¬eqIgnoreAsciiCase (name x) (name y))
include distinct

/-- Unity finds the one item that has the name up to its case. -/
theorem findNamed_eq_some :
    findNamed items name wanted = some a ↔ a ∈ items ∧ eqIgnoreAsciiCase wanted (name a) := by
  constructor
  · intro h
    exact ⟨List.mem_of_find?_eq_some h, by simpa using List.find?_some h⟩
  · intro ⟨ha, hname⟩
    have hsome : (findNamed items name wanted).isSome :=
      List.find?_isSome.mpr ⟨a, ha, hname⟩
    obtain ⟨b, hb⟩ := Option.isSome_iff_exists.mp hsome
    have hbname : eqIgnoreAsciiCase wanted (name b) := by simpa using List.find?_some hb
    have heq : a = b := by
      by_contra hne
      have : Std.Symm fun x y => ¬eqIgnoreAsciiCase (name x) (name y) := ⟨fun x y hxy hyx =>
        hxy (eqIgnoreAsciiCase_iff.mpr (eqIgnoreAsciiCase_iff.mp hyx).symm)⟩
      refine distinct.forall ha (List.mem_of_find?_eq_some hb) hne ?_
      rw [eqIgnoreAsciiCase_iff] at hname hbname ⊢
      rw [← hname, hbname]
    rw [hb, heq]

theorem nodup_of_distinct : items.Nodup := by
  refine distinct.imp fun {x y} h heq => h ?_
  rw [heq]
  exact eqIgnoreAsciiCase_self _

end

/-- The candidates of a level, each with the item that Unity finds under it, are the selected
items. -/
structure Resolves {α : Type} (items : List α) (name : α → String) (selected : α → Prop)
    (candidates : List String) (found : List α) : Prop where
  finds : List.Forall₂ (fun wanted a => findNamed items name wanted = some a) candidates found
  mem : ∀ a, a ∈ found ↔ a ∈ items ∧ selected a
  nodup : found.Nodup

namespace Resolves

variable {α : Type} {items : List α} {name : α → String} {wanted : String} {a : α}
  (distinct : items.Pairwise fun x y => ¬eqIgnoreAsciiCase (name x) (name y))
include distinct

/-- A literal name that exists is its own candidate. -/
theorem literal {found : α} (h : findNamed items name wanted = some found) :
    Resolves items name (fun a => eqIgnoreAsciiCase wanted (name a)) [wanted] [found] where
  finds := .cons h .nil
  mem a := by
    rw [List.mem_singleton, ← findNamed_eq_some distinct, h, Option.some.injEq, eq_comm]
  nodup := List.nodup_singleton found

/-- The names of a list that a matcher accepts, sorted. -/
theorem listed {selected : α → Prop} {accepts : String → Bool}
    (h : ∀ a, accepts (name a) = true ↔ selected a) :
    ∃ found, Resolves items name selected
      (sortByLowercase ((items.map name).filter accepts)) found := by
  have hmap := List.map_mergeSort (f := name) (l := items.filter fun a => accepts (name a))
    (r := fun a b => decide (toAsciiLowercase (name a) ≤ toAsciiLowercase (name b)))
    (s := fun x y => decide (toAsciiLowercase x ≤ toAsciiLowercase y)) fun _ _ _ _ => rfl
  refine ⟨(items.filter fun a => accepts (name a)).mergeSort
    fun a b => decide (toAsciiLowercase (name a) ≤ toAsciiLowercase (name b)), ?_, ?_, ?_⟩
  · rw [sortByLowercase, List.filter_map, Function.comp_def, ← hmap, List.forall₂_map_left_iff,
      List.forall₂_same]
    intro a ha
    have hmem := (List.mem_filter.mp (List.mem_mergeSort.mp ha)).1
    exact (findNamed_eq_some distinct).mpr ⟨hmem, eqIgnoreAsciiCase_self _⟩
  · intro a
    rw [List.mem_mergeSort, List.mem_filter, h]
  · exact (List.mergeSort_perm _ _).nodup_iff.mpr ((nodup_of_distinct distinct).filter _)

end Resolves

/-! ## Rows -/

namespace RowsAgree

variable {rows rows' rows'' more more' : List ColumnMetadataRow}

theorem trans (h : RowsAgree rows rows') (h' : RowsAgree rows' rows'') : RowsAgree rows rows'' :=
  List.Perm.trans h h'

theorem symm (h : RowsAgree rows rows') : RowsAgree rows' rows := List.Perm.symm h

theorem of_perm (h : rows.Perm rows') : RowsAgree rows rows' := h.map _

theorem append (h : RowsAgree rows rows') (hmore : RowsAgree more more') :
    RowsAgree (rows ++ more) (rows' ++ more') := by
  rw [RowsAgree, List.map_append, List.map_append]
  exact List.Perm.append h hmore

theorem length_eq (h : RowsAgree rows rows') : rows.length = rows'.length := by
  simpa using List.Perm.length_eq h

end RowsAgree

/-- A loop over candidates whose runs agree with what is found agrees with all that is found. -/
theorem rowsAgree_mapM {α : Type} {finds : String → α → Prop} {candidates : List String}
    {found : List α} {f : String → Except HarborError (List ColumnMetadataRow)}
    {g : α → List ColumnMetadataRow} {runs : List (List ColumnMetadataRow)}
    (hfinds : List.Forall₂ finds candidates found)
    (hagree : ∀ wanted a rows, finds wanted a → f wanted = .ok rows → RowsAgree rows (g a))
    (hruns : candidates.mapM f = .ok runs) : RowsAgree runs.flatten (found.flatMap g) := by
  rw [Except.mapM_eq_ok] at hruns
  induction hfinds generalizing runs with
  | nil =>
    obtain rfl := List.forall₂_nil_left_iff.mp hruns
    exact .of_perm (List.Perm.refl _)
  | cons hfind _ ih =>
    obtain ⟨rows, rest, hrows, hrest, rfl⟩ := List.forall₂_cons_left_iff.mp hruns
    rw [List.flatten_cons, List.flatMap_cons]
    exact (hagree _ _ _ hfind hrows).append (ih hrest)

/-! ## One level -/

section

variable {same : Char → Char → Prop} {build : RegexBuild} (R : DocumentedRegex same build)
include R

theorem metadataPattern_new (pattern : Option String) :
    ∃ compiled, MetadataPattern.new build pattern = .ok compiled ∧
      ∀ name, compiled.isMatch name = true ↔ NameOf (RegexMatches same) pattern name := by
  rw [MetadataPattern.new]
  cases hpattern : pattern.filter (· ≠ "") with
  | none =>
    refine ⟨⟨none⟩, rfl, fun name => ?_⟩
    rw [NameOf, hpattern]
    exact iff_of_true rfl trivial
  | some text =>
    obtain ⟨regex, hbuild, hregex⟩ := R.reads (metadataParts text.toList)
    have hcompiled : build (metadataPatternRegex text) = .ok regex := by
      rw [metadataPatternRegex, patternRegex_eq]
      exact hbuild
    refine ⟨⟨some regex⟩, by simp only [hcompiled], fun name => ?_⟩
    rw [NameOf, hpattern]
    exact hregex name

theorem metadataPattern_some {text : String} (h : text ≠ "") :
    ∃ compiled, MetadataPattern.new build (some text) = .ok compiled ∧
      ∀ name, compiled.isMatch name = true ↔ RegexMatches same text name := by
  obtain ⟨compiled, hcompiled, hmatch⟩ := metadataPattern_new R (some text)
  refine ⟨compiled, hcompiled, fun name => ?_⟩
  rw [hmatch, NameOf]
  simp [Option.filter, h]

end

theorem filter_ne_empty {pattern : Option String} {text : String}
    (h : pattern.filter (· ≠ "") = some text) : pattern = some text ∧ text ≠ "" := by
  obtain ⟨heq, hne⟩ := Option.filter_eq_some_iff.mp h
  exact ⟨heq, of_decide_eq_true hne⟩

theorem sortTableRows_map {schema : String} {names : List String} :
    sortTableRows (names.map fun name => { schema, name }) =
      (sortByLowercase names).map fun name => { schema, name } := by
  rw [sortTableRows, sortByLowercase]
  exact (List.map_mergeSort (f := fun name => ({ schema, name } : TableRow)) fun _ _ _ _ => rfl).symm

/-- What a level gives: candidates for the selected items, or a literal name that Unity does not
find. -/
inductive Level {α : Type} (items : List α) (name : α → String) (selected : α → Prop)
    (literal : Option String) (candidates : List String) : Prop where
  | resolves (found : List α) : Resolves items name selected candidates found →
    (∀ wanted, literal = some wanted → ∃ a ∈ items, eqIgnoreAsciiCase wanted (name a)) →
    Level items name selected literal candidates
  | missing (wanted : String) : literal = some wanted → candidates = [wanted] →
    findNamed items name wanted = none → Level items name selected literal candidates

theorem findNamed_eq_none {α : Type} {items : List α} {name : α → String} {wanted : String} :
    findNamed items name wanted = none ↔ ¬∃ a ∈ items, eqIgnoreAsciiCase wanted (name a) := by
  simp [findNamed, List.find?_eq_none]

/-- A level with a literal name. -/
theorem level_literal {α : Type} {items : List α} {name : α → String} {wanted : String}
    (distinct : items.Pairwise fun x y => ¬eqIgnoreAsciiCase (name x) (name y)) :
    Level items name (fun a => eqIgnoreAsciiCase wanted (name a)) (some wanted) [wanted] := by
  cases hfind : findNamed items name wanted with
  | none => exact .missing wanted rfl rfl hfind
  | some a =>
    refine .resolves [a] (Resolves.literal distinct hfind) fun wanted' heq => ?_
    obtain rfl := Option.some.inj heq
    exact ⟨a, (findNamed_eq_some distinct).mp hfind⟩

/-- A level whose names are listed. -/
theorem level_listed {α : Type} {items : List α} {name : α → String} {selected : α → Prop}
    {accepts : String → Bool}
    (distinct : items.Pairwise fun x y => ¬eqIgnoreAsciiCase (name x) (name y))
    (h : ∀ a, accepts (name a) = true ↔ selected a) :
    Level items name selected none (sortByLowercase ((items.map name).filter accepts)) := by
  obtain ⟨found, hfound⟩ := Resolves.listed distinct h
  exact .resolves found hfound fun _ heq => nomatch heq

section

variable {same : Char → Char → Prop} {build : RegexBuild} {content : UnityContent}
  {source : MetadataSource} (R : DocumentedRegex same build) (H : Serves content source)
  (request : GetColumnsRequest) (defaultCatalog : String)
include R H

theorem resolveCatalogs :
    ∃ candidates, resolveCatalogCandidates build source request.catalog defaultCatalog =
      .ok candidates ∧
      Level content.catalogs (·.info.name)
        (fun c => CatalogOf request defaultCatalog (Finds same) c.info.name)
        (catalogLiteral request defaultCatalog) candidates := by
  rw [resolveCatalogCandidates]
  simp only [CatalogOf, catalogLiteral, literalOf]
  cases hpattern : request.catalog.filter (· ≠ "") with
  | none => exact ⟨_, rfl, level_literal content.distinct⟩
  | some text =>
    obtain ⟨-, hne⟩ := filter_ne_empty hpattern
    cases hwild : containsMetadataWildcard text with
    | false =>
      simp only [Finds, hwild, Option.bind_some, Bool.not_false, if_true, Bool.false_eq_true,
        if_false]
      exact ⟨_, rfl, level_literal content.distinct⟩
    | true =>
      obtain ⟨compiled, hcompiled, hmatch⟩ := metadataPattern_some R hne
      simp only [Finds, hwild, Option.bind_some, Bool.not_true, Bool.false_eq_true, if_false,
        if_true, hcompiled, H.catalogs, bind, Except.bind, pure, Except.pure]
      refine ⟨_, rfl, ?_⟩
      rw [List.map_map]
      exact level_listed content.distinct fun c => hmatch c.info.name

theorem listSchemas_accepts {catalog : String} {stored : StoredCatalog} (pattern : Option String)
    (selected : String → Prop) (hcatalog : content.findCatalog catalog = some stored)
    (hselected : ∀ name, NameOf (RegexMatches same) pattern name ↔ selected name) :
    ∃ candidates, listSchemaCandidates build source catalog pattern = .ok candidates ∧
      Level stored.schemas (·.name) (fun s => selected s.name) none candidates := by
  obtain ⟨compiled, hcompiled, hmatch⟩ := metadataPattern_new R pattern
  have hlist := (H.schemas catalog).ok hcatalog
  simp only [listSchemaCandidates, hcompiled, hlist, bind, Except.bind, pure, Except.pure]
  refine ⟨_, rfl, ?_⟩
  rw [List.map_map, List.map_congr_left (g := (·.name)) fun s _ => s.listed_name]
  exact level_listed stored.distinct fun s => (hmatch s.name).trans (hselected s.name)

theorem resolveSchemas {catalog : String} {stored : StoredCatalog}
    (hcatalog : content.findCatalog catalog = some stored) :
    ∃ candidates, resolveSchemaCandidates build source catalog request.schema = .ok candidates ∧
      Level stored.schemas (·.name) (fun s => SchemaOf request (Finds same) s.name)
        (literalOf request.schema) candidates := by
  simp only [resolveSchemaCandidates, SchemaOf, literalOf]
  cases request.schema with
  | none => exact listSchemas_accepts R H none (fun _ => True) hcatalog fun _ => Iff.rfl
  | some text =>
    by_cases hempty : text = ""
    · subst hempty
      refine ⟨[], rfl, .resolves [] ⟨.nil, fun s => ?_, List.nodup_nil⟩ fun _ heq => ?_⟩
      · simp
      · simp [Option.filter_some] at heq
    · simp only [hempty, if_false, ne_eq, not_false_eq_true, true_and]
      cases hwild : containsMetadataWildcard text with
      | false =>
        simp only [Finds, hwild, Bool.not_false, if_true, Bool.false_eq_true, if_false,
          Option.filter_some, hempty, decide_not, decide_false, Option.bind_some]
        exact ⟨_, rfl, level_literal stored.distinct⟩
      | true =>
        simp only [Finds, hwild, Bool.not_true, if_true, Bool.false_eq_true, if_false,
          Option.filter_some, hempty, decide_not, decide_false, Bool.not_false, Option.bind_some]
        refine listSchemas_accepts R H (some text) (RegexMatches same text) hcatalog fun name => ?_
        simp [NameOf, Option.filter, hempty]

theorem listTables_accepts {catalog schema : String} {stored : StoredSchema}
    (pattern : Option String) (selected : String → Prop)
    (hschema : content.findSchema catalog schema = some stored)
    (hselected : ∀ name, NameOf (RegexMatches same) pattern name ↔ selected name) :
    ∃ candidates, listMatchingTables build source catalog schema pattern =
        .ok (candidates.map fun name => { schema, name }) ∧
      Level stored.tables (·.name) (fun t => selected t.name) none candidates := by
  obtain ⟨compiled, hcompiled, hmatch⟩ := metadataPattern_new R pattern
  have hlist := (H.tables catalog schema).ok hschema
  simp only [listMatchingTables, hcompiled, hlist, bind, Except.bind, pure, Except.pure]
  have hnames : (stored.tables.map (·.listed)).map tableName = stored.tables.map (·.name) := by
    rw [List.map_map]
    exact List.map_congr_left fun t _ => t.listed_name
  rw [hnames, sortTableRows_map]
  exact ⟨_, rfl, level_listed stored.distinct fun t => (hmatch t.name).trans (hselected t.name)⟩

theorem resolveTables {catalog schema : String} {stored : StoredSchema}
    (hschema : content.findSchema catalog schema = some stored) :
    ∃ candidates, resolveTableCandidates build source catalog schema request.table =
        .ok (candidates.map fun name => { schema, name }) ∧
      Level stored.tables (·.name) (fun t => NameOf (Finds same) request.table t.name)
        (literalOf request.table) candidates := by
  simp only [resolveTableCandidates, literalOf, NameOf]
  cases hpattern : request.table.filter (· ≠ "") with
  | none => exact listTables_accepts R H none (fun _ => True) hschema fun _ => Iff.rfl
  | some text =>
    obtain ⟨-, hne⟩ := filter_ne_empty hpattern
    cases hwild : containsMetadataWildcard text with
    | false =>
      simp only [Finds, hwild, Option.bind_some, Bool.false_eq_true, if_false]
      exact ⟨[stripMetadataEscapes text], rfl, level_literal stored.distinct⟩
    | true =>
      simp only [Finds, hwild, Option.bind_some, if_true]
      refine listTables_accepts R H (some text) (RegexMatches same text) hschema fun name => ?_
      simp [NameOf, Option.filter, hne]

/-! ## Places that do not exist -/

omit R in
/-- Without its schema, a table is asked for by its literal name or not at all. -/
theorem resolveTables_missing {catalog schema : String} {candidates : List TableRow}
    (hschema : content.findSchema catalog schema = none)
    (h : resolveTableCandidates build source catalog schema request.table = .ok candidates) :
    candidates ≠ [] := by
  obtain ⟨e, herror⟩ := (H.tables catalog schema).error hschema
  have hlist : ∀ pattern, listMatchingTables build source catalog schema pattern ≠
      .ok candidates := by
    intro pattern hok
    rw [listMatchingTables] at hok
    obtain ⟨compiled, -, hok⟩ := Except.bind_eq_ok.mp hok
    rw [herror] at hok
    obtain ⟨tables, htables, -⟩ := Except.bind_eq_ok.mp hok
    cases htables
  rw [resolveTableCandidates] at h
  split at h
  · exact absurd h (hlist _)
  · split at h
    · exact absurd h (hlist _)
    · obtain rfl := Except.ok.inj h
      exact List.cons_ne_nil _ _

omit R in
theorem resolveSchemas_missing {catalog : String} {candidates : List String}
    (hcatalog : content.findCatalog catalog = none) (hschema : request.schema ≠ some "")
    (h : resolveSchemaCandidates build source catalog request.schema = .ok candidates) :
    candidates ≠ [] := by
  obtain ⟨e, herror⟩ := (H.schemas catalog).error hcatalog
  have hlist : ∀ pattern, listSchemaCandidates build source catalog pattern ≠ .ok candidates := by
    intro pattern hok
    rw [listSchemaCandidates] at hok
    obtain ⟨compiled, -, hok⟩ := Except.bind_eq_ok.mp hok
    rw [herror] at hok
    obtain ⟨schemas, hschemas, -⟩ := Except.bind_eq_ok.mp hok
    cases hschemas
  simp only [resolveSchemaCandidates] at h
  split at h
  · exact absurd h (hlist _)
  · rename_i text htext
    split at h
    · rename_i hempty
      exact absurd (htext.trans (congrArg some hempty)) hschema
    · split at h
      · obtain rfl := Except.ok.inj h
        exact List.cons_ne_nil _ _
      · exact absurd h (hlist _)

end

/-! ## Full names -/

theorem not_mem_of_splitOn {text part : List Char} (h : text.splitOn '.' = [part]) :
    '.' ∉ text := by
  intro hmem
  obtain ⟨before, after, rfl⟩ := List.append_of_mem hmem
  rw [List.splitOn_append_cons_self] at h
  have hlength := congrArg List.length h
  have hbefore := List.length_pos_iff.mpr (List.splitOn_ne_nil '.' before)
  have hafter := List.length_pos_iff.mpr (List.splitOn_ne_nil '.' after)
  rw [List.length_append, List.length_singleton] at hlength
  omega

theorem length_splitOn_eq_one {text : List Char} (h : (text.splitOn '.').length = 1) :
    '.' ∉ text := by
  obtain ⟨part, hpart⟩ := List.length_eq_one_iff.mp h
  exact not_mem_of_splitOn hpart

theorem UnityContent.findTable_plain {content : UnityContent} {catalog schema table : String}
    {stored : StoredTable} (h : content.findTable catalog schema table = some stored) :
    '.' ∉ catalog.toList ∧ '.' ∉ schema.toList ∧ '.' ∉ table.toList := by
  obtain ⟨s, hs, ht⟩ := Option.bind_eq_some_iff.mp h
  obtain ⟨c, hc, hs⟩ := Option.bind_eq_some_iff.mp hs
  obtain ⟨-, hcatalog⟩ := (findNamed_eq_some content.distinct).mp hc
  obtain ⟨-, hschema⟩ := (findNamed_eq_some c.distinct).mp hs
  obtain ⟨-, htable⟩ := (findNamed_eq_some s.distinct).mp ht
  exact ⟨not_mem_of_eqIgnoreAsciiCase hcatalog c.plain,
    not_mem_of_eqIgnoreAsciiCase hschema s.plain, not_mem_of_eqIgnoreAsciiCase htable stored.plain⟩

/-- The answer about a table goes by the three parts of its full name. -/
theorem Serves.fullName {content : UnityContent} {source : MetadataSource}
    (H : Serves content source) (catalog schema table : String) :
    Answers (content.findTable catalog schema table) (·.detailed)
      (source.table (tableFullIdentifier catalog schema table)) := by
  have hparts : (tableFullIdentifier catalog schema table).toList.splitOn '.' =
      catalog.toList.splitOn '.' ++ (schema.toList.splitOn '.' ++ table.toList.splitOn '.') := by
    have htext : (tableFullIdentifier catalog schema table).toList =
        catalog.toList ++ '.' :: (schema.toList ++ '.' :: table.toList) := by
      simp [tableFullIdentifier, toString]
    rw [htext, List.splitOn_append_cons_self, List.splitOn_append_cons_self]
  have hanswer := H.table (tableFullIdentifier catalog schema table)
  by_cases hplain : '.' ∉ catalog.toList ∧ '.' ∉ schema.toList ∧ '.' ∉ table.toList
  · rw [hparts, List.splitOn_eq_singleton hplain.1, List.splitOn_eq_singleton hplain.2.1,
      List.splitOn_eq_singleton hplain.2.2] at hanswer
    simpa only [List.cons_append, List.nil_append, String.ofList_toList] using hanswer
  · have hnone : content.findTable catalog schema table = none := by
      cases hfind : content.findTable catalog schema table with
      | none => rfl
      | some stored => exact absurd (UnityContent.findTable_plain hfind) hplain
    rw [hnone]
    split at hanswer
    · rename_i c s t heq
      rw [hparts] at heq
      have hlength := congrArg List.length heq
      have hc := List.length_pos_iff.mpr (List.splitOn_ne_nil '.' catalog.toList)
      have hs := List.length_pos_iff.mpr (List.splitOn_ne_nil '.' schema.toList)
      have ht := List.length_pos_iff.mpr (List.splitOn_ne_nil '.' table.toList)
      simp only [List.length_append, List.length_cons, List.length_nil] at hlength
      exact absurd ⟨length_splitOn_eq_one (by omega), length_splitOn_eq_one (by omega),
        length_splitOn_eq_one (by omega)⟩ hplain
    · exact hanswer

/-! ## Runs -/

open scoped Classical in
/-- The run over the candidates of a level. It needs the literal name and a run for each selected
item, and gives the rows of the selected items. -/
theorem Level.mapM {α : Type} {items : List α} {name : α → String} {selected runs : α → Prop}
    {literal : Option String} {candidates : List String}
    (L : Level items name selected literal candidates)
    {f : String → Except HarborError (List ColumnMetadataRow)} {g : α → List ColumnMetadataRow}
    (distinct : items.Pairwise fun x y => ¬eqIgnoreAsciiCase (name x) (name y))
    (hruns : ∀ wanted a, findNamed items name wanted = some a →
      ((∃ rows, f wanted = .ok rows) ↔ runs a))
    (hrows : ∀ wanted a rows, findNamed items name wanted = some a → f wanted = .ok rows →
      RowsAgree rows (g a))
    (hmissing : ∀ wanted, findNamed items name wanted = none → ∃ e, f wanted = .error e) :
    ((∃ all, candidates.mapM f = .ok all) ↔
      (∀ wanted, literal = some wanted → ∃ a ∈ items, eqIgnoreAsciiCase wanted (name a)) ∧
        ∀ a ∈ items, selected a → runs a) ∧
    ∀ all, candidates.mapM f = .ok all →
      RowsAgree all.flatten ((items.filter fun a => selected a).flatMap g) := by
  cases L with
  | resolves found hresolves hliteral =>
    constructor
    · rw [Except.exists_mapM_eq_ok, and_iff_right hliteral]
      constructor
      · intro h a ha hselected
        obtain ⟨wanted, hwanted, hfind⟩ : ∃ wanted ∈ candidates,
            findNamed items name wanted = some a := by
          have hmem := (hresolves.mem a).mpr ⟨ha, hselected⟩
          obtain ⟨i, hi, rfl⟩ := List.mem_iff_getElem.mp hmem
          have hlength := hresolves.finds.length_eq
          exact ⟨candidates[i], List.getElem_mem _, hresolves.finds.get (hlength ▸ hi) hi⟩
        exact (hruns wanted a hfind).mp (h wanted hwanted)
      · intro h wanted hwanted
        obtain ⟨i, hi, rfl⟩ := List.mem_iff_getElem.mp hwanted
        have hi' := hresolves.finds.length_eq ▸ hi
        have hfind : findNamed items name candidates[i] = some found[i] := hresolves.finds.get hi hi'
        obtain ⟨hmem, hselected⟩ := (hresolves.mem found[i]).mp (List.getElem_mem _)
        exact (hruns _ _ hfind).mpr (h _ hmem hselected)
    · intro all hall
      have hperm : found.Perm (items.filter fun a => selected a) := by
        rw [List.perm_ext_iff_of_nodup hresolves.nodup ((nodup_of_distinct distinct).filter _)]
        intro a
        rw [hresolves.mem, List.mem_filter, decide_eq_true_eq]
      exact (rowsAgree_mapM hresolves.finds hrows hall).trans (.of_perm (hperm.flatMap_right g))
  | missing wanted hliteral hcandidates hfind =>
    subst hcandidates
    obtain ⟨e, he⟩ := hmissing wanted hfind
    have hnone : ∀ all, [wanted].mapM f ≠ .ok all := by
      intro all hall
      obtain ⟨rows, hrows⟩ := Except.exists_mapM_eq_ok.mp ⟨all, hall⟩ wanted (List.mem_singleton_self _)
      rw [he] at hrows
      cases hrows
    constructor
    · refine iff_of_false (fun ⟨all, hall⟩ => hnone all hall) fun h => ?_
      exact findNamed_eq_none.mp hfind (h.1 wanted hliteral)
    · exact fun all hall => absurd hall (hnone all)

theorem columnMetadataRow_folded {table : TableInfo} {catalog catalog' schema schema' name name' :
    String} {column : ColumnInfo} {index : Nat} (hcatalog : eqIgnoreAsciiCase catalog catalog')
    (hschema : eqIgnoreAsciiCase schema schema') (hname : eqIgnoreAsciiCase name name') :
    (columnMetadataRow table catalog schema name column index).folded =
      (columnMetadataRow table catalog' schema' name' column index).folded := by
  simp only [columnMetadataRow, ColumnMetadataRow.folded]
  cases table.catalogName <;> cases table.schemaName <;> cases table.name <;>
    simp [toAsciiLowercase_eq hcatalog, toAsciiLowercase_eq hschema, toAsciiLowercase_eq hname]

section

variable (same : Char → Char → Prop) (request : GetColumnsRequest) (defaultCatalog : String)

open scoped Classical in
/-- The rows of the selected columns of a table. -/
noncomputable def foundInTable (catalog : StoredCatalog) (schema : StoredSchema)
    (table : StoredTable) : List ColumnMetadataRow :=
  ((tableEntries catalog schema table).filter fun entry =>
    NameOf (RegexMatches same) request.column entry.column.name).map ColumnEntry.row

open scoped Classical in
noncomputable def foundInSchema (catalog : StoredCatalog) (schema : StoredSchema) :
    List ColumnMetadataRow :=
  (schema.tables.filter fun table => NameOf (Finds same) request.table table.name).flatMap
    (foundInTable same request catalog schema)

open scoped Classical in
noncomputable def foundInCatalog (catalog : StoredCatalog) : List ColumnMetadataRow :=
  (catalog.schemas.filter fun schema => SchemaOf request (Finds same) schema.name).flatMap
    (foundInSchema same request catalog)

open scoped Classical in
noncomputable def foundRows (content : UnityContent) : List ColumnMetadataRow :=
  (content.catalogs.filter fun catalog =>
    CatalogOf request defaultCatalog (Finds same) catalog.info.name).flatMap
    (foundInCatalog same request)

/-- The literal table of a request exists. -/
def TableExists (schema : StoredSchema) : Prop :=
  ∀ wanted, literalOf request.table = some wanted →
    ∃ table ∈ schema.tables, eqIgnoreAsciiCase wanted table.name

/-- The literal schema exists, and the literal table in every schema of the request. -/
def SchemaExists (catalog : StoredCatalog) : Prop :=
  (∀ wanted, literalOf request.schema = some wanted →
    ∃ schema ∈ catalog.schemas, eqIgnoreAsciiCase wanted schema.name) ∧
  ∀ schema ∈ catalog.schemas, SchemaOf request (Finds same) schema.name →
    TableExists request schema

end

section

variable {same : Char → Char → Prop} {build : RegexBuild} {content : UnityContent}
  {source : MetadataSource} (R : DocumentedRegex same build) (H : Serves content source)
  {request : GetColumnsRequest} {defaultCatalog : String} {columnPattern : MetadataPattern}
  (hpattern : ∀ name, columnPattern.isMatch name = true ↔
    NameOf (RegexMatches same) request.column name)
include R H hpattern

omit R in
theorem tableColumnRows_ok {catalog schema name : String} {c : StoredCatalog} {s : StoredSchema}
    {t : StoredTable} (hcatalog : content.findCatalog catalog = some c)
    (hschema : findNamed c.schemas (·.name) schema = some s)
    (htable : findNamed s.tables (·.name) name = some t) :
    ∃ rows, tableColumnRows source columnPattern catalog schema ⟨schema, name⟩ = .ok rows ∧
      RowsAgree rows (foundInTable same request c s t) := by
  classical
  have hfind : content.findTable catalog schema name = some t := by
    simp [UnityContent.findTable, UnityContent.findSchema, hcatalog, hschema, htable]
  have hanswer := (H.fullName catalog schema name).ok hfind
  refine ⟨columnMetadataRows t.detailed catalog schema name columnPattern,
    by simp only [tableColumnRows, hanswer, bind, Except.bind, pure, Except.pure], ?_⟩
  obtain ⟨-, hc⟩ := (findNamed_eq_some content.distinct).mp hcatalog
  obtain ⟨-, hs⟩ := (findNamed_eq_some c.distinct).mp hschema
  obtain ⟨-, ht⟩ := (findNamed_eq_some s.distinct).mp htable
  rw [RowsAgree, columnMetadataRows, foundInTable, tableEntries, List.filter_map, List.map_map,
    List.map_map, List.map_map]
  have hfilter : (fun p : ColumnInfo × Nat => columnPattern.isMatch p.1.name) =
      (fun entry : ColumnEntry => decide (NameOf (RegexMatches same) request.column
        entry.column.name)) ∘ fun p => ⟨c, s, t, p.1, p.2⟩ := by
    funext p
    rw [Function.comp_apply, Bool.eq_iff_iff, hpattern, decide_eq_true_eq]
  rw [← hfilter]
  have hperm := ((List.mergeSort_perm t.detailed.columns.zipIdx fun x y =>
    decide (x.1.position.getD Int32.maxValue ≤ y.1.position.getD Int32.maxValue)).filter
      fun p => columnPattern.isMatch p.1.name).map
      fun p => (columnMetadataRow t.detailed c.info.name s.name t.name p.1 p.2).folded
  refine List.Perm.trans (List.Perm.of_eq (List.map_congr_left fun p _ => ?_)) hperm
  exact columnMetadataRow_folded hc hs ht

omit R hpattern in
theorem tableColumnRows_missing {catalog schema name : String}
    (hfind : content.findTable catalog schema name = none) :
    ∃ e, tableColumnRows source columnPattern catalog schema ⟨schema, name⟩ = .error e := by
  obtain ⟨e, he⟩ := (H.fullName catalog schema name).error hfind
  exact ⟨e, by simp only [tableColumnRows, he, bind, Except.bind]⟩

theorem schemaColumnRows_ok {catalog schema : String} {c : StoredCatalog} {s : StoredSchema}
    (hcatalog : content.findCatalog catalog = some c)
    (hschema : findNamed c.schemas (·.name) schema = some s) :
    ((∃ rows, schemaColumnRows build source request columnPattern catalog schema = .ok rows) ↔
      TableExists request s) ∧
    ∀ rows, schemaColumnRows build source request columnPattern catalog schema = .ok rows →
      RowsAgree rows (foundInSchema same request c s) := by
  have hfind : content.findSchema catalog schema = some s := by
    simp [UnityContent.findSchema, hcatalog, hschema]
  obtain ⟨candidates, hcandidates, L⟩ := resolveTables R H request hfind
  let f := fun name => tableColumnRows source columnPattern catalog schema ⟨schema, name⟩
  have hrun : schemaColumnRows build source request columnPattern catalog schema =
      List.flatten <$> candidates.mapM f := by
    simp only [schemaColumnRows, hcandidates, List.mapM_map, bind, Except.bind, f, Function.comp_def]
    rfl
  have hok : ∀ name t, findNamed s.tables (·.name) name = some t → ∃ rows, f name = .ok rows ∧
      RowsAgree rows (foundInTable same request c s t) := fun name t ht =>
    tableColumnRows_ok H hpattern hcatalog hschema ht
  obtain ⟨hexists, hrows⟩ := L.mapM (f := f) (g := foundInTable same request c s) s.distinct
    (fun name t ht => iff_of_true ((hok name t ht).imp fun _ h => h.1) trivial)
    (fun name t rows ht hf => by
      obtain ⟨rows', hrows', hagree⟩ := hok name t ht
      rw [Except.ok.inj (hf.symm.trans hrows')]
      exact hagree)
    (fun name hname => tableColumnRows_missing H (by
      simp [UnityContent.findTable, hfind, hname]))
  rw [hrun]
  constructor
  · rw [TableExists, ← and_iff_left (a := ∀ wanted, _ → _) fun _ _ _ => trivial, ← hexists]
    simp only [Except.map_eq_ok]
    exact ⟨fun ⟨_, all, hall, _⟩ => ⟨all, hall⟩, fun ⟨all, hall⟩ => ⟨_, all, hall, rfl⟩⟩
  · intro rows h
    obtain ⟨all, hall, rfl⟩ := Except.map_eq_ok.mp h
    exact hrows all hall

omit R hpattern in
/-- A schema that does not exist is an error: a table of it is looked up, or its tables are
listed. -/
theorem schemaColumnRows_missing {catalog schema : String}
    (hschema : content.findSchema catalog schema = none) :
    ∃ e, schemaColumnRows build source request columnPattern catalog schema = .error e := by
  cases hrun : schemaColumnRows build source request columnPattern catalog schema with
  | error e => exact ⟨e, rfl⟩
  | ok rows =>
    rw [schemaColumnRows] at hrun
    obtain ⟨tables, htables, hrun⟩ := Except.bind_eq_ok.mp hrun
    obtain ⟨all, hall, -⟩ := Except.bind_eq_ok.mp hrun
    obtain ⟨table, rest, rfl⟩ :=
      List.exists_cons_of_ne_nil (resolveTables_missing H request hschema htables)
    obtain ⟨rows', hrows'⟩ := Except.exists_mapM_eq_ok.mp ⟨all, hall⟩ table List.mem_cons_self
    have hfind : content.findTable catalog schema table.name = none := by
      simp [UnityContent.findTable, hschema]
    obtain ⟨e, he⟩ := (H.fullName catalog schema table.name).error hfind
    rw [tableColumnRows, he] at hrows'
    cases hrows'

theorem catalogColumnRows_ok {catalog : String} {c : StoredCatalog}
    (hcatalog : content.findCatalog catalog = some c) :
    ((∃ rows, catalogColumnRows build source request columnPattern catalog = .ok rows) ↔
      SchemaExists same request c) ∧
    ∀ rows, catalogColumnRows build source request columnPattern catalog = .ok rows →
      RowsAgree rows (foundInCatalog same request c) := by
  obtain ⟨candidates, hcandidates, L⟩ := resolveSchemas R H request hcatalog
  let f := schemaColumnRows build source request columnPattern catalog
  have hrun : catalogColumnRows build source request columnPattern catalog =
      List.flatten <$> candidates.mapM f := by
    simp only [catalogColumnRows, hcandidates, bind, Except.bind, f]
    rfl
  obtain ⟨hexists, hrows⟩ := L.mapM (f := f) (g := foundInSchema same request c) c.distinct
    (fun schema s hs => (schemaColumnRows_ok R H hpattern hcatalog hs).1)
    (fun schema s rows hs => (schemaColumnRows_ok R H hpattern hcatalog hs).2 rows)
    (fun schema hs => schemaColumnRows_missing H (by
      simp [UnityContent.findSchema, hcatalog, hs]))
  rw [hrun]
  constructor
  · rw [SchemaExists, ← hexists]
    simp only [Except.map_eq_ok]
    exact ⟨fun ⟨_, all, hall, _⟩ => ⟨all, hall⟩, fun ⟨all, hall⟩ => ⟨_, all, hall, rfl⟩⟩
  · intro rows h
    obtain ⟨all, hall, rfl⟩ := Except.map_eq_ok.mp h
    exact hrows all hall

omit R hpattern in
theorem catalogColumnRows_missing {catalog : String}
    (hcatalog : content.findCatalog catalog = none) (hschema : request.schema ≠ some "") :
    ∃ e, catalogColumnRows build source request columnPattern catalog = .error e := by
  cases hrun : catalogColumnRows build source request columnPattern catalog with
  | error e => exact ⟨e, rfl⟩
  | ok rows =>
    rw [catalogColumnRows] at hrun
    obtain ⟨schemas, hschemas, hrun⟩ := Except.bind_eq_ok.mp hrun
    obtain ⟨all, hall, -⟩ := Except.bind_eq_ok.mp hrun
    obtain ⟨schema, rest, rfl⟩ :=
      List.exists_cons_of_ne_nil (resolveSchemas_missing H request hcatalog hschema hschemas)
    obtain ⟨rows', hrows'⟩ := Except.exists_mapM_eq_ok.mp ⟨all, hall⟩ schema List.mem_cons_self
    have hfind : content.findSchema catalog schema = none := by
      simp [UnityContent.findSchema, hcatalog]
    obtain ⟨e, he⟩ : ∃ e, schemaColumnRows build source request columnPattern catalog schema =
      .error e := schemaColumnRows_missing H hfind
    rw [he] at hrows'
    cases hrows'

end

/-- An empty schema has no rows, whatever exists. -/
theorem catalogColumnRows_empty {build : RegexBuild} {source : MetadataSource}
    {request : GetColumnsRequest} {columnPattern : MetadataPattern} {catalog : String}
    (hschema : request.schema = some "") :
    catalogColumnRows build source request columnPattern catalog = .ok [] := by
  simp only [catalogColumnRows, resolveSchemaCandidates, hschema, if_true, bind, Except.bind]
  rfl

theorem foundRows_empty {same : Char → Char → Prop} {request : GetColumnsRequest}
    {defaultCatalog : String} {content : UnityContent} (hschema : request.schema = some "") :
    foundRows same request defaultCatalog content = [] := by
  have hcatalog : ∀ catalog, foundInCatalog same request catalog = [] := by
    intro catalog
    simp [foundInCatalog, SchemaOf, hschema]
  simp [foundRows, hcatalog]

/-- The rows of a request are those of the selected columns, provided that the literal names
exist. -/
theorem getColumnsRows_ok {same : Char → Char → Prop} {build : RegexBuild} {content : UnityContent}
    {source : MetadataSource} (R : DocumentedRegex same build) (H : Serves content source)
    {request : GetColumnsRequest} (defaultCatalog : String)
    (hnormal : normalizeGetColumnsRequest request = request) :
    ((∃ rows, getColumnsRows build source request defaultCatalog = .ok rows) ↔
      LiteralsExist same request defaultCatalog content) ∧
    ∀ rows, getColumnsRows build source request defaultCatalog = .ok rows →
      RowsAgree rows (foundRows same request defaultCatalog content) := by
  obtain ⟨candidates, hcandidates, L⟩ := resolveCatalogs R H request defaultCatalog
  obtain ⟨columnPattern, hcolumn, hpattern⟩ := metadataPattern_new R request.column
  let f := catalogColumnRows build source request columnPattern
  have hrun : getColumnsRows build source request defaultCatalog =
      (fun all => all.flatten.mergeSort columnMetadataRowLe) <$> candidates.mapM f := by
    simp only [getColumnsRows, hnormal, hcandidates, hcolumn, bind, Except.bind, f]
    rfl
  have hsorted : ∀ all : List (List ColumnMetadataRow),
      RowsAgree (all.flatten.mergeSort columnMetadataRowLe) all.flatten := fun all =>
    .of_perm (List.mergeSort_perm _ _)
  rw [hrun]
  by_cases hschema : request.schema = some ""
  · have hall : candidates.mapM f = .ok (candidates.map fun _ => []) :=
      Except.mapM_eq_map fun catalog _ => catalogColumnRows_empty hschema
    rw [hall]
    constructor
    · exact iff_of_true ⟨_, rfl⟩ (.inl hschema)
    · intro rows h
      obtain ⟨all, hall', rfl⟩ := Except.map_eq_ok.mp h
      obtain rfl := Except.ok.inj hall'
      rw [foundRows_empty hschema]
      have hflatten : (candidates.map fun _ => ([] : List ColumnMetadataRow)).flatten = [] := by
        simp
      refine (hsorted _).trans ?_
      rw [hflatten]
      exact .of_perm (List.Perm.refl _)
  · obtain ⟨hexists, hrows⟩ := L.mapM (f := f) (g := foundInCatalog same request) content.distinct
      (fun catalog c hc => (catalogColumnRows_ok R H hpattern hc).1)
      (fun catalog c rows hc => (catalogColumnRows_ok R H hpattern hc).2 rows)
      (fun catalog hc => catalogColumnRows_missing H hc hschema)
    constructor
    · rw [LiteralsExist, or_iff_right hschema]
      refine Iff.trans ?_ hexists
      simp only [Except.map_eq_ok]
      exact ⟨fun ⟨_, all, hall, _⟩ => ⟨all, hall⟩, fun ⟨all, hall⟩ => ⟨_, all, hall, rfl⟩⟩
    · intro rows h
      obtain ⟨all, hall, rfl⟩ := Except.map_eq_ok.mp h
      exact (hsorted all).trans (hrows all hall)

/-! ## What is passed over -/

theorem metadataParts_literal {text : List Char} (h : containsWildcard text = false) :
    metadataParts text = (stripEscapes text).map Wildcard.lit := by
  fun_induction metadataParts text <;> simp_all [containsWildcard, stripEscapes]

/-- A literal name is matched by its pattern. -/
theorem patternMatches_literal {same : Char → Char → Prop}
    (hascii : ∀ a b, a.toLower = b.toLower → same a b) {pattern name : String}
    (hwild : containsMetadataWildcard pattern = false)
    (h : eqIgnoreAsciiCase (stripMetadataEscapes pattern) name) :
    PatternMatches same pattern name := by
  rw [PatternMatches, metadataParts_literal hwild]
  refine CoversBy.of_forall₂ ?_
  have hlower := eqIgnoreAsciiCase_iff.mp h
  rw [stripMetadataEscapes, String.toList_ofList, ← List.forall₂_eq_eq_eq,
    List.forall₂_map_left_iff, List.forall₂_map_right_iff] at hlower
  exact hlower.imp fun a b hab => hascii a b hab

theorem regexMatches_imp {same : Char → Char → Prop} {pattern name : String}
    (h : RegexMatches same pattern name) : PatternMatches same pattern name :=
  h.mono fun _ _ => trivial

theorem finds_imp {same : Char → Char → Prop} (hascii : ∀ a b, a.toLower = b.toLower → same a b)
    {pattern name : String} (h : Finds same pattern name) : PatternMatches same pattern name := by
  rw [Finds] at h
  split at h
  · exact regexMatches_imp h
  · rename_i hwild
    exact patternMatches_literal hascii (Bool.not_eq_true _ ▸ hwild) h

theorem Picks.mono {M M' N N' : String → String → Prop} {request : GetColumnsRequest}
    {defaultCatalog : String} {entry : ColumnEntry} (hM : ∀ p n, M p n → M' p n)
    (hN : ∀ p n, N p n → N' p n) (h : Picks request defaultCatalog M N entry) :
    Picks request defaultCatalog M' N' entry := by
  obtain ⟨hcatalog, hschema, htable, hcolumn⟩ := h
  refine ⟨?_, ?_, ?_, ?_⟩
  · revert hcatalog
    rw [CatalogOf, CatalogOf]
    cases request.catalog.filter (· ≠ "") with
    | none => exact id
    | some pattern => exact hM pattern _
  · revert hschema
    rw [SchemaOf, SchemaOf]
    cases request.schema with
    | none => exact id
    | some pattern => exact fun ⟨hne, h⟩ => ⟨hne, hM pattern _ h⟩
  · revert htable
    rw [NameOf, NameOf]
    cases request.table.filter (· ≠ "") with
    | none => exact id
    | some pattern => exact hM pattern _
  · revert hcolumn
    rw [NameOf, NameOf]
    cases request.column.filter (· ≠ "") with
    | none => exact id
    | some pattern => exact hN pattern _

theorem flatMap_filter {α β : Type} (l : List α) (p : α → Bool) (f : α → List β) :
    (l.filter p).flatMap f = l.flatMap fun a => if p a then f a else [] := by
  induction l with
  | nil => rfl
  | cons a l ih =>
    cases hp : p a with
    | true => rw [List.filter_cons_of_pos hp, List.flatMap_cons, List.flatMap_cons, ih, hp, if_pos rfl]
    | false =>
      rw [List.filter_cons_of_neg (by simp [hp]), List.flatMap_cons, ih, hp, if_neg (by simp),
        List.nil_append]

section

variable {same : Char → Char → Prop} {request : GetColumnsRequest} {defaultCatalog : String}

open scoped Classical in
theorem picked_table (c : StoredCatalog) (s : StoredSchema) (t : StoredTable) :
    ((tableEntries c s t).filter fun entry =>
        Picks request defaultCatalog (Finds same) (RegexMatches same) entry).map ColumnEntry.row =
      if CatalogOf request defaultCatalog (Finds same) c.info.name ∧
          SchemaOf request (Finds same) s.name ∧ NameOf (Finds same) request.table t.name then
        foundInTable same request c s t
      else [] := by
  have hentry : ∀ entry ∈ tableEntries c s t,
      entry.catalog = c ∧ entry.schema = s ∧ entry.table = t := by
    intro entry hentry
    obtain ⟨p, -, rfl⟩ := List.mem_map.mp hentry
    exact ⟨rfl, rfl, rfl⟩
  split
  · rename_i hpicked
    rw [foundInTable]
    congr 1
    refine List.filter_congr fun entry hmem => ?_
    obtain ⟨rfl, rfl, rfl⟩ := hentry entry hmem
    rw [decide_eq_decide]
    exact ⟨fun h => h.column, fun h => ⟨hpicked.1, hpicked.2.1, hpicked.2.2, h⟩⟩
  · rename_i hpicked
    rw [List.map_eq_nil_iff, List.filter_eq_nil_iff]
    intro entry hmem h
    obtain ⟨rfl, rfl, rfl⟩ := hentry entry hmem
    have h := of_decide_eq_true h
    exact hpicked ⟨h.catalog, h.schema, h.table⟩

open scoped Classical in
theorem foundRows_eq (content : UnityContent) :
    foundRows same request defaultCatalog content =
      (content.entries.filter fun entry =>
        Picks request defaultCatalog (Finds same) (RegexMatches same) entry).map
        ColumnEntry.row := by
  simp only [UnityContent.entries, List.filter_flatMap, List.map_flatMap, picked_table, foundRows,
    foundInCatalog, foundInSchema, flatMap_filter, decide_eq_true_eq]
  refine List.flatMap_congr fun c _ => ?_
  by_cases hc : CatalogOf request defaultCatalog (Finds same) c.info.name
  · simp only [hc, if_true, true_and]
    refine List.flatMap_congr fun s _ => ?_
    by_cases hs : SchemaOf request (Finds same) s.name
    · simp only [hs, if_true, true_and]
    · simp [hs]
  · simp [hc]

end

/-- `GetColumns` gives the columns whose names match the patterns exactly where every literal name
that is looked up exists and no matching column is passed over. -/
theorem getColumnsReference (same : Char → Char → Prop) (build : RegexBuild)
    (content : UnityContent) (source : MetadataSource) (request : GetColumnsRequest)
    (defaultCatalog : String) (R : DocumentedRegex same build) (H : Serves content source)
    (hnormal : normalizeGetColumnsRequest request = request) :
    (∃ rows, getColumnsRows build source request defaultCatalog = .ok rows ∧
      RowsAgree rows ((content.matchingColumns same request defaultCatalog).map
        ColumnEntry.row)) ↔
      LiteralsExist same request defaultCatalog content ∧
        NonePassedOver same request defaultCatalog content := by
  classical
  obtain ⟨hexists, hrows⟩ := getColumnsRows_ok R H defaultCatalog hnormal
  have hmono : ∀ entry, Picks request defaultCatalog (Finds same) (RegexMatches same) entry →
      Picks request defaultCatalog (PatternMatches same) (PatternMatches same) entry :=
    fun entry => Picks.mono (fun _ _ => finds_imp R.ascii) fun _ _ => regexMatches_imp
  have hsublist : List.Sublist
      (content.entries.filter fun entry =>
        decide (Picks request defaultCatalog (Finds same) (RegexMatches same) entry))
      (content.matchingColumns same request defaultCatalog) := by
    refine List.monotone_filter_right _ fun entry h => ?_
    exact decide_eq_true (hmono entry (of_decide_eq_true h))
  rw [← hexists]
  constructor
  · intro ⟨rows, hok, hagree⟩
    refine ⟨⟨rows, hok⟩, ?_⟩
    have hlength := ((hrows rows hok).symm.trans hagree).length_eq
    rw [foundRows_eq, List.length_map, List.length_map] at hlength
    have heq := hsublist.eq_of_length hlength
    intro entry hentry hpicked
    have hmem : entry ∈ content.matchingColumns same request defaultCatalog :=
      List.mem_filter.mpr ⟨hentry, decide_eq_true hpicked⟩
    rw [← heq] at hmem
    exact of_decide_eq_true (List.mem_filter.mp hmem).2
  · intro ⟨⟨rows, hok⟩, hnone⟩
    refine ⟨rows, hok, ?_⟩
    have heq : content.matchingColumns same request defaultCatalog =
        content.entries.filter fun entry =>
          decide (Picks request defaultCatalog (Finds same) (RegexMatches same) entry) := by
      refine List.filter_congr fun entry hentry => ?_
      rw [decide_eq_decide]
      exact ⟨hnone entry hentry, hmono entry⟩
    rw [heq, ← foundRows_eq]
    exact hrows rows hok

/-! ## One table -/

/-- Unity, answering from its content. -/
def UnityContent.source (content : UnityContent) : MetadataSource :=
  let notFound := fun {α : Type} => (.error (.unity "not found") : Except HarborError α)
  { listCatalogs := .ok (content.catalogs.map (·.info))
    listSchemas := fun catalog =>
      match content.findCatalog catalog with
      | some found => .ok (found.schemas.map (·.listed))
      | none => notFound
    listTables := fun catalog schema =>
      match content.findSchema catalog schema with
      | some found => .ok (found.tables.map (·.listed))
      | none => notFound
    table := fun fullName =>
      match fullName.toList.splitOn '.' with
      | [catalog, schema, table] =>
        match content.findTable (.ofList catalog) (.ofList schema) (.ofList table) with
        | some found => .ok found.detailed
        | none => notFound
      | _ => notFound }

theorem UnityContent.serves (content : UnityContent) : Serves content content.source where
  catalogs := rfl
  schemas catalog := by
    simp only [UnityContent.source, Answers]
    cases content.findCatalog catalog with
    | some found => rfl
    | none => exact ⟨_, rfl⟩
  tables catalog schema := by
    simp only [UnityContent.source, Answers]
    cases content.findSchema catalog schema with
    | some found => rfl
    | none => exact ⟨_, rfl⟩
  table fullName := by
    simp only [UnityContent.source, Answers]
    split
    · rename_i found heq
      split at heq
      · simp only [heq]
      · cases heq
    · rename_i heq
      split at heq
      · simp only [heq]
        exact ⟨_, rfl⟩
      · exact ⟨_, rfl⟩

/-- What the expression of a pattern stands for. -/
def readRegex : List Char → List (Wildcard Char)
  | '\\' :: c :: text => lit c :: readRegex text
  | '.' :: '*' :: text => any :: readRegex text
  | '.' :: text => one :: readRegex text
  | '$' :: _ => []
  | c :: text => lit c :: readRegex text
  | [] => []

theorem readRegex_dot {text : List Char} (h : text.head? ≠ some '*') :
    readRegex ('.' :: text) = one :: readRegex text := by
  cases text with
  | nil => rfl
  | cons c text =>
    have hc : c ≠ '*' := fun heq => h (by rw [heq]; rfl)
    rw [readRegex]
    intro text' heq
    exact hc (List.cons.inj heq).1

theorem readRegex_plain {c : Char} {text : List Char}
    (h : c ∉ "\\.+*?()|[]\x7b\x7d^$#&-~".toList) : readRegex (c :: text) = lit c :: readRegex text := by
  have hc : c ≠ '\\' ∧ c ≠ '.' ∧ c ≠ '$' :=
    ⟨fun heq => h (by rw [heq]; decide), fun heq => h (by rw [heq]; decide),
      fun heq => h (by rw [heq]; decide)⟩
  rw [readRegex]
  · exact fun c' text' heq => absurd heq hc.1
  · exact fun text' heq => absurd heq hc.2.1
  · exact fun heq => hc.2.1 heq
  · exact fun heq => hc.2.2 heq

/-- An expression of a pattern goes on with no `*`. -/
theorem head_partRegex (parts : List (Wildcard Char)) :
    (parts.flatMap partRegex ++ ['$']).head? ≠ some '*' := by
  cases parts with
  | nil => decide
  | cons part parts =>
    cases part with
    | any => simp [partRegex]
    | one => simp [partRegex]
    | lit c =>
      rw [List.flatMap_cons, partRegex, regexEscape]
      split
      · simp
      · rename_i hc
        intro heq
        obtain rfl : c = '*' := by simpa using heq
        exact hc (by decide)

theorem readRegex_parts (parts : List (Wildcard Char)) :
    readRegex (parts.flatMap partRegex ++ ['$']) = parts := by
  induction parts with
  | nil => rfl
  | cons part parts ih =>
    rw [List.flatMap_cons, List.append_assoc]
    cases part with
    | any => exact congrArg (any :: ·) ih
    | one => exact (readRegex_dot (head_partRegex parts)).trans (congrArg (one :: ·) ih)
    | lit c =>
      rw [partRegex, regexEscape]
      split
      · exact congrArg (lit c :: ·) ih
      · rename_i hc
        exact (readRegex_plain hc).trans (congrArg (lit c :: ·) ih)

/-- Characters that differ by their ASCII case at most. -/
def sameAscii (a b : Char) : Prop := a.toLower = b.toLower

open scoped Classical in
/-- A compiler of the expressions of patterns. -/
noncomputable def buildPattern : RegexBuild := fun text =>
  .ok fun name => decide (CoversBy sameAscii (· ≠ '\n') (readRegex (text.toList.drop 1)) name.toList)

theorem documentedRegex_buildPattern : DocumentedRegex sameAscii buildPattern where
  ascii _ _ h := h
  reads parts := by
    classical
    refine ⟨_, rfl, fun name => ?_⟩
    rw [String.toList_ofList, List.cons_append, List.drop_succ_cons, List.drop_zero,
      readRegex_parts]
    exact decide_eq_true_iff

def testTableInfo : TableInfo where
  tableId := none
  fullName := "c.s.t"
  name := some "t"
  catalogName := some "c"
  schemaName := some "s"
  tableType := none
  dataSourceFormat := none
  storageLocation := none
  comment := none
  owner := none
  createdAt := none
  createdBy := none
  updatedAt := none
  updatedBy := none
  columns := [⟨"x", none, none, some "int", none, none, none, none⟩]

/-- One table with one column. -/
def testContent : UnityContent where
  catalogs :=
    [{ info := ⟨"c", none⟩
       schemas :=
        [{ name := "s"
           listed := ⟨"s", none⟩
           tables := [⟨"t", testTableInfo, testTableInfo, rfl, by decide⟩]
           listed_name := rfl
           plain := by decide
           distinct := List.pairwise_singleton _ _ }]
       plain := by decide
       distinct := List.pairwise_singleton _ _ }]
  distinct := List.pairwise_singleton _ _

theorem mem_entries_testContent {entry : ColumnEntry} (h : entry ∈ testContent.entries) :
    entry.catalog.info.name = "c" ∧ entry.schema.name = "s" ∧ entry.table.name = "t" ∧
      entry.column.name = "x" := by
  simp only [UnityContent.entries, testContent, List.flatMap_cons, List.flatMap_nil,
    List.append_nil, tableEntries, testTableInfo, List.zipIdx_cons, List.zipIdx_nil, List.map_cons,
    List.map_nil, List.mem_singleton] at h
  subst h
  exact ⟨rfl, rfl, rfl, rfl⟩

/-- A request in another case. -/
def missingTableRequest : GetColumnsRequest := ⟨some "C", some "s", some "t", none⟩

theorem getColumnsReference_test :
    ∃ rows, getColumnsRows buildPattern testContent.source missingTableRequest "c" = .ok rows ∧
      RowsAgree rows ((testContent.matchingColumns sameAscii missingTableRequest "c").map
        ColumnEntry.row) := by
  refine (getColumnsReference sameAscii buildPattern testContent testContent.source missingTableRequest "c"
    documentedRegex_buildPattern testContent.serves (by decide)).mpr ⟨.inr ⟨?_, ?_⟩, ?_⟩
  · intro wanted h
    obtain rfl : "C" = wanted := Option.some.inj h
    exact ⟨_, List.mem_singleton_self _, by decide⟩
  · intro catalog hcatalog _
    obtain rfl := List.mem_singleton.mp hcatalog
    constructor
    · intro wanted h
      obtain rfl : "s" = wanted := Option.some.inj h
      exact ⟨_, List.mem_singleton_self _, by decide⟩
    · intro schema hschema _ wanted h
      obtain rfl := List.mem_singleton.mp hschema
      obtain rfl : "t" = wanted := Option.some.inj h
      exact ⟨_, List.mem_singleton_self _, by decide⟩
  · intro entry hentry _
    obtain ⟨hc, hs, ht, -⟩ := mem_entries_testContent hentry
    have hfinds : Finds sameAscii "C" "c" ∧ Finds sameAscii "s" "s" ∧ Finds sameAscii "t" "t" := by
      refine ⟨?_, ?_, ?_⟩ <;> (rw [Finds, if_neg (by decide)]; decide)
    refine ⟨?_, ?_, ?_, trivial⟩
    · rw [hc]
      exact hfinds.1
    · rw [hs]
      exact ⟨by decide, hfinds.2.1⟩
    · rw [ht]
      exact hfinds.2.2

/-- The columns of a literal table that does not exist are an error, where there are none. -/
theorem not_getColumnsReference :
    ∃ same build content source request defaultCatalog, DocumentedRegex same build ∧
      Serves content source ∧ normalizeGetColumnsRequest request = request ∧
      content.matchingColumns same request defaultCatalog = [] ∧
      ∃ e, getColumnsRows build source request defaultCatalog = .error e := by
  classical
  refine ⟨sameAscii, buildPattern, testContent, testContent.source,
    ⟨some "c", some "s", some "missing", none⟩, "c", documentedRegex_buildPattern,
    testContent.serves, by decide, ?_, ?_⟩
  · refine List.filter_eq_nil_iff.mpr fun entry hentry hpicked => ?_
    have htable := (of_decide_eq_true hpicked).table
    rw [(mem_entries_testContent hentry).2.2.1] at htable
    change CoversBy sameAscii (fun _ => True) (lit 'm' :: lit 'i' :: _) ['t'] at htable
    cases htable with
    | lit _ h => cases h
  · cases hrun : getColumnsRows buildPattern testContent.source
        ⟨some "c", some "s", some "missing", none⟩ "c" with
    | error e => exact ⟨e, rfl⟩
    | ok rows =>
      rcases (getColumnsRows_ok documentedRegex_buildPattern testContent.serves "c"
        (by decide)).1.mp ⟨rows, hrun⟩ with hempty | hexist
      · exact absurd hempty (by decide)
      · have hfinds : Finds sameAscii "c" "c" ∧ Finds sameAscii "s" "s" := by
          refine ⟨?_, ?_⟩ <;> (rw [Finds, if_neg (by decide)]; decide)
        obtain ⟨table, htable, hname⟩ := (hexist.2 _ (List.mem_singleton_self _) hfinds.1).2 _
          (List.mem_singleton_self _) ⟨by decide, hfinds.2⟩ "missing" rfl
        obtain rfl := List.mem_singleton.mp htable
        exact absurd hname (by decide)

end HarborSql
