import HarborSql.Engine.InformationSchema
import HarborSql.Theory.Except
import HarborSql.Verify.Engine.Columns

/-! The filters that a scan of `information_schema` gets only leave out rows that they reject. -/

namespace HarborSql.InformationSchema

open HarborSql.Except (FindsOnly Prunes bind_eq_ok)

/-! ## Filters on rows -/

/-- The value that an expression finds under the name of a column. -/
def columnCell (schema : List Field) (row : SystemRow) (column : String) : Scalar :=
  match schema.find? fun field => field.name = column with
  | some field => cell field row
  | none => nullString

/-- DataFusion keeps the rows for which a filter is true. -/
structure DocumentedFilters (holds : Expr → (String → Scalar) → Prop) : Prop where
  and : ∀ left right cells,
    holds (.binary left .and right) cells ↔ holds left cells ∧ holds right cells
  columnEq : ∀ column literal value cells, stringLiteral literal = some value →
    (holds (.binary (.column column) .eq literal) cells ↔ cells column = string value)
  literalEq : ∀ column literal value cells, stringLiteral literal = some value →
    (holds (.binary literal .eq (.column column)) cells ↔ cells column = string value)

/-! ## What the filters admit -/

inductive Key where
  | catalog
  | schema
  | table
  | column
  deriving DecidableEq

/-- The names that a filter on a column speaks of. -/
def keyOf (column : String) : Option Key :=
  match toAsciiLowercase column with
  | "catalog_name" | "table_catalog" => some .catalog
  | "schema_name" | "table_schema" => some .schema
  | "table_name" => some .table
  | "column_name" => some .column
  | _ => none

theorem equalityFilter_eq_some {left right : Expr} :
    equalityFilter left right = some (column, value) ↔
      left = .column column ∧ stringLiteral right = some value := by
  cases left <;> simp [equalityFilter, and_comm, eq_comm]

namespace MetadataFilters

def values (filters : MetadataFilters) : Key → Option (List String)
  | .catalog => filters.catalogs
  | .schema => filters.schemas
  | .table => filters.tables
  | .column => filters.columns

theorem values_add (filters : MetadataFilters) (column value : String) (key : Key) :
    (filters.add column value).values key =
      if keyOf column = some key then insertFilterValue (filters.values key) value
      else filters.values key := by
  unfold add keyOf
  generalize toAsciiLowercase column = lower
  split <;> cases key <;> simp [values]

/-- Of each kind of names that the filters list, a column of the row has one. -/
def Met (filters : MetadataFilters) (cells : String → Scalar) : Prop :=
  ∀ key values, filters.values key = some values → ∃ column value,
    keyOf column = some key ∧ cells column = string value ∧ toAsciiLowercase value ∈ values

variable {filters : MetadataFilters} {cells : String → Scalar}

theorem met_empty : empty.Met cells := by
  intro key values h
  cases key <;> cases h

theorem Met.add (h : filters.Met cells) (hcell : cells column = string value) :
    (filters.add column value).Met cells := by
  intro key values hvalues
  rw [values_add] at hvalues
  split at hvalues
  · rename_i hkey
    obtain rfl := Option.some.inj hvalues
    exact ⟨column, value, hkey, hcell, List.mem_cons_self⟩
  · exact h key values hvalues

theorem Met.collect {holds : Expr → (String → Scalar) → Prop} (D : DocumentedFilters holds)
    (expr : Expr) (h : filters.Met cells) (hholds : holds expr cells) :
    (filters.collect expr).Met cells := by
  induction expr generalizing filters with
  | binary left op right ihl ihr =>
    cases op with
    | and =>
      obtain ⟨hleft, hright⟩ := (D.and left right cells).mp hholds
      exact ihr (ihl h hleft) hright
    | eq =>
      rw [MetadataFilters.collect]
      split
      · rename_i column value heq
        obtain ⟨rfl, hvalue⟩ := equalityFilter_eq_some.mp heq
        exact h.add ((D.columnEq column right value cells hvalue).mp hholds)
      · rename_i column value _ heq
        obtain ⟨rfl, hvalue⟩ := equalityFilter_eq_some.mp heq
        exact h.add ((D.literalEq column left value cells hvalue).mp hholds)
      · exact h
    | other => exact h
  | _ => exact h

theorem met_fromExprs {holds : Expr → (String → Scalar) → Prop} (D : DocumentedFilters holds)
    {exprs : List Expr} (hholds : ∀ expr ∈ exprs, holds expr cells) :
    (fromExprs exprs).Met cells := by
  suffices h : ∀ filters : MetadataFilters, filters.Met cells →
      (exprs.foldl MetadataFilters.collect filters).Met cells from h empty met_empty
  induction exprs with
  | nil => exact fun _ h => h
  | cons expr exprs ih =>
    intro filters h
    obtain ⟨hhead, htail⟩ := List.forall_mem_cons.mp hholds
    exact ih htail _ (h.collect D expr hhead)

end MetadataFilters

/-! ## Rows in their place -/

/-- The names by which a relation leaves out what the filters do not admit. -/
def prunedBy : Relation → List Key
  | .catalogs => [.catalog]
  | .schemata => [.catalog, .schema]
  | .tables | .views | .rowFilters => [.catalog, .schema, .table]
  | .columns => [.catalog, .schema, .table, .column]
  | .empty => []

/-- The column in which the rows of a relation have a name. -/
def nameColumn : Relation → Key → String
  | .catalogs, .catalog | .schemata, .catalog => "catalog_name"
  | .catalogs, .schema | .schemata, .schema => "schema_name"
  | _, .catalog => "table_catalog"
  | _, .schema => "table_schema"
  | _, .table => "table_name"
  | _, .column => "column_name"

/-- No column that filters prune by and that the rows of the relation do not have is filled in
with an empty text. -/
def OthersNotEmptyText (relation : Relation) (schema : List Field) : Prop :=
  ∀ field ∈ schema, ∀ key ∈ prunedBy relation, keyOf field.name = some key →
    field.name ≠ nameColumn relation key → defaultScalar field ≠ string ""

/-- A row with the given names, up to their case, in the columns for them. -/
structure Located (relation : Relation) (names : Key → String) (row : SystemRow) : Prop where
  named : ∀ key ∈ prunedBy relation, ∃ value,
    row.get (nameColumn relation key) = some (string value) ∧
      toAsciiLowercase value = toAsciiLowercase (names key)
  others : ∀ column, ∀ key ∈ prunedBy relation, keyOf column = some key →
    column ≠ nameColumn relation key → row.get column = none

theorem nullScalar_ne_string (dataType : DataType) (value : String) :
    nullScalar dataType ≠ string value := by
  unfold nullScalar
  split <;> intro h <;> cases h

theorem eq_empty_of_defaultScalar {field : Field} (h : defaultScalar field = string value) :
    value = "" := by
  unfold defaultScalar at h
  split at h
  · exact absurd h (nullScalar_ne_string field.dataType value)
  · split at h <;> first | cases h; rfl | cases h

section

variable {relation : Relation} {names : Key → String} {row : SystemRow} {schema : List Field}
  (hothers : OthersNotEmptyText relation schema) (hrow : Located relation names row)
include hothers hrow

theorem Located.lower_eq {key : Key} (hkey : key ∈ prunedBy relation)
    (hcolumn : keyOf column = some key) (hcell : columnCell schema row column = string value) :
    toAsciiLowercase value = toAsciiLowercase (names key) := by
  rw [columnCell] at hcell
  split at hcell
  · rename_i field hfind
    have hname : field.name = column := by simpa using List.find?_some hfind
    subst hname
    rw [cell] at hcell
    by_cases hnamed : field.name = nameColumn relation key
    · obtain ⟨value', hget, hlower⟩ := hrow.named key hkey
      rw [hnamed, hget] at hcell
      obtain rfl : value' = value := by simpa [string] using hcell
      exact hlower
    · have hdefault := hothers field (List.mem_of_find?_eq_some hfind) key hkey hcolumn hnamed
      rw [hrow.others field.name key hkey hcolumn hnamed] at hcell
      obtain rfl := eq_empty_of_defaultScalar hcell
      exact absurd hcell hdefault
  · cases hcell

/-- Where a row stands is admitted by all filters that it meets. -/
theorem Located.admits {filters : MetadataFilters} (hmet : filters.Met (columnCell schema row))
    {key : Key} (hkey : key ∈ prunedBy relation) :
    MetadataFilters.admits (filters.values key) (names key) = true := by
  cases hvalues : filters.values key with
  | none => rfl
  | some values =>
    obtain ⟨column, value, hcolumn, hcell, hmem⟩ := hmet key values hvalues
    rw [hrow.lower_eq hothers hkey hcolumn hcell] at hmem
    exact decide_eq_true hmem

end

/-! ## The loops -/

section

variable {provider : SystemTableProvider} {filters : MetadataFilters} {keep : SystemRow → Bool}

theorem catalogs_filter {source : MetadataSource} {scope : Option String} {found : List CatalogInfo}
    (h : catalogs source scope .empty = .ok found) : catalogs source scope filters =
      .ok (found.filter fun catalog => filters.matchesCatalog catalog.name) := by
  cases scope with
  | some catalog =>
    obtain rfl := Except.ok.inj h
    rw [catalogs]
    split <;> simp_all [MetadataFilters.matchesCatalog, MetadataFilters.admits,
      MetadataFilters.empty]
  | none =>
    obtain ⟨all, hall, h⟩ := bind_eq_ok.mp h
    obtain rfl := Except.ok.inj h
    have hfilter : all.filter (fun catalog => MetadataFilters.empty.matchesCatalog catalog.name) =
        all := List.filter_eq_self.mpr fun _ _ => rfl
    rw [hfilter]
    exact bind_eq_ok.mpr ⟨all, hall, rfl⟩

theorem schemas_filter {source : MetadataSource} {catalog : String} {found : List SchemaInfo}
    (h : schemas source .empty catalog = .ok found) : schemas source filters catalog =
      .ok (found.filter fun schema => filters.matchesSchema (schemaName schema)) := by
  obtain ⟨all, hall, h⟩ := bind_eq_ok.mp h
  obtain rfl := Except.ok.inj h
  have hfilter : all.filter (fun schema =>
      MetadataFilters.empty.matchesSchema (schemaName schema)) = all :=
    List.filter_eq_self.mpr fun _ _ => rfl
  rw [hfilter]
  exact bind_eq_ok.mpr ⟨all, hall, rfl⟩

theorem filter_eq_nil {found : List SystemRow} {P : SystemRow → Prop}
    (h : ∀ row ∈ found, keep row = true → P row) (hnot : ∀ row, ¬ P row) :
    found.filter keep = [] := by
  rw [List.filter_eq_nil_iff]
  intro row hrow hkeep
  exact hnot row (h row hrow hkeep)

theorem eachSchema_prunes {body body' : String → String → Except HarborError (List SystemRow)}
    (hbody : ∀ catalog schema, Prunes keep (body catalog schema) (body' catalog schema))
    (hkept : ∀ catalog schema, FindsOnly (body catalog schema) fun row => keep row = true →
      filters.matchesCatalog catalog = true ∧ filters.matchesSchema schema = true) :
    Prunes keep (provider.eachSchema .empty body) (provider.eachSchema filters body') := by
  refine .search (fun _ h => catalogs_filter h) ?_ ?_
  · intro _ _ catalog _ _
    refine .search (fun _ h => schemas_filter h) (fun _ _ schema _ _ => hbody _ _) ?_
    intro _ _ schema _ hadmits found hfound
    refine filter_eq_nil (hkept catalog.name (schemaName schema) found hfound) fun _ h => ?_
    rw [h.2] at hadmits
    cases hadmits
  · intro _ _ catalog _ hadmits found hfound
    have hfinds : FindsOnly (provider.eachSchemaOf .empty (body catalog.name) catalog.name)
        fun row => keep row = true → filters.matchesCatalog catalog.name = true :=
      .search fun _ _ schema _ found hfound row hrow hkeep =>
        (hkept catalog.name (schemaName schema) found hfound row hrow hkeep).1
    refine filter_eq_nil (hfinds found hfound) fun _ h => ?_
    rw [h] at hadmits
    cases hadmits

/-- The tables that a schema lists. -/
def Lists (provider : SystemTableProvider) (catalog schema : String) (table : TableInfo) : Prop :=
  ∃ tables, provider.source.listTables catalog schema = .ok tables ∧ table ∈ tables

theorem eachTable_prunes {listed : TableInfo → Bool}
    {body body' : String → String → TableInfo → Except HarborError (List SystemRow)}
    (hbody : ∀ catalog schema table, Lists provider catalog schema table →
      Prunes keep (body catalog schema table) (body' catalog schema table))
    (hkept : ∀ catalog schema table, Lists provider catalog schema table →
      FindsOnly (body catalog schema table) fun row => keep row = true →
        filters.matchesCatalog catalog = true ∧ filters.matchesSchema schema = true ∧
          filters.matchesTable (tableName table) = true) :
    Prunes keep (provider.eachTable .empty listed body)
      (provider.eachTable filters listed body') := by
  refine eachSchema_prunes ?_ ?_
  · intro catalog schema found hfound
    obtain ⟨tables, htables, hfound⟩ := bind_eq_ok.mp hfound
    obtain ⟨founds, hfounds, hfound⟩ := bind_eq_ok.mp hfound
    obtain rfl := Except.ok.inj hfound
    have hprunes : ∀ table ∈ tables.filter listed, true = true → Prunes keep
        (body catalog schema table)
        (if filters.matchesTable (tableName table) = true then body' catalog schema table
          else .ok []) := by
      intro table htable _
      have hlists : Lists provider catalog schema table :=
        ⟨tables, htables, (List.mem_filter.mp htable).1⟩
      split
      · exact hbody catalog schema table hlists
      · rename_i hadmits
        intro found hfound
        have hnil : found.filter keep = [] :=
          filter_eq_nil (hkept catalog schema table hlists found hfound) fun _ h => hadmits h.2.2
        exact ⟨[], rfl, hnil.symm⟩
    obtain ⟨founds', hfounds', heq⟩ := Except.mapM_prune hfounds hprunes fun _ _ h => by cases h
    rw [List.filter_true] at hfounds'
    exact ⟨founds'.flatten, bind_eq_ok.mpr ⟨tables, htables,
      bind_eq_ok.mpr ⟨founds', hfounds', rfl⟩⟩, heq⟩
  · intro catalog schema found hfound row hrow hkeep
    obtain ⟨tables, htables, hfound⟩ := bind_eq_ok.mp hfound
    obtain ⟨founds, hfounds, hfound⟩ := bind_eq_ok.mp hfound
    obtain rfl := Except.ok.inj hfound
    obtain ⟨found, hmem, hrow⟩ := List.mem_flatten.mp hrow
    obtain ⟨table, htable, hfound⟩ := Except.exists_of_mem_mapM hfounds hmem
    obtain ⟨hcatalog, hschema, -⟩ := hkept catalog schema table
      ⟨tables, htables, (List.mem_filter.mp htable).1⟩ found hfound row hrow hkeep
    exact ⟨hcatalog, hschema⟩

end

/-! ## The rows of the relations -/

def names (catalog schema table column : String) : Key → String
  | .catalog => catalog
  | .schema => schema
  | .table => table
  | .column => column

theorem get_eq_none {row : SystemRow} {column : String} (h : column ∉ row.map Prod.fst) :
    row.get column = none := by
  rw [SystemRow.get, Option.map_eq_none_iff, List.find?_eq_none]
  intro c hc heq
  exact h (List.mem_map.mpr ⟨c, hc, of_decide_eq_true heq⟩)

/-- The rows of a relation have no other column that filters prune by. -/
theorem Located.of_columns {relation : Relation} {row : SystemRow} {names : Key → String}
    (columns : List String) (hrow : row.map Prod.fst = columns)
    (hcolumns : ∀ column ∈ columns, ∀ key ∈ prunedBy relation, keyOf column = some key →
      column = nameColumn relation key)
    (hnamed : ∀ key ∈ prunedBy relation, ∃ value,
      row.get (nameColumn relation key) = some (string value) ∧
        toAsciiLowercase value = toAsciiLowercase (names key)) :
    Located relation names row where
  named := hnamed
  others column key hkey hcolumn hne := by
    refine get_eq_none fun hmem => hne (hcolumns column ?_ key hkey hcolumn)
    rwa [← hrow]

section

variable {catalog schema table column : String}

theorem located_catalogRow (catalog : CatalogInfo) :
    Located .catalogs (names catalog.name schema table column) (catalogRow catalog) := by
  refine .of_columns ((catalogRow ⟨"", none⟩).map Prod.fst) rfl (by decide +kernel) ?_
  rw [prunedBy, List.forall_mem_singleton]
  exact ⟨catalog.name, rfl, rfl⟩

theorem located_schemataRow :
    Located .schemata (names catalog schema table column) (schemataRow catalog schema) := by
  refine .of_columns ((schemataRow "" "").map Prod.fst) rfl (by decide +kernel) ?_
  rw [prunedBy, List.forall_mem_cons, List.forall_mem_singleton]
  exact ⟨⟨catalog, rfl, rfl⟩, schema, rfl, rfl⟩

theorem located_viewRow :
    Located .views (names catalog schema table column) (viewRow catalog schema table) := by
  refine .of_columns ((viewRow "" "" "").map Prod.fst) rfl (by decide +kernel) ?_
  rw [prunedBy, List.forall_mem_cons, List.forall_mem_cons, List.forall_mem_singleton]
  exact ⟨⟨catalog, rfl, rfl⟩, ⟨schema, rfl, rfl⟩, table, rfl, rfl⟩

theorem rowFilterRow_eq_ok {filter : Json} {row : SystemRow}
    (h : rowFilterRow catalog schema table filter = .ok row) : ∃ function targets,
      row = [("table_catalog", string catalog), ("table_schema", string schema),
        ("table_name", string table), ("filter_name", function), ("target_columns", targets)] := by
  unfold rowFilterRow at h
  cases hfunction : (filter.index "function_name").asStr with
  | none =>
    simp only [hfunction] at h
    cases h
  | some function =>
    cases hinputs : (filter.index "input_column_names").asArray with
    | none =>
      simp only [hfunction, hinputs] at h
      cases h
    | some inputs =>
      simp only [hfunction, hinputs] at h
      exact ⟨string function, _, (Except.ok.inj h).symm⟩

theorem located_rowFilterRow {filter : Json} {row : SystemRow}
    (h : rowFilterRow catalog schema table filter = .ok row) :
    Located .rowFilters (names catalog schema table column) row := by
  obtain ⟨function, targets, rfl⟩ := rowFilterRow_eq_ok h
  refine .of_columns
    ["table_catalog", "table_schema", "table_name", "filter_name", "target_columns"] rfl
    (by decide +kernel) ?_
  rw [prunedBy, List.forall_mem_cons, List.forall_mem_cons, List.forall_mem_singleton]
  exact ⟨⟨catalog, rfl, rfl⟩, ⟨schema, rfl, rfl⟩, table, rfl, rfl⟩

/-- The names that a record carries are those under which it is listed, up to their case. -/
structure Carries (catalog schema name : String) (table : TableInfo) : Prop where
  catalog : ∀ n ∈ table.catalogName, eqIgnoreAsciiCase n catalog
  schema : ∀ n ∈ table.schemaName, eqIgnoreAsciiCase n schema
  name : ∀ n ∈ table.name, eqIgnoreAsciiCase n name

theorem lower_getD {carried : Option String} {name : String}
    (h : ∀ n ∈ carried, eqIgnoreAsciiCase n name) :
    toAsciiLowercase (carried.getD name) = toAsciiLowercase name := by
  cases carried with
  | none => rfl
  | some n => exact toAsciiLowercase_eq (h n rfl)

theorem located_tableRow {record : TableInfo} (h : Carries catalog schema table record) :
    Located .tables (names catalog schema table column) (tableRow catalog schema table record) := by
  refine .of_columns ["table_catalog", "table_schema", "table_name", "table_type",
    "is_insertable_into", "commit_action", "table_owner", "comment", "created", "created_by",
    "last_altered", "last_altered_by", "data_source_format", "storage_sub_directory",
    "storage_path"] rfl (by decide +kernel) ?_
  rw [prunedBy, List.forall_mem_cons, List.forall_mem_cons, List.forall_mem_singleton]
  exact ⟨⟨_, rfl, lower_getD h.catalog⟩, ⟨_, rfl, lower_getD h.schema⟩, _, rfl, lower_getD h.name⟩

theorem located_columnRow {record : TableInfo} (h : Carries catalog schema table record)
    (info : ColumnInfo) (index : Nat) :
    Located .columns (names catalog schema table info.name)
      (columnRow record catalog schema table info index) := by
  refine .of_columns (columnRow record catalog schema table info index |>.map Prod.fst) rfl ?_ ?_
  · simp only [columnRow, List.map_cons, List.map_nil]
    decide +kernel
  rw [prunedBy, List.forall_mem_cons, List.forall_mem_cons, List.forall_mem_cons,
    List.forall_mem_singleton]
  exact ⟨⟨_, rfl, lower_getD h.catalog⟩, ⟨_, rfl, lower_getD h.schema⟩,
    ⟨_, rfl, lower_getD h.name⟩, info.name, rfl, rfl⟩

end

/-! ## The relations -/

/-- The records of Unity carry the names under which they are listed. -/
structure ListedNames (provider : SystemTableProvider) : Prop where
  listed : ∀ catalog schema table, Lists provider catalog schema table →
    Carries catalog schema (tableName table) table
  detailed : ∀ catalog schema table record, Lists provider catalog schema table →
    provider.source.table (tableFullName table catalog schema (tableName table)) = .ok record →
      Carries catalog schema (tableName table) record

section

variable {provider : SystemTableProvider} {filters : MetadataFilters} {keep : SystemRow → Bool}
  {relation : Relation}

/-- Of the rows of a relation, only those that meet the filters are kept. -/
structure KeepsMet (provider : SystemTableProvider) (filters : MetadataFilters)
    (keep : SystemRow → Bool) (relation : Relation) : Prop where
  others : OthersNotEmptyText relation provider.schema
  met : ∀ row, keep row = true → filters.Met (columnCell provider.schema row)

theorem KeepsMet.admits (h : KeepsMet provider filters keep relation) {names : Key → String}
    {row : SystemRow} (hrow : Located relation names row) (hkeep : keep row = true) (key : Key)
    (hkey : key ∈ prunedBy relation) :
    MetadataFilters.admits (filters.values key) (names key) = true :=
  hrow.admits h.others (h.met row hkeep) hkey

/-- A list may be filtered before its elements become rows. -/
theorem filter_map_filter {α : Type} {items : List α} {p : α → Bool} {f : α → SystemRow}
    (h : ∀ item, keep (f item) = true → p item = true) :
    ((items.filter p).map f).filter keep = (items.map f).filter keep := by
  rw [List.filter_map, List.filter_map, List.filter_filter]
  congr 1
  refine List.filter_congr fun item _ => ?_
  rw [Function.comp_apply]
  cases hkeep : keep (f item) with
  | false => rfl
  | true => rw [h item hkeep, Bool.and_true]

theorem catalogsForCatalogRows_filter {found : List CatalogInfo}
    (h : provider.catalogsForCatalogRows .empty = .ok found) :
    provider.catalogsForCatalogRows filters =
      .ok (found.filter fun catalog => filters.matchesCatalog catalog.name) := by
  have hempty : ∀ items : List CatalogInfo,
      items.filter (fun catalog => MetadataFilters.empty.matchesCatalog catalog.name) = items :=
    fun _ => List.filter_eq_self.mpr fun _ _ => rfl
  unfold SystemTableProvider.catalogsForCatalogRows at h ⊢
  obtain ⟨all, hall, h⟩ := bind_eq_ok.mp h
  refine bind_eq_ok.mpr ⟨all, hall, ?_⟩
  cases hscope : provider.catalogScope with
  | none =>
    simp only [hscope, hempty] at h ⊢
    obtain rfl := Except.ok.inj h
    rfl
  | some scope =>
    simp only [hscope, hempty] at h ⊢
    obtain rfl := Except.ok.inj h
    rfl

theorem catalogRows_prunes (h : KeepsMet provider filters keep .catalogs) :
    Prunes keep (provider.catalogRows .empty) (provider.catalogRows filters) := by
  intro found hfound
  obtain ⟨catalogs, hcatalogs, hfound⟩ := bind_eq_ok.mp hfound
  obtain rfl := Except.ok.inj hfound
  refine ⟨_, bind_eq_ok.mpr ⟨_, catalogsForCatalogRows_filter hcatalogs, rfl⟩,
    filter_map_filter fun catalog hkeep => ?_⟩
  have hplace : Located .catalogs (names catalog.name "" "" "") (catalogRow catalog) :=
    located_catalogRow catalog
  exact h.admits hplace hkeep .catalog List.mem_cons_self

theorem schemataRows_prunes (h : KeepsMet provider filters keep .schemata) :
    Prunes keep (provider.schemataRows .empty) (provider.schemataRows filters) := by
  refine eachSchema_prunes (fun _ _ => .of_eq rfl) ?_
  intro catalog schema found hfound row hrow hkeep
  obtain rfl := Except.ok.inj hfound
  obtain rfl := List.mem_singleton.mp hrow
  have hplace : Located .schemata (names catalog schema "" "") (schemataRow catalog schema) :=
    located_schemataRow
  exact ⟨h.admits hplace hkeep .catalog (by decide),
    h.admits hplace hkeep .schema (by decide)⟩

/-- A kept row stands in a table that the filters admit. -/
theorem KeepsMet.inTable (h : KeepsMet provider filters keep relation)
    (hkeys : [.catalog, .schema, .table] ⊆ prunedBy relation)
    {catalog schema table : String} (column : String) {row : SystemRow}
    (hrow : Located relation (names catalog schema table column) row) (hkeep : keep row = true) :
    filters.matchesCatalog catalog = true ∧ filters.matchesSchema schema = true ∧
      filters.matchesTable table = true :=
  ⟨h.admits hrow hkeep .catalog (hkeys (by decide)),
    h.admits hrow hkeep .schema (hkeys (by decide)),
    h.admits hrow hkeep .table (hkeys (by decide))⟩

theorem tables_prunes (hunity : ListedNames provider)
    (h : KeepsMet provider filters keep .tables) :
    Prunes keep
      (provider.eachTable .empty (fun _ => true) fun catalog schema table =>
        .ok [tableRow catalog schema (tableName table) table])
      (provider.eachTable filters (fun _ => true) fun catalog schema table =>
        .ok [tableRow catalog schema (tableName table) table]) := by
  refine eachTable_prunes (fun _ _ _ _ => .of_eq rfl) ?_
  intro catalog schema table hlists found hfound row hrow hkeep
  obtain rfl := Except.ok.inj hfound
  obtain rfl := List.mem_singleton.mp hrow
  exact h.inTable (by decide) ""
    (located_tableRow (hunity.listed catalog schema table hlists)) hkeep

theorem views_prunes (h : KeepsMet provider filters keep .views) :
    Prunes keep
      (provider.eachTable .empty isViewLike fun catalog schema table =>
        .ok [viewRow catalog schema (tableName table)])
      (provider.eachTable filters isViewLike fun catalog schema table =>
        .ok [viewRow catalog schema (tableName table)]) := by
  refine eachTable_prunes (fun _ _ _ _ => .of_eq rfl) ?_
  intro catalog schema table _ found hfound row hrow hkeep
  obtain rfl := Except.ok.inj hfound
  obtain rfl := List.mem_singleton.mp hrow
  exact h.inTable (by decide) "" located_viewRow hkeep

theorem rowFilterRows_prunes (h : KeepsMet provider filters keep .rowFilters) :
    Prunes keep (provider.rowFilterRows .empty) (provider.rowFilterRows filters) := by
  refine eachTable_prunes (fun _ _ _ _ => .of_eq rfl) ?_
  intro catalog schema table _ found hfound row hrow hkeep
  obtain ⟨details, -, hfound⟩ := bind_eq_ok.mp hfound
  cases hfilter : (details.get? "row_filter").filter fun v => !v.isNull with
  | none =>
    simp only [hfilter] at hfound
    obtain rfl := Except.ok.inj hfound
    cases hrow
  | some filter =>
    simp only [hfilter] at hfound
    obtain ⟨row', hrow', hfound⟩ := bind_eq_ok.mp hfound
    obtain rfl := Except.ok.inj hfound
    obtain rfl := List.mem_singleton.mp hrow
    exact h.inTable (by decide) "" (located_rowFilterRow hrow') hkeep

/-- The body of the loop of `columnRows` for a table that the filters admit. -/
def detailedColumnRows (provider : SystemTableProvider) (filters : MetadataFilters)
    (catalogName schemaName : String) (table : TableInfo) :
    Except HarborError (List SystemRow) := do
  let detailed ← provider.source.table
    (tableFullName table catalogName schemaName (tableName table))
  return tableColumnRows detailed catalogName schemaName (tableName table) filters

theorem columnRows_eq : provider.columnRows filters = do
    let rows ← provider.eachTable filters (fun _ => true) (detailedColumnRows provider filters)
    return sortRows rows ["table_catalog", "table_schema", "table_name", "ordinal_position"] := by
  have hschema : ∀ catalog schema, provider.eachTableOf filters (fun _ => true)
      (detailedColumnRows provider filters catalog schema) catalog schema =
        schemaRows provider.source filters catalog schema := by
    intro catalog schema
    unfold SystemTableProvider.eachTableOf schemaRows
    simp only [List.filter_true]
    rfl
  unfold SystemTableProvider.columnRows columnRows SystemTableProvider.eachTable
    SystemTableProvider.eachSchema
  simp only [hschema, bind_assoc, pure_bind]
  rfl

theorem tableColumnRows_filter {detailed : TableInfo} {catalog schema table : String}
    (h : ∀ info index, keep (columnRow detailed catalog schema table info index) = true →
      filters.matchesColumn info.name = true) :
    (tableColumnRows detailed catalog schema table filters).filter keep =
      (tableColumnRows detailed catalog schema table .empty).filter keep := by
  unfold tableColumnRows
  exact (filter_map_filter fun item : ColumnInfo × Nat => h item.1 item.2).trans
    (filter_map_filter fun _ _ => rfl).symm

theorem columns_prunes (hunity : ListedNames provider)
    (h : KeepsMet provider filters keep .columns) :
    Prunes keep
      (provider.eachTable .empty (fun _ => true) (detailedColumnRows provider .empty))
      (provider.eachTable filters (fun _ => true) (detailedColumnRows provider filters)) := by
  refine eachTable_prunes ?_ ?_
  · intro catalog schema table hlists found hfound
    obtain ⟨detailed, hdetailed, hfound⟩ := bind_eq_ok.mp hfound
    obtain rfl := Except.ok.inj hfound
    have hcarries := hunity.detailed catalog schema table detailed hlists hdetailed
    exact ⟨_, bind_eq_ok.mpr ⟨detailed, hdetailed, rfl⟩, tableColumnRows_filter
      fun info index hkeep => h.admits (located_columnRow hcarries info index) hkeep
        .column (by decide)⟩
  · intro catalog schema table hlists found hfound row hrow hkeep
    obtain ⟨detailed, hdetailed, hfound⟩ := bind_eq_ok.mp hfound
    obtain rfl := Except.ok.inj hfound
    obtain ⟨item, -, rfl⟩ := List.mem_map.mp hrow
    have hcarries := hunity.detailed catalog schema table detailed hlists hdetailed
    exact h.inTable (by decide) _ (located_columnRow hcarries item.1 item.2) hkeep

theorem sortRows_perm (rows : List SystemRow) (columns : List String) :
    (sortRows rows columns).Perm rows :=
  List.mergeSort_perm rows _

/-- A sorted search finds, up to the order, all that is kept. -/
theorem sorted_prunes {x y : Except HarborError (List SystemRow)} {columns : List String}
    {found : List SystemRow} (h : Prunes keep x y)
    (hfound : (do return sortRows (← x) columns) = .ok found) :
    ∃ found', (do return sortRows (← y) columns) = .ok found' ∧
      (found'.filter keep).Perm (found.filter keep) := by
  obtain ⟨rows, hrows, hfound⟩ := bind_eq_ok.mp hfound
  obtain rfl := Except.ok.inj hfound
  obtain ⟨rows', hrows', heq⟩ := h rows hrows
  refine ⟨_, bind_eq_ok.mpr ⟨rows', hrows', rfl⟩, ?_⟩
  have hkept := (sortRows_perm rows' columns).filter keep
  rw [heq] at hkept
  exact hkept.trans ((sortRows_perm rows columns).filter keep).symm

theorem load_prunes (hunity : ListedNames provider)
    (h : KeepsMet provider filters keep relation) {rows : List SystemRow}
    (hrows : provider.loadInformationSchemaRows .empty relation = .ok rows) :
    ∃ rows', provider.loadInformationSchemaRows filters relation = .ok rows' ∧
      (rows'.filter keep).Perm (rows.filter keep) := by
  cases relation with
  | catalogs => exact (catalogRows_prunes h).perm hrows
  | schemata => exact (schemataRows_prunes h).perm hrows
  | tables => exact sorted_prunes (tables_prunes hunity h) hrows
  | columns =>
    simp only [SystemTableProvider.loadInformationSchemaRows, columnRows_eq] at hrows ⊢
    exact sorted_prunes (columns_prunes hunity h) hrows
  | views => exact sorted_prunes (views_prunes h) hrows
  | rowFilters => exact (rowFilterRows_prunes h).perm hrows
  | empty => exact ⟨rows, hrows, .refl _⟩

end

/-! ## Pushdown -/

section

variable {holds : Expr → (String → Scalar) → Prop}

variable (holds) in
open scoped Classical in
/-- The rows that are left when the filters are applied to them. -/
noncomputable def reapply (schema : List Field) (exprs : List Expr) (rows : List SystemRow) :
    List SystemRow :=
  rows.filter fun row => ∀ expr ∈ exprs, holds expr (columnCell schema row)

theorem mem_reapply {schema : List Field} {exprs : List Expr} {rows : List SystemRow}
    {row : SystemRow} : row ∈ reapply holds schema exprs rows ↔
      row ∈ rows ∧ ∀ expr ∈ exprs, holds expr (columnCell schema row) := by
  simp [reapply]

variable (holds) in
/-- A scan that gets the filters finds the rows that they leave of all rows. -/
def SoundPushdown (provider : SystemTableProvider) (relation : Relation) (exprs : List Expr) :
    Prop :=
  ∀ rows, provider.loadInformationSchemaRows .empty relation = .ok rows →
    ∃ rows', provider.loadInformationSchemaRows (.fromExprs exprs) relation = .ok rows' ∧
      (reapply holds provider.schema exprs rows').Perm (reapply holds provider.schema exprs rows)

/-- The filters that a scan of `information_schema` gets leave out no row that they admit. -/
theorem soundPushdown (D : DocumentedFilters holds)
    {provider : SystemTableProvider} (hunity : ListedNames provider) {relation : Relation}
    (hothers : OthersNotEmptyText relation provider.schema) (exprs : List Expr) :
    SoundPushdown holds provider relation exprs := by
  classical
  intro rows hrows
  have hkeeps : KeepsMet provider (.fromExprs exprs)
      (fun row => ∀ expr ∈ exprs, holds expr (columnCell provider.schema row)) relation :=
    ⟨hothers, fun row hkeep => MetadataFilters.met_fromExprs D (of_decide_eq_true hkeep)⟩
  obtain ⟨rows', hrows', hperm⟩ := load_prunes hunity hkeeps hrows
  refine ⟨rows', hrows', ?_⟩
  unfold reapply
  convert hperm

end

/-- A conjunction of equalities between columns and literals. -/
def filterHolds : Expr → (String → Scalar) → Bool
  | .binary left .and right, cells => filterHolds left cells && filterHolds right cells
  | .binary left .eq right, cells =>
    match equalityFilter left right, equalityFilter right left with
    | some (column, value), _ | none, some (column, value) => cells column = string value
    | none, none => false
  | _, _ => false

theorem documentedFilters_filterHolds :
    DocumentedFilters fun expr cells => filterHolds expr cells = true where
  and left right cells := Bool.and_eq_true_iff
  columnEq column literal value cells h := by
    have heq : equalityFilter (.column column) literal = some (column, value) :=
      equalityFilter_eq_some.mpr ⟨rfl, h⟩
    simp [filterHolds, heq]
  literalEq column literal value cells h := by
    have hnone : equalityFilter literal (.column column) = none := by
      cases literal <;> rfl
    have heq : equalityFilter (.column column) literal = some (column, value) :=
      equalityFilter_eq_some.mpr ⟨rfl, h⟩
    simp [filterHolds, hnone, heq]

def orders : TableInfo where
  tableId := none
  fullName := "main.sales.orders"
  name := some "orders"
  catalogName := none
  schemaName := none
  tableType := none
  dataSourceFormat := some "DELTA"
  storageLocation := none
  comment := none
  owner := none
  createdAt := none
  createdBy := none
  updatedAt := none
  updatedBy := none
  columns := []

/-- A catalog with one table, whose relations have a column with the given name. -/
def ordersProvider (column : String) : SystemTableProvider where
  source :=
    { listCatalogs := .ok [⟨"main", none⟩]
      listSchemas := fun _ => .ok [⟨"sales", none⟩]
      listTables := fun _ _ => .ok [orders]
      table := fun _ => .ok orders }
  tableDetails _ := .ok .null
  catalogScope := none
  schema := [⟨column, .utf8, false⟩]

theorem listedNames_orders (column : String) : ListedNames (ordersProvider column) := by
  have hcarries : ∀ catalog schema, Carries catalog schema "orders" orders := by
    intro catalog schema
    refine ⟨fun _ h => ?_, fun _ h => ?_, fun name h => ?_⟩
    · cases h
    · cases h
    · obtain rfl := Option.some.inj h
      exact beq_self_eq_true _
  constructor
  · intro catalog schema table h
    obtain ⟨tables, htables, hmem⟩ := h
    obtain rfl := Except.ok.inj htables
    obtain rfl := List.mem_singleton.mp hmem
    exact hcarries catalog schema
  · intro catalog schema table record h hrecord
    obtain ⟨tables, htables, hmem⟩ := h
    obtain rfl := Except.ok.inj htables
    obtain rfl := List.mem_singleton.mp hmem
    obtain rfl := Except.ok.inj hrecord
    exact hcarries catalog schema

def equalsText (column value : String) : Expr :=
  .binary (.column column) .eq (.literal (.utf8 (some value)))

theorem soundPushdown_orders :
    SoundPushdown (fun expr cells => filterHolds expr cells = true) (ordersProvider "table_name")
      .tables [equalsText "table_name" "orders"] := by
  refine soundPushdown documentedFilters_filterHolds (listedNames_orders "table_name") ?_ _
  intro field hfield key hkey hname hother
  obtain rfl := List.mem_singleton.mp hfield
  obtain rfl : key = .table := by
    have hkeyOf : keyOf "table_name" = some .table := by decide +kernel
    exact Option.some.inj (hname.symm.trans hkeyOf)
  exact absurd rfl hother

/-- The rows of `schemata` have no `table_catalog`: a column of this name is filled in. -/
theorem not_soundPushdown : ¬∀ (holds : Expr → (String → Scalar) → Prop),
    DocumentedFilters holds → ∀ provider, ListedNames provider → ∀ relation exprs,
      SoundPushdown holds provider relation exprs := by
  intro h
  obtain ⟨rows', hrows', hperm⟩ := h _ documentedFilters_filterHolds
    (ordersProvider "table_catalog") (listedNames_orders "table_catalog") .schemata
    [equalsText "table_catalog" ""] [schemataRow "main" "sales"] rfl
  have hmatches : (MetadataFilters.fromExprs [equalsText "table_catalog" ""]).matchesCatalog
      "main" = false := by decide +kernel
  obtain rfl : [] = rows' := by
    have hnone : (ordersProvider "table_catalog").loadInformationSchemaRows
        (.fromExprs [equalsText "table_catalog" ""]) .schemata = .ok [] := by
      show (ordersProvider "table_catalog").schemataRows _ = _
      unfold SystemTableProvider.schemataRows SystemTableProvider.eachSchema catalogs
      simp [ordersProvider, hmatches, bind, Except.bind, pure, Except.pure]
    exact Except.ok.inj (hnone.symm.trans hrows')
  have hholds : filterHolds (equalsText "table_catalog" "")
      (columnCell (ordersProvider "table_catalog").schema (schemataRow "main" "sales")) = true := by
    decide +kernel
  have hnone := hperm.mem_iff (a := schemataRow "main" "sales")
  rw [mem_reapply, mem_reapply, List.forall_mem_singleton] at hnone
  exact List.not_mem_nil (hnone.mpr ⟨List.mem_singleton_self _, hholds⟩).1

end HarborSql.InformationSchema
