import Mathlib.Data.String.Basic
import HarborSql.Engine.InformationSchema
import HarborSql.Engine.Show
import HarborSql.Theory.Decimal
import HarborSql.Theory.Except
import HarborSql.Theory.StableSort

/-! `SHOW COLUMNS`, `GetColumns` and `information_schema.columns` list the columns of a table by one
key and number them by another. When the three lists agree. -/

namespace HarborSql

/-! ## The keys as texts -/

/-- Two numbers, the first one below the second one, whose keys are in that order as texts. Below
zero only the tenth digit brings a lower number to the front. -/
def KeyedInOrder (a b : Int) : Prop :=
  b < 0 → 10 ^ 9 ≤ -a ∧ -b < 10 ^ 9 ∧ -a / 10 < -b

open InformationSchema in
theorem zeroPadded_nonneg {n : Nat} : zeroPadded 10 n = paddedDigits 10 n := by
  rw [zeroPadded, if_neg (by omega)]
  rfl

open InformationSchema in
theorem zeroPadded_neg {n : Nat} (h : 0 < n) :
    zeroPadded 10 (-(n : Int)) = '-' :: paddedDigits 9 n := by
  rw [zeroPadded, if_pos (by omega), Int.natAbs_neg, Int.natAbs_natCast]
  rfl

open InformationSchema in
theorem not_zeroPadded_lt_iff {a b : Int} (hab : a < b) (ha : -2 ^ 31 ≤ a) (hb : b < 2 ^ 31) :
    ¬ zeroPadded 10 b < zeroPadded 10 a ↔ KeyedInOrder a b := by
  by_cases hneg : b < 0
  · obtain ⟨n, rfl⟩ : ∃ n : Nat, a = -(n : Int) := ⟨a.natAbs, by omega⟩
    obtain ⟨m, rfl⟩ : ∃ m : Nat, b = -(m : Int) := ⟨b.natAbs, by omega⟩
    have hsign : zeroPadded 10 (-(m : Int)) < zeroPadded 10 (-(n : Int)) ↔
        paddedDigits 9 m < paddedDigits 9 n := by
      rw [zeroPadded_neg (by omega), zeroPadded_neg (by omega), List.cons_lt_cons_iff]
      simp
    rw [hsign, KeyedInOrder]
    by_cases hn : n < 10 ^ 9
    · have hm : m < 10 ^ 9 := by omega
      rw [(paddedDigits_lt_iff (by decide) hm hn).1]
      omega
    · have hn' : n < 10 ^ (9 + 1) := by omega
      by_cases hm : m < 10 ^ 9
      · rw [paddedDigits_lt_of_long (by decide) (Nat.not_lt.mp hn) hn' hm]
        omega
      · have hm' : m < 10 ^ (9 + 1) := by omega
        rw [paddedDigits_of_le (by decide) (Nat.not_lt.mp hn),
          paddedDigits_of_le (by decide) (Nat.not_lt.mp hm),
          (paddedDigits_lt_iff (by decide) hm' hn').1]
        omega
  · refine iff_of_true ?_ fun h => absurd h hneg
    obtain ⟨m, rfl⟩ : ∃ m : Nat, b = m := ⟨b.natAbs, by omega⟩
    have hm : m < 10 ^ 10 := by omega
    rw [zeroPadded_nonneg]
    by_cases hpos : 0 ≤ a
    · obtain ⟨n, rfl⟩ : ∃ n : Nat, a = n := ⟨a.natAbs, by omega⟩
      have hn : n < 10 ^ 10 := by omega
      rw [zeroPadded_nonneg, (paddedDigits_lt_iff (by decide) hm hn).1]
      omega
    · obtain ⟨n, rfl⟩ : ∃ n : Nat, a = -(n : Int) := ⟨a.natAbs, by omega⟩
      rw [zeroPadded_neg (by omega)]
      cases hdigits : paddedDigits 10 m with
      | nil =>
        have hlen := length_paddedDigits (by decide) hm
        rw [hdigits] at hlen
        cases hlen
      | cons c cs =>
        have hdigit : c.isDigit := isDigit_of_mem_paddedDigits (hdigits ▸ List.mem_cons_self)
        rw [List.cons_lt_cons_iff]
        rintro (hlt | ⟨rfl, -⟩)
        · rw [Char.isDigit, Bool.and_eq_true, decide_eq_true_eq] at hdigit
          exact absurd (lt_of_le_of_lt hdigit.1 hlt) (by decide)
        · cases hdigit

/-! ## The order of the columns -/

/-- What a column is numbered by: its position, or else its place in the list. -/
def columnNumber (c : ColumnInfo × Nat) : Int32 := c.1.position.getD (Int32.ofNat c.2)

/-- By position, with the columns that have none behind those that have one. -/
def positionLe (x y : ColumnInfo × Nat) : Bool :=
  match x.1.position, y.1.position with
  | some p, some q => p ≤ q
  | _, none => true
  | none, some _ => false

/-- The columns by position, and in the order of the list where that says nothing. -/
def columnsByPosition (columns : List ColumnInfo) : List (ColumnInfo × Nat) :=
  columns.zipIdx.mergeSort positionLe

/-- A column is listed in front of another one. -/
def ListedBefore (x y : ColumnInfo × Nat) : Prop :=
  positionLe x y ∧ (positionLe y x → x.2 < y.2)

theorem positionLe_trans (x y z : ColumnInfo × Nat) (h : positionLe x y) (h' : positionLe y z) :
    positionLe x z := by
  unfold positionLe at *
  generalize x.1.position = p at *
  generalize y.1.position = q at *
  generalize z.1.position = r at *
  cases r with
  | none => cases p <;> rfl
  | some r =>
    cases q with
    | none => cases h'
    | some q =>
      cases p with
      | none => cases h
      | some p => exact decide_eq_true (Int32.le_trans (of_decide_eq_true h) (of_decide_eq_true h'))

theorem positionLe_total (x y : ColumnInfo × Nat) : positionLe x y || positionLe y x := by
  unfold positionLe
  cases x.1.position <;> cases y.1.position <;> simp [Int32.le_total]

theorem zipIdx_places (columns : List ColumnInfo) :
    columns.zipIdx.Pairwise fun x y => x.2 < y.2 := by
  rw [List.pairwise_iff_getElem]
  intro i j hi hj hij
  simpa using hij

theorem columnsByPosition_pairwise (columns : List ColumnInfo) :
    (columnsByPosition columns).Pairwise ListedBefore :=
  pairwise_mergeSort_stable positionLe_trans positionLe_total (zipIdx_places columns)

theorem mem_columnsByPosition {columns : List ColumnInfo} {c : ColumnInfo × Nat} :
    c ∈ columnsByPosition columns ↔ c ∈ columns.zipIdx := List.mem_mergeSort

theorem ListedBefore.asymm {x y : ColumnInfo × Nat} (h : ListedBefore x y) :
    ¬ ListedBefore y x := by
  intro h'
  exact absurd (h.2 h'.1) (Nat.lt_asymm (h'.2 h.1))

section
variable {columns : List ColumnInfo} {R : ColumnInfo × Nat → ColumnInfo × Nat → Prop}

theorem rel_or_rel (hR : (columnsByPosition columns).Pairwise R) {c d : ColumnInfo × Nat}
    (hc : c ∈ columns.zipIdx) (hd : d ∈ columns.zipIdx) (hne : c ≠ d) : R c d ∨ R d c := by
  rw [List.pairwise_iff_forall_sublist] at hR
  exact (pair_sublist_or (mem_columnsByPosition.mpr hc) (mem_columnsByPosition.mpr hd) hne).imp
    (hR ·) (hR ·)

theorem rel_of_listedBefore (hR : (columnsByPosition columns).Pairwise R) {c d : ColumnInfo × Nat}
    (hc : c ∈ columns.zipIdx) (hd : d ∈ columns.zipIdx) (h : ListedBefore c d) : R c d := by
  have hne : c ≠ d := by
    rintro rfl
    exact h.asymm h
  have hboth := rel_or_rel (hR.and (columnsByPosition_pairwise columns)) hc hd hne
  exact (hboth.resolve_right fun h' => h.asymm h'.2).1

end

/-! ## The condition -/

/-- The positions that are there are different, not negative, and below the number of columns. -/
structure PositionsDistinct (columns : List ColumnInfo) : Prop where
  distinct : ∀ c ∈ columns.zipIdx, ∀ d ∈ columns.zipIdx, ∀ p, c.1.position = some p →
    d.1.position = some p → c = d
  range : ∀ c ∈ columns, ∀ p, c.position = some p → 0 ≤ p.toInt ∧ p.toInt < columns.length

/-- The columns are numbered in the order of their positions. -/
structure NumberedInOrder (columns : List ColumnInfo) : Prop where
  /-- No column is numbered by the largest number. -/
  ne_maxValue : ∀ c ∈ columns.zipIdx, columnNumber c ≠ Int32.maxValue
  /-- No position is above the place of a column without one. -/
  positioned : ∀ c ∈ columns.zipIdx, ∀ d ∈ columns.zipIdx, ∀ p, c.1.position = some p →
    d.1.position = none → p ≤ Int32.ofNat d.2
  /-- The places of the columns without a position do not wrap around. -/
  unpositioned : ∀ c ∈ columns.zipIdx, ∀ d ∈ columns.zipIdx, c.1.position = none →
    d.1.position = none → c.2 < d.2 → Int32.ofNat c.2 ≤ Int32.ofNat d.2
  /-- Different numbers below -1 are in order as texts once one is added. -/
  negative : ∀ c ∈ columns.zipIdx, ∀ d ∈ columns.zipIdx, columnNumber c < columnNumber d →
    KeyedInOrder ((columnNumber c).toInt + 1) ((columnNumber d).toInt + 1)
  /-- Where the positions are distinct, none is the place of a column without one. -/
  apart : PositionsDistinct columns → ∀ c ∈ columns.zipIdx, ∀ d ∈ columns.zipIdx,
    d.1.position = none → columnNumber c = Int32.ofNat d.2 → c = d

/-! ## Ordinals -/

theorem toInt_ordinal {n : Int32} (h : n ≠ Int32.maxValue) : (n + 1).toInt = n.toInt + 1 := by
  have hmax : n.toInt ≠ 2 ^ 31 - 1 := fun heq => h (Int32.toInt_inj.mp heq)
  have hlt := n.toInt_lt
  have hle := n.le_toInt
  rw [Int32.toInt_add, Int32.toInt_one, Int.bmod_eq_of_le] <;> omega

theorem ordinal_le_iff {n m : Int32} (hn : n ≠ Int32.maxValue) (hm : m ≠ Int32.maxValue) :
    n + 1 ≤ m + 1 ↔ n ≤ m := by
  rw [Int32.le_iff_toInt_le, Int32.le_iff_toInt_le, toInt_ordinal hn, toInt_ordinal hm]
  omega

theorem ordinal_lt_iff {n m : Int32} (hn : n ≠ Int32.maxValue) (hm : m ≠ Int32.maxValue) :
    n + 1 < m + 1 ↔ n < m := by
  rw [Int32.lt_iff_toInt_lt, Int32.lt_iff_toInt_lt, toInt_ordinal hn, toInt_ordinal hm]
  omega

/-- Where no column is numbered by the largest number, the key that the code sorts by is the
position. -/
theorem columnsByPosition_eq {columns : List ColumnInfo}
    (h : ∀ c ∈ columns.zipIdx, columnNumber c ≠ Int32.maxValue) :
    (columns.zipIdx.mergeSort fun x y =>
      x.1.position.getD Int32.maxValue ≤ y.1.position.getD Int32.maxValue) =
    columnsByPosition columns := by
  have hle : ∀ x ∈ columns.zipIdx, ∀ y ∈ columns.zipIdx,
      decide (x.1.position.getD Int32.maxValue ≤ y.1.position.getD Int32.maxValue) =
        positionLe x y := by
    intro x hx y hy
    have hx := h x hx
    have hy := h y hy
    unfold positionLe columnNumber at *
    have hlast (n : Int32) : n ≤ Int32.maxValue := by
      have := n.toInt_lt
      rw [Int32.le_iff_toInt_le]
      change n.toInt ≤ 2 ^ 31 - 1
      omega
    cases hpx : x.1.position with
    | none =>
      cases hpy : y.1.position with
      | none => exact decide_eq_true (Int32.le_refl _)
      | some q =>
        rw [hpy] at hy
        refine decide_eq_false fun hle => hy ?_
        exact Int32.le_antisymm (hlast q) hle
    | some p =>
      cases hpy : y.1.position with
      | none => exact decide_eq_true (hlast p)
      | some q => rfl
  have hmap := List.map_mergeSort (f := fun c => c) hle
  rwa [List.map_id', List.map_id'] at hmap

/-- Along the order of the columns, the condition puts their numbers in order. -/
theorem NumberedInOrder.pairwise {columns : List ColumnInfo} (H : NumberedInOrder columns) :
    (columnsByPosition columns).Pairwise fun x y => columnNumber x ≤ columnNumber y := by
  refine (columnsByPosition_pairwise columns).imp_of_mem fun {x y} hx hy hbefore => ?_
  rw [mem_columnsByPosition] at hx hy
  obtain ⟨hle, hplace⟩ := hbefore
  unfold positionLe at hle hplace
  cases hpx : x.1.position with
  | none =>
    cases hpy : y.1.position with
    | none =>
      rw [hpx, hpy] at hplace
      rw [columnNumber, columnNumber, hpx, hpy]
      exact H.unpositioned x hx y hy hpx hpy (hplace rfl)
    | some q =>
      rw [hpx, hpy] at hle
      cases hle
  | some p =>
    rw [columnNumber, columnNumber, hpx]
    cases hpy : y.1.position with
    | none => exact H.positioned x hx y hy p hpx hpy
    | some q =>
      rw [hpx, hpy] at hle
      exact of_decide_eq_true hle

/-! ## Runs -/

/-- A run of `GetColumns` lists the columns of a table. -/
structure GetColumnsLists (build : RegexBuild) (source : MetadataSource)
    (request : GetColumnsRequest) (defaultCatalog catalog schema name : String)
    (table : TableInfo) : Prop where
  inCatalog : ∃ catalogs, resolveCatalogCandidates build source
    (normalizeGetColumnsRequest request).catalog defaultCatalog = .ok catalogs ∧ catalog ∈ catalogs
  inSchema : ∃ schemas, resolveSchemaCandidates build source catalog
    (normalizeGetColumnsRequest request).schema = .ok schemas ∧ schema ∈ schemas
  asTable : ∃ tables, resolveTableCandidates build source catalog schema
    (normalizeGetColumnsRequest request).table = .ok tables ∧ ∃ row ∈ tables, row.name = name
  detailed : source.table (tableFullIdentifier catalog schema name) = .ok table

theorem getColumnsRows_block {build : RegexBuild} {source : MetadataSource}
    {request : GetColumnsRequest} {defaultCatalog catalog schema name : String} {table : TableInfo}
    (h : GetColumnsLists build source request defaultCatalog catalog schema name table)
    {pattern : MetadataPattern}
    (hpattern : MetadataPattern.new build (normalizeGetColumnsRequest request).column = .ok pattern)
    {rows : List ColumnMetadataRow}
    (hrows : getColumnsRows build source request defaultCatalog = .ok rows) :
    ∃ before after, rows = (before ++ columnMetadataRows table catalog schema name pattern ++
      after).mergeSort columnMetadataRowLe := by
  obtain ⟨catalogs, hcatalogs, hcatalog⟩ := h.inCatalog
  obtain ⟨schemas, hschemas, hschema⟩ := h.inSchema
  obtain ⟨tables, htables, row, hrow, rfl⟩ := h.asTable
  simp only [getColumnsRows, hcatalogs, hpattern, Except.bind_eq_ok, Except.ok.injEq,
    exists_eq_left'] at hrows
  obtain ⟨all, hall, hrows⟩ := hrows
  obtain rfl := Except.ok.inj hrows
  obtain ⟨ofCatalog, hofCatalog⟩ := Except.exists_mapM_eq_ok.mp ⟨all, hall⟩ catalog hcatalog
  obtain ⟨before₁, after₁, h₁⟩ := Except.mapM_block hall hcatalog hofCatalog
  simp only [catalogColumnRows, hschemas, Except.bind_eq_ok, Except.ok.injEq,
    exists_eq_left'] at hofCatalog
  obtain ⟨all', hall', hofCatalog⟩ := hofCatalog
  obtain rfl := Except.ok.inj hofCatalog
  obtain ⟨ofSchema, hofSchema⟩ := Except.exists_mapM_eq_ok.mp ⟨all', hall'⟩ schema hschema
  obtain ⟨before₂, after₂, h₂⟩ := Except.mapM_block hall' hschema hofSchema
  simp only [schemaColumnRows, htables, Except.bind_eq_ok, Except.ok.injEq,
    exists_eq_left'] at hofSchema
  obtain ⟨all'', hall'', hofSchema⟩ := hofSchema
  obtain rfl := Except.ok.inj hofSchema
  have htable : tableColumnRows source pattern catalog schema row =
      .ok (columnMetadataRows table catalog schema row.name pattern) := by
    rw [tableColumnRows, h.detailed]
    rfl
  obtain ⟨before₃, after₃, h₃⟩ := Except.mapM_block hall'' hrow htable
  refine ⟨before₁ ++ before₂ ++ before₃, after₃ ++ after₂ ++ after₁, ?_⟩
  rw [h₁, h₂, h₃]
  simp only [List.append_assoc]

namespace InformationSchema

/-- A scan of `information_schema.columns` lists the columns of a table. -/
structure ColumnsLists (source : MetadataSource) (catalogScope : Option String)
    (filters : MetadataFilters) (catalogName schemaName : String) (listed table : TableInfo) :
    Prop where
  inCatalog : ∃ all, catalogs source catalogScope filters = .ok all ∧
    ∃ catalog ∈ all, catalog.name = catalogName
  inSchema : ∃ all, schemas source filters catalogName = .ok all ∧
    ∃ schema ∈ all, HarborSql.schemaName schema = schemaName
  asTable : ∃ all, source.listTables catalogName schemaName = .ok all ∧ listed ∈ all
  accepted : filters.matchesTable (tableName listed)
  detailed : source.table (tableFullName listed catalogName schemaName (tableName listed)) =
    .ok table

theorem columnRows_block {source : MetadataSource} {catalogScope : Option String}
    {filters : MetadataFilters} {catalogName schemaName : String} {listed table : TableInfo}
    (h : ColumnsLists source catalogScope filters catalogName schemaName listed table)
    {rows : List SystemRow} (hrows : columnRows source catalogScope filters = .ok rows) :
    ∃ before after, rows = sortRows
      (before ++ tableColumnRows table catalogName schemaName (tableName listed) filters ++ after)
      ["table_catalog", "table_schema", "table_name", "ordinal_position"] := by
  obtain ⟨catalogs, hcatalogs, catalog, hcatalog, rfl⟩ := h.inCatalog
  obtain ⟨schemas, hschemas, schema, hschema, rfl⟩ := h.inSchema
  obtain ⟨tables, htables, hlisted⟩ := h.asTable
  simp only [columnRows, hcatalogs, Except.bind_eq_ok, Except.ok.injEq, exists_eq_left'] at hrows
  obtain ⟨all, hall, hrows⟩ := hrows
  obtain rfl := Except.ok.inj hrows
  obtain ⟨ofCatalog, hofCatalog⟩ := Except.exists_mapM_eq_ok.mp ⟨all, hall⟩ catalog hcatalog
  obtain ⟨before₁, after₁, h₁⟩ := Except.mapM_block hall hcatalog hofCatalog
  simp only [catalogRows, hschemas, Except.bind_eq_ok, Except.ok.injEq,
    exists_eq_left'] at hofCatalog
  obtain ⟨all', hall', hofCatalog⟩ := hofCatalog
  obtain rfl := Except.ok.inj hofCatalog
  obtain ⟨ofSchema, hofSchema⟩ := Except.exists_mapM_eq_ok.mp ⟨all', hall'⟩ schema hschema
  obtain ⟨before₂, after₂, h₂⟩ := Except.mapM_block hall' hschema hofSchema
  simp only [schemaRows, htables, Except.bind_eq_ok, Except.ok.injEq,
    exists_eq_left'] at hofSchema
  obtain ⟨all'', hall'', hofSchema⟩ := hofSchema
  obtain rfl := Except.ok.inj hofSchema
  have htable : listedColumnRows source filters catalog.name (HarborSql.schemaName schema) listed =
      .ok (tableColumnRows table catalog.name (HarborSql.schemaName schema) (tableName listed)
        filters) := by
    rw [listedColumnRows, if_pos h.accepted]
    simp only [h.detailed]
    rfl
  obtain ⟨before₃, after₃, h₃⟩ := Except.mapM_block hall'' hlisted htable
  refine ⟨before₁ ++ before₂ ++ before₃, after₃ ++ after₂ ++ after₁, ?_⟩
  rw [h₁, h₂, h₃]
  simp only [List.append_assoc]

end InformationSchema

/-! ## Agreement -/

open InformationSchema (SystemRow MetadataFilters) in
/-- The columns of a table are listed by position everywhere, with ordinals that fit. -/
structure ColumnsAgree (table : TableInfo) : Prop where
  showColumns : ∀ (source : MetadataSource) (tableName : ObjectName)
    (schemaName : Option ObjectName) (defaultCatalog defaultSchema : String)
    (resolved : ResolvedTable),
    resolveTable tableName schemaName defaultCatalog defaultSchema = .ok resolved →
    source.table (tableFullIdentifier resolved.catalog resolved.schema resolved.table) =
      .ok table →
    showColumns source tableName schemaName defaultCatalog defaultSchema =
      .ok ((columnsByPosition table.columns).map (·.1.name))
  getColumns : ∀ (build : RegexBuild) (source : MetadataSource) (request : GetColumnsRequest)
    (defaultCatalog catalog schema name : String) (pattern : MetadataPattern)
    (rows : List ColumnMetadataRow),
    GetColumnsLists build source request defaultCatalog catalog schema name table →
    MetadataPattern.new build (normalizeGetColumnsRequest request).column = .ok pattern →
    getColumnsRows build source request defaultCatalog = .ok rows →
    (((columnsByPosition table.columns).filter fun c => pattern.isMatch c.1.name).map fun c =>
      columnMetadataRow table catalog schema name c.1 c.2).Sublist rows
  informationSchema : ∀ (source : MetadataSource) (catalogScope : Option String)
    (filters : MetadataFilters) (catalogName schemaName : String) (listed : TableInfo)
    (rows : List SystemRow),
    InformationSchema.ColumnsLists source catalogScope filters catalogName schemaName listed
      table →
    InformationSchema.columnRows source catalogScope filters = .ok rows →
    (((columnsByPosition table.columns).filter fun c => filters.matchesColumn c.1.name).map fun c =>
      InformationSchema.columnRow table catalogName schemaName (tableName listed) c.1 c.2).Sublist
        rows
  ordinals : PositionsDistinct table.columns → ∀ catalog schema name,
    ((columnsByPosition table.columns).map fun c =>
      (columnMetadataRow table catalog schema name c.1 c.2).ordinalPosition).Pairwise (· < ·) ∧
    ∀ c ∈ columnsByPosition table.columns,
      (InformationSchema.columnRow table catalog schema name c.1 c.2).get "ordinal_position" =
        some (.int32 (some (columnMetadataRow table catalog schema name c.1 c.2).ordinalPosition))
  noOverflow : ∀ c ∈ table.columns.zipIdx, (columnNumber c).toInt + 1 < 2 ^ 31

/-! ## The order of the rows -/

theorem columnMetadataRowLe_trans (a b c : ColumnMetadataRow) (h : columnMetadataRowLe a b)
    (h' : columnMetadataRowLe b c) : columnMetadataRowLe a c := by
  simp only [columnMetadataRowLe, Bool.or_eq_true, Bool.and_eq_true, decide_eq_true_eq] at *
  rcases h with h | ⟨h, hle⟩
  · rcases h' with h' | ⟨h', -⟩
    · exact .inl (lt_trans h h')
    · exact .inl (h' ▸ h)
  · rcases h' with h' | ⟨h', hle'⟩
    · exact .inl (h ▸ h')
    · exact .inr ⟨h.trans h', Int32.le_trans hle hle'⟩

theorem columnMetadataRowLe_total (a b : ColumnMetadataRow) :
    columnMetadataRowLe a b || columnMetadataRowLe b a := by
  simp only [columnMetadataRowLe, Bool.or_eq_true, Bool.and_eq_true, decide_eq_true_eq]
  rcases lt_trichotomy [toAsciiLowercase a.catalog, toAsciiLowercase a.schema,
    toAsciiLowercase a.table] [toAsciiLowercase b.catalog, toAsciiLowercase b.schema,
    toAsciiLowercase b.table] with h | h | h
  · exact .inl (.inl h)
  · exact (Int32.le_total a.ordinalPosition b.ordinalPosition).imp (.inr ⟨h, ·⟩)
      (.inr ⟨h.symm, ·⟩)
  · exact .inr (.inl h)

section
variable (table : TableInfo) (catalog schema name : String) (x y : ColumnInfo × Nat)

/-- The rows of one table are in order by what their columns are numbered by. -/
theorem columnMetadataRowLe_iff :
    columnMetadataRowLe (columnMetadataRow table catalog schema name x.1 x.2)
        (columnMetadataRow table catalog schema name y.1 y.2) ↔
      columnNumber x + 1 ≤ columnNumber y + 1 := by
  rw [columnMetadataRowLe, Bool.or_eq_true, Bool.and_eq_true, decide_eq_true_eq, decide_eq_true_eq,
    decide_eq_true_eq]
  constructor
  · rintro (h | h)
    · exact absurd h (lt_irrefl _)
    · exact h.2
  · exact fun h => .inr ⟨rfl, h⟩

namespace InformationSchema

theorem sortKeys_trans (columns : List String) (a b c : SystemRow)
    (h : decide ¬ sortKeys columns b < sortKeys columns a)
    (h' : decide ¬ sortKeys columns c < sortKeys columns b) :
    decide ¬ sortKeys columns c < sortKeys columns a := by
  rw [decide_eq_true_eq] at *
  exact not_lt.mpr (le_trans (not_lt.mp h) (not_lt.mp h'))

theorem sortKeys_total (columns : List String) (a b : SystemRow) :
    (decide ¬ sortKeys columns b < sortKeys columns a) ||
      decide ¬ sortKeys columns a < sortKeys columns b := by
  rw [Bool.or_eq_true, decide_eq_true_eq, decide_eq_true_eq, not_lt, not_lt]
  exact le_total _ _

theorem columnRow_ordinal : (columnRow table catalog schema name x.1 x.2).get "ordinal_position" =
    some (.int32 (some (columnNumber x + 1))) := by
  simp [columnRow, SystemRow.get, columnNumber]

theorem sortKeys_lt_iff :
    sortKeys ["table_catalog", "table_schema", "table_name", "ordinal_position"]
        (columnRow table catalog schema name y.1 y.2) <
      sortKeys ["table_catalog", "table_schema", "table_name", "ordinal_position"]
        (columnRow table catalog schema name x.1 x.2) ↔
    zeroPadded 10 (columnNumber y + 1).toInt < zeroPadded 10 (columnNumber x + 1).toInt := by
  have hkeys (c : ColumnInfo × Nat) : sortKeys
      ["table_catalog", "table_schema", "table_name", "ordinal_position"]
      (columnRow table catalog schema name c.1 c.2) =
        [toAsciiLowercase (table.catalogName.getD catalog),
          toAsciiLowercase (table.schemaName.getD schema),
          toAsciiLowercase (table.name.getD name),
          .ofList (zeroPadded 10 (columnNumber c + 1).toInt)] := by
    simp [sortKeys, sortKey, columnRow, SystemRow.get, columnNumber, string]
  rw [hkeys, hkeys]
  simp only [List.cons_lt_cons_iff, lt_irrefl, false_or, true_and, List.not_lt_nil, and_false,
    or_false, String.lt_iff_toList_lt, String.toList_ofList]

end InformationSchema

end

/-! ## The condition suffices -/

section
variable {table : TableInfo}

theorem NumberedInOrder.showColumns (H : NumberedInOrder table.columns) :
    tableColumnNames table = (columnsByPosition table.columns).map (·.1.name) := by
  rw [tableColumnNames, columnsByPosition_eq H.ne_maxValue]

theorem mem_of_mem_filter {columns : List ColumnInfo} {p : ColumnInfo × Nat → Bool}
    {c : ColumnInfo × Nat} (h : c ∈ (columnsByPosition columns).filter p) : c ∈ columns.zipIdx :=
  mem_columnsByPosition.mp (List.mem_filter.mp h).1

theorem NumberedInOrder.columnMetadataRows (H : NumberedInOrder table.columns)
    (catalog schema name : String) (pattern : MetadataPattern) :
    columnMetadataRows table catalog schema name pattern =
        (((columnsByPosition table.columns).filter fun c => pattern.isMatch c.1.name).map fun c =>
          columnMetadataRow table catalog schema name c.1 c.2) ∧
      (columnMetadataRows table catalog schema name pattern).Pairwise fun x y =>
        columnMetadataRowLe x y := by
  have heq : HarborSql.columnMetadataRows table catalog schema name pattern =
      (((columnsByPosition table.columns).filter fun c => pattern.isMatch c.1.name).map fun c =>
        columnMetadataRow table catalog schema name c.1 c.2) := by
    rw [HarborSql.columnMetadataRows, columnsByPosition_eq H.ne_maxValue]
  refine ⟨heq, heq ▸ List.pairwise_map.mpr ?_⟩
  refine (H.pairwise.filter _).imp_of_mem fun {x y} hx hy hle => ?_
  rw [columnMetadataRowLe_iff, ordinal_le_iff (H.ne_maxValue x (mem_of_mem_filter hx))
    (H.ne_maxValue y (mem_of_mem_filter hy))]
  exact hle

theorem NumberedInOrder.keyed (H : NumberedInOrder table.columns) {x y : ColumnInfo × Nat}
    (hx : x ∈ table.columns.zipIdx) (hy : y ∈ table.columns.zipIdx)
    (hle : columnNumber x ≤ columnNumber y) :
    ¬ InformationSchema.zeroPadded 10 (columnNumber y + 1).toInt <
      InformationSchema.zeroPadded 10 (columnNumber x + 1).toInt := by
  rw [toInt_ordinal (H.ne_maxValue x hx), toInt_ordinal (H.ne_maxValue y hy)]
  have hlow := (columnNumber x).le_toInt
  have hhigh := (columnNumber y).toInt_lt
  have hmax : (columnNumber y).toInt ≠ 2 ^ 31 - 1 :=
    fun heq => H.ne_maxValue y hy (Int32.toInt_inj.mp heq)
  by_cases heq : columnNumber x = columnNumber y
  · rw [heq]
    exact lt_irrefl _
  · have hne : (columnNumber x).toInt ≠ (columnNumber y).toInt := fun h => heq (Int32.toInt_inj.mp h)
    rw [Int32.le_iff_toInt_le] at hle
    have hlt : columnNumber x < columnNumber y := by
      rw [Int32.lt_iff_toInt_lt]
      omega
    rw [not_zeroPadded_lt_iff (by omega) (by omega) (by omega)]
    exact H.negative x hx y hy hlt

open InformationSchema in
theorem NumberedInOrder.tableColumnRows (H : NumberedInOrder table.columns)
    (catalogName schemaName tableName : String) (filters : MetadataFilters) :
    InformationSchema.tableColumnRows table catalogName schemaName tableName filters =
        (((columnsByPosition table.columns).filter fun c =>
          filters.matchesColumn c.1.name).map fun c =>
            columnRow table catalogName schemaName tableName c.1 c.2) ∧
      (InformationSchema.tableColumnRows table catalogName schemaName tableName filters).Pairwise
        fun x y => decide ¬ sortKeys
            ["table_catalog", "table_schema", "table_name", "ordinal_position"] y <
          sortKeys ["table_catalog", "table_schema", "table_name", "ordinal_position"] x := by
  have heq : InformationSchema.tableColumnRows table catalogName schemaName tableName filters =
      (((columnsByPosition table.columns).filter fun c =>
        filters.matchesColumn c.1.name).map fun c =>
          columnRow table catalogName schemaName tableName c.1 c.2) := by
    rw [InformationSchema.tableColumnRows, columnsByPosition_eq H.ne_maxValue]
  refine ⟨heq, heq ▸ List.pairwise_map.mpr ?_⟩
  refine (H.pairwise.filter _).imp_of_mem fun {x y} hx hy hle => ?_
  rw [decide_eq_true_eq, sortKeys_lt_iff]
  exact H.keyed (mem_of_mem_filter hx) (mem_of_mem_filter hy) hle

/-- Where the positions are distinct, the numbers increase. -/
theorem NumberedInOrder.increasing (H : NumberedInOrder table.columns)
    (hdistinct : PositionsDistinct table.columns) :
    (columnsByPosition table.columns).Pairwise fun x y => columnNumber x < columnNumber y := by
  refine (H.pairwise.and (columnsByPosition_pairwise table.columns)).imp_of_mem
    fun {x y} hx hy ⟨hle, hbefore⟩ => ?_
  rw [mem_columnsByPosition] at hx hy
  have hle := Int32.le_iff_toInt_le.mp hle
  refine Int32.lt_iff_toInt_lt.mpr (lt_of_le_of_ne hle fun heq => ?_)
  have heq := Int32.toInt_inj.mp heq
  have hxy : x = y := by
    unfold columnNumber at heq
    cases hpy : y.1.position with
    | none =>
      rw [hpy] at heq
      exact H.apart hdistinct x hx y hy hpy heq
    | some q =>
      cases hpx : x.1.position with
      | none =>
        have hle := hbefore.1
        rw [positionLe, hpx, hpy] at hle
        cases hle
      | some p =>
        rw [hpx, hpy] at heq
        obtain rfl : p = q := heq
        exact hdistinct.distinct x hx y hy p hpx hpy
  subst hxy
  exact hbefore.asymm hbefore

theorem NumberedInOrder.agree (H : NumberedInOrder table.columns) : ColumnsAgree table where
  showColumns source tableName schemaName defaultCatalog defaultSchema resolved hresolved htable := by
    rw [HarborSql.showColumns, hresolved]
    simp only [bind, Except.bind, htable]
    rw [H.showColumns]
    rfl
  getColumns build source request defaultCatalog catalog schema name pattern rows h hpattern
      hrows := by
    obtain ⟨before, after, rfl⟩ := getColumnsRows_block h hpattern hrows
    obtain ⟨heq, hpairwise⟩ := H.columnMetadataRows catalog schema name pattern
    rw [← heq]
    exact List.sublist_mergeSort columnMetadataRowLe_trans columnMetadataRowLe_total hpairwise
      (List.sublist_append_of_sublist_left (List.sublist_append_right _ _))
  informationSchema source catalogScope filters catalogName schemaName listed rows h hrows := by
    obtain ⟨before, after, rfl⟩ := InformationSchema.columnRows_block h hrows
    obtain ⟨heq, hpairwise⟩ := H.tableColumnRows catalogName schemaName (tableName listed) filters
    rw [← heq]
    exact List.sublist_mergeSort (InformationSchema.sortKeys_trans _)
      (InformationSchema.sortKeys_total _) hpairwise
      (List.sublist_append_of_sublist_left (List.sublist_append_right _ _))
  ordinals hdistinct catalog schema name := by
    refine ⟨List.pairwise_map.mpr ?_, fun c _ => InformationSchema.columnRow_ordinal ..⟩
    refine (H.increasing hdistinct).imp_of_mem fun {x y} hx hy hlt => ?_
    rw [mem_columnsByPosition] at hx hy
    exact (ordinal_lt_iff (H.ne_maxValue x hx) (H.ne_maxValue y hy)).mpr hlt
  noOverflow c hc := by
    have hne : (columnNumber c).toInt ≠ 2 ^ 31 - 1 :=
      fun heq => H.ne_maxValue c hc (Int32.toInt_inj.mp heq)
    have := (columnNumber c).toInt_lt
    omega

end

/-! ## The condition is necessary -/

/-- A Unity with nothing but a table, which is `c.s.t` there. -/
def oneTable (table : TableInfo) : MetadataSource where
  listCatalogs := .ok [{ name := "c", catalogType := none }]
  listSchemas _ := .ok [{ name := "s", fullName := none }]
  listTables _ _ := .ok [{ table with name := some "t" }]
  table _ := .ok table

/-- A request for all columns. -/
def allColumns : GetColumnsRequest := ⟨none, none, none, none⟩

section
variable (table : TableInfo) (build : RegexBuild)

theorem resolveCatalogs_oneTable :
    resolveCatalogCandidates build (oneTable table) none "c" = .ok ["c"] := rfl

theorem resolveSchemas_oneTable :
    resolveSchemaCandidates build (oneTable table) "c" none = .ok ["s"] := by
  change Except.ok (List.mergeSort ["s"] _) = _
  rw [List.mergeSort_singleton]

theorem resolveTables_oneTable :
    resolveTableCandidates build (oneTable table) "c" "s" none = .ok [⟨"s", "t"⟩] := by
  change Except.ok (List.mergeSort [TableRow.mk "s" "t"] _) = _
  rw [List.mergeSort_singleton]

theorem getColumnsLists_oneTable :
    GetColumnsLists build (oneTable table) allColumns "c" "c" "s" "t" table where
  inCatalog := ⟨_, resolveCatalogs_oneTable table build, List.mem_cons_self⟩
  inSchema := ⟨_, resolveSchemas_oneTable table build, List.mem_cons_self⟩
  asTable := ⟨_, resolveTables_oneTable table build, _, List.mem_cons_self, rfl⟩
  detailed := rfl

theorem getColumnsRows_oneTable : getColumnsRows build (oneTable table) allColumns "c" =
    .ok ((columnMetadataRows table "c" "s" "t" ⟨none⟩).mergeSort columnMetadataRowLe) := by
  have hnormal : normalizeGetColumnsRequest allColumns = allColumns := rfl
  have hpattern : MetadataPattern.new build none = .ok ⟨none⟩ := rfl
  have htable : tableColumnRows (oneTable table) ⟨none⟩ "c" "s" ⟨"s", "t"⟩ =
      .ok (columnMetadataRows table "c" "s" "t" ⟨none⟩) := rfl
  have hschema : schemaColumnRows build (oneTable table) allColumns ⟨none⟩ "c" "s" =
      .ok (columnMetadataRows table "c" "s" "t" ⟨none⟩) := by
    rw [schemaColumnRows, allColumns, resolveTables_oneTable]
    simp [bind, Except.bind, pure, Except.pure, htable]
  have hcatalog : catalogColumnRows build (oneTable table) allColumns ⟨none⟩ "c" =
      .ok (columnMetadataRows table "c" "s" "t" ⟨none⟩) := by
    rw [catalogColumnRows, allColumns, resolveSchemas_oneTable]
    simp only [allColumns] at hschema
    simp [bind, Except.bind, pure, Except.pure, hschema]
  rw [getColumnsRows, hnormal, allColumns, resolveCatalogs_oneTable, hpattern]
  simp only [allColumns] at hcatalog
  simp [bind, Except.bind, pure, Except.pure, hcatalog]

namespace InformationSchema

/-- No filters. -/
def noFilters : MetadataFilters := ⟨none, none, none, none⟩

theorem columnsLists_oneTable : ColumnsLists (oneTable table) none noFilters "c" "s"
    { table with name := some "t" } table where
  inCatalog := ⟨_, rfl, _, List.mem_cons_self, rfl⟩
  inSchema := ⟨_, rfl, _, List.mem_cons_self, rfl⟩
  asTable := ⟨_, rfl, List.mem_cons_self⟩
  accepted := rfl
  detailed := rfl

theorem columnRows_oneTable : columnRows (oneTable table) none noFilters =
    .ok (sortRows (tableColumnRows table "c" "s" "t" noFilters)
      ["table_catalog", "table_schema", "table_name", "ordinal_position"]) := by
  have htable : listedColumnRows (oneTable table) noFilters "c" "s" { table with name := some "t" } =
      .ok (tableColumnRows table "c" "s" "t" noFilters) := rfl
  have hschema : schemaRows (oneTable table) noFilters "c" "s" =
      .ok (tableColumnRows table "c" "s" "t" noFilters) := by
    have hlisted : (oneTable table).listTables "c" "s" = .ok [{ table with name := some "t" }] := rfl
    simp [schemaRows, bind, Except.bind, pure, Except.pure, hlisted, htable]
  have hcatalog : catalogRows (oneTable table) noFilters "c" =
      .ok (tableColumnRows table "c" "s" "t" noFilters) := by
    have hlisted : schemas (oneTable table) noFilters "c" = .ok [⟨"s", none⟩] := rfl
    simp [catalogRows, bind, Except.bind, pure, Except.pure, hlisted, HarborSql.schemaName, hschema]
  have hlisted : catalogs (oneTable table) none noFilters = .ok [⟨"c", none⟩] := rfl
  simp [columnRows, bind, Except.bind, pure, Except.pure, hlisted, hcatalog]

end InformationSchema

end

section
variable {table : TableInfo} (H : ColumnsAgree table)
include H

theorem ColumnsAgree.ne_maxValue {c : ColumnInfo × Nat} (hc : c ∈ table.columns.zipIdx) :
    columnNumber c ≠ Int32.maxValue := by
  intro heq
  have hlt := H.noOverflow c hc
  rw [heq] at hlt
  exact absurd hlt (by decide)

/-- Along the order of the columns, the rows of `GetColumns` are in order. -/
theorem ColumnsAgree.numbers : (columnsByPosition table.columns).Pairwise fun x y =>
    columnNumber x ≤ columnNumber y := by
  have hsub := H.getColumns (fun _ => .error "") (oneTable table) allColumns "c" "c" "s" "t"
    ⟨none⟩ _ (getColumnsLists_oneTable table _) rfl (getColumnsRows_oneTable table _)
  have hall : ((columnsByPosition table.columns).filter fun c =>
      (MetadataPattern.mk none).isMatch c.1.name) = columnsByPosition table.columns :=
    List.filter_eq_self.mpr fun _ _ => rfl
  rw [hall] at hsub
  have hlen : ((columnsByPosition table.columns).map fun c =>
      columnMetadataRow table "c" "s" "t" c.1 c.2).length =
      ((columnMetadataRows table "c" "s" "t" ⟨none⟩).mergeSort columnMetadataRowLe).length := by
    simp [columnMetadataRows, columnsByPosition, MetadataPattern.isMatch]
  have hpairwise := List.pairwise_mergeSort columnMetadataRowLe_trans columnMetadataRowLe_total
    (columnMetadataRows table "c" "s" "t" ⟨none⟩)
  rw [← hsub.eq_of_length hlen, List.pairwise_map] at hpairwise
  refine hpairwise.imp_of_mem fun {x y} hx hy hle => ?_
  rw [mem_columnsByPosition] at hx hy
  rwa [columnMetadataRowLe_iff, ordinal_le_iff (H.ne_maxValue hx) (H.ne_maxValue hy)] at hle

open InformationSchema in
/-- Along the order of the columns, the rows of `information_schema.columns` are in order. -/
theorem ColumnsAgree.keys : (columnsByPosition table.columns).Pairwise fun x y =>
    ¬ zeroPadded 10 (columnNumber y + 1).toInt < zeroPadded 10 (columnNumber x + 1).toInt := by
  have hsub := H.informationSchema (oneTable table) none noFilters "c" "s"
    { table with name := some "t" } _ (columnsLists_oneTable table) (columnRows_oneTable table)
  have hall : ((columnsByPosition table.columns).filter fun c =>
      noFilters.matchesColumn c.1.name) = columnsByPosition table.columns :=
    List.filter_eq_self.mpr fun _ _ => rfl
  rw [hall] at hsub
  have hlen : ((columnsByPosition table.columns).map fun c =>
      columnRow table "c" "s" "t" c.1 c.2).length =
      (sortRows (InformationSchema.tableColumnRows table "c" "s" "t" noFilters)
        ["table_catalog", "table_schema", "table_name", "ordinal_position"]).length := by
    simp [sortRows, InformationSchema.tableColumnRows, columnsByPosition, noFilters, MetadataFilters.matchesColumn,
      MetadataFilters.admits]
  have hpairwise := List.pairwise_mergeSort
    (sortKeys_trans ["table_catalog", "table_schema", "table_name", "ordinal_position"])
    (sortKeys_total _) (InformationSchema.tableColumnRows table "c" "s" "t" noFilters)
  rw [sortRows] at hsub hlen
  rw [← hsub.eq_of_length hlen, List.pairwise_map] at hpairwise
  refine hpairwise.imp fun {x y} hle => ?_
  rwa [decide_eq_true_eq, sortKeys_lt_iff] at hle

theorem ColumnsAgree.numbered : NumberedInOrder table.columns where
  ne_maxValue c hc := H.ne_maxValue hc
  positioned c hc d hd p hp hnone := by
    have hbefore : ListedBefore c d := by
      rw [ListedBefore, positionLe, positionLe, hp, hnone]
      exact ⟨rfl, nofun⟩
    have hle := rel_of_listedBefore H.numbers hc hd hbefore
    rwa [columnNumber, columnNumber, hp, hnone] at hle
  unpositioned c hc d hd hcnone hdnone hlt := by
    have hbefore : ListedBefore c d := by
      rw [ListedBefore, positionLe, positionLe, hcnone, hdnone]
      exact ⟨rfl, fun _ => hlt⟩
    have hle := rel_of_listedBefore H.numbers hc hd hbefore
    rwa [columnNumber, columnNumber, hcnone, hdnone] at hle
  negative c hc d hd hlt := by
    have hlt' := Int32.lt_iff_toInt_lt.mp hlt
    have hne : c ≠ d := by
      rintro rfl
      omega
    have hkey : ¬ InformationSchema.zeroPadded 10 (columnNumber d + 1).toInt <
        InformationSchema.zeroPadded 10 (columnNumber c + 1).toInt := by
      refine (rel_or_rel (H.numbers.and H.keys) hc hd hne).elim And.right fun h => ?_
      have hle := Int32.le_iff_toInt_le.mp h.1
      omega
    have hlow := (columnNumber c).le_toInt
    have hmax := H.noOverflow d hd
    rwa [toInt_ordinal (H.ne_maxValue hc), toInt_ordinal (H.ne_maxValue hd),
      not_zeroPadded_lt_iff (by omega) (by omega) hmax] at hkey
  apart hdistinct c hc d hd hnone heq := by
    by_contra hne
    have heq : columnNumber c = columnNumber d := by
      rw [heq, columnNumber, hnone]
      rfl
    have hordinals := List.pairwise_map.mp (H.ordinals hdistinct "c" "s" "t").1
    rcases rel_or_rel hordinals hc hd hne with h | h
    · have h : columnNumber c + 1 < columnNumber d + 1 := h
      rw [heq] at h
      exact Int32.lt_irrefl h
    · have h : columnNumber d + 1 < columnNumber c + 1 := h
      rw [heq] at h
      exact Int32.lt_irrefl h

end

/-- The three lists of the columns of a table agree exactly where the columns are numbered in the
order of their positions. -/
theorem columnsAgree_iff (table : TableInfo) :
    ColumnsAgree table ↔ NumberedInOrder table.columns :=
  ⟨ColumnsAgree.numbered, NumberedInOrder.agree⟩

/-- A table whose first column has no position, and whose second one has the position 1. -/
def mixedTable : TableInfo where
  tableId := none
  fullName := "c.s.t"
  name := some "t"
  catalogName := some "c"
  schemaName := some "s"
  tableType := none
  dataSourceFormat := none
  storageLocation := none
  comment := none
  owner := none
  createdAt := none
  createdBy := none
  updatedAt := none
  updatedBy := none
  columns := [⟨"a", none, none, none, none, none, none, none⟩,
    ⟨"b", some 1, none, none, none, none, none, none⟩]

/-- `SHOW COLUMNS` lists `b` and `a`, and `GetColumns` lists `a` and `b`. -/
theorem not_columnsAgree : ¬ ColumnsAgree mixedTable := by
  intro H
  have hle := H.numbered.positioned _ (List.mem_cons_of_mem _ List.mem_cons_self) _
    List.mem_cons_self 1 rfl rfl
  exact absurd hle (by decide)

end HarborSql
