import HarborSql.Verify.Results.RowSet

/-! The types whose columns can be written: `column_encoder` accepts more of them than the values
can be rendered for. -/

namespace HarborSql

/-! ## Types and values -/

mutual

/-- The types whose values `databricks_display_value` renders. -/
def DataType.displayable : DataType → Bool
  | .boolean | .int8 | .int16 | .int32 | .int64 | .uint8 | .uint16 | .uint32 | .uint64
  | .float32 | .float64 | .utf8 | .largeUtf8 | .utf8View | .date32 | .date64 | .timestamp _ _
  | .decimal128 _ _ | .decimal256 _ _ | .binary | .largeBinary | .fixedSizeBinary _ => true
  | .list item | .largeList item => item.displayable
  | .fixedSizeList item size => size == 0 || item.displayable
  | .map key value _ => key.displayable && value.displayable
  | .struct fields => displayableFields fields
  | _ => false

def displayableFields : List (String × DataType) → Bool
  | [] => true
  | (_, dt) :: fields => dt.displayable && displayableFields fields

end

theorem displayableFields_iff {fields : List (String × DataType)} :
    displayableFields fields ↔ ∀ f ∈ fields, f.2.displayable := by
  induction fields with
  | nil => simp [displayableFields]
  | cons f fields ih => simp [displayableFields, ih]

theorem not_displayable_of_isOther {dt : DataType} (h : dt.isOther) : dt.displayable = false := by
  cases dt <;> first | rfl | cases h

/-- The types of columns that can be written: a time zone at the top has to be one that `arrow`
knows. -/
def DataType.writable (F : Formatting) : DataType → Bool
  | .timestamp _ (some tz) => F.parsesTimezone tz
  | dt => dt.displayable

namespace Value

/-- The values that are in range whatever they are. -/
def unbounded : Value → Bool
  | uint64 _ | date32 _ | date64 _ | timestamp .. | list _ | map _ | struct _ => false
  | _ => true

/-- No `UInt64` is above `i64::MAX`, and all dates and timestamps are in the calendar. -/
inductive InRange : Value → Prop
  | uint64 {v} : v.toNat < 2 ^ 63 → InRange (uint64 v)
  | date32 {v} : (date32ToDatetime v).isSome → InRange (date32 v)
  | date64 {v} : (date64ToDatetime v).isSome → InRange (date64 v)
  | timestamp {unit v} : (timestampToDatetime unit v).isSome → InRange (timestamp unit v)
  | list {vs} : (∀ v ∈ vs, InRange v) → InRange (list vs)
  | map {es} : (∀ e ∈ es, InRange e.1) → (∀ e ∈ es, InRange e.2) → InRange (map es)
  | struct {vs} : (∀ v ∈ vs, InRange v) → InRange (struct vs)
  | unbounded {v} : v.unbounded → InRange v

theorem InRange.of_list {vs : List Value} (h : (Value.list vs).InRange) : ∀ v ∈ vs, InRange v := by
  cases h with
  | list h => exact h
  | unbounded h => cases h

theorem InRange.of_map {es : List (Value × Value)} (h : (Value.map es).InRange) :
    (∀ e ∈ es, InRange e.1) ∧ ∀ e ∈ es, InRange e.2 := by
  cases h with
  | map h1 h2 => exact ⟨h1, h2⟩
  | unbounded h => cases h

theorem InRange.of_struct {vs : List Value} (h : (Value.struct vs).InRange) : ∀ v ∈ vs, InRange v := by
  cases h with
  | struct h => exact h
  | unbounded h => cases h

/-- Every type has a value in range. -/
theorem exists_hasType (dt : DataType) : ∃ v, HasType dt v ∧ InRange v := by
  cases h : dt.hasValidity with
  | true => exact ⟨null, .null h, .unbounded rfl⟩
  | false =>
    refine ⟨other, .other ?_, .unbounded rfl⟩
    cases dt with
    | null | union | runEndEncoded => rfl
    | _ => cases h

end Value

/-! ## Displayable types are rendered -/

section
variable {F : Formatting} {row : Nat} {v : Value}

theorem exists_map_ok {α β : Type} {x : Result α} (f : α → β) (h : ∃ a, x = .ok a) :
    ∃ b, f <$> x = .ok b := by
  obtain ⟨a, rfl⟩ := h
  exact ⟨f a, rfl⟩

theorem exists_stringArrayValue {dt : DataType} {v : Value}
    (h : v.isNull ∨ ∃ s, v = .string s) : ∃ s, stringArrayValue F dt v = .ok s := by
  rcases h with h | ⟨s, rfl⟩
  · cases v with
    | null => cases dt <;> exact ⟨"", rfl⟩
    | _ => cases h
  · cases dt <;> exact ⟨s, rfl⟩

theorem exists_arrowValueToI64 {v : UInt64} (h : v.toNat < 2 ^ 63) :
    ∃ n, arrowValueToI64 F .uint64 (.uint64 v) = .ok n := by
  exact ⟨v.toInt64, if_pos h⟩

theorem exists_formatTimestampValue {unit : TimeUnit} {tz : Option String} {v : Int64}
    (h : (timestampToDatetime unit v).isSome) :
    ∃ s, formatTimestampValue F (.timestamp unit tz) row (.timestamp unit v) = .ok s := by
  obtain ⟨t, ht⟩ := Option.isSome_iff_exists.mp h
  refine ⟨F.dateTimeToString t, ?_⟩
  have hvalue : timestampValue F (.timestamp unit tz) (.timestamp unit v) = .ok (some t) := by
    rw [← ht]
    cases unit <;> rfl
  rw [formatTimestampValue, hvalue]
  rfl

theorem exists_formatDateValue {dt : DataType} {t : Option NaiveDateTime} (h : t.isSome)
    (hvalue : dateValue F dt v = .ok t) : ∃ s, formatDateValue F dt row v = .ok s := by
  obtain ⟨t, rfl⟩ := Option.isSome_iff_exists.mp h
  refine ⟨F.dateToString t.date, ?_⟩
  rw [formatDateValue, hvalue]
  rfl

theorem exists_formatValue {dt : DataType} {kind : String}
    (h : ∃ s, F.arrayValueToString dt v = .ok s) : ∃ s, formatValue F dt v kind = .ok s := by
  obtain ⟨s, hs⟩ := h
  exact ⟨s, by rw [formatValue, hs]; rfl⟩

theorem exists_displayList {item : DataType} {vs : List Value}
    (h : ∀ v ∈ vs, ∀ row, ∃ s, databricksDisplayValue F item row v = .ok s) :
    ∃ texts, (vs.zipIdx.mapM fun (v, row) => databricksDisplayValue F item row v) = .ok texts := by
  refine Except.exists_mapM_eq_ok.mpr ?_
  rintro ⟨v, row⟩ hv
  exact h v (List.fst_mem_of_mem_zipIdx hv) row

theorem exists_mapKey {keys : DataType} {k : Value} {display : Result String}
    (hk : k.HasType keys) (h : ∃ s, display = .ok s) : ∃ s, mapKey F keys k display = .ok s := by
  cases hk with
  | null => exact ⟨"null", rfl⟩
  | @utf8 s => exact ⟨s, rfl⟩
  | @largeUtf8 s => exact ⟨s, rfl⟩
  | @utf8View s => exact ⟨s, rfl⟩
  | other hother =>
    cases keys with
    | utf8 | largeUtf8 | utf8View => cases hother
    | _ => exact h
  | _ => exact h

theorem exists_displayStruct {fields : List (String × DataType)} {vs : List Value}
    (hlen : vs.length = fields.length)
    (h : ∀ p ∈ fields.zip vs, ∃ s, databricksDisplayValue F p.1.2 row p.2 = .ok s) :
    ∃ texts, databricksDisplayStruct F fields row vs = .ok texts := by
  induction fields generalizing vs with
  | nil => exact ⟨[], by cases vs <;> rfl⟩
  | cons f fields ih =>
    cases vs with
    | nil => cases hlen
    | cons v vs =>
      rw [List.zip_cons_cons, List.forall_mem_cons] at h
      obtain ⟨text, htext⟩ := h.1
      obtain ⟨rendered, hrendered⟩ := ih (Nat.succ.inj hlen) h.2
      exact ⟨_, Except.bind_eq_ok.mpr ⟨text, htext, Except.bind_eq_ok.mpr ⟨rendered, hrendered, rfl⟩⟩⟩

theorem exists_display (hF : F.Lawful) {dt : DataType} (hdt : dt.displayable)
    (hv : v.HasType dt) (hr : v.InRange) : ∃ s, databricksDisplayValue F dt row v = .ok s := by
  induction dt using DataType.nested_induction generalizing v row with
  | list item ih =>
    cases hv with
    | null => exact ⟨"null", rfl⟩
    | other hother => cases hother
    | list hv =>
      obtain ⟨texts, h⟩ := exists_displayList fun v hm _ => ih hdt (hv v hm) (hr.of_list v hm)
      exact ⟨_, Except.bind_eq_ok.mpr ⟨texts, h, rfl⟩⟩
  | largeList item ih =>
    cases hv with
    | null => exact ⟨"null", rfl⟩
    | other hother => cases hother
    | largeList hv =>
      obtain ⟨texts, h⟩ := exists_displayList fun v hm _ => ih hdt (hv v hm) (hr.of_list v hm)
      exact ⟨_, Except.bind_eq_ok.mpr ⟨texts, h, rfl⟩⟩
  | fixedSizeList item size ih =>
    cases hv with
    | null => exact ⟨"null", rfl⟩
    | other hother => cases hother
    | @fixedSizeList _ _ vs hlen hv =>
      -- a list without elements is rendered whatever its type
      have hitem (v : Value) (hm : v ∈ vs) : item.displayable := by
        refine (Bool.or_eq_true _ _ ▸ hdt).resolve_left fun h => ?_
        rw [beq_iff_eq.mp h, List.length_eq_zero_iff] at hlen
        rw [hlen] at hm
        cases hm
      obtain ⟨texts, h⟩ := exists_displayList
        fun v hm _ => ih (hitem v hm) (hv v hm) (hr.of_list v hm)
      exact ⟨_, Except.bind_eq_ok.mpr ⟨texts, h, rfl⟩⟩
  | map key value sorted ihk ihv =>
    cases hv with
    | null => exact ⟨"null", rfl⟩
    | other hother => cases hother
    | @map _ _ _ es hk hv =>
      obtain ⟨hdk, hdv⟩ := Bool.and_eq_true_iff.mp hdt
      have hpairs : ∃ pairs, (es.zipIdx.mapM fun e => do
          let key ← mapKey F key e.1.1 (databricksDisplayValue F key e.2 e.1.1)
          let value ← databricksDisplayValue F value e.2 e.1.2
          return (key, value)) = .ok pairs := by
        refine Except.exists_mapM_eq_ok.mpr ?_
        rintro ⟨⟨k, v⟩, row⟩ he
        have he := List.fst_mem_of_mem_zipIdx he
        have hkey : ∃ s, databricksDisplayValue F key row k = .ok s :=
          ihk hdk (hk _ he) (hr.of_map.1 _ he)
        have hvalue : ∃ s, databricksDisplayValue F value row v = .ok s :=
          ihv hdv (hv _ he) (hr.of_map.2 _ he)
        obtain ⟨text, htext⟩ := exists_mapKey (hk _ he) hkey
        obtain ⟨value, hvalue⟩ := hvalue
        exact ⟨_, Except.bind_eq_ok.mpr ⟨text, htext, Except.bind_eq_ok.mpr ⟨value, hvalue, rfl⟩⟩⟩
      obtain ⟨pairs, h⟩ := hpairs
      exact ⟨_, Except.bind_eq_ok.mpr ⟨pairs, h, rfl⟩⟩
  | struct fields ih =>
    cases hv with
    | null => exact ⟨"null", rfl⟩
    | other hother => cases hother
    | struct hlen hv =>
      obtain ⟨texts, h⟩ := exists_displayStruct hlen fun p hp => ih _ (List.of_mem_zip hp).1
        (displayableFields_iff.mp hdt _ (List.of_mem_zip hp).1) (hv p hp)
        (hr.of_struct _ (List.of_mem_zip hp).2)
      exact ⟨_, Except.bind_eq_ok.mpr ⟨texts, h, rfl⟩⟩
  | flat dt h1 h2 h3 h4 h5 =>
    cases hv with
    | null => cases dt <;> exact ⟨"null", rfl⟩
    | other hother => exact absurd hdt (by simp [not_displayable_of_isOther hother])
    | list => exact absurd rfl (h1 _)
    | largeList => exact absurd rfl (h2 _)
    | fixedSizeList => exact absurd rfl (h3 _ _)
    | map => exact absurd rfl (h4 _ _ _)
    | struct => exact absurd rfl (h5 _)
    | listView | largeListView => cases hdt
    | uint64 =>
      cases hr with
      | unbounded h => cases h
      | uint64 h => exact exists_map_ok _ (exists_arrowValueToI64 h)
    | date32 =>
      cases hr with
      | unbounded h => cases h
      | date32 h => exact exists_formatDateValue h rfl
    | date64 =>
      cases hr with
      | unbounded h => cases h
      | date64 h => exact exists_formatDateValue h rfl
    | timestamp =>
      cases hr with
      | unbounded h => cases h
      | timestamp h => exact exists_formatTimestampValue h
    | decimal128 => exact exists_formatValue (hF.decimal128 ..)
    | decimal256 => exact exists_formatValue (hF.decimal256 ..)
    | _ => exact ⟨_, rfl⟩

/-! ## Other types have a value that is not -/

theorem display_null {dt : DataType} : databricksDisplayValue F dt row .null = .ok "null" := by
  cases dt <;> rfl

theorem exists_display_of_mapKey {key : DataType} {k : Value} {s : String}
    (hkey : key.displayable = false)
    (h : mapKey F key k (databricksDisplayValue F key row k) = .ok s) :
    ∃ s, databricksDisplayValue F key row k = .ok s := by
  cases key with
  | utf8 | largeUtf8 | utf8View => cases hkey
  | _ =>
    cases k with
    | null => exact ⟨"null", display_null⟩
    | _ => exact ⟨s, h⟩

theorem display_of_displayStruct {fields : List (String × DataType)} {vs : List Value}
    {texts : List String} (h : databricksDisplayStruct F fields row vs = .ok texts) :
    ∀ p ∈ fields.zip vs, ∃ s, databricksDisplayValue F p.1.2 row p.2 = .ok s := by
  induction fields generalizing vs texts with
  | nil => exact List.forall_mem_nil _
  | cons f fields ih =>
    cases vs with
    | nil => exact List.forall_mem_nil _
    | cons v vs =>
      obtain ⟨text, htext, h⟩ := Except.bind_eq_ok.mp h
      obtain ⟨rendered, hrendered, -⟩ := Except.bind_eq_ok.mp h
      exact List.forall_mem_cons.mpr ⟨⟨text, htext⟩, ih hrendered⟩

/-- A value of a type that is in range and is not rendered. -/
structure NotDisplayed (F : Formatting) (dt : DataType) (v : Value) : Prop where
  hasType : v.HasType dt
  inRange : v.InRange
  not_ok : ∀ row s, databricksDisplayValue F dt row v ≠ .ok s

theorem NotDisplayed.not_list {item : DataType} (h : NotDisplayed F item v) (texts : List String) :
    ([v].zipIdx.mapM fun (v, row) => databricksDisplayValue F item row v) ≠ .ok texts := by
  intro hm
  obtain ⟨s, hs⟩ := Except.exists_mapM_eq_ok.mp ⟨texts, hm⟩ (v, 0) List.mem_cons_self
  exact h.not_ok 0 s hs

/-- A value for every field, which is not rendered where its type is not displayable. -/
theorem exists_fieldValues {fields : List (String × DataType)}
    (h : ∀ f ∈ fields, f.2.displayable = false → ∃ v, NotDisplayed F f.2 v) :
    ∃ vs : List Value, vs.length = fields.length ∧ (∀ p ∈ fields.zip vs, p.2.HasType p.1.2) ∧
      (∀ v ∈ vs, v.InRange) ∧
      ∀ p ∈ fields.zip vs, p.1.2.displayable = false → NotDisplayed F p.1.2 p.2 := by
  induction fields with
  | nil => exact ⟨[], rfl, nofun, nofun, nofun⟩
  | cons f fields ih =>
    rw [List.forall_mem_cons] at h
    obtain ⟨vs, hlen, hv, hr, hn⟩ := ih h.2
    have hf : ∃ v : Value, v.HasType f.2 ∧ v.InRange ∧
        (f.2.displayable = false → NotDisplayed F f.2 v) := by
      cases hdt : f.2.displayable with
      | false =>
        obtain ⟨v, hv⟩ := h.1 hdt
        exact ⟨v, hv.hasType, hv.inRange, fun _ => hv⟩
      | true =>
        obtain ⟨v, hv, hr⟩ := Value.exists_hasType f.2
        exact ⟨v, hv, hr, nofun⟩
    obtain ⟨v, hfv, hfr, hfn⟩ := hf
    refine ⟨v :: vs, congrArg Nat.succ hlen, ?_, ?_, ?_⟩
    · exact List.forall_mem_cons.mpr ⟨hfv, hv⟩
    · exact List.forall_mem_cons.mpr ⟨hfr, hr⟩
    · exact List.forall_mem_cons.mpr ⟨hfn, hn⟩

theorem exists_notDisplayed {dt : DataType} (hdt : dt.displayable = false) :
    ∃ v, NotDisplayed F dt v := by
  induction dt using DataType.nested_induction with
  | list item ih =>
    obtain ⟨v, h⟩ := ih hdt
    refine ⟨.list [v], .list ?_, .list ?_, fun row s hs => ?_⟩
    · exact List.forall_mem_singleton.mpr h.hasType
    · exact List.forall_mem_singleton.mpr h.inRange
    · obtain ⟨texts, htexts, -⟩ := Except.bind_eq_ok.mp hs
      exact h.not_list texts htexts
  | largeList item ih =>
    obtain ⟨v, h⟩ := ih hdt
    refine ⟨.list [v], .largeList ?_, .list ?_, fun row s hs => ?_⟩
    · exact List.forall_mem_singleton.mpr h.hasType
    · exact List.forall_mem_singleton.mpr h.inRange
    · obtain ⟨texts, htexts, -⟩ := Except.bind_eq_ok.mp hs
      exact h.not_list texts htexts
  | fixedSizeList item size ih =>
    obtain ⟨hsize, hitem⟩ := Bool.or_eq_false_iff.mp hdt
    obtain ⟨v, h⟩ := ih hitem
    have hmem (w : Value) (hw : w ∈ List.replicate size v) : w = v := List.eq_of_mem_replicate hw
    refine ⟨.list (List.replicate size v), .fixedSizeList List.length_replicate ?_, .list ?_,
      fun row s hs => ?_⟩
    · exact fun w hw => hmem w hw ▸ h.hasType
    · exact fun w hw => hmem w hw ▸ h.inRange
    · obtain ⟨texts, htexts, -⟩ := Except.bind_eq_ok.mp hs
      have hfirst : (v, 0) ∈ (List.replicate size v).zipIdx := by
        rw [List.mem_zipIdx_iff_getElem?, List.getElem?_replicate, if_pos]
        exact Nat.pos_of_ne_zero (beq_eq_false_iff_ne.mp hsize)
      obtain ⟨s, hs⟩ := Except.exists_mapM_eq_ok.mp ⟨texts, htexts⟩ _ hfirst
      exact h.not_ok 0 s hs
  | map key value sorted ihk ihv =>
    have hentry (k v : Value) (hk : k.HasType key) (hkr : k.InRange) (hv : v.HasType value)
        (hvr : v.InRange) (h : ∀ row s t, mapKey F key k (databricksDisplayValue F key row k) = .ok s →
          databricksDisplayValue F value row v ≠ .ok t) :
        NotDisplayed F (.map key value sorted) (.map [(k, v)]) := by
      refine ⟨.map ?_ ?_, .map ?_ ?_, fun row s hs => ?_⟩
      · exact List.forall_mem_singleton.mpr hk
      · exact List.forall_mem_singleton.mpr hv
      · exact List.forall_mem_singleton.mpr hkr
      · exact List.forall_mem_singleton.mpr hvr
      · obtain ⟨pairs, hpairs, -⟩ := Except.bind_eq_ok.mp hs
        obtain ⟨pair, hpair⟩ :=
          Except.exists_mapM_eq_ok.mp ⟨pairs, hpairs⟩ ((k, v), 0) List.mem_cons_self
        obtain ⟨s, hs, hpair⟩ := Except.bind_eq_ok.mp hpair
        obtain ⟨t, ht, -⟩ := Except.bind_eq_ok.mp hpair
        exact h 0 s t hs ht
    cases hkey : key.displayable with
    | false =>
      obtain ⟨k, h⟩ := ihk hkey
      obtain ⟨v, hv, hvr⟩ := Value.exists_hasType value
      refine ⟨_, hentry k v h.hasType h.inRange hv hvr fun row s _ hs => ?_⟩
      obtain ⟨s, hs⟩ := exists_display_of_mapKey hkey hs
      exact absurd hs (h.not_ok row s)
    | true =>
      obtain ⟨v, h⟩ := ihv (by simpa [DataType.displayable, hkey] using hdt)
      obtain ⟨k, hk, hkr⟩ := Value.exists_hasType key
      exact ⟨_, hentry k v hk hkr h.hasType h.inRange fun row _ t _ => h.not_ok row t⟩
  | struct fields ih =>
    obtain ⟨vs, hlen, hv, hr, hn⟩ := exists_fieldValues fun f hf => ih f hf
    refine ⟨.struct vs, .struct hlen hv, .struct hr, fun row s hs => ?_⟩
    obtain ⟨texts, htexts, -⟩ := Except.bind_eq_ok.mp hs
    have hfields : displayableFields fields := by
      refine displayableFields_iff.mpr fun f hf => ?_
      rw [← List.map_fst_zip (Nat.le_of_eq hlen.symm)] at hf
      obtain ⟨p, hp, rfl⟩ := List.mem_map.mp hf
      cases h : p.1.2.displayable with
      | true => rfl
      | false =>
        obtain ⟨s, hs⟩ := display_of_displayStruct htexts p hp
        exact absurd hs ((hn p hp h).not_ok row s)
    exact absurd (hdt.symm.trans hfields) nofun
  | flat dt h1 h2 h3 h4 h5 =>
    cases dt with
    | list item => exact absurd rfl (h1 _)
    | largeList item => exact absurd rfl (h2 _)
    | fixedSizeList item size => exact absurd rfl (h3 _ _)
    | map key value sorted => exact absurd rfl (h4 _ _ _)
    | struct fields => exact absurd rfl (h5 _)
    | listView item => exact ⟨.list [], .listView nofun, .list nofun, nofun⟩
    | largeListView item => exact ⟨.list [], .largeListView nofun, .list nofun, nofun⟩
    | null | float16 | time32 | time64 | duration | interval | binaryView | union | dictionary
    | decimal32 | decimal64 | runEndEncoded => exact ⟨.other, .other rfl, .unbounded rfl, nofun⟩
    | _ => cases hdt

/-! ## Cells of columns -/

variable {dt : DataType} {encoder : ColumnEncoder}

theorem readValue_null {pt : PhysicalType} : ∃ t, readValue F pt dt row .null = .ok t := by
  cases pt <;> cases dt <;> exact ⟨_, rfl⟩

theorem exists_readValue (hF : F.Lawful) (he : columnEncoder F dt = .ok encoder)
    (hdt : dt.writable F) (hv : v.HasType dt) (hr : v.InRange) :
    ∃ t, readValue F encoder.physicalType dt row v = .ok t := by
  have htype := hv
  cases hv with
  | null => exact readValue_null
  | other hother =>
    cases dt with
    | null | float16 | time32 | time64 | duration | interval | binaryView | union | dictionary
    | decimal32 | decimal64 | runEndEncoded => cases he
    | _ => cases hother
  | uint64 =>
    cases he
    cases hr with
    | unbounded h => cases h
    | uint64 h => exact exists_map_ok _ (exists_arrowValueToI64 h)
  | date32 =>
    cases he
    exact exists_map_ok _ (exists_formatValue (hF.date32 _))
  | date64 =>
    cases he
    exact exists_map_ok _ (exists_formatValue (hF.date64 _))
  | @timestamp unit tz =>
    cases he
    cases tz with
    | none => exact exists_map_ok _ (exists_formatValue (hF.timestamp ..))
    | some tz => exact exists_map_ok _ (exists_formatValue ((hF.timestamp_tz ..).mpr hdt))
  | decimal128 | decimal256 | list | largeList | fixedSizeList | map | struct =>
    cases he
    exact exists_map_ok _ (exists_display hF hdt htype hr)
  | listView | largeListView => cases hdt
  | _ =>
    cases he
    exact ⟨_, rfl⟩

/-- The cells of a nested type are rendered, if they are not null. -/
theorem exists_display_of_readValue {t : ThriftValue} (he : columnEncoder F dt = .ok encoder)
    (hdt : dt.displayable = false) (h : readValue F encoder.physicalType dt row v = .ok t) :
    ∃ s, databricksDisplayValue F dt row v = .ok s := by
  cases dt with
  | list | largeList | fixedSizeList | listView | largeListView | map | struct =>
    cases he
    obtain ⟨s, hs, -⟩ := Except.map_eq_ok.mp h
    cases v with
    | null => exact ⟨"null", display_null⟩
    | _ => exact ⟨s, hs⟩
  | null | float16 | time32 | time64 | duration | interval | binaryView | union | dictionary
  | decimal32 | decimal64 | runEndEncoded => cases he
  | _ => cases hdt

theorem exists_not_readValue (hF : F.Lawful) (he : columnEncoder F dt = .ok encoder)
    (hdt : dt.writable F = false) : ∃ v : Value, v.HasType dt ∧ v.InRange ∧
      ∀ row t, readValue F encoder.physicalType dt row v ≠ .ok t := by
  cases hd : dt.displayable with
  | false =>
    obtain ⟨v, h⟩ := exists_notDisplayed (F := F) hd
    refine ⟨v, h.hasType, h.inRange, fun row t ht => ?_⟩
    obtain ⟨s, hs⟩ := exists_display_of_readValue he hd ht
    exact h.not_ok row s hs
  | true =>
    cases dt with
    | timestamp unit tz =>
      cases he
      cases tz with
      | none => cases hdt
      | some tz =>
        refine ⟨.timestamp unit 0, .timestamp, .timestamp ?_, fun row t ht => ?_⟩
        · cases unit <;> rfl
        · obtain ⟨s, hs, -⟩ := Except.map_eq_ok.mp ht
          have hparse : F.parsesTimezone tz := by
            refine (hF.timestamp_tz unit tz 0).mp ?_
            cases h : F.arrayValueToString (.timestamp unit (some tz)) (.timestamp unit 0) with
            | ok s => exact ⟨s, rfl⟩
            | error e =>
              simp only [arrowValueToString, formatValue, h] at hs
              cases hs
          exact absurd (hdt.symm.trans hparse) nofun
    | _ => exact absurd (hdt.symm.trans hd) nofun

/-! ## Columns -/

variable {page : QueryResultPage} {j : Nat}

/-- Column `j` of every batch of a page is of type `dt`. -/
def IsColumn (dt : DataType) (page : QueryResultPage) (j : Nat) : Prop :=
  ∀ b ∈ page.batches, ∃ a, b.columns[j]? = some a ∧ a.dataType = dt

theorem exists_writeBatchValues {b : RecordBatch} {a : ArrowArray} {pt : PhysicalType}
    (ha : b.columns[j]? = some a) : (∃ bytes, writeBatchValues j (readValue F pt) b = .ok bytes) ↔
      ∀ v ∈ a.values, ∃ t, readValue F pt a.dataType 0 v = .ok t := by
  simp only [writeBatchValues, ha, Except.bind_eq_ok]
  constructor
  · rintro ⟨_, ts, h, -⟩ v hv
    obtain ⟨row, hrow⟩ := List.mem_iff_getElem?.mp hv
    have hmem : (v, row) ∈ a.values.zipIdx := List.mem_zipIdx_iff_getElem?.mpr hrow
    obtain ⟨t, ht⟩ := Except.exists_mapM_eq_ok.mp ⟨ts, h⟩ _ hmem
    exact ⟨t, readValue_row F 0 ht⟩
  · intro h
    have hts : ∃ ts, (a.values.zipIdx.mapM fun (v, row) => readValue F pt a.dataType row v) =
        .ok ts := by
      refine Except.exists_mapM_eq_ok.mpr ?_
      rintro ⟨v, row⟩ hv
      obtain ⟨t, ht⟩ := h v (List.fst_mem_of_mem_zipIdx hv)
      exact ⟨t, readValue_row F row ht⟩
    obtain ⟨ts, hts⟩ := hts
    exact ⟨_, ts, hts, rfl⟩

/-- A column is written if all its cells are. -/
theorem exists_writeColumn (hj : IsColumn dt page j) :
    (∃ bytes, writeColumn F encoder j page = .ok bytes) ↔
      ∀ v ∈ columnValues page.batches j, ∃ t, readValue F encoder.physicalType dt 0 v = .ok t := by
  have hbatches : (∃ values, page.batches.mapM
        (writeBatchValues j (readValue F encoder.physicalType)) = .ok values) ↔
      ∀ v ∈ columnValues page.batches j, ∃ t, readValue F encoder.physicalType dt 0 v = .ok t := by
    rw [Except.exists_mapM_eq_ok]
    simp only [columnValues, List.mem_flatMap]
    constructor
    · rintro h v ⟨b, hb, hv⟩
      obtain ⟨a, ha, rfl⟩ := hj b hb
      rw [ha] at hv
      exact (exists_writeBatchValues ha).mp (h b hb) v hv
    · intro h b hb
      obtain ⟨a, ha, rfl⟩ := hj b hb
      exact (exists_writeBatchValues ha).mpr fun v hv => h v ⟨b, hb, by rwa [ha]⟩
  rw [writeColumn_eq, ← hbatches]
  simp only [writeColumnValues]
  cases page.batches.mapM (writeBatchValues j (readValue F encoder.physicalType)) with
  | error e => constructor <;> rintro ⟨_, h⟩ <;> cases h
  | ok values => exact ⟨fun _ => ⟨values, rfl⟩, fun _ => ⟨_, rfl⟩⟩

end

/-- A column of an accepted type is written on every page, whatever its values in range, exactly
if the type is writable. -/
theorem writesColumn {F : Formatting} (hF : F.Lawful) {dt : DataType} {encoder : ColumnEncoder}
    (he : columnEncoder F dt = .ok encoder) :
    (∀ page j, IsColumn dt page j → (∀ v ∈ columnValues page.batches j, v.InRange) →
      ∃ bytes, writeColumn F encoder j page = .ok bytes) ↔ dt.writable F := by
  constructor
  · intro h
    cases hdt : dt.writable F with
    | true => rfl
    | false =>
      obtain ⟨v, hv, hr, hn⟩ := exists_not_readValue hF he hdt
      let batch : RecordBatch := ⟨[⟨dt, [v], List.forall_mem_singleton.mpr hv⟩], 1, 0,
        List.forall_mem_singleton.mpr rfl⟩
      let page : QueryResultPage := ⟨[batch], 0, 1, false⟩
      have hpage : IsColumn dt page 0 := List.forall_mem_singleton.mpr ⟨_, rfl, rfl⟩
      have hvalues : columnValues page.batches 0 = [v] := rfl
      have hwrite := (exists_writeColumn hpage).mp
        (h page 0 hpage (hvalues ▸ List.forall_mem_singleton.mpr hr))
      obtain ⟨t, ht⟩ := hwrite v (hvalues ▸ List.mem_singleton_self v)
      exact absurd ht (hn 0 t)
  · intro hdt page j hpage hr
    refine (exists_writeColumn hpage).mpr fun v hv => ?_
    refine exists_readValue hF he hdt ?_ (hr v hv)
    obtain ⟨b, hb, hv⟩ := List.mem_flatMap.mp hv
    obtain ⟨a, ha, rfl⟩ := hpage b hb
    rw [ha] at hv
    exact a.typed v hv

/-- Formatters that know one time zone. -/
def utcFormatting : Formatting where
  dataTypeToString
    | .int32 => "Int32"
    | .listView .int32 => "ListView(Int32)"
    | _ => "other"
  arrayValueToString dt _ :=
    match dt with
    | .timestamp _ (some tz) => if tz = "UTC" then .ok "" else .error "unknown time zone"
    | _ => .ok ""
  parsesTimezone tz := tz == "UTC"
  f64ToString _ := ""
  dateToString _ := ""
  dateTimeToString _ := ""

theorem lawful_utcFormatting : utcFormatting.Lawful where
  date32 _ := ⟨"", rfl⟩
  date64 _ := ⟨"", rfl⟩
  timestamp _ _ := ⟨"", rfl⟩
  timestamp_tz unit tz v := by
    by_cases h : tz = "UTC" <;> simp [utcFormatting, h]
  decimal128 _ _ _ := ⟨"", rfl⟩
  decimal256 _ _ _ := ⟨"", rfl⟩

theorem writesColumn_int32 : (∀ page j, IsColumn .int32 page j →
    (∀ v ∈ columnValues page.batches j, v.InRange) →
    ∃ bytes, writeColumn utcFormatting ⟨intType, .i32, none⟩ j page = .ok bytes) ↔
      DataType.int32.writable utcFormatting :=
  writesColumn lawful_utcFormatting (show columnEncoder utcFormatting .int32 = .ok _ from rfl)

/-- A page of one list view `[1]`. -/
def listViewPage : QueryResultPage where
  batches := [{
    columns := [{
      dataType := .listView .int32
      values := [.list [.int32 1]]
      typed := List.forall_mem_singleton.mpr (.listView (List.forall_mem_singleton.mpr .int32)) }]
    numRows := 1
    arrayMemorySize := 64
    length_eq := List.forall_mem_singleton.mpr rfl }]
  startRowOffset := 0
  rowCount := 1
  hasMoreRows := false

/-- A column of list views is accepted, and not written. -/
theorem exists_not_writesColumn : ∃ encoder,
    columnEncoder utcFormatting (.listView .int32) = .ok encoder ∧
      IsColumn (.listView .int32) listViewPage 0 ∧
      (∀ v ∈ columnValues listViewPage.batches 0, v.InRange) ∧
      ∀ bytes, writeColumn utcFormatting encoder 0 listViewPage ≠ .ok bytes := by
  refine ⟨⟨arrayType, .string, none⟩, rfl, List.forall_mem_singleton.mpr ⟨_, rfl, rfl⟩, ?_, nofun⟩
  exact List.forall_mem_singleton.mpr (.list (List.forall_mem_singleton.mpr (.unbounded rfl)))

end HarborSql
