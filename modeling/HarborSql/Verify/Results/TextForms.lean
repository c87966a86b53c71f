import HarborSql.Theory.Iso8601
import HarborSql.Thrift.ResultEncoding
import HarborSql.Theory.Except

/-! The texts of dates and timestamps: the one that is sent for a cell of a column, and the one
inside lists, maps and structs. -/

namespace HarborSql

/-! ## What the formatters write -/

namespace NaiveDateTime

def isoDate (t : NaiveDateTime) : List Char := Iso8601.date t.date

def isoTime (t : NaiveDateTime) : List Char := Iso8601.time (t.secs % 86400).toNat t.nanos

end NaiveDateTime

/-- Dates are written as ISO dates. `chrono` puts a space between the date and the time, and `arrow`
a `T`; with a time zone, `arrow` writes the local date and time and the offset, if it knows the
zone. -/
structure DocumentedDisplay (F : Formatting) : Prop where
  dateToString : ∀ days, (F.dateToString days).toList = Iso8601.date days
  dateTimeToString : ∀ t, (F.dateTimeToString t).toList = t.isoDate ++ ' ' :: t.isoTime
  date32 : ∀ days t, date32ToDatetime days = some t →
    F.arrayValueToString .date32 (.date32 days) = .ok (.ofList t.isoDate)
  date64 : ∀ millis t, date64ToDatetime millis = some t →
    F.arrayValueToString .date64 (.date64 millis) = .ok (.ofList (t.isoDate ++ 'T' :: t.isoTime))
  timestamp : ∀ unit v t, timestampToDatetime unit v = some t →
    F.arrayValueToString (.timestamp unit none) (.timestamp unit v) =
      .ok (.ofList (t.isoDate ++ 'T' :: t.isoTime))
  timestamp_tz : ∀ unit tz v t, timestampToDatetime unit v = some t → F.parsesTimezone tz →
    ∃ (there : NaiveDateTime) (offset : List Char), ' ' ∉ offset ∧
      F.arrayValueToString (.timestamp unit (some tz)) (.timestamp unit v) =
        .ok (.ofList (there.isoDate ++ 'T' :: (there.isoTime ++ offset)))
  unknown_tz : ∀ unit tz v, F.parsesTimezone tz = false →
    ∃ err, F.arrayValueToString (.timestamp unit (some tz)) (.timestamp unit v) = .error err

/-! ## The two texts -/

/-- A date or a timestamp in the range of the calendar, with its type and the time it stands for. -/
inductive IsTime : DataType → Value → NaiveDateTime → Prop
  | date32 {days t} : date32ToDatetime days = some t → IsTime .date32 (.date32 days) t
  | date64 {millis t} : date64ToDatetime millis = some t → IsTime .date64 (.date64 millis) t
  | timestamp {unit tz v t} : timestampToDatetime unit v = some t →
    IsTime (.timestamp unit tz) (.timestamp unit v) t

/-- The text that is sent for a cell of a column is the one that `databricks_display_value` renders
for the elements of lists, the values of maps and the fields of structs. -/
def OneText (F : Formatting) (dt : DataType) (v : Value) : Prop :=
  ∃ text, ∀ row row', arrowValueToString F dt row v = .ok text ∧
    databricksDisplayValue F dt row' v = .ok text

variable {F : Formatting} {dt : DataType} {v : Value} {t : NaiveDateTime}

/-- The nested text: that of a date has no time, and that of a timestamp no zone. -/
def nestedText (F : Formatting) (t : NaiveDateTime) : DataType → String
  | .timestamp .. => F.dateTimeToString t
  | _ => F.dateToString t.date

theorem IsTime.nested (h : IsTime dt v t) (row : Nat) :
    databricksDisplayValue F dt row v = .ok (nestedText F t dt) := by
  cases h with
  | @date32 days _ ht =>
    have hvalue : dateValue F .date32 (.date32 days) = .ok (some t) := congrArg Except.ok ht
    rw [databricksDisplayValue, formatDateValue, hvalue]
    · rfl
    · nofun
  | @date64 millis _ ht =>
    have hvalue : dateValue F .date64 (.date64 millis) = .ok (some t) := congrArg Except.ok ht
    rw [databricksDisplayValue, formatDateValue, hvalue]
    · rfl
    · nofun
  | @timestamp unit tz v _ ht =>
    have hvalue : timestampValue F (.timestamp unit tz) (.timestamp unit v) = .ok (some t) := by
      rw [← ht]
      cases unit <;> rfl
    rw [databricksDisplayValue, formatTimestampValue, hvalue]
    · rfl
    · nofun

/-- The text of a cell is that of `arrow`. -/
theorem IsTime.cell (h : IsTime dt v t) (row : Nat) {text : String} :
    arrowValueToString F dt row v = .ok text ↔ F.arrayValueToString dt v = .ok text := by
  have hformat : ∀ kind, formatValue F dt v kind = .ok text ↔
      F.arrayValueToString dt v = .ok text := by
    intro kind
    rw [formatValue]
    cases F.arrayValueToString dt v with
    | ok _ => simp [pure, Except.pure]
    | error _ => exact ⟨nofun, nofun⟩
  cases h <;> exact hformat _

/-- The two texts agree when `arrow` writes the nested text. -/
theorem IsTime.oneText_iff_nested (h : IsTime dt v t) :
    OneText F dt v ↔ F.arrayValueToString dt v = .ok (nestedText F t dt) := by
  constructor
  · rintro ⟨text, htext⟩
    obtain ⟨hcell, hnested⟩ := htext 0 0
    obtain rfl : text = nestedText F t dt := Except.ok.inj (hnested.symm.trans (h.nested 0))
    exact (h.cell 0).mp hcell
  · exact fun heq => ⟨_, fun row row' => ⟨(h.cell row).mpr heq, h.nested row'⟩⟩

/-- For every value in the range of the calendar, the two texts agree if and only if its type is
`Date32`. -/
theorem oneText_iff (hF : DocumentedDisplay F) (h : IsTime dt v t) :
    OneText F dt v ↔ dt = .date32 := by
  rw [h.oneText_iff_nested]
  cases h with
  | date32 ht =>
    refine iff_of_true ?_ rfl
    have htext : F.dateToString t.date = .ofList t.isoDate := by
      rw [← String.toList_inj, hF.dateToString, String.toList_ofList]
      rfl
    rw [hF.date32 _ t ht, nestedText, htext]
    nofun
  | date64 ht =>
    refine iff_of_false (fun heq => ?_) nofun
    rw [hF.date64 _ t ht] at heq
    have hlist : (String.ofList _).toList = (F.dateToString t.date).toList :=
      congrArg String.toList (Except.ok.inj heq)
    rw [String.toList_ofList, hF.dateToString] at hlist
    have := congrArg List.length hlist
    simp only [List.length_append, List.length_cons, NaiveDateTime.isoDate] at this
    omega
  | @timestamp unit tz v _ ht =>
    refine iff_of_false (fun heq => ?_) nofun
    cases tz with
    | none =>
      rw [hF.timestamp unit v t ht] at heq
      have hlist := congrArg String.toList (Except.ok.inj heq)
      rw [String.toList_ofList, nestedText, hF.dateTimeToString] at hlist
      have := List.append_cancel_left hlist
      exact absurd (List.cons.inj this).1 (by decide)
    | some tz =>
      cases hparse : F.parsesTimezone tz with
      | false =>
        obtain ⟨err, herr⟩ := hF.unknown_tz unit tz v hparse
        rw [herr] at heq
        cases heq
      | true =>
        obtain ⟨there, offset, hoffset, htext⟩ := hF.timestamp_tz unit tz v t ht hparse
        rw [htext] at heq
        have hlist := congrArg String.toList (Except.ok.inj heq)
        rw [String.toList_ofList, nestedText, hF.dateTimeToString] at hlist
        -- the nested text has a space, the other one has none
        have hspace : ' ' ∈ there.isoDate ++ 'T' :: (there.isoTime ++ offset) := by
          rw [hlist]
          simp
        simp [hoffset, NaiveDateTime.isoDate, NaiveDateTime.isoTime, Iso8601.space_not_mem_date,
          Iso8601.space_not_mem_time] at hspace

/-- Formatters that write what the documentation says, and know the time zone `UTC`. -/
def isoFormatting : Formatting where
  dataTypeToString _ := ""
  arrayValueToString dt v :=
    let text (t : Option NaiveDateTime) (write : NaiveDateTime → List Char) : String :=
      match t with
      | some t => .ofList (write t)
      | none => "ERROR: Cast error: Failed to convert to datetime"
    match dt, v with
    | .date32, .date32 days => .ok (text (date32ToDatetime days) NaiveDateTime.isoDate)
    | .date64, .date64 millis =>
      .ok (text (date64ToDatetime millis) fun t => t.isoDate ++ 'T' :: t.isoTime)
    | .timestamp unit none, .timestamp _ v =>
      .ok (text (timestampToDatetime unit v) fun t => t.isoDate ++ 'T' :: t.isoTime)
    | .timestamp unit (some tz), .timestamp _ v =>
      if tz = "UTC" then
        .ok (text (timestampToDatetime unit v) fun t => t.isoDate ++ 'T' :: (t.isoTime ++ ['Z']))
      else .error s!"Parser error: Invalid timezone \"{tz}\""
    | _, _ => .ok ""
  parsesTimezone tz := tz == "UTC"
  f64ToString _ := ""
  dateToString days := .ofList (Iso8601.date days)
  dateTimeToString t := .ofList (t.isoDate ++ ' ' :: t.isoTime)

theorem documentedDisplay_isoFormatting : DocumentedDisplay isoFormatting where
  dateToString _ := String.toList_ofList
  dateTimeToString _ := String.toList_ofList
  date32 days t ht := by simp only [isoFormatting, ht]
  date64 millis t ht := by simp only [isoFormatting, ht]
  timestamp unit v t ht := by simp only [isoFormatting, ht]
  timestamp_tz unit tz v t ht hparse := by
    obtain rfl : tz = "UTC" := beq_iff_eq.mp hparse
    refine ⟨t, ['Z'], by decide, ?_⟩
    simp only [isoFormatting, ht, if_true]
  unknown_tz unit tz v hparse := by
    have hne : tz ≠ "UTC" := beq_eq_false_iff_ne.mp hparse
    exact ⟨_, if_neg hne⟩

theorem oneText_epoch : OneText isoFormatting .date32 (.date32 0) ↔ DataType.date32 = .date32 :=
  oneText_iff documentedDisplay_isoFormatting (.date32 (t := ⟨0, 0⟩) rfl)

/-- The epoch without a time zone: `1970-01-01T00:00:00` in a column, and `1970-01-01 00:00:00` in a
list. -/
theorem not_oneText_timestamp :
    ¬ OneText isoFormatting (.timestamp .microsecond none) (.timestamp .microsecond 0) := by
  rintro ⟨text, htext⟩
  have hcell := (htext 0 0).1.symm.trans (show _ = Except.ok "1970-01-01T00:00:00" by rfl)
  have hnested := (htext 0 0).2.symm.trans (show _ = Except.ok "1970-01-01 00:00:00" by rfl)
  exact absurd (Except.ok.inj (hcell.symm.trans hnested)) (by decide)

end HarborSql
