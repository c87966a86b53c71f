import HarborSql.Minute
import HarborSql.Theory.Except

/-! `EXTRACT(MINUTE FROM ..)` of a timestamp is the minute of the hour, by the path of its own and
by `date_part`. -/

namespace HarborSql

/-- The minute of the hour. -/
def NaiveDateTime.minute (t : NaiveDateTime) : Int := t.secs % 86400 / 60 % 60

namespace Minute

def unitsPerSecond : TimeUnit → Int
  | .second => 1
  | .millisecond => 1000
  | .microsecond => 1000000
  | .nanosecond => 1000000000

/-- The minute of the hour, of a timestamp. -/
def minuteOf (unit : TimeUnit) (value : Int64) : Int :=
  value.toInt / (60 * unitsPerSecond unit) % 60

/-! ## Arithmetic -/

theorem checkedI64_of_mem {n : Int} (hlo : -2 ^ 63 ≤ n) (hhi : n < 2 ^ 63) :
    ∃ x, checkedI64 n = .ok x ∧ x.toInt = n :=
  ⟨.ofInt n, if_pos ⟨hlo, hhi⟩, Int64.toInt_ofInt_of_le hlo hhi⟩

theorem ne_zero_of_pos {x : Int64} (hpos : 0 < x.toInt) : x ≠ 0 := by
  rintro rfl
  exact Int.lt_irrefl 0 hpos

/-- A positive divisor brings the dividend nearer to zero. -/
theorem divEuclid_of_pos (left : Int64) {right : Int64} (hpos : 0 < right.toInt) :
    ∃ x, divEuclid left right = .ok x ∧ x.toInt = left.toInt / right.toInt := by
  rw [divEuclid, if_neg (ne_zero_of_pos hpos)]
  have hlo := left.le_toInt
  have hhi := left.toInt_lt
  apply checkedI64_of_mem
  · apply Int.le_ediv_of_mul_le hpos
    omega
  · apply Int.ediv_lt_of_lt_mul hpos
    omega

theorem remEuclid_of_pos (left : Int64) {right : Int64} (hpos : 0 < right.toInt) :
    ∃ x, remEuclid left right = .ok x ∧ x.toInt = left.toInt % right.toInt := by
  have hright : ¬ (right = 0 ∨ (left = Int64.minValue ∧ right = -1)) := by
    intro h
    cases h with
    | inl h => exact ne_zero_of_pos hpos h
    | inr h => exact absurd (h.2 ▸ hpos) (by decide)
  rw [remEuclid, if_neg hright]
  have hlo := Int.emod_nonneg left.toInt (Int.ne_of_gt hpos)
  have hhi := Int.emod_lt_of_pos left.toInt hpos
  have hmax := right.toInt_lt
  exact checkedI64_of_mem (by omega) (by omega)

theorem quotient_of_nonneg {left right : Int64} (hleft : 0 ≤ left.toInt) (hpos : 0 < right.toInt) :
    ∃ x, quotient left right = .ok x ∧ x.toInt = left.toInt / right.toInt := by
  obtain ⟨x, hx⟩ := divEuclid_of_pos left hpos
  rw [divEuclid] at hx
  rw [quotient, Int.tdiv_eq_ediv_of_nonneg hleft]
  exact ⟨x, hx⟩

/-- The seconds of the hour give the minute. -/
theorem minute_eq (value : Int) {units : Int} (hunits : 0 < units) :
    value / (60 * units) % 60 = value / units % 3600 / 60 := by
  rw [Int.mul_comm 60, ← Int.ediv_ediv_of_nonneg (Int.le_of_lt hunits)]
  omega

/-! ## The path of its own -/

theorem unitsPerSecond_pos (unit : TimeUnit) : 0 < unitsPerSecond unit := by
  cases unit <;> decide

theorem minuteOf_mem (unit : TimeUnit) (value : Int64) :
    0 ≤ minuteOf unit value ∧ minuteOf unit value ≤ 59 := by
  rw [minuteOf]
  omega

/-- The minute as the code returns it. -/
def minuteI32 (unit : TimeUnit) (value : Int64) : Int32 := .ofInt (minuteOf unit value)

theorem toInt_minuteI32 (unit : TimeUnit) (value : Int64) :
    (minuteI32 unit value).toInt = minuteOf unit value := by
  have h := minuteOf_mem unit value
  exact Int32.toInt_ofInt_of_le (by omega) (by omega)

/-- No step of the closure overflows. -/
theorem timestampMinute_eq (unit : TimeUnit) {units : Int64}
    (hunits : units.toInt = unitsPerSecond unit) (value : Int64) :
    timestampMinute units value = .ok (some (minuteI32 unit value)) := by
  have hpos : 0 < units.toInt := hunits ▸ unitsPerSecond_pos unit
  obtain ⟨second, hsecond, hsecondInt⟩ := divEuclid_of_pos value hpos
  have hhour : 0 < (60 * 60 : Int64).toInt := by decide
  obtain ⟨remainder, hremainder, hremainderInt⟩ := remEuclid_of_pos second hhour
  have hnonneg : 0 ≤ remainder.toInt := by
    rw [hremainderInt]
    exact Int.emod_nonneg _ (Int.ne_of_gt hhour)
  have hsixty : 0 < (60 : Int64).toInt := by decide
  obtain ⟨minute, hminute, hminuteInt⟩ := quotient_of_nonneg hnonneg hsixty
  have hvalue : minute.toInt = minuteOf unit value := by
    rw [hminuteInt, hremainderInt, hsecondInt, hunits]
    exact (minute_eq value.toInt (unitsPerSecond_pos unit)).symm
  have hresult : minute.toInt32 = minuteI32 unit value := by
    rw [← Int64.ofInt_toInt minute, hvalue, Int64.toInt32_ofInt]
    rfl
  simp only [timestampMinute, hsecond, hremainder, hminute, hresult, bind, Except.bind, pure,
    Except.pure]

theorem unaryOpt_eq {op : Int64 → Except Failure (Option Int32)} {f : Int64 → Int32}
    (h : ∀ value, op value = .ok (some (f value))) (values : List (Option Int64)) :
    unaryOpt op values = .ok (values.map (·.map f)) := by
  apply Except.mapM_eq_map
  intro value _
  cases value with
  | none => rfl
  | some value => exact h value

variable {A S : Type} (crates : Crates A S) {timezone : Option String}

theorem extractTimestampMinute_eq (unit : TimeUnit) {units : Int64}
    (hunits : units.toInt = unitsPerSecond unit) (timezone : Option String)
    (values : List (Option Int64)) :
    extractTimestampMinute unit (.timestamp unit timezone values : ArrayRef A) units =
      .ok (.int32 (values.map (·.map (minuteI32 unit)))) := by
  have hvalues : asPrimitive unit (.timestamp unit timezone values : ArrayRef A) = .ok values :=
    if_pos rfl
  have hminutes := unaryOpt_eq (timestampMinute_eq unit hunits) values
  simp only [extractTimestampMinute, hvalues, hminutes, bind, Except.bind, pure, Except.pure]

theorem extractMinuteArray_eq (hutc : isUtcTimezone timezone = true) (unit : TimeUnit)
    (values : List (Option Int64)) :
    extractMinuteArray crates (.timestamp unit timezone values) =
      .ok (.int32 (values.map (·.map (minuteI32 unit)))) := by
  refine (if_pos hutc).trans ?_
  cases unit with
  | second => exact extractTimestampMinute_eq .second rfl timezone values
  | millisecond => exact extractTimestampMinute_eq .millisecond rfl timezone values
  | microsecond => exact extractTimestampMinute_eq .microsecond rfl timezone values
  | nanosecond => exact extractTimestampMinute_eq .nanosecond rfl timezone values

/-! ## The path of `date_part` -/

/-- The instants of the values that are not null are in the range of the calendar. -/
def InCalendar (unit : TimeUnit) (values : List (Option Int64)) : Prop :=
  ∀ value, some value ∈ values → (timestampToDatetime unit value).isSome

/-- `date_part` gives the minutes of the civil times of the instants. -/
def DatePartDocumented (unit : TimeUnit) (timezone : Option String) : Prop :=
  ∀ values, InCalendar unit values → crates.datePartMinute (.timestamp unit timezone values) =
    .ok (.int32 (values.map fun value => (value.bind (timestampToDatetime unit)).map fun t =>
      .ofInt t.minute))

theorem secs_timestampToDatetime {unit : TimeUnit} {value : Int64} {t : NaiveDateTime}
    (h : timestampToDatetime unit value = some t) : t.secs = value.toInt / unitsPerSecond unit := by
  have hsecs {secs : Int} {nanos : Nat}
      (h : NaiveDateTime.fromTimestamp secs nanos = some t) : t.secs = secs := by
    rw [NaiveDateTime.fromTimestamp] at h
    split at h
    · exact (Option.some.inj h) ▸ rfl
    · cases h
  cases unit with
  | second => exact (hsecs h).trans (Int.ediv_one _).symm
  | millisecond | microsecond | nanosecond => exact hsecs h

theorem minute_of_secs {unit : TimeUnit} {value : Int64} {t : NaiveDateTime}
    (h : timestampToDatetime unit value = some t) : t.minute = minuteOf unit value := by
  rw [minuteOf, minute_eq _ (unitsPerSecond_pos unit), ← secs_timestampToDatetime h,
    NaiveDateTime.minute]
  omega

theorem datePartMinute_eq {unit : TimeUnit} (H : DatePartDocumented crates unit timezone)
    {values : List (Option Int64)} (hvalues : InCalendar unit values) :
    crates.datePartMinute (.timestamp unit timezone values) =
      .ok (.int32 (values.map (·.map (minuteI32 unit)))) := by
  rw [H values hvalues, List.map_congr_left]
  intro value hmem
  cases value with
  | none => rfl
  | some value =>
    obtain ⟨t, ht⟩ := Option.isSome_iff_exists.mp (hvalues value hmem)
    simp only [Option.bind_some, ht, Option.map_some, minute_of_secs ht]
    rfl

/-! ## The function -/

/-- Timestamps without a zone or in UTC: an array and a scalar give the minutes of the hour, what is
null stays null, and `date_part` gives the same for all instants in the calendar. -/
theorem minutePathExact {A S : Type} (crates : Crates A S) (unit : TimeUnit)
    (timezone : Option String) (hutc : isUtcTimezone timezone = true) :
    (∀ value, (minuteI32 unit value).toInt = value.toInt / (60 * unitsPerSecond unit) % 60 ∧
      0 ≤ (minuteI32 unit value).toInt ∧ (minuteI32 unit value).toInt ≤ 59) ∧
    (∀ values, invokeWithArgs crates [.array (.timestamp unit timezone values)] =
      .ok (.array (.int32 (values.map (·.map (minuteI32 unit)))))) ∧
    (∀ value, invokeWithArgs crates [.scalar (.timestamp unit timezone value)] =
      .ok (.scalar (.int32 (value.map (minuteI32 unit))))) ∧
    (DatePartDocumented crates unit timezone → ∀ values, InCalendar unit values →
      .ok (.array (.int32 (values.map (·.map (minuteI32 unit))))) =
        Columnar.array (S := S) <$> crates.datePartMinute (.timestamp unit timezone values)) := by
  refine ⟨fun value => ?_, fun values => ?_, fun value => ?_, fun H values hvalues => ?_⟩
  · rw [toInt_minuteI32]
    exact ⟨rfl, minuteOf_mem unit value⟩
  · rw [invokeWithArgs, extractMinuteArray_eq crates hutc]
    rfl
  · have harray := extractMinuteArray_eq crates hutc unit [value]
    simp only [invokeWithArgs, toArray, harray, bind, Except.bind, tryFromArray, List.map_cons,
      List.getElem?_cons_zero]
    rfl
  · rw [datePartMinute_eq crates H hvalues]
    rfl

/-- Crates whose `date_part` knows timestamps only, as instants in UTC. -/
def civilCrates : Crates Empty Empty where
  datePartMinute
    | .timestamp unit _ values => .ok (.int32 (values.map fun value =>
        (value.bind (timestampToDatetime unit)).map fun t => .ofInt t.minute))
    | _ => .error (executionError "not a timestamp")
  toArray := Empty.elim
  tryFromArray array _ := array.elim

/-- The last microsecond before the epoch, and no instant. -/
theorem minutePathExact_beforeEpoch :
    invokeWithArgs civilCrates [.array (.timestamp .microsecond (some "utc") [some (-1), none])] =
      .ok (.array (.int32 [some 59, none])) ∧
    .ok (.array (.int32 [some 59, none])) = Columnar.array (S := Empty) <$>
      civilCrates.datePartMinute (.timestamp .microsecond (some "utc") [some (-1), none]) := by
  obtain ⟨-, harray, -, hdatePart⟩ :=
    minutePathExact civilCrates .microsecond (some "utc") rfl
  have hminute : minuteI32 .microsecond (-1) = 59 := by decide
  rw [← hminute]
  refine ⟨harray [some (-1), none], hdatePart (fun _ _ => rfl) [some (-1), none] ?_⟩
  intro value hvalue
  have hvalue : value = -1 := by simpa using hvalue
  rw [hvalue]
  rfl

end Minute

end HarborSql
