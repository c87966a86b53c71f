import HarborSql.Engine.Planning

/-! What becomes of an error that went through DataFusion. -/

namespace HarborSql

/-- The `source()` links lead to the error, with no other error of the service before it. -/
inductive DynError.LeadsTo (e : HarborError) : DynError → Prop where
  | harbor (source : Option DynError) : LeadsTo e (.harbor e source)
  | other (text : String) {source : DynError} : LeadsTo e source → LeadsTo e (.other text (some source))

def DataFusionError.LeadsTo (error : DataFusionError) (e : HarborError) : Prop :=
  ∃ source, error.source = some source ∧ source.LeadsTo e

/-- The variants that hold an error of another crate. -/
def HarborError.HoldsForeign : HarborError → Prop
  | .http _ | .url _ | .delta _ | .dataFusion _ | .arrowJson _ | .json _ | .logger _ | .io _ => True
  | _ => False

theorem toDatafusionError_leadsTo (e : HarborError) : (toDatafusionError e).LeadsTo e :=
  ⟨_, rfl, .harbor none⟩

theorem cloneHarborError_of_not_foreign {e : HarborError} (h : ¬ e.HoldsForeign) :
    cloneHarborError e = e := by
  cases e <;> first | rfl | exact absurd trivial h

theorem cloneHarborError_of_foreign {e : HarborError} (h : e.HoldsForeign) :
    cloneHarborError e = .query e.toString := by
  cases e <;> first | rfl | exact h.elim

theorem DynError.LeadsTo.inChain {e : HarborError} {source : DynError} (h : source.LeadsTo e) :
    harborErrorInChain (some source) = some (cloneHarborError e) := by
  induction h with
  | harbor source => rw [harborErrorInChain]
  | other text _ ih => rw [harborErrorInChain, ih]

theorem leadsTo_of_inChain {e : HarborError} : ∀ {source : Option DynError},
    harborErrorInChain source = some e → ∃ error e', source = some error ∧ error.LeadsTo e'
  | none, h => by simp [harborErrorInChain] at h
  | some (.harbor error source), _ => ⟨_, error, rfl, .harbor source⟩
  | some (.other text source), h => by
    rw [harborErrorInChain] at h
    obtain ⟨error, e', rfl, hleads⟩ := leadsTo_of_inChain h
    exact ⟨_, e', rfl, .other text hleads⟩

theorem DataFusionError.LeadsTo.result {error : DataFusionError} {e : HarborError}
    (h : error.LeadsTo e) : harborErrorFromDatafusion error = cloneHarborError e := by
  obtain ⟨source, hsource, hleads⟩ := h
  rw [harborErrorFromDatafusion, harborErrorSource, hsource, hleads.inChain]
  rfl

/-- **Errors keep their class**: an error of the service that comes back through DataFusion, below
any wrappers, has the code and the status it was raised with, unless it holds an error of another
crate: then it is a query error with its text. An error with none of the service below it is one of
DataFusion. -/
theorem errorClass (error : DataFusionError) :
    (∀ e, error.LeadsTo e →
      (¬ e.HoldsForeign →
        (harborErrorFromDatafusion error).clientError.code = e.clientError.code ∧
          (harborErrorFromDatafusion error).statusCode = e.statusCode) ∧
      (e.HoldsForeign → harborErrorFromDatafusion error = .query e.toString)) ∧
    ((∀ e, ¬ error.LeadsTo e) → harborErrorFromDatafusion error = .dataFusion error.text) := by
  constructor
  · intro e hleads
    constructor
    · intro hown
      rw [hleads.result, cloneHarborError_of_not_foreign hown]
      exact ⟨rfl, rfl⟩
    · intro hforeign
      rw [hleads.result, cloneHarborError_of_foreign hforeign]
  · intro hnone
    cases hchain : harborErrorInChain error.source with
    | none =>
      rw [harborErrorFromDatafusion, harborErrorSource, hchain]
      rfl
    | some e =>
      obtain ⟨source, e', hsource, hleads⟩ := leadsTo_of_inChain hchain
      exact absurd ⟨source, hsource, hleads⟩ (hnone e')

/-- A Delta error of a callback comes back as a query error. -/
theorem not_errorClass_delta :
    ¬ ∀ (e : HarborError) (error : DataFusionError), error.LeadsTo e →
      (harborErrorFromDatafusion error).clientError.code = e.clientError.code ∧
        (harborErrorFromDatafusion error).statusCode = e.statusCode := by
  intro h
  have hleads := toDatafusionError_leadsTo (.delta "no log")
  have hcode := (h _ _ hleads).1
  rw [hleads.result] at hcode
  simp [cloneHarborError, HarborError.clientError] at hcode

end HarborSql
