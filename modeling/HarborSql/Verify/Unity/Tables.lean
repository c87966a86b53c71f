import HarborSql.Verify.Unity.Listing

/-! The requests of the Unity Catalog client for a table, and the errors that it reports. -/

namespace HarborSql

open UrlText (Target readTarget readPath targetText queryText pathText)

/-! ## Errors -/

theorem utf8ByteSize_fitBytes (n : Nat) (cs : List Char) :
    (String.ofList (fitBytes n cs)).utf8ByteSize ≤ n := by
  induction cs generalizing n with
  | nil => exact Nat.zero_le n
  | cons c cs ih =>
    rw [fitBytes]
    split
    · next hc =>
      have := ih (n - c.utf8Size)
      rw [String.ofList_cons, String.utf8ByteSize_append, String.utf8ByteSize_singleton]
      omega
    · exact Nat.zero_le n

theorem utf8ByteSize_truncate (value : String) (maxLen : Nat) :
    (truncate value maxLen).utf8ByteSize ≤ maxLen + 3 := by
  rw [truncate]
  split
  · omega
  · rw [String.utf8ByteSize_append]
    exact Nat.add_le_add_right (utf8ByteSize_fitBytes ..) _

theorem responseError_unity {crates : UnityCrates} {status : UInt16} {body message : String}
    (h : responseError crates status body = .unity message) : message.utf8ByteSize ≤ 603 := by
  rw [responseError] at h
  split at h
  · cases h
    exact utf8ByteSize_truncate ..
  · cases h
    exact utf8ByteSize_truncate ..

theorem decodeResponse_unity {α : Type} {crates : UnityCrates} {read : Json → Option α}
    {response : HttpResponse} {message : String}
    (h : decodeResponse crates read response = .error (.unity message)) :
    message.utf8ByteSize ≤ 603 := by
  rw [decodeResponse] at h
  split at h
  · split at h
    · cases h
    · split at h <;> cases h
  · exact responseError_unity (Except.error.inj h)

namespace UnityCatalogClient

variable {client : UnityCatalogClient} {network : Network} {α : Type} {read : Json → Option α}

/-- The errors of the catalog are short. -/
theorem answer_unity {sent : List HttpRequest} {request : HttpRequest} {message : String}
    (h : client.answer network read sent request = .error (.unity message)) :
    message.utf8ByteSize ≤ 603 := by
  rw [answer] at h
  cases hnetwork : network sent request with
  | error err =>
    rw [hnetwork] at h
    cases h
  | ok response =>
    rw [hnetwork] at h
    exact decodeResponse_unity h

/-! ## Tables -/

def tableParams : List (String × String) :=
  [("include_delta_metadata", "true"), ("include_manifest_capabilities", "true")]

/-- Where the request for a table ends up: the names `.` and `..` are not read as names. -/
def tableSegments (fullName : String) : List String :=
  if fullName = ".." then [""] else if fullName = "." then ["tables", ""] else ["tables", fullName]

def tableTarget (fullName : String) : Target :=
  ⟨["api", "2.1", "unity-catalog"] ++ tableSegments fullName, tableParams⟩

theorem tableUrl_text (fullName : String) : (client.tableUrl fullName).toList =
    client.host.toList ++
      '/' :: targetText ⟨["api", "2.1", "unity-catalog", "tables", fullName], tableParams⟩ := by
  simp (disch := decide) only [tableUrl, tableParams, targetText, pathText, queryText, List.map_cons,
    List.map_nil, UrlText.encodeComponent_of_all, List.intercalate_cons_cons,
    List.intercalate_singleton]
  simp [ToString.toString, client.crates.encode_eq]

theorem reads_tableUrl (fullName : String) :
    readTarget client.host.toList (client.tableUrl fullName).toList = some (tableTarget fullName) := by
  rw [tableUrl_text]
  by_cases hdouble : fullName = ".."
  · subst hdouble
    rw [UrlText.readTarget_targetText]
    have hpath : readPath (pathText ["api", "2.1", "unity-catalog", "tables", ".."]) =
      some ["api", "2.1", "unity-catalog", ""] := by decide
    rw [hpath]
    rfl
  by_cases hsingle : fullName = "."
  · subst hsingle
    rw [UrlText.readTarget_targetText]
    have hpath : readPath (pathText ["api", "2.1", "unity-catalog", "tables", "."]) =
      some ["api", "2.1", "unity-catalog", "tables", ""] := by decide
    rw [hpath]
    rfl
  · rw [tableTarget, tableSegments, if_neg hdouble, if_neg hsingle]
    refine UrlText.readTarget_eq_some _ (List.cons_ne_nil _ _) ?_
    simp [hdouble, hsingle]

end UnityCatalogClient
end HarborSql
